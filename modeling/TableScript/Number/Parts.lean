/-!
What a double is made of: a sign, a whole number of units and the power of two that is one unit.
All exact arithmetic on numbers starts from these parts.
-/

namespace TableScript

/-- A double taken apart. A finite one is `± units · 2 ^ scale`. -/
inductive Parts where
  | finite (negative : Bool) (units : Nat) (scale : Int)
  | infinite (negative : Bool)
  | notANumber
deriving DecidableEq, Repr

namespace Parts

/-- Reads the three fields of a bit pattern. The least biased exponent stands for two scales, that
of the subnormal numbers being the same as that of the smallest normal ones. -/
def ofBits (bits : Nat) : Parts :=
  let negative := bits / Nat.pow 2 63 % 2 == 1
  let biased : Nat := bits / Nat.pow 2 52 % Nat.pow 2 11
  let fraction : Nat := bits % Nat.pow 2 52
  if biased = 2047 then
    if fraction = 0 then .infinite negative else .notANumber
  else if biased = 0 then .finite negative fraction (-1074)
  else .finite negative (fraction + Nat.pow 2 52) ((biased : Int) - 1075)

def ofFloat (x : Float) : Parts :=
  ofBits x.toBits.toNat

/-- The whole number that these parts are, if they are one. -/
def integer? : Parts → Option Int
  | .finite negative units (.ofNat shift) =>
    let size := units * Nat.pow 2 shift
    some (if negative then -(size : Int) else size)
  | .finite negative units (.negSucc less) =>
    let unit := Nat.pow 2 (less + 1)
    if units % unit = 0 then
      some (if negative then -((units / unit : Nat) : Int) else (units / unit : Nat))
    else none
  | _ => none

end Parts

end TableScript
