import TableScript.Number.Parts

/-!
Whole-number arithmetic on doubles: the integer a double stands for, the largest integer below it,
what it has after the point, and the remainder of a division. All of them are computed exactly, so none
of them rounds.
-/

namespace TableScript.Number

/-- The integer that a number is, or nothing for a fraction, an infinity or not-a-number. -/
def integer? (x : Float) : Option Int :=
  (Parts.ofFloat x).integer?

/-- The double `± units · 2 ^ scale`, for parts that need no rounding. -/
def ofUnits (negative : Bool) (units : Nat) (scale : Int) : Float :=
  let bits := units.log2
  let magnitude :=
    if units = 0 then 0
    else
      -- The leading bit sits at `bits + scale`; below the normal range the scale stays at -1074.
      let exponent := max ((bits : Int) + scale) (-1022)
      let shift := scale - (exponent - 52)
      let fraction := match shift with
        | .ofNat up => units * Nat.pow 2 up
        | .negSucc down => units / Nat.pow 2 (down + 1)
      if fraction < Nat.pow 2 52 then fraction
      else (exponent + 1022).toNat * Nat.pow 2 52 + fraction
  Float.ofBits (UInt64.ofNat (magnitude + if negative then Nat.pow 2 63 else 0))

/-- A count as a double. -/
def ofNat (n : Nat) : Float :=
  n.toUInt64.toFloat

/-- The largest whole number not above `x`. A number that is whole already, an infinity and
not-a-number stay as they are, so the sign of a zero is kept. -/
def floor (x : Float) : Float :=
  match Parts.ofFloat x with
  | .finite negative units (.negSucc less) =>
    let unit := Nat.pow 2 (less + 1)
    if units % unit = 0 then x
    else if negative then ofUnits true (units / unit + 1) 0
    else ofUnits false (units / unit) 0
  | _ => x

/-- What `x` has after the point, with the sign of `x`: a zero if it is whole, and not-a-number for an
infinity. -/
def fract (x : Float) : Float :=
  match Parts.ofFloat x with
  | .finite negative units (.negSucc less) =>
    ofUnits negative (units % Nat.pow 2 (less + 1)) (.negSucc less)
  | .finite .. => 0.0
  | _ => 0.0 / 0.0

/-- What is left of `a` after taking away as many whole `b` as fit, with the sign of `a`. Both
numbers are brought to the smaller scale, where the remainder of their units is the answer. -/
def remainder (a b : Float) : Float :=
  match Parts.ofFloat a, Parts.ofFloat b with
  | .finite negative units scale, .finite _ otherUnits otherScale =>
    if otherUnits = 0 then 0.0 / 0.0
    else
      let least := min scale otherScale
      let left := units * Nat.pow 2 (scale - least).toNat
      let right := otherUnits * Nat.pow 2 (otherScale - least).toNat
      ofUnits negative (left % right) least
  | .finite .., .infinite _ => a
  | _, _ => 0.0 / 0.0

end TableScript.Number
