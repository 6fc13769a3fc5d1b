import TableScript.Number.Shortest
import TableScript.Number.Whole

/-!
The text of numbers. A number is written positionally, never with an exponent.
-/

namespace TableScript

/-- A decimal in positional notation: zeros fill the places before the point, and a fraction has a
zero before its point if nothing else stands there. -/
def Decimal.text (d : Decimal) : String :=
  let digits := (toString d.digits).toList
  match d.place with
  | .ofNat zeros => String.ofList (digits ++ List.replicate zeros '0')
  | .negSucc less =>
    let places := less + 1
    let padded := List.replicate (places + 1 - digits.length) '0' ++ digits
    let whole := padded.length - places
    String.ofList (padded.take whole ++ '.' :: padded.drop whole)

namespace Number

/-- The shortest text that reads back to the number. -/
def exactText (x : Float) : String :=
  match Parts.ofFloat x with
  | .notANumber => "NaN"
  | .infinite negative => if negative then "-inf" else "inf"
  | .finite negative units scale =>
    let size := if units = 0 then "0" else (Shortest.decimal units scale).text
    if negative then "-" ++ size else size

/-- The text of a number as scripts see it. Whole numbers below `10 ^ 15` in size are written as
integers, so that a negative zero shows no sign. -/
def text (x : Float) : String :=
  match integer? x with
  | some n => if n.natAbs < Nat.pow 10 15 then toString n else exactText x
  | none => exactText x

end Number

end TableScript
