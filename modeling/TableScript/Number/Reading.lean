/-!
Numbers read from text: an optional sign and then digits with an optional point, at least one digit
on either side of it, and an optional exponent; or one of the names of the infinities and of
not-a-number, in any case.
-/

namespace TableScript.Number

/-- The value of a row of decimal digits. -/
def digitsValue (digits : List Char) : Nat :=
  digits.foldl (fun n c => 10 * n + (c.toNat - '0'.toNat)) 0

/-- The digits at the front, and what follows them. -/
def takeDigits (cs : List Char) : List Char × List Char :=
  (cs.takeWhile Char.isDigit, cs.dropWhile Char.isDigit)

/-- The digits after a point at the front, and what follows; without a point there are none. -/
def takeFraction : List Char → List Char × List Char
  | '.' :: cs => takeDigits cs
  | cs => ([], cs)

/-- A sign at the front, true for minus, and what follows it. -/
def takeSign : List Char → Bool × List Char
  | '-' :: cs => (true, cs)
  | '+' :: cs => (false, cs)
  | cs => (false, cs)

/-- The exponent that makes up the rest of a numeral, zero if nothing is left. -/
def exponent? : List Char → Option Int
  | [] => some 0
  | mark :: cs =>
    if mark = 'e' ∨ mark = 'E' then
      let (negative, cs) := takeSign cs
      match takeDigits cs with
      | ([], _) => none
      | (digits, []) =>
        let size : Int := digitsValue digits
        some (if negative then -size else size)
      | _ => none
    else none

/-- The double nearest to `digits · 10 ^ place`. -/
def ofDecimal (digits : Nat) (place : Int) : Float :=
  Float.ofScientific digits (place < 0) place.natAbs

/-- The size of an unsigned numeral. -/
def ofDigits? (cs : List Char) : Option Float :=
  let (whole, cs) := takeDigits cs
  let (fraction, cs) := takeFraction cs
  if whole = [] ∧ fraction = [] then none
  else (exponent? cs).map fun e => ofDecimal (digitsValue (whole ++ fraction)) (e - fraction.length)

/-- The number that has a name. -/
def ofName? (cs : List Char) : Option Float :=
  let name := String.ofList (cs.map Char.toLower)
  if name = "inf" ∨ name = "infinity" then some (1.0 / 0.0)
  else if name = "nan" then some (0.0 / 0.0)
  else none

/-- The number that a text stands for, if it is the text of a number as a whole. -/
def ofText? (text : String) : Option Float :=
  let (negative, cs) := takeSign text.toList
  ((ofName? cs).or (ofDigits? cs)).map fun x => if negative then -x else x

end TableScript.Number
