import TableScript.Number.Parts

/-!
The shortest decimal that stands for a double: the fewest digits that read back to it, and of the
decimals with so few digits the one nearest to it.

The reals that round to `units · 2 ^ scale` form an interval around it. A decimal with its last
digit at `10 ^ place` lies in the interval exactly if one of the value's two neighbours on that grid
does, so the search tries ever finer grids and stops at the first hit.
-/

namespace TableScript

/-- The decimal `digits · 10 ^ place`. -/
structure Decimal where
  digits : Nat
  place : Int
deriving DecidableEq, Repr

namespace Shortest

/-- The reals that round to a double, all over one denominator: its value, the two ends, and
whether the ends themselves round to it. -/
structure Interval where
  value : Nat
  low : Nat
  high : Nat
  denominator : Nat
  closed : Bool
deriving Repr

/-- The interval of `units · 2 ^ scale`. The ends lie half a unit away, except that below a power of
two the doubles are twice as dense. A tie goes to the double with even units. -/
def interval (units : Nat) (scale : Int) : Interval :=
  let below := if units = Nat.pow 2 52 ∧ -1074 < scale then 1 else 2
  let up := Nat.pow 2 scale.toNat
  { value := 4 * units * up
    low := (4 * units - below) * up
    high := (4 * units + 2) * up
    denominator := 4 * Nat.pow 2 (-scale).toNat
    closed := units % 2 = 0 }

/-- Whether `n / denominator` rounds to the value. -/
def Interval.holds (i : Interval) (n : Nat) : Bool :=
  if i.closed then i.low ≤ n && n ≤ i.high else i.low < n && n < i.high

/-- The neighbours of the value on the grid of multiples of `10 ^ place`, tested: the nearer of
those in the interval, the upper one when both are equally near. Powers of ten are moved to
whichever side keeps every quantity whole. -/
def onGrid (i : Interval) (place : Int) : Option Nat :=
  let step := i.denominator * Nat.pow 10 place.toNat
  let grow := Nat.pow 10 (-place).toNat
  let i := { i with value := i.value * grow, low := i.low * grow, high := i.high * grow }
  let down := i.value / step
  let up := down + 1
  let downHolds := 0 < down && i.holds (down * step)
  let upHolds := i.holds (up * step)
  match downHolds, upHolds with
  | true, true => if i.value - down * step < up * step - i.value then some down else some up
  | true, false => some down
  | false, true => some up
  | false, false => none

/-- A place with `units · 2 ^ scale < 10 ^ place`, at most two above the least such place. -/
def topPlace (units : Nat) (scale : Int) : Int :=
  match (units.log2 : Int) + 1 + scale with
  | .ofNat bits => (bits * 30103 / 100000 + 1 : Nat)
  | .negSucc bits => -(((bits + 1) * 30102 / 100000 : Nat) : Int)

/-- The first hit among `count` grids, each ten times finer than the one before. -/
def search (i : Interval) : Nat → Int → Option Decimal
  | 0, _ => none
  | count + 1, place =>
    match onGrid i place with
    | some digits => some ⟨digits, place⟩
    | none => search i count (place - 1)

/-- The shortest decimal for `units · 2 ^ scale`, with `units` not zero. Seventeen digits always
suffice, and the search starts at most two places above the first digit. -/
def decimal (units : Nat) (scale : Int) : Decimal :=
  (search (interval units scale) 20 (topPlace units scale - 1)).getD ⟨0, 0⟩

end Shortest

end TableScript
