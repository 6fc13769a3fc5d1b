import TableScript.Value.Fault

/-!
The numbers that a counting loop runs through.
-/

namespace TableScript

/-- What is left of a range: the next number, if the counter can still move, the last one allowed,
and the step. -/
structure Range where
  next : Option Float
  stop : Float
  step : Float

namespace Range

/-- A bound of a range, which has to be a number. -/
def bound (bound : Bound) : Value → Except Fault Float
  | .number x => .ok x
  | other => .error (.loopBound bound other.type)

/-- The range from `start` to `stop`, both included. The bounds give the direction, so only the size
of the step counts; without a step it is one. -/
def ofValues (start stop : Value) (step : Option Value) : Except Fault Range := do
  let first ← bound .start start
  let last ← bound .stop stop
  let size ← match step with
    | some step => (·.abs) <$> bound .step step
    | none => pure 1.0
  if size == 0.0 then
    throw .zeroStep
  return { next := some first, stop := last, step := if first ≤ last then size else -size }

/-- The next number and the range after it. A step so small that the sum rounds back ends the range,
for it would never get further. -/
def next? (r : Range) : Option (Float × Range) :=
  match r.next with
  | none => none
  | some current =>
    let within : Bool := if 0.0 < r.step then current ≤ r.stop else r.stop ≤ current
    if within then
      let advanced := current + r.step
      some (current, { r with next := if advanced == current then none else some advanced })
    else none

/-- The first numbers of a range. -/
def take : Nat → Range → List Float
  | 0, _ => []
  | n + 1, r =>
    match r.next? with
    | none => []
    | some (x, rest) => x :: take n rest

end Range

end TableScript
