import TableScript.Eval.Basic
import TableScript.Eval.Range

/-!
Loops. Each repeats a body that has been given its meaning and obeys the signals that it ends on.
-/

namespace TableScript.Loop

/-- What a loop does after its body: goes on with the body's value, or ends with it. -/
@[inline]
def proceed (ending : Ending) (next : Value → Eval Ending) : Eval Ending :=
  match ending.2.loopStep with
  | .next => next ending.1
  | .exit => return (ending.1, .none)
  | .return => return (ending.1, .return)

/-- Repeats a body as long as a condition holds. The loop's value is that of the last run. -/
def whileTrue (condition : Eval Value) (body : Eval Ending) : Nat → Value → Eval Ending
  | 0, _ => throw .outOfFuel
  | fuel + 1, last => do
    if (← condition).truthy then
      proceed (← body) (whileTrue condition body fuel)
    else
      return (last, .none)

/-- Repeats a body until it leaves the loop. -/
def forever (body : Eval Ending) : Nat → Eval Ending
  | 0 => throw .outOfFuel
  | fuel + 1 => do
    proceed (← body) fun _ => forever body fuel

/-- Runs a body once for each value of a container and its key. -/
def forItems (bind : Value → Value → Eval Unit) (body : Eval Ending) :
    List (Value × Value) → Value → Eval Ending
  | [], last => return (last, .none)
  | (value, key) :: items, _ => do
    bind value key
    proceed (← body) (forItems bind body items)

/-- Runs a body once for each number of a range. -/
def forRange (bind : Float → Eval Unit) (body : Eval Ending) : Nat → Range → Value → Eval Ending
  | 0, _, _ => throw .outOfFuel
  | fuel + 1, range, last =>
    match range.next? with
    | none => return (last, .none)
    | some (x, rest) => do
      bind x
      proceed (← body) (forRange bind body fuel rest)

/-- Binds the variables of a loop over a container. -/
def bindItem (c : Context) (valueName : String) (keyName : Option String) (value key : Value) :
    Eval Unit := do
  modify (·.set c valueName value)
  if let some keyName := keyName then
    modify (·.set c keyName key)

/-- Binds the variable of a counting loop. -/
def bindCounter (c : Context) (name : String) (x : Float) : Eval Unit :=
  modify (·.set c name (.number x))

end TableScript.Loop
