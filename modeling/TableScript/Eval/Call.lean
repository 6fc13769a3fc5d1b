import TableScript.Eval.Code
import TableScript.Eval.Tree

/-!
Calls. A call uses up one unit of fuel, and what it calls in turn has one unit less; so evaluation
always ends, and a script that ends by itself has its value with all fuel above some amount.
-/

namespace TableScript

/-- The texts of values with blanks between them. -/
def Store.line (s : Store) (values : List Value) : String :=
  " ".intercalate (values.map s.text)

/-- What the functions of a host do. Each is given a way to call values, and its arguments. -/
structure Host where
  perform : NativeRef → Native → (Value → List Value → Eval Value) → List Value → Eval Value

namespace Eval

/-- Checks the number of arguments of a call. -/
def checkArity (name : String) (expected found : Nat) : Eval Unit :=
  if expected = found then pure () else fault (.arityMismatch name expected found)

/-- What a function or a program amounts to that ends with a value on a signal. -/
def complete (signal : Signal) (value : Value) : Eval Value :=
  match signal.complete value with
  | .ok value => return value
  | .error f => do
    modify (·.record (.escaped signal))
    fault f

/-- Binds arguments to parameters in the innermost scope. -/
def bindParams (c : Context) (params : List String) (args : List Value) : Eval Unit :=
  modify fun s => (params.zip args).foldl (fun s (param, arg) => s.define c param arg) s

end Eval

/-- Runs the body of a function. -/
def Body.run (m : Machine) (c : Context) : Body → Eval Ending
  | .tree block => evalBlock m c .null block
  | .code steps => runSteps m c .null steps

/-- Runs a body as a whole, so that no signal may be left. -/
def Body.evaluate (m : Machine) (c : Context) (body : Body) : Eval Value := do
  let (value, signal) ← body.run m c
  Eval.complete signal value

/-- Calls a script function. Its variables live in a new scope inside the context it was made in. -/
def Closure.call (m : Machine) (f : Closure) (args : List Value) : Eval Value := do
  Eval.checkArity (f.name.getD "<anonymous>") f.params.length args.length
  let c ← modifyGet (·.enter f.context)
  Eval.bindParams c f.params args
  f.body.evaluate m c

namespace Host

variable (host : Host)

/-- Calls a host function. -/
def callNative (call : Value → List Value → Eval Value) (ref : NativeRef) (native : Native)
    (args : List Value) : Eval Value := do
  if let some arity := native.arity then
    Eval.checkArity native.name arity args.length
  modify (·.record (.called ref args))
  host.perform ref native call args

/-- The machine with a way to call values. Its function literals keep their trees. -/
def machineOf (call : Value → List Value → Eval Value) (fuel : Nat) : Machine :=
  { call := call, fuel := fuel, body := .tree }

/-- Calls a value with arguments. -/
def call : Nat → Value → List Value → Eval Value
  | 0, _, _ => throw .outOfFuel
  | fuel + 1, .function ref, args => do
    match (← get).function? ref with
    | some closure => closure.call (machineOf (call fuel) fuel) args
    | none => Eval.fault (.notCallable .function)
  | fuel + 1, .native ref, args => do
    match (← get).native? ref with
    | some native => host.callNative (call fuel) ref native args
    | none => Eval.fault (.notCallable .function)
  | _ + 1, other, _ => Eval.fault (.notCallable other.type)

/-- The machine with an amount of fuel. -/
def machine (fuel : Nat) : Machine :=
  machineOf (host.call fuel) fuel

/-- The host of the functions in `Native.all`, which it knows by their names. -/
def standard : Host where
  perform _ native call args :=
    match native.name with
    | "print" => do
      modify fun s => s.printLine (s.line args)
      return .null
    | "type" => return .string (args.headD .null).type.text
    | "str" => return .string ((← get).text (args.headD .null))
    | "fail" => do Eval.fault (.host ((← get).line args))
    | "apply" => do
      match args.headD .null, (args.drop 1).headD .null with
      | callee, .list ref => call callee ((← get).list ref).toList
      | _, other => Eval.fault (.host ("apply needs a list, got " ++ other.type.text))
    | _ => Eval.fault (.notCallable .function)

end Host

/-- Calls a value with arguments, the host being the usual one. -/
def call (fuel : Nat) (callee : Value) (args : List Value) : Eval Value :=
  Host.standard.call fuel callee args

end TableScript
