import TableScript.Code.Cells
import TableScript.Code.Compile
import TableScript.Eval.Call
import TableScript.Syntax.Program
import TableScript.Token.Lexer

/-!
Running scripts: choosing an engine, preparing a program for it, and running it in a context. The
two engines give the same results; they differ in what a function's body becomes and in whether list
literals can be kept.
-/

namespace TableScript

/-- The ways to run a program: walking its tree, or running compiled code. -/
inductive Engine where
  | interpreter
  | compiler
deriving DecidableEq, Repr

namespace Engine

def all : List Engine :=
  [interpreter, compiler]

/-- The engine that runs a script unless another one is asked for. -/
def default : Engine :=
  interpreter

def name : Engine → String
  | interpreter => "interpreter"
  | compiler => "compiler"

def ofName? (name : String) : Option Engine :=
  all.find? fun engine => engine.name = name

/-- The message about a name that no engine has. -/
def unknown (name : String) : String :=
  "Unknown backend '" ++ name ++ "'"

end Engine

/-- An engine and whether its list literals keep their lists, which only compiled code can do. -/
structure Setup where
  engine : Engine
  keepLists : Bool
deriving DecidableEq, Repr

/-- A program in the form in which an engine runs it, which is that of a function's body. -/
abbrev Prepared := Body

/-- Why a script has no value, by the phase that failed. -/
inductive Failure where
  | lexing (e : LexicalError)
  | parsing (e : SyntaxError)
  | running (halt : Halt)

def Halt.message : Halt → String
  | .fault f => f.message
  | .outOfFuel => "Out of fuel"

namespace Failure

def message : Failure → String
  | lexing e => e.message
  | parsing e => e.message
  | running halt => halt.message

/-- The phase that failed, as messages name it. -/
def phase (engine : Engine) : Failure → String
  | lexing _ => "Tokenizing"
  | parsing _ => "Parsing"
  | running _ => "Running on " ++ engine.name

end Failure

/-- The program of a source text. -/
def Block.ofSource (source : String) : Except Failure Block :=
  match tokenize source with
  | .error e => .error (.lexing e)
  | .ok tokens =>
    match parse tokens with
    | .error e => .error (.parsing e)
    | .ok block => .ok block

namespace Store

/-- Gives the list literals of some code cells of their own. -/
def addCells (s : Store) (steps : List Step) : List Step × Store :=
  let (steps, next) := (numberSteps steps).run s.cells.size
  (steps, s.growCells next)

/-- Prepares a program for an engine. -/
def prepare (s : Store) (setup : Setup) (block : Block) : Prepared × Store :=
  match setup.engine with
  | .interpreter => (.tree block, s)
  | .compiler =>
    let steps := compileBlock block
    if setup.keepLists then
      let (steps, s) := s.addCells steps
      (.code steps, s)
    else (.code steps, s)

end Store

namespace Host

variable (host : Host) (fuel : Nat)

/-- Runs a program in a context as one block. -/
def runBlock (program : Prepared) (c : Context) : Eval Ending :=
  Body.run (host.machine fuel) c program

/-- Runs a program in a context as a whole, so that no signal may be left. -/
def run (program : Prepared) (c : Context) : Eval Value :=
  Body.evaluate (host.machine fuel) c program

end Host

namespace Prepared

/-- Runs a program as one block, the host being the usual one. -/
def runBlock (fuel : Nat) (program : Prepared) (c : Context) : Eval Ending :=
  Host.standard.runBlock fuel program c

/-- Runs a program as a whole, the host being the usual one. -/
def run (fuel : Nat) (program : Prepared) (c : Context) : Eval Value :=
  Host.standard.run fuel program c

end Prepared

/-- Reads a source text and runs it in a context. -/
def runSource (fuel : Nat) (setup : Setup) (c : Context) (source : String) :
    EStateM Failure Store Value := fun s =>
  match Block.ofSource source with
  | .error failure => .error failure s
  | .ok block =>
    let (program, s) := s.prepare setup block
    match program.run fuel c s with
    | .ok value s => .ok value s
    | .error halt s => .error (.running halt) s

/-- More calls inside calls, and more turns of a loop, than any computer gets through. -/
def ampleFuel : Nat := Nat.pow 2 60

end TableScript
