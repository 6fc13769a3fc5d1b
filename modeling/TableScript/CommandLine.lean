import TableScript.Session

/-!
The command line: options and at most one file, from which the script is read, or else from standard
input. The host function `print` writes a line; the script's value is printed at the end unless it is
`null`.
-/

namespace TableScript.CommandLine

/-- What the arguments ask for. -/
structure Invocation where
  setup : Setup
  path : Option String
deriving DecidableEq, Repr

/-- Why arguments are refused. -/
inductive UsageError where
  | missingEngine (flag : String)
  | unknownEngine (name : String)
  | manyFiles
deriving DecidableEq, Repr

def UsageError.message : UsageError → String
  | .missingEngine flag => "Missing backend name after " ++ flag
  | .unknownEngine name => Engine.unknown name
  | .manyFiles => "Only one input file is supported"

/-- Reads arguments from left to right. The first that is no option is the file, and ends them. -/
def readArgs (setup : Setup) : List String → Except UsageError Invocation
  | [] => .ok ⟨setup, none⟩
  | "--cache-lists" :: args => readArgs { setup with keepLists := true } args
  | flag :: args =>
    if flag = "--backend" ∨ flag = "-b" then
      match args with
      | [] => .error (.missingEngine flag)
      | name :: args =>
        match Engine.ofName? name with
        | some engine => readArgs { setup with engine := engine } args
        | none => .error (.unknownEngine name)
    else if args.isEmpty then .ok ⟨setup, some flag⟩
    else .error .manyFiles

/-- The invocation that arguments mean. -/
def Invocation.ofArgs (args : List String) : Except UsageError Invocation :=
  readArgs ⟨.default, false⟩ args

/-- Why a script could not be read. -/
inductive ReadError where
  | notFound
  | invalidText
  | other (text : String)
deriving DecidableEq, Repr

def ReadError.message : ReadError → String
  | .notFound => "No such file or directory (os error 2)"
  | .invalidText => "stream did not contain valid UTF-8"
  | .other text => text

/-- The text that bytes encode. -/
def decode (bytes : ByteArray) : Except ReadError String :=
  match String.fromUTF8? bytes with
  | some text => .ok text
  | none => .error .invalidText

/-- Where an invocation reads its script, as messages name it. -/
def Invocation.reading (invocation : Invocation) : String :=
  "Reading " ++ invocation.path.getD "stdin"

/-- What a run leaves behind: an exit code and what it wrote. -/
structure Report where
  exitCode : Nat
  stdout : String
  stderr : String
deriving DecidableEq, Repr

/-- Moves all lines of a text four columns in. -/
def indent (text : String) : String :=
  String.ofList ("    ".toList ++ text.toList.flatMap fun c =>
    if c = '\n' then "\n    ".toList else [c])

namespace Report

/-- The report of a failure, and of its cause if that is told apart. -/
def failure (printed : String) (message : String) (cause : Option String) : Report :=
  let cause := match cause with
    | some cause => "\n\nCaused by:\n" ++ indent cause
    | none => ""
  { exitCode := 1, stdout := printed, stderr := "Error: " ++ message ++ cause ++ "\n" }

def ofUsageError (e : UsageError) : Report :=
  failure "" e.message none

end Report

/-- The lines that have been printed, each with its end. -/
def printed (s : Store) : String :=
  String.join (s.output.toList.map (· ++ "\n"))

/-- Runs the script of an invocation, or reports that it could not be read. -/
def Invocation.run (fuel : Nat) (invocation : Invocation) (source : Except ReadError String) :
    Report :=
  match source with
  | .error e => .failure "" invocation.reading (some e.message)
  | .ok source =>
    let (c, s) := Store.empty.newContextWith [.print]
    match runSource fuel invocation.setup c source s with
    | .ok value s =>
      let last := if value.isNull then "" else s.text value ++ "\n"
      { exitCode := 0, stdout := printed s ++ last, stderr := "" }
    | .error failure s =>
      .failure (printed s) (failure.phase invocation.setup.engine) (some failure.message)

end TableScript.CommandLine
