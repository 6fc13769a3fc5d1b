import TableScript.Store.Basic

/-!
Names in their scopes. A name means its binding in the nearest scope that has one.
-/

namespace TableScript.Store

variable (s : Store) (c : Context)

/-- The value of the nearest binding of a name. -/
def lookup (name : String) : Option Value :=
  c.frames.findSome? fun frame => (s.frame frame).get? name

/-- The value of a name, `null` if nothing binds it. -/
def get (name : String) : Value :=
  (s.lookup c name).getD .null

/-- The scope that an assignment writes to: the nearest one that binds the name, or else the
innermost one. -/
def home (name : String) : FrameRef :=
  (c.frames.find? fun frame => (s.frame frame).binds name).getD c.inner

theorem home_cases (name : String) :
    (s.frame (s.home c name)).binds name ∨ s.home c name = c.inner := by
  rw [home]
  cases hfound : c.frames.find? fun frame => (s.frame frame).binds name with
  | none => exact .inr rfl
  | some frame =>
      have hbinds := List.find?_some hfound
      exact .inl hbinds

/-- Changes the nearest binding of a name, or makes one in the innermost scope. -/
def set (name : String) (value : Value) : Store :=
  s.modifyFrame (s.home c name) (·.bind name value)

/-- Binds a name in the innermost scope. -/
def define (name : String) (value : Value) : Store :=
  s.modifyFrame c.inner (·.bind name value)

/-- Binds a name in the outermost scope. -/
def setGlobal (name : String) (value : Value) : Store :=
  s.modifyFrame c.root (·.bind name value)

/-- A context of one empty scope. -/
def newContext : Context × Store :=
  let (frame, s) := s.newFrame .empty
  (⟨frame, []⟩, s)

/-- The context of a call: an empty scope inside the context of the function. -/
def enter : Context × Store :=
  let (frame, s) := s.newFrame .empty
  (c.enter frame, s)

/-- Binds a host function under its name in the outermost scope. -/
def register (native : Native) : Store :=
  let (ref, s) := s.newNative native
  s.setGlobal c native.name (.native ref)

/-- A context of one scope that holds some host functions. -/
def newContextWith (natives : List Native) : Context × Store :=
  let (c, s) := s.newContext
  (c, natives.foldl (fun s native => s.register c native) s)

end TableScript.Store
