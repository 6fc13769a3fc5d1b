import TableScript.Proofs.Calls
import TableScript.Proofs.Compiled

/-!
The two engines agree. Programs that run one after another in one context, each on either engine,
leave behind what they leave behind when all of them are interpreted. Functions of both kinds may
meet in one store and call each other; so the stores of the two sequences are the same only up to
bodies of functions, which correspond if they are equal or one is the other one compiled.
-/

namespace TableScript

open Eval

/-- A body, and the same body or the code that it is compiled to. -/
inductive Body.Corresponds : Body → Body → Prop where
  | same (body : Body) : Corresponds body body
  | compiled (block : Block) : Corresponds (.tree block) (.code (compileBlock block))

/-- Two stores that are equal but for bodies of functions, which correspond. -/
structure Store.Corresponds (s t : Store) : Prop extends Store.Alike Body.Corresponds s t where
  cells : s.cells = t.cells
  output : s.output = t.output
  events : s.events = t.events

theorem Store.Corresponds.refl (s : Store) : s.Corresponds s where
  toAlike := .of_bodies fun _ f _ => .same f.body
  cells := rfl
  output := rfl
  events := rfl

theorem Store.Corresponds.record {s t : Store} (h : s.Corresponds t) (event : Event) :
    (s.record event).Corresponds (t.record event) :=
  { h with events := congrArg (List.cons event) h.events }

/-- The coupling of an interpreted sequence of runs with one that is compiled in part. -/
def Coupling.engines : Coupling :=
  { rel := Store.Corresponds, halts := fun _ => True }

theorem Coupling.engines_stable : Coupling.engines.Stable .anything Body.Corresponds where
  alike h := h.toAlike
  newList h values := { h with toAlike := h.toAlike.newList values }
  newTable h table _ := { h with toAlike := h.toAlike.newTable table }
  newFunction h _ _ hmatch := { h with toAlike := h.toAlike.newFunction hmatch }
  newFrame h := { h with toAlike := h.toAlike.newFrame .empty }
  newFrame_growable _ := trivial
  bind h ref name _ value := { h with toAlike := h.toAlike.modifyFrame ref _ }
  publish h c name value :=
    Store.Corresponds.record { h with toAlike := h.toAlike.modifyFrame c.root _ } _
  write h place value := by
    have halike := h.toAlike.write place value
    cases place <;> exact { h with toAlike := halike }
  called h ref args := h.record (.called ref args)
  keepList _ _ _ hxy := by
    refine Coupling.keepList_coupled (K := engines) (fun s t h => ?_) (fun s t h => h.lists)
      (fun s t h values => { h with toAlike := h.toAlike.newList values })
      (fun s t h list => { h with cells := by simp only [Store.fillCell, h.cells] })
      (fun s t h event _ => h.record event) hxy
    rw [Store.cell?, Store.cell?, h.cells]
  outOfFuel := trivial
  fault _ := trivial

/-- Corresponding bodies do the same, as long as the calls they make do. -/
theorem Coupling.engines_runs : Coupling.engines.Runs Body.Corresponds := by
  intro l r hbodies call call' hcall fuel c _
  have hK := engines_stable
  have hm : Machine.Paired engines (Host.machineOf call fuel) (Host.machineOf call' fuel) :=
    ⟨hcall, rfl⟩
  refine Coupled.bind ?_ fun ending => Eval.complete_coupled (fun _ => trivial)
    (fun signal _ _ h => Store.Corresponds.record h (.escaped signal))
    ending.2 ending.1
  cases hbodies with
  | same =>
      exact Body.run_coupled hK hm (fun _ _ => .same _) (fun _ _ => .same _) c trivial .top l
        (Policy.anything_allows _)
  | compiled block =>
      have hcompiling : Machine.Paired engines (Host.machineOf call fuel)
          (Host.machineOf call' fuel).compiling := ⟨hm.call, hm.fuel⟩
      rw [Body.run, Body.run, run_compileBlock]
      exact evalBlock_coupled hK hcompiling (fun block _ => .compiled block) trivial .top .null block
        (Policy.anything_allows _)

/-- A host that takes no notice of what the body of a function is: its functions do the same whether
the functions they are given are interpreted or compiled. -/
def Host.Uniform (host : Host) : Prop :=
  host.Respects Coupling.engines

theorem Host.standard_uniform : Host.standard.Uniform :=
  Coupling.engines_stable.standard_respects fun _ _ h line =>
    { h with output := congrArg (·.push line) h.output }

/-- One run of a sequence: a program, the engine that it runs on, and the fuel that it is given. -/
structure Job where
  engine : Engine
  block : Block
  fuel : Nat

/-- The same program on the interpreter. -/
def Job.interpreted (job : Job) : Job :=
  { job with engine := .interpreter }

namespace Host

variable (host : Host) (c : Context)

/-- Prepares a program, with list literals that keep no lists, and runs it. -/
def runJob (job : Job) : Eval Value := fun s =>
  let (program, s) := s.prepare ⟨job.engine, false⟩ job.block
  host.run job.fuel program c s

/-- Runs programs one after another in one context, whether or not some of them fail. -/
def runJobs : List Job → Store → List (Except Halt Value) × Store
  | [], s => ([], s)
  | job :: jobs, s =>
    let outcome : Outcome Value := host.runJob c job s
    let (results, s) := runJobs jobs outcome.store
    (outcome.result :: results, s)

variable {host}

theorem runJob_coupled (huniform : host.Uniform) (job : Job) :
    Coupled .engines .engines (host.runJob c job.interpreted) (host.runJob c job) := by
  obtain ⟨engine, block, fuel⟩ := job
  have hrun : ∀ {l r}, Body.Corresponds l r → Coupled .engines .engines (host.run fuel l c)
      (host.run fuel r c) := fun hbodies =>
    Coupling.engines_stable.run huniform Coupling.engines_runs fuel hbodies c
  cases engine with
  | interpreter => exact hrun (.same (.tree block))
  | compiler => exact hrun (.compiled block)

/-- Corresponding stores still correspond after a whole sequence of runs. -/
theorem runJobs_corresponds (huniform : host.Uniform) (jobs : List Job) {s t : Store}
    (hst : s.Corresponds t) :
    (host.runJobs c jobs t).1 = (host.runJobs c (jobs.map Job.interpreted) s).1 ∧
      (host.runJobs c (jobs.map Job.interpreted) s).2.Corresponds (host.runJobs c jobs t).2 := by
  induction jobs generalizing s t with
  | nil => exact ⟨rfl, hst⟩
  | cons job jobs ih =>
      obtain ⟨hresult, _, hrel⟩ :=
        Coupling.agree_iff.mp (runJob_coupled c huniform job s t hst)
      obtain ⟨hresults, hstores⟩ := ih hrel
      simp only [List.map_cons, runJobs, hresult, hresults]
      exact ⟨trivial, hstores⟩

/-- However a sequence of programs is spread over the two engines, each run has the value, or the
fault, that it has when all programs are interpreted, and it ends with the same amounts of fuel; the
variables of all scopes, the contents of lists and tables, the printed lines and the calls of host
functions are the same, and the functions correspond. -/
theorem engines_agree (huniform : host.Uniform) (jobs : List Job) (s : Store) :
    (host.runJobs c jobs s).1 = (host.runJobs c (jobs.map Job.interpreted) s).1 ∧
      (host.runJobs c (jobs.map Job.interpreted) s).2.Corresponds (host.runJobs c jobs s).2 :=
  runJobs_corresponds c huniform jobs (.refl s)

/-- A compiled function that calls an interpreted one, called from compiled code. -/
def mixedCalls : List Job :=
  [⟨.compiler, [.function (some "twice") ["f", "x"]
      [.access (.name "f") [.call [.access (.name "f") [.call [.name "x"]]]]]], 9⟩,
    ⟨.interpreter, [.function (some "next") ["x"]
      [.access (.name "print") [.call [.name "x"]],
        .control (.return (some (.add (.name "x") [(.add, .number 1)])))]], 9⟩,
    ⟨.compiler, [.access (.name "twice") [.call [.name "next", .number 1]]], 9⟩]

theorem engines_agree_mixedCalls :
    let start := Store.empty.newContextWith Native.all
    let mixed := standard.runJobs start.1 mixedCalls start.2
    let plain := standard.runJobs start.1 (mixedCalls.map Job.interpreted) start.2
    standard.Uniform ∧ mixed.1.getLast?.bind Except.toOption = some (.number 3) ∧
      mixed.2.output = #["1", "2"] ∧
      mixed.1 = plain.1 ∧ plain.2.Corresponds mixed.2 := by
  refine ⟨standard_uniform, ?_, ?_, engines_agree _ standard_uniform mixedCalls _⟩
  · decide +kernel
  · decide +kernel

end Host

end TableScript
