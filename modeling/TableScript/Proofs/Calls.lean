import TableScript.Proofs.Uniform
import TableScript.Session

/-!
Calls and whole runs under a stable coupling. What is left to know is that related bodies are coupled
when they run, and that the host respects the coupling; by induction on the fuel, all calls and all
runs then do.
-/

namespace TableScript

open Eval

variable {K : Coupling} {policy : Policy} {bodies : Body → Body → Prop}

/-- The functions of a host treat related stores alike, provided that the calls they make do. -/
def Host.Respects (host : Host) (K : Coupling) : Prop :=
  ∀ ref native {call call' : Value → List Value → Eval Value},
    (∀ callee args, Coupled K K (call callee args) (call' callee args)) →
    ∀ args, Coupled K K (host.perform ref native call args) (host.perform ref native call' args)

/-- The functions of a host treat related stores alike, provided that calls do that are the same
functions on both sides. -/
def Host.Keeps (host : Host) (K : Coupling) : Prop :=
  ∀ ref native {call : Value → List Value → Eval Value},
    (∀ callee args, Coupled K K (call callee args) (call callee args)) →
    ∀ args, Coupled K K (host.perform ref native call args) (host.perform ref native call args)

theorem Host.Respects.keeps {host : Host} (hhost : host.Respects K) : host.Keeps K :=
  fun ref native _ hcall args => hhost ref native hcall args

/-- Related bodies are coupled when they run, provided that the calls they make are. -/
def Coupling.Runs (K : Coupling) (bodies : Body → Body → Prop) : Prop :=
  ∀ {l r}, bodies l r → ∀ {call call' : Value → List Value → Eval Value},
    (∀ callee args, Coupled K K (call callee args) (call' callee args)) →
    ∀ fuel c, K.growable c.inner → Coupled K K (l.evaluate (Host.machineOf call fuel) c)
      (r.evaluate (Host.machineOf call' fuel) c)

/-- A body that follows the policy does the same on both sides. -/
theorem Body.run_coupled (hK : K.Stable policy bodies) {m m' : Machine}
    (hm : Machine.Paired K m m')
    (hbody : ∀ block, policy.Allows (blockOccurrences .function block) →
      bodies (m.body block) (m'.body block))
    (hcode : ∀ steps, policy.Allows (stepOccurrences .function steps) →
      bodies (.code steps) (.code steps))
    (c : Context) (hc : K.growable c.inner) (site : Site) (body : Body)
    (hallowed : policy.Allows (body.occurrences site)) :
    Coupled K K (body.run m c) (body.run m' c) := by
  cases body with
  | tree block => exact evalBlock_coupled hK hm hbody hc site .null block hallowed
  | code steps => exact runSteps_coupled hK hm hcode hc site .null steps hallowed

/-- Where escaped signals are allowed for, they are the same on both sides. -/
theorem Eval.complete_coupled (hhalts : ∀ halt, K.halts halt)
    (hescaped : ∀ signal {s t}, K.rel s t →
      K.rel (s.record (.escaped signal)) (t.record (.escaped signal)))
    (signal : Signal) (value : Value) :
    Coupled K K (Eval.complete signal value) (Eval.complete signal value) := by
  have hescapes : ∀ fault, Coupled (α := Value) K K
      ((modify (·.record (.escaped signal)) : Eval PUnit) >>= fun _ => Eval.fault fault)
      ((modify (·.record (.escaped signal)) : Eval PUnit) >>= fun _ => Eval.fault fault) :=
    fun fault => (Coupled.changing fun _ _ hst => hescaped signal hst).bind
      fun _ => Coupled.throw (hhalts _)
  cases signal with
  | none => exact Coupled.pure value
  | «continue» => exact hescapes _
  | «break» => exact hescapes _
  | «return» => exact Coupled.pure value

namespace Coupling.Stable

variable (hK : K.Stable policy bodies)

include hK

theorem checkArity (name : String) (expected found : Nat) :
    Coupled K K (Eval.checkArity name expected found) (Eval.checkArity name expected found) := by
  unfold Eval.checkArity
  split
  · exact Coupled.pure ()
  · exact hK.failing rfl

/-- What is evaluated in the context of a call has a new scope for its names. -/
theorem entering {α : Type} (c : Context) {f g : Context → Eval α}
    (hfg : ∀ c, K.growable c.inner → Coupled K K (f c) (g c)) :
    Coupled K K ((modifyGet (·.enter c) : Eval Context) >>= f)
      ((modifyGet (·.enter c) : Eval Context) >>= g) := by
  intro s t hst
  have hcontext : (t.enter c).1 = (s.enter c).1 := by
    simp only [Store.enter, Store.newFrame, (hK.alike hst).frames]
  change K.Agree (f (s.enter c).1 (s.enter c).2) (g (t.enter c).1 (t.enter c).2)
  rw [hcontext]
  exact hfg _ (hK.newFrame_growable hst) _ _ (hK.newFrame hst)

theorem bindParams {c : Context} (hc : K.growable c.inner) (params : List String)
    (args : List Value) :
    Coupled K K (Eval.bindParams c params args) (Eval.bindParams c params args) := by
  apply Coupled.changing
  generalize params.zip args = bindings
  induction bindings with
  | nil => exact fun _ _ hst => hst
  | cons binding bindings ih =>
      intro s t hst
      exact ih _ _ (hK.bind hst c.inner binding.1 (.inr hc) binding.2)

theorem callClosure {f g : Closure} (hmatch : f.Matches bodies g) {m m' : Machine}
    (hbody : ∀ c, K.growable c.inner →
      Coupled K K (f.body.evaluate m c) (g.body.evaluate m' c)) (args : List Value) :
    Coupled K K (f.call m args) (g.call m' args) := by
  unfold Closure.call
  rw [hmatch.name, hmatch.params, hmatch.context]
  refine (hK.checkArity _ _ _).bind fun _ => ?_
  refine hK.entering g.context fun c hc => ?_
  exact (hK.bindParams hc g.params args).bind fun _ => hbody c hc

theorem callNative {host : Host} (hhost : host.Keeps K)
    {call : Value → List Value → Eval Value}
    (hcall : ∀ callee args, Coupled K K (call callee args) (call callee args))
    (ref : NativeRef) (native : Native) (args : List Value) :
    Coupled K K (host.callNative call ref native args)
      (host.callNative call ref native args) := by
  have hperform := (Coupled.changing fun _ _ hst => hK.called hst ref args).bind
    fun _ => hhost ref native hcall args
  unfold Host.callNative
  cases native.arity with
  | none => exact hperform
  | some arity => exact (hK.checkArity native.name arity args.length).bind fun _ => hperform

theorem call_of_keeps {host : Host} (hhost : host.Keeps K) (hruns : K.Runs bodies) (fuel : Nat)
    (callee : Value) (args : List Value) :
    Coupled K K (host.call fuel callee args) (host.call fuel callee args) := by
  induction fuel generalizing callee args with
  | zero => exact Coupled.throw hK.outOfFuel
  | succ fuel ih =>
      cases callee with
      | function ref =>
          -- The body may call any function, this one included, but only with less fuel.
          intro s t hst
          rw [Host.call, get_bind_apply, get_bind_apply]
          rcases (hK.alike hst).function?_cases ref with ⟨hs, ht⟩ | ⟨f, g, hs, ht, hmatch⟩
          · rw [hs, ht]
            exact hK.failing rfl s t hst
          · rw [hs, ht]
            exact hK.callClosure hmatch (hruns hmatch.body ih fuel) args s t hst
      | native ref =>
          intro s t hst
          rw [Host.call, get_bind_apply, get_bind_apply]
          rw [(hK.alike hst).native?_eq]
          cases t.native? ref with
          | none => exact hK.failing rfl s t hst
          | some native => exact hK.callNative hhost ih ref native args s t hst
      | _ => exact hK.failing rfl

/-- A call does the same on both sides, whatever is called. -/
theorem call {host : Host} (hhost : host.Respects K) (hruns : K.Runs bodies) (fuel : Nat)
    (callee : Value) (args : List Value) :
    Coupled K K (host.call fuel callee args) (host.call fuel callee args) :=
  hK.call_of_keeps hhost.keeps hruns fuel callee args

/-- A run does the same on both sides. -/
theorem run {host : Host} (hhost : host.Respects K) (hruns : K.Runs bodies) (fuel : Nat)
    {l r : Prepared} (hbodies : bodies l r) (c : Context)
    (hc : K.growable c.inner := by trivial) :
    Coupled K K (host.run fuel l c) (host.run fuel r c) :=
  hruns hbodies (hK.call hhost hruns fuel) fuel c hc

/-- The usual host respects every stable coupling that allows for printed lines. -/
theorem standard_respects
    (hprint : ∀ s t, K.rel s t → ∀ line, K.rel (s.printLine line) (t.printLine line)) :
    Host.standard.Respects K := by
  intro ref native call call' hcall args
  have hline : ∀ s t, K.rel s t → s.line args = t.line args := fun s t hst => by
    simp only [Store.line, funext (hK.alike hst).text_eq]
  unfold Host.standard
  dsimp only
  split
  · refine (Coupled.changing fun s t hst => ?_).bind fun _ => Coupled.pure _
    rw [hline s t hst]
    exact hprint s t hst _
  · exact Coupled.pure _
  · refine Coupled.reading (fun s => Value.string (s.text (args.headD .null)))
      (fun s t hst => ?_) fun value _ => Coupled.pure value
    rw [(hK.alike hst).text_eq]
  · exact Coupled.reading (f := fun line => Eval.fault (.host line))
      (g := fun line => Eval.fault (.host line)) (·.line args) hline fun _ _ => hK.failing rfl
  · split
    · rename_i list _
      exact Coupled.reading (f := fun values => call (args.headD .null) values)
        (g := fun values => call' (args.headD .null) values) (fun s => (s.list list).toList)
        (fun s t hst => by rw [(hK.alike hst).list_eq]) fun values _ => hcall _ values
    · exact hK.failing rfl
  · exact hK.failing rfl

end Coupling.Stable

end TableScript
