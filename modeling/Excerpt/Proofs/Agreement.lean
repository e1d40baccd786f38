import Excerpt.Proofs.PermittedRun

/-!
Two runs of one piece of a program. States that agree on the names a step reads are not told apart
by it: it ends in the same way, and the states after it agree again.
-/
namespace Excerpt.Execution
open Excerpt.Program Exec

/-- The states differ at most in the values that the module gives to other names. -/
structure Agree (names : String → Prop) (s t : State) : Prop where
  modules : s.modules = t.modules
  locals : s.locals = t.locals
  deferred : s.deferred = t.deferred
  globals : ∀ n, names n → valueAt n s.globals = valueAt n t.globals

namespace Agree

variable {names : String → Prop} {s t : State}

theorem find? (agree : Agree names s t) {n : String} (known : names n) : s.find? n = t.find? n := by
  simp only [State.find?,agree.locals,agree.globals n known]

theorem bind (agree : Agree names s t) (name : String) (value : Value) :
    Agree names (s.bind name value) (t.bind name value) := by
  obtain ⟨modules,locals,deferred,globals⟩ := agree
  cases found : t.locals with
  | some env =>
    simp only [State.bind,locals,found]
    exact ⟨modules,rfl,deferred,globals⟩
  | none =>
    simp only [State.bind,locals,found]
    refine ⟨modules,rfl,deferred,fun n known => ?_⟩
    simp only [valueAt_setAt,globals n known]

theorem erase (agree : Agree names s t) (name : String) :
    Agree names (s.erase name) (t.erase name) := by
  obtain ⟨modules,locals,deferred,globals⟩ := agree
  cases found : t.locals with
  | some env =>
    simp only [State.erase,locals,found]
    exact ⟨modules,rfl,deferred,globals⟩
  | none =>
    simp only [State.erase,locals,found]
    refine ⟨modules,rfl,deferred,fun n known => ?_⟩
    simp only [valueAt_eraseAt,globals n known]

/-- A name that can be unbound in one of the states can be unbound in the other. -/
theorem current (agree : Agree names s t) {n : String} (known : s.locals = none → names n) :
    valueAt n s.current = valueAt n t.current := by
  cases found : s.locals with
  | some env => simp only [State.current,← agree.locals,found,Option.getD_some]
  | none =>
    simp only [State.current,← agree.locals,found,Option.getD_none]
    exact agree.globals n (known found)

theorem revise (agree : Agree names s t) (modules : Modules) :
    Agree names {s with modules := modules} {t with modules := modules} :=
  ⟨rfl,agree.locals,agree.deferred,agree.globals⟩

end Agree

/-- A permitted step does not tell apart states that agree on the names it reads. Names that it
deletes count only where they are names of the module. -/
theorem Permitted.agree {effects : List Effect} {α : Type} {step : Exec α} {names : String → Prop}
    (permitted : Permitted effects step) (reads : ∀ n, .read n ∈ effects → names n)
    {s t : State} (drops : s.locals = none → ∀ n, .drop n ∈ effects → names n)
    (agree : Agree names s t) : (step s).1 = (step t).1 ∧ Agree names (step s).2 (step t).2 := by
  induction permitted generalizing s t with
  | pure a => exact ⟨rfl,agree⟩
  | raise fault => exact ⟨rfl,agree⟩
  | @bind _ _ _ step next permitted _ first rest =>
    obtain ⟨same,after⟩ := first reads drops agree
    have place := (permitted.follows s).place
    rw [bind_apply,bind_apply]
    rcases ranS : step s with ⟨_ | a,s'⟩ <;> rcases ranT : step t with ⟨_ | b,t'⟩ <;>
      rw [ranS,ranT] at same after <;> cases same
    · exact ⟨rfl,after⟩
    · refine rest a reads (fun outside => drops ?_) after
      rw [ranS,outside] at place
      simpa using place.symm
  | @lookup _ name line covered =>
    rw [lookup_apply,lookup_apply,agree.find? (reads name covered)]
    exact ⟨rfl,agree⟩
  | store covered => exact ⟨rfl,agree.bind _ _⟩
  | @unbind _ name line covered =>
    rw [unbind_apply,unbind_apply,agree.current fun outside => drops outside name covered]
    split
    · exact ⟨rfl,agree.erase name⟩
    · exact ⟨rfl,agree⟩
  | @defer _ scope covered =>
    exact ⟨rfl,agree.modules,agree.locals,congrArg (scope :: ·) agree.deferred,agree.globals⟩
  | @recover _ _ _ step next permitted _ _ first succeeded failed =>
    obtain ⟨same,after⟩ := first reads drops agree
    have place := (permitted.follows s).place
    have later (outside : (step s).2.locals = none) : s.locals = none := by
      rw [outside] at place
      simpa using place.symm
    rw [attempt_bind_apply,attempt_bind_apply,← same]
    rcases ran : (step s).1 with r | a
    · exact failed r (permitted.fault s r ran) reads (fun outside => drops (later outside)) after
    · exact succeeded a reads (fun outside => drops (later outside)) after
  | @inClass _ _ _ step _ outside inside =>
    have entered (env : Namespace) :
        Agree names {s with locals := some env} {t with locals := some env} :=
      ⟨agree.modules,rfl,agree.deferred,agree.globals⟩
    obtain ⟨same,after⟩ :=
      inside (fun n covered => reads n (outside _ covered rfl)) (by simp) (entered _)
    exact ⟨same,after.modules,agree.locals,after.deferred,after.globals⟩
  | consult _ rest =>
    rw [consult_apply,consult_apply,← agree.modules]
    exact rest s.modules reads drops agree
  | importing covered =>
    rw [importModule_apply,importModule_apply,agree.modules]
    split
    · exact ⟨rfl,agree.revise _⟩
    · exact ⟨rfl,agree⟩
  | @setAttribute _ path attr covered =>
    exact ⟨rfl,congrArg (·.setAttribute path attr) agree.modules,agree.locals,agree.deferred,
      agree.globals⟩

end Excerpt.Execution
