import Excerpt.Syntax.Source
import Mathlib

/-!
Parsers that keep an invariant of their state. What is said of a parser is a triple: from a state with the
invariant it yields only what has a property, and the invariant holds again. The rules for choices, loops and
sequences of children hold whatever the invariant is.
-/
namespace Excerpt.Syntax.Parser
open Std.Do

set_option mvcgen.warning false

/-- What the parser yields from a state with the invariant has the property, and the invariant stays. -/
abbrev Keeps {α : Type} (inv : State → Prop) (p : Parser α) (post : α → Prop) : Prop :=
  ⦃fun s => ⌜inv s⌝⦄ p ⦃post⟨fun a s => ⌜post a ∧ inv s⌝,fun _ => ⌜True⌝⟩⦄

variable {α : Type} {inv : State → Prop} {p q : Parser α} {post other : α → Prop}

theorem keeps_iff : Keeps inv p post ↔
    ∀ s, inv s → ∀ a t, p s = some (a,t) → post a ∧ inv t := by
  constructor
  · intro triple s before a t ran
    have holds := triple s before
    simp only [wp,PredTrans.apply_pushArg] at holds
    rw [show StateT.run p s = some (a,t) from ran] at holds
    exact holds
  · intro holds s before
    simp only [wp,PredTrans.apply_pushArg]
    cases ran : StateT.run p s with
    | none => trivial
    | some x => exact holds s before x.1 x.2 ran

theorem keeps_mono (keeps : Keeps inv p post) (weaker : ∀ a, post a → other a) : Keeps inv p other :=
  keeps_iff.2 fun s before a t ran =>
    have ⟨holds,after⟩ := keeps_iff.1 keeps s before a t ran
    ⟨weaker a holds,after⟩

theorem keeps_failure : Keeps inv (failure : Parser α) post :=
  keeps_iff.2 fun _ _ _ _ ran => nomatch ran

theorem keeps_orElse (first : Keeps inv p post) (second : Keeps inv q post) :
    Keeps inv (p <|> q) post := by
  refine keeps_iff.2 fun s before a t ran => ?_
  change (p s <|> q s) = some (a,t) at ran
  cases left : p s with
  | none => exact keeps_iff.1 second s before a t (by simpa [left] using ran)
  | some x => exact keeps_iff.1 first s before a t (by simpa [left] using ran)

theorem keeps_require (b : Bool) : Keeps inv (require b) fun _ => b := by
  cases b
  · exact keeps_failure
  · mvcgen [require]

/-- What a step keeps, the whole loop keeps. -/
theorem keeps_loop {step : α → Parser (Option α)} {n : Nat} {a : α} (kept : α → Prop)
    (start : kept a) (stays : ∀ a, kept a → Keeps inv (step a) fun next => ∀ b ∈ next, kept b) :
    Keeps inv (loop step n a) kept := by
  induction n generalizing a with
  | zero => exact keeps_failure
  | succ n ih =>
    have first := stays a start
    mvcgen [loop,first,ih] <;> simp_all

section Children

variable {good : Tree → Prop} {ts : List Tree}

/-- A further child is as good as those before it, if what waits in front of it is. -/
theorem keeps_also {p : Parser Tree} (spare : Keeps inv waiting fun us => ∀ u ∈ us, good u)
    (start : ∀ t ∈ ts, good t) (element : Keeps inv p good) :
    Keeps inv (also ts p) fun us => ∀ u ∈ us, good u := by
  mvcgen [also,element,spare]
  all_goals
    clear element spare
    grind

theorem keeps_alsoAll {p : Parser (List Tree)} (spare : Keeps inv waiting fun us => ∀ u ∈ us, good u)
    (start : ∀ t ∈ ts, good t) (elements : Keeps inv p fun us => ∀ u ∈ us, good u) :
    Keeps inv (alsoAll ts p) fun us => ∀ u ∈ us, good u := by
  mvcgen [alsoAll,elements,spare]
  all_goals
    clear elements spare
    grind

/-- Elements with commas between them are good if the elements, the commas and what waits between them are. -/
theorem keeps_commas {n : Nat} {e : Expect} {more : Parser Bool} {element : Parser (List Tree)}
    (spare : Keeps inv waiting fun us => ∀ u ∈ us, good u) (comma : Keeps inv (mark "," e) good)
    (test : Keeps inv (isMark ",") fun _ => True)
    (start : ∀ t ∈ ts, good t) (follows : Keeps inv more fun _ => True)
    (elements : Keeps inv element fun us => ∀ u ∈ us, good u) :
    Keeps inv (commas n e more element ts) fun us => ∀ u ∈ us, good u := by
  have rounds {step} {n} {x} :=
    @keeps_loop (List Tree × Bool) inv step n x fun y => ∀ u ∈ y.1, good u
  mvcgen [commas,also,alsoAll,elements,follows,rounds,spare,comma,test]
  all_goals
    clear rounds elements follows spare comma test
    grind

end Children

end Excerpt.Syntax.Parser
