import Excerpt.Proofs.OperandGrammar

/-!
The productions for the patterns of cases. Below a pattern stand only patterns, except in strings.
-/
namespace Excerpt.Syntax.Grammar
open Std.Do Excerpt.Text Excerpt.Syntax.Parser

set_option mvcgen.warning false

attribute [local simp] Goal.Single

variable {g : Grammar} [g.Sound] {t : Tree} {ts : List Tree} {f : Follow}

theorem yields_alsoPattern {p : Parser Tree} (start : Patterns ts)
    (element : Yields p fun t => t.fits .pattern) : Yields (also ts p) Patterns :=
  yields_also (fun _ => .pattern) ⟨rfl,rfl⟩ start element

theorem yields_alsoPatterns {p : Parser (List Tree)} (start : Patterns ts)
    (elements : Yields p Patterns) : Yields (alsoAll ts p) Patterns :=
  yields_alsoAll (fun _ => .pattern) ⟨rfl,rfl⟩ start elements

theorem yields_commasPatterns {n : Nat} {e : Expect} {more : Parser Bool}
    {element : Parser (List Tree)} (start : Patterns ts) (follows : Yields more fun _ => True)
    (elements : Yields element Patterns) : Yields (commas n e more element ts) Patterns :=
  yields_commas (fun _ => .pattern) rfl ⟨rfl,rfl⟩ start follows elements

theorem yields_loopPatterns {step : List Tree → Parser (Option (List Tree))} {n : Nat}
    (start : Patterns ts)
    (stays : ∀ ts, Patterns ts → Yields (step ts) fun next => ∀ us ∈ next, Patterns us) :
    Yields (loop step n ts) Patterns := yields_loop Patterns start stays

/-- Names with points between them are patterns as well as items. -/
@[spec] theorem yields_dottedName (n : Nat) (after : Expect) :
    Yields (dottedName n after) fun t => t.Item ∧ t.fits .pattern := by
  have rounds {step} {n} {ts} := @yields_loop (List Tree) step n ts fun ts => Items ts ∧ Patterns ts
  mvcgen [dottedName,also,rounds]
  all_goals
    clear rounds
    simp_all +decide

attribute [local spec] yields_alsoPattern yields_alsoPatterns yields_commasPatterns
  yields_loopPatterns

@[spec] theorem yields_number (after : Expect) :
    Yields (number after) fun t => t.fits .pattern := by
  mvcgen [number] <;> simp_all +decide

@[spec] theorem yields_numberPattern (f : Follow) : Yields (numberPattern f) Patterns := by
  mvcgen [numberPattern] <;> simp_all +decide

@[spec] theorem yields_patternsUpTo {close : String} (patterns : Patterns ts) :
    Yields (patternsUpTo g close f ts) Patterns := by
  mvcgen [patternsUpTo] <;> simp_all +decide

@[spec] theorem yields_splatPattern (f : Follow) (spelling : String) :
    Yields (splatPattern f spelling) fun t => t.fits .pattern := by
  mvcgen [splatPattern] <;> simp_all +decide

@[simp] theorem patterns_map_withField {role : Field} (patterns : Patterns ts) :
    Patterns (ts.map (·.withField role)) := by
  intro u member
  obtain ⟨t,inside,rfl⟩ := List.mem_map.1 member
  exact suits_withField.2 (patterns t inside)

@[spec] theorem yields_closedPattern {simple : Parser (List Tree)} (f : Follow)
    (patterns : Yields simple Patterns) : Yields (closedPattern g simple f) Patterns := by
  mvcgen [closedPattern,patterns]
  all_goals
    clear patterns
    simp_all +decide

@[spec] theorem yields_simplePattern : ∀ (keys : Nat) (f : Follow),
    Yields (simplePattern g f keys) Patterns
  | 0,_ => keeps_failure
  | keys + 1,f => by
    have inner := yields_simplePattern keys {}
    mvcgen [simplePattern,inner]
    all_goals
      clear inner
      simp_all +decide

@[spec] theorem yields_casePattern (f : Follow) :
    Yields (casePattern g f) fun t => t.field = none ∧ t.fits .pattern := by
  have rounds {step} {n} {t} := @yields_loop Tree step n t fun t => t.field = none ∧ t.fits .pattern
  have either {p q} := @yields_orElse (List Tree) p q Patterns
  mvcgen [casePattern,rounds,either,-yields_orElse]
  all_goals
    clear rounds either
    simp_all +decide +zetaDelta

end Excerpt.Syntax.Grammar
