import Excerpt.Proofs.Numeral
import Excerpt.Toml.Writer

/-!
Strings of TOML read back from their text. Each of the four forms of a string is undone by its reader,
and so is each layout of an array of strings. No text of a string has a carriage return, so dropping those
of line ends does not change it.
-/
namespace Excerpt.Toml

theorem hexValue?_upperHexDigit : ∀ n < 16, hexValue? (upperHexDigit n) = some n := by
  decide

theorem isBasicChar_of_unescaped {several : Bool} {c : Char} (other : c ≠ quoteMark)
    (none : escapeOf? several c = none) : isBasicChar c ∨ several ∧ c = '\n' := by
  have code (d : Char) (same : c.toNat = d.toNat) : c = d := Char.toNat_inj.1 same
  simp only [escapeOf?,beq_iff_eq] at none
  split at none; · cases none
  split at none; · cases none
  next notTab =>
  split at none
  · next same =>
    cases several with
    | true => exact .inr ⟨rfl,same⟩
    | false => cases none
  · split at none; · cases none
    split at none; · cases none
    split at none; · cases none
    next notBackslash =>
    split at none; · cases none
    next plain =>
    left
    simp only [Bool.or_eq_true,decide_eq_true_eq,beq_iff_eq,not_or] at plain
    have notQuote : c.toNat ≠ 0x22 := fun same => other (code _ same)
    have notBack : c.toNat ≠ 0x5C := fun same => notBackslash (code '\\' same)
    simp only [isBasicChar,Bool.or_eq_true,beq_iff_eq,Bool.and_eq_true,decide_eq_true_eq,bne_iff_ne]
    right
    refine ⟨⟨⟨?_,notQuote⟩,notBack⟩,plain.2⟩
    omega


theorem before_nil (r : Option (List Char × List Char)) : before [] r = r := by
  cases r <;> rfl

theorem before_some (cs : List Char) (s rest : List Char) : before cs (some (s,rest)) = some (cs ++ s,rest) :=
  rfl

theorem readBasic_onward {several : Bool} {q next : Quoting} {c : Char} {given cs : List Char}
    (step : quotingStep several c q = .onward given next) :
    readBasic several q (c :: cs) = before given (readBasic several next cs) := by
  cases q <;> simp only [readBasic,step]

theorem quotingStep_hex {several : Bool} {c : Char} {missing value d : Nat} (digit : hexValue? c = some d)
    (more : 1 < missing) : quotingStep several c (.hex missing value) =
      .onward [] (.hex (missing - 1) (16 * value + d)) := by
  simp only [quotingStep,digit]
  exact if_pos more

theorem quotingStep_escape_letter {several : Bool} {letter c : Char} (given : escaped? letter = some c)
    (blank : letter ≠ '\n' ∧ ¬ isBlankChar letter) (short : letter ≠ 'u' ∧ letter ≠ 'U') :
    quotingStep several letter .escape = .onward [c] .plain := by
  simp [quotingStep,given,blank,short]

/-- An escape is a backslash with what gives the character again behind it. -/
theorem readBasic_escape {several : Bool} {c : Char} {escape : List Char}
    (given : escapeOf? several c = some escape) : ∃ behind, escape = '\\' :: behind ∧
      ∀ rest, readBasic several .escape (behind ++ rest) = before [c] (readBasic several .plain rest) := by
  have letter (l : Char) (given : escaped? l = some c) (blank : l ≠ '\n' ∧ ¬ isBlankChar l)
      (short : l ≠ 'u' ∧ l ≠ 'U') (same : escape = ['\\',l]) : ∃ behind, escape = '\\' :: behind ∧
        ∀ rest, readBasic several .escape (behind ++ rest) = before [c] (readBasic several .plain rest) :=
    ⟨[l],same,fun rest => readBasic_onward (quotingStep_escape_letter given blank short)⟩
  simp only [escapeOf?,beq_iff_eq] at given
  split at given
  · next same => exact letter 'b' (same ▸ rfl) (by decide) (by decide) (Option.some.inj given).symm
  split at given
  · next same => exact letter 't' (same ▸ rfl) (by decide) (by decide) (Option.some.inj given).symm
  split at given
  · next same =>
    cases several with
    | true => cases given
    | false => exact letter 'n' (same ▸ rfl) (by decide) (by decide) (Option.some.inj given).symm
  split at given
  · next same => exact letter 'f' (same ▸ rfl) (by decide) (by decide) (Option.some.inj given).symm
  split at given
  · next same => exact letter 'r' (same ▸ rfl) (by decide) (by decide) (Option.some.inj given).symm
  split at given
  · next same => exact letter '\\' (by rw [same]; rfl) (by decide) (by decide) (Option.some.inj given).symm
  split at given
  · next control =>
    cases given
    have small : c.toNat < 128 := by
      simp only [Bool.or_eq_true,decide_eq_true_eq,beq_iff_eq] at control
      omega
    refine ⟨_,rfl,fun rest => ?_⟩
    have start : quotingStep several 'u' .escape = .onward [] (.hex 4 0) := rfl
    have zero : hexValue? '0' = some 0 := rfl
    have high := hexValue?_upperHexDigit (c.toNat / 16) (by omega)
    have low := hexValue?_upperHexDigit (c.toNat % 16) (by omega)
    have value : 16 * (16 * (16 * (16 * 0 + 0) + 0) + c.toNat / 16) + c.toNat % 16 = c.toNat := by omega
    have final : quotingStep several (upperHexDigit (c.toNat % 16))
        (.hex 1 (16 * (16 * (16 * 0 + 0) + 0) + c.toNat / 16)) = .onward [c] .plain := by
      have scalar : isScalar c.toNat := by simp [isScalar]; omega
      simp only [quotingStep,low,value,scalar]
      simp
    simp only [List.cons_append,List.nil_append]
    rw [readBasic_onward start,readBasic_onward (quotingStep_hex zero (by decide)),
      readBasic_onward (quotingStep_hex zero (by decide)),readBasic_onward (quotingStep_hex high (by decide)),
      readBasic_onward final]
    simp only [before_nil]
  · cases given


theorem plainStep_of_unescaped {several : Bool} {c : Char} (other : c ≠ quoteMark)
    (none : escapeOf? several c = none) : plainStep several c = .onward [c] .plain := by
  have plain := isBasicChar_of_unescaped other none
  have notBackslash : c ≠ '\\' := by
    rintro rfl
    rcases plain with basic | ⟨-,newline⟩
    · exact absurd basic (by decide)
    · exact absurd newline (by decide)
  have notQuote : c ≠ '\x22' := other
  rw [plainStep,if_neg (by simpa using notQuote),if_neg (by simpa using notBackslash)]
  exact if_pos (by simpa using plain)

/-- Where reading stands behind quotes that do not end the string. -/
def pending (run : Nat) : Quoting := if run = 0 then .plain else .quotes run

/-- Quotes that turn out to belong to the text are given with what follows them. -/
theorem quotingStep_pending {several : Bool} {run : Nat} {c : Char} (few : run ≤ 2) (other : c ≠ quoteMark) :
    quotingStep several c (pending run) = (plainStep several c).after (List.replicate run quoteMark) := by
  have notQuote : c ≠ '\x22' := other
  by_cases zero : run = 0
  · subst zero
    cases step : plainStep several c <;> simp [pending,quotingStep,step,QuotingStep.after]
  · rw [pending,if_neg zero,quotingStep,if_neg (by simp [notQuote]),if_neg (by omega)]
    rfl

theorem quotingStep_backslash {several : Bool} {run : Nat} (few : run ≤ 2) :
    quotingStep several '\\' (pending run) = .onward (List.replicate run quoteMark) .escape := by
  rw [quotingStep_pending few (by decide)]
  simp [plainStep,QuotingStep.after]

theorem quotingStep_quote {run : Nat} (few : run < 5) :
    quotingStep true quoteMark (pending run) = .onward [] (.quotes (run + 1)) := by
  by_cases zero : run = 0
  · subst zero
    rfl
  · rw [pending,if_neg zero,quotingStep]
    exact if_pos (by simp [few,quoteMark])

theorem pending_succ (run : Nat) : pending (run + 1) = .quotes (run + 1) := by
  simp [pending]

/-- The quotes that close a string. -/
def closing (several : Bool) : List Char := List.replicate (if several then 3 else 1) quoteMark

theorem readBasic_closing {several : Bool} {run : Nat} {rest : List Char} (few : run ≤ 2)
    (single : several = false → run = 0) (ends : rest.head? ≠ some quoteMark) :
    readBasic several (pending run) (closing several ++ rest) = some (List.replicate run quoteMark,rest) := by
  cases several with
  | false =>
    rw [single rfl]
    rfl
  | true =>
    change readBasic true (pending run) (quoteMark :: quoteMark :: quoteMark :: rest) = _
    have second := quotingStep_quote (show run + 1 < 5 by omega)
    have third := quotingStep_quote (show run + 2 < 5 by omega)
    rw [pending_succ] at second third
    rw [readBasic_onward (quotingStep_quote (by omega)),readBasic_onward second,readBasic_onward third]
    simp only [before_nil]
    cases rest with
    | nil => simp [readBasic,quoteMark]
    | cons c cs =>
      have other : c ≠ '\x22' := fun same => ends (by simp [same,quoteMark])
      simp [readBasic,quotingStep,other,quoteMark]

/-- A text is read back from between double quotes, behind `run` quotes that were read already. -/
theorem readBasic_escapeBasic {several : Bool} {rest : List Char} (ends : rest.head? ≠ some quoteMark)
    (cs : List Char) {run : Nat} (few : run ≤ 2) (single : several = false → run = 0) :
    readBasic several (pending run) (escapeBasic several run cs ++ (closing several ++ rest)) =
      some (List.replicate run quoteMark ++ cs,rest) := by
  induction cs generalizing run with
  | nil =>
    rw [List.append_nil]
    exact readBasic_closing few single ends
  | cons c cs ih =>
    have fresh := ih (show 0 ≤ 2 by omega) (fun _ => rfl)
    have plain : readBasic several .plain (escapeBasic several 0 cs ++ (closing several ++ rest)) = some (cs,rest) :=
      fresh
    rw [escapeBasic]
    split
    · next same =>
      rw [beq_iff_eq] at same
      subst same
      split
      · next more =>
        rw [Bool.and_eq_true,decide_eq_true_eq] at more
        obtain ⟨rfl,less⟩ := more
        have next := ih (show run + 1 ≤ 2 by omega) (by simp)
        rw [pending_succ] at next
        rw [List.cons_append,readBasic_onward (quotingStep_quote (by omega)),next,before_nil,List.replicate_succ']
        simp
      · have quote : quotingStep several quoteMark .escape = .onward [quoteMark] .plain :=
          quotingStep_escape_letter rfl (by decide) (by decide)
        rw [List.cons_append,List.cons_append,readBasic_onward (quotingStep_backslash few),readBasic_onward quote,plain]
        rfl
    · next other =>
      rw [beq_iff_eq] at other
      split
      · next escape given =>
        obtain ⟨behind,rfl,read⟩ := readBasic_escape given
        rw [List.cons_append,List.cons_append,readBasic_onward (quotingStep_backslash few),List.append_assoc,read,plain]
        rfl
      · next unescaped =>
        have step : quotingStep several c (pending run) =
            .onward (List.replicate run quoteMark ++ [c]) .plain := by
          rw [quotingStep_pending few other,plainStep_of_unescaped other unescaped,QuotingStep.after]
        rw [List.cons_append,readBasic_onward step,plain,before_some]
        simp

/-- Characters that a string in single quotes may hold. -/
theorem isLiteralChar_of_plain {c : Char} (uncoded : ¬ needsCode c) (other : c ≠ singleMark) :
    isLiteralChar c ∨ c = '\n' := by
  have notMark : c.toNat ≠ 0x27 := fun same => other (Char.toNat_inj.1 same)
  simp only [needsCode,Bool.or_eq_true,Bool.and_eq_true,decide_eq_true_eq,bne_iff_ne,beq_iff_eq,not_or]
    at uncoded
  simp only [isLiteralChar,Bool.or_eq_true,beq_iff_eq,Bool.and_eq_true,decide_eq_true_eq,bne_iff_ne]
  by_cases tab : c = '\t'
  · exact .inl (.inl tab)
  · by_cases newline : c = '\n'
    · exact .inr newline
    · have large : 0x20 ≤ c.toNat := Nat.le_of_not_lt fun small => uncoded.1 ⟨⟨small,tab⟩,newline⟩
      exact .inl (.inr ⟨⟨large,notMark⟩,uncoded.2⟩)

theorem readLiteral_append {cs : List Char} (plain : ∀ c ∈ cs, c ≠ singleMark ∧ isLiteralChar c)
    (rest : List Char) : readLiteral (cs ++ singleMark :: rest) = some (cs,rest) := by
  induction cs with
  | nil => rfl
  | cons c cs ih =>
    obtain ⟨⟨other,own⟩,later⟩ := List.forall_mem_cons.1 plain
    have notMark : ¬ (c == '\x27') := by simpa [singleMark] using other
    rw [List.cons_append,readLiteral,if_neg notMark,if_pos own,ih later]
    rfl

theorem le_longestRun (mark : Char) (here : Nat) (cs : List Char) : here ≤ longestRun mark here cs := by
  induction cs generalizing here with
  | nil => exact Nat.le_refl here
  | cons c cs ih =>
    rw [longestRun]
    split
    · exact Nat.le_trans (Nat.le_succ here) (ih (here + 1))
    · exact Nat.le_max_left _ _

theorem longestRun_eq_zero {mark : Char} {cs : List Char} (none : longestRun mark 0 cs = 0) : mark ∉ cs := by
  induction cs with
  | nil => simp
  | cons c cs ih =>
    rw [longestRun] at none
    split at none
    · have least := le_longestRun mark (0 + 1) cs
      omega
    · next other =>
      rw [Nat.zero_max] at none
      have other : c ≠ mark := by simpa using other
      simp [ih none,Ne.symm other]

/-- A text without long runs of single quotes is read back from several lines, behind `count` quotes that
were read already. -/
theorem readLiterals_append {rest : List Char} (ends : rest.head? ≠ some singleMark) {cs : List Char}
    {count : Nat} (runs : longestRun singleMark count cs ≤ 2) (uncoded : ∀ c ∈ cs, ¬ needsCode c) :
    readLiterals count (cs ++ (List.replicate 3 singleMark ++ rest)) =
      some (List.replicate count singleMark ++ cs,rest) := by
  induction cs generalizing count with
  | nil =>
    have few : count ≤ 2 := runs
    change readLiterals count (singleMark :: singleMark :: singleMark :: rest) = _
    have mark : singleMark = '\x27' := rfl
    rw [readLiterals,if_pos (by simp [mark]; omega),readLiterals,if_pos (by simp [mark]; omega),
      readLiterals,if_pos (by simp [mark]; omega)]
    cases rest with
    | nil => simp [readLiterals,mark]
    | cons c cs =>
      have other : c ≠ '\x27' := fun same => ends (by simp [same,mark])
      simp [readLiterals,other,mark]
  | cons c cs ih =>
    have few := Nat.le_trans (le_longestRun singleMark count (c :: cs)) runs
    obtain ⟨own,later⟩ := List.forall_mem_cons.1 uncoded
    rw [longestRun] at runs
    split at runs
    · next same =>
      rw [beq_iff_eq] at same
      subst same
      have mark : singleMark = '\x27' := rfl
      rw [List.cons_append,readLiterals,if_pos (by simp [mark]; omega),ih runs later,List.replicate_succ']
      simp
    · next other =>
      have other : c ≠ singleMark := by simpa using other
      have notMark : c ≠ '\x27' := other
      have plain : isLiteralChar c ∨ c = '\n' := isLiteralChar_of_plain own other
      have next := ih (Nat.le_trans (Nat.le_max_right _ _) runs) later
      rw [List.cons_append,readLiterals,if_neg (by simp [notMark]),if_neg (by omega),
        if_pos (by simpa using plain),next]
      simp [before_some,singleMark]

/-- A text behind which a string in quotes has ended. -/
def EndsString (rest : List Char) : Prop := rest.head? ≠ some quoteMark ∧ rest.head? ≠ some singleMark

theorem dropFirstLine_of_head {cs : List Char} (other : cs.head? ≠ some '\n') : dropFirstLine cs = cs := by
  unfold dropFirstLine
  split
  · simp at other
  · rfl

/-- A text between double quotes starts with its own first character or with an escape. On one line a
quote is always escaped. -/
theorem escapeBasic_cons (several : Bool) (run : Nat) (c : Char) (cs : List Char) :
    ∃ d ds, escapeBasic several run (c :: cs) = d :: ds ∧
      (d = '\\' ∨ d = c ∧ (several = false → c ≠ quoteMark)) := by
  rw [escapeBasic]
  split
  · split
    · next more =>
      rw [Bool.and_eq_true] at more
      exact ⟨_,_,rfl,.inr ⟨rfl,by simp [more.1]⟩⟩
    · exact ⟨_,_,rfl,.inl rfl⟩
  · next other =>
    split
    · next given =>
      obtain ⟨behind,rfl,-⟩ := readBasic_escape given
      exact ⟨_,_,rfl,.inl rfl⟩
    · exact ⟨_,_,rfl,.inr ⟨rfl,fun _ => by simpa using other⟩⟩

theorem readString_basic {text : List Char} (single : ¬ [quoteMark,quoteMark] <+: text) :
    readString (quoteMark :: text) = (readBasic false .plain text).map fun (s,rest) => (String.ofList s,rest) := by
  unfold readString
  split
  · next rest same =>
    exact absurd ⟨rest,(List.cons.inj same).2.symm⟩ single
  · next same => rw [(List.cons.inj same).2]
  · next same => cases same
  · next same => cases same
  · next _ other _ _ => exact absurd rfl (other text)

theorem readString_basicLines (text : List Char) : readString (List.replicate 3 quoteMark ++ text) =
    (readBasic true .plain (dropFirstLine text)).map fun (s,rest) => (String.ofList s,rest) := rfl

theorem readString_literal {text : List Char} (single : ¬ [singleMark,singleMark] <+: text) :
    readString (singleMark :: text) = (readLiteral text).map fun (s,rest) => (String.ofList s,rest) := by
  unfold readString
  split
  · next same => cases same
  · next same => cases same
  · next rest same =>
    exact absurd ⟨rest,(List.cons.inj same).2.symm⟩ single
  · next same => rw [(List.cons.inj same).2]
  · next other => exact absurd rfl (other text)

theorem readString_literalLines (text : List Char) : readString (List.replicate 3 singleMark ++ text) =
    (readLiterals 0 (dropFirstLine text)).map fun (s,rest) => (String.ofList s,rest) := rfl

theorem of_stringForm_literal {cs : List Char} (form : stringForm cs = .literal) :
    (∀ c ∈ cs, ¬ needsCode c) ∧ singleMark ∉ cs ∧ '\n' ∉ cs := by
  simp only [stringForm] at form
  split at form
  · cases form
  split at form
  · next plain =>
    simp only [Bool.and_eq_true,Bool.not_eq_true',beq_iff_eq,List.any_eq_false,List.contains_eq_mem,
      decide_eq_false_iff_not] at plain
    exact ⟨plain.1.1,longestRun_eq_zero plain.1.2,plain.2⟩
  split at form
  · cases form
  split at form
  · cases form
  · split at form <;> cases form

theorem of_stringForm_literalLines {cs : List Char} (form : stringForm cs = .literalLines) :
    (∀ c ∈ cs, ¬ needsCode c) ∧ longestRun singleMark 0 cs ≤ 2 := by
  simp only [stringForm] at form
  split at form
  · cases form
  split at form
  · cases form
  split at form
  · cases form
  split at form
  · next plain =>
    simp only [Bool.and_eq_true,Bool.not_eq_true',List.any_eq_false,decide_eq_true_eq] at plain
    exact plain
  · split at form <;> cases form

/-- The line feed in front of a text on several lines is dropped again. -/
theorem dropFirstLine_append {cs text : List Char} (other : '\n' ∉ cs → text.head? ≠ some '\n') :
    dropFirstLine ((if cs.contains '\n' then ['\n'] else []) ++ text) = text := by
  split
  · rfl
  · next newline =>
    exact dropFirstLine_of_head (other (by simpa using newline))

/-- A string is read back from its text. -/
theorem readString_writeForm (cs : List Char) {rest : List Char} (ends : EndsString rest) :
    readString (writeForm (stringForm cs) cs ++ rest) = some (String.ofList cs,rest) := by
  cases form : stringForm cs with
  | basic =>
    have read := readBasic_escapeBasic ends.1 cs (Nat.zero_le 2) (fun _ : false = false => rfl)
    have single : ¬ [quoteMark,quoteMark] <+: escapeBasic false 0 cs ++ (closing false ++ rest) := by
      rintro ⟨tail,same⟩
      cases cs with
      | nil =>
        have behind : quoteMark :: tail = rest := (List.cons.inj same).2
        exact ends.1 (by rw [← behind]; rfl)
      | cons c cs =>
        obtain ⟨d,ds,start,own⟩ := escapeBasic_cons false 0 c cs
        rw [start] at same
        have head : quoteMark = d := (List.cons.inj same).1
        rcases own with rfl | ⟨rfl,other⟩
        · exact absurd head (by decide)
        · exact other rfl head.symm
    have text : writeForm .basic cs ++ rest =
        quoteMark :: (escapeBasic false 0 cs ++ (closing false ++ rest)) := by
      simp [writeForm,closing]
    rw [text,readString_basic single]
    exact congrArg _ read
  | literal =>
    obtain ⟨uncoded,unmarked,whole⟩ := of_stringForm_literal form
    have plain (c : Char) (member : c ∈ cs) : c ≠ singleMark ∧ isLiteralChar c := by
      have other : c ≠ singleMark := fun same => unmarked (same ▸ member)
      refine ⟨other,(isLiteralChar_of_plain (uncoded c member) other).resolve_right ?_⟩
      exact fun same => whole (same ▸ member)
    have single : ¬ [singleMark,singleMark] <+: cs ++ singleMark :: rest := by
      rintro ⟨tail,same⟩
      cases cs with
      | nil => exact ends.2 (by rw [← (List.cons.inj same).2]; rfl)
      | cons c cs => exact unmarked (by simp [(List.cons.inj same).1])
    have text : writeForm .literal cs ++ rest = singleMark :: (cs ++ singleMark :: rest) := by
      simp [writeForm]
    rw [text,readString_literal single,readLiteral_append plain]
    rfl
  | basicLines =>
    have read := readBasic_escapeBasic ends.1 cs (Nat.zero_le 2) (fun same : true = false => nomatch same)
    have text : writeForm .basicLines cs ++ rest = List.replicate 3 quoteMark ++
        ((if cs.contains '\n' then ['\n'] else []) ++ (escapeBasic true 0 cs ++ (closing true ++ rest))) := by
      simp [writeForm,closing]
    rw [text,readString_basicLines,dropFirstLine_append]
    · exact congrArg _ read
    · intro whole head
      cases cs with
      | nil =>
        have same : quoteMark = '\n' := Option.some.inj head
        exact absurd same (by decide)
      | cons c cs =>
        obtain ⟨d,ds,start,own⟩ := escapeBasic_cons true 0 c cs
        rw [start] at head
        have same : d = '\n' := Option.some.inj head
        rcases own with rfl | ⟨rfl,-⟩
        · exact absurd same (by decide)
        · exact whole (by simp [same])
  | literalLines =>
    obtain ⟨uncoded,runs⟩ := of_stringForm_literalLines form
    have text : writeForm .literalLines cs ++ rest = List.replicate 3 singleMark ++
        ((if cs.contains '\n' then ['\n'] else []) ++ (cs ++ (List.replicate 3 singleMark ++ rest))) := by
      simp [writeForm]
    rw [text,readString_literalLines,dropFirstLine_append,readLiterals_append ends.2 runs uncoded]
    · rfl
    · intro whole head
      cases cs with
      | nil =>
        have same : singleMark = '\n' := Option.some.inj head
        exact absurd same (by decide)
      | cons c cs => exact whole (by simp [Option.some.inj head])

theorem return_not_mem_escape {several : Bool} {c : Char} {escape : List Char}
    (given : escapeOf? several c = some escape) : '\r' ∉ escape := by
  have digit : ∀ n < 16, '\r' ≠ upperHexDigit n := by decide
  simp only [escapeOf?] at given
  split at given
  · cases given; decide
  split at given
  · cases given; decide
  split at given
  · split at given
    · cases given
    · cases given; decide
  split at given
  · cases given; decide
  split at given
  · cases given; decide
  split at given
  · cases given; decide
  split at given
  · next control =>
    cases given
    simp only [Bool.or_eq_true,decide_eq_true_eq,beq_iff_eq] at control
    have high := digit (c.toNat / 16) (by omega)
    have low := digit (c.toNat % 16) (by omega)
    simp [high,low]
  · cases given

theorem return_not_mem_escapeBasic (several : Bool) (run : Nat) (cs : List Char) :
    '\r' ∉ escapeBasic several run cs := by
  induction cs generalizing run with
  | nil => simp [escapeBasic]
  | cons c cs ih =>
    rw [escapeBasic]
    split
    · next same =>
      rw [beq_iff_eq] at same
      subst same
      have other : '\r' ≠ quoteMark := by decide
      split <;> simp [ih,other]
    · split
      · next given =>
        have plain := return_not_mem_escape given
        simp [ih,plain]
      · next none =>
        have other : '\r' ≠ c := by
          rintro rfl
          cases none
        simp [ih,other]

/-- No text of a string has a carriage return. -/
theorem return_not_mem_writeForm (cs : List Char) : '\r' ∉ writeForm (stringForm cs) cs := by
  have uncoded (uncoded : ∀ c ∈ cs, ¬ needsCode c) : '\r' ∉ cs := fun member => uncoded _ member rfl
  have double : '\r' ≠ quoteMark := by decide
  have single : '\r' ≠ singleMark := by decide
  cases form : stringForm cs with
  | basic => simp [writeForm,return_not_mem_escapeBasic,double]
  | literal => simp [writeForm,uncoded (of_stringForm_literal form).1,single]
  | basicLines => simp [writeForm,return_not_mem_escapeBasic,double]
  | literalLines => simp [writeForm,uncoded (of_stringForm_literalLines form).1,single]

theorem writeForm_cons (form : StringForm) (cs : List Char) : ∃ c text, writeForm form cs = c :: text ∧
    (c = quoteMark ∨ c = singleMark) := by
  cases form with
  | basic => exact ⟨_,_,rfl,.inl rfl⟩
  | literal => exact ⟨_,_,rfl,.inr rfl⟩
  | basicLines => exact ⟨_,_,rfl,.inl rfl⟩
  | literalLines => exact ⟨_,_,rfl,.inr rfl⟩

/-- The characters of a string as it is written. -/
def stringText (s : String) : List Char := (writeString s).toList

theorem stringText_eq (s : String) : stringText s = writeForm (stringForm s.toList) s.toList :=
  String.toList_ofList

theorem stringText_cons (s : String) : ∃ c text, stringText s = c :: text ∧ (c = quoteMark ∨ c = singleMark) := by
  rw [stringText_eq]
  exact writeForm_cons _ _

theorem readValue_stringText (s : String) {rest : List Char} (ends : EndsString rest) (fuel depth : Nat) :
    readValue (fuel + 1) depth (stringText s ++ rest) = some (.string s,rest) := by
  obtain ⟨c,text,start,mark⟩ := stringText_cons s
  have read := readString_writeForm s.toList ends
  rw [String.ofList_toList,← stringText_eq,start] at read
  have quoted : (c == '\x22' || c == '\x27') = true := by
    rcases mark with rfl | rfl <;> rfl
  rw [start,List.cons_append]
  unfold readValue
  dsimp only
  rw [if_pos quoted,← List.cons_append,read]
  rfl

theorem skipSpaces_stringText (s : String) (rest : List Char) :
    skipSpaces (stringText s ++ rest) = stringText s ++ rest := by
  obtain ⟨c,text,start,mark⟩ := stringText_cons s
  rw [start]
  rcases mark with rfl | rfl <;> rfl

theorem skipSpaces_space (cs : List Char) : skipSpaces (' ' :: cs) = skipSpaces cs := rfl

theorem skipLines_newline (fuel : Nat) (cs : List Char) :
    skipLines (fuel + 1) ('\n' :: cs) = skipLines fuel cs := rfl

/-- Blanks in front of a string are skipped. -/
theorem skipLines_stringText {cs : List Char} {s : String} {rest : List Char}
    (blank : skipSpaces cs = stringText s ++ rest) (fuel : Nat) :
    skipLines (fuel + 1) cs = some (stringText s ++ rest) := by
  obtain ⟨c,text,start,mark⟩ := stringText_cons s
  rw [skipLines,blank,start]
  rcases mark with rfl | rfl <;> rfl

theorem endsString_cons {c : Char} (other : c ≠ quoteMark ∧ c ≠ singleMark) (rest : List Char) :
    EndsString (c :: rest) := by
  simpa [EndsString] using other

theorem skipLines_of_mark {c : Char} (mark : c = ',' ∨ c = ']') (rest : List Char) (fuel : Nat) :
    skipLines (fuel + 1) (c :: rest) = some (c :: rest) := by
  rcases mark with rfl | rfl <;> rfl

/-- The items of an array on lines of their own, each with a comma behind it. -/
def itemLines (items : List String) : List Char :=
  items.flatMap fun s => '\n' :: ' ' :: ' ' :: ' ' :: ' ' :: (stringText s ++ [','])

/-- An item is read, and behind its comma the other items, or none behind the closing bracket. -/
theorem readItems_string {s : String} {cs : List Char} {c : Char} {rest rest' : List Char} {items : List Toml}
    {fuel depth : Nat} (skipped : skipLines (cs.length + 1) cs = some (stringText s ++ c :: rest))
    (later : c = ',' ∧ readItems (fuel + 1) depth rest = some (items,rest') ∨
      c = ']' ∧ items = [] ∧ rest' = rest) :
    readItems (fuel + 2) depth cs = some (.string s :: items,rest') := by
  have mark : c = ',' ∨ c = ']' := later.imp And.left And.left
  have ends : EndsString (c :: rest) := endsString_cons (by rcases mark with rfl | rfl <;> decide) rest
  have read := readValue_stringText s ends fuel depth
  have next := skipLines_of_mark mark rest (rest.length + 1)
  obtain ⟨d,text,start,quoted⟩ := stringText_cons s
  unfold readItems
  simp only [skipped,Option.bind_eq_bind,Option.bind_some]
  split
  · next same =>
    rw [start,List.cons_append,List.cons.injEq] at same
    rcases quoted with rfl | rfl <;> exact absurd same.1 (by decide)
  · simp only [read,List.length_cons,next,Option.bind_some]
    rcases later with ⟨rfl,later⟩ | ⟨rfl,rfl,rfl⟩
    · simp [later]
    · rfl

theorem readItems_itemLines (items : List String) (rest : List Char) {fuel : Nat}
    (enough : items.length < fuel) (depth : Nat) :
    readItems fuel depth (itemLines items ++ '\n' :: ']' :: rest) = some (items.map .string,rest) := by
  induction items generalizing fuel with
  | nil =>
    obtain ⟨fuel,rfl⟩ := Nat.exists_eq_add_of_lt enough
    have skipped : skipLines (rest.length + 3) ('\n' :: ']' :: rest) = some (']' :: rest) := rfl
    unfold readItems
    simp only [itemLines,List.flatMap_nil,List.nil_append,List.length_cons,skipped]
    rfl
  | cons s items ih =>
    obtain ⟨fuel,rfl⟩ : ∃ k, fuel = k + 2 := ⟨fuel - 2,by simp at enough; omega⟩
    let behind := itemLines items ++ '\n' :: ']' :: rest
    have text : itemLines (s :: items) ++ '\n' :: ']' :: rest =
        '\n' :: ' ' :: ' ' :: ' ' :: ' ' :: (stringText s ++ ',' :: behind) := by
      simp [itemLines,behind]
    have skipped : skipLines ((itemLines (s :: items) ++ '\n' :: ']' :: rest).length + 1)
        (itemLines (s :: items) ++ '\n' :: ']' :: rest) = some (stringText s ++ ',' :: behind) := by
      rw [text,List.length_cons,skipLines_newline]
      refine skipLines_stringText ?_ _
      simp only [skipSpaces_space,skipSpaces_stringText]
    exact readItems_string skipped (.inl ⟨rfl,ih (by simpa using enough)⟩)

/-- The characters of an array of strings as it is written. -/
def stringsText (items : List String) : List Char := (writeStrings items).toList

theorem join_lines (items : List String) :
    '\n' :: (String.join (items.map fun s => "    " ++ writeString s ++ ",\n")).toList =
      itemLines items ++ ['\n'] := by
  induction items with
  | nil => rfl
  | cons s items ih => simpa [itemLines,stringText] using ih

theorem stringsText_lines (s t : String) (items : List String) :
    stringsText (s :: t :: items) = '[' :: (itemLines (s :: t :: items) ++ ['\n',']']) := by
  have lines := congrArg (· ++ [']']) (join_lines (s :: t :: items))
  have text : stringsText (s :: t :: items) = '[' :: ('\n' :: (String.join ((s :: t :: items).map
      fun s => "    " ++ writeString s ++ ",\n")).toList ++ [']']) := by
    simp [stringsText,writeStrings]
  rw [text,lines]
  simp

theorem stringsText_one (s : String) : stringsText [s] = '[' :: (stringText s ++ [']']) := by
  simp [stringsText,writeStrings,stringText]

theorem stringsText_cons (items : List String) : ∃ text, stringsText items = '[' :: text := by
  rcases items with _ | ⟨s,_ | ⟨t,items⟩⟩
  · exact ⟨[']'],by simp [stringsText,writeStrings]⟩
  · exact ⟨_,stringsText_one s⟩
  · exact ⟨_,stringsText_lines s t items⟩

theorem readValue_array {fuel depth : Nat} {text rest : List Char} {items : List Toml}
    (read : readItems fuel depth text = some (items,rest)) :
    readValue (fuel + 1) (depth + 1) ('[' :: text) = some (.array items,rest) := by
  unfold readValue
  simp [read]

/-- An array of strings is read back from its text. -/
theorem readValue_stringsText (items : List String) (rest : List Char) {fuel : Nat}
    (enough : items.length < fuel) (depth : Nat) :
    readValue (fuel + 1) (depth + 1) (stringsText items ++ rest) =
      some (.array (items.map .string),rest) := by
  rcases items with _ | ⟨s,_ | ⟨t,items⟩⟩
  · obtain ⟨fuel,rfl⟩ := Nat.exists_eq_add_of_lt enough
    have text : stringsText [] ++ rest = '[' :: ']' :: rest := by
      simp [stringsText,writeStrings]
    have skipped := skipLines_of_mark (.inr rfl) rest (rest.length + 1)
    rw [text]
    refine readValue_array ?_
    unfold readItems
    simp [skipped]
  · obtain ⟨fuel,rfl⟩ : ∃ k, fuel = k + 2 := ⟨fuel - 2,by simp at enough; omega⟩
    rw [stringsText_one,List.cons_append,List.append_assoc]
    refine readValue_array (readItems_string ?_ (.inr ⟨rfl,rfl,rfl⟩))
    exact skipLines_stringText (skipSpaces_stringText s _) _
  · rw [stringsText_lines,List.cons_append,List.append_assoc]
    exact readValue_array (readItems_itemLines _ _ enough _)

theorem return_not_mem_stringText (s : String) : '\r' ∉ stringText s := by
  rw [stringText_eq]
  exact return_not_mem_writeForm s.toList

theorem return_not_mem_stringsText (items : List String) : '\r' ∉ stringsText items := by
  have lines (items : List String) : '\r' ∉ itemLines items := by
    simp [itemLines,return_not_mem_stringText]
  rcases items with _ | ⟨s,_ | ⟨t,items⟩⟩
  · simp [stringsText,writeStrings]
  · simp [stringsText_one,return_not_mem_stringText]
  · simp [stringsText_lines,lines]

theorem length_le_stringsText (items : List String) : items.length ≤ (stringsText items).length := by
  have lines (items : List String) : items.length ≤ (itemLines items).length := by
    induction items with
    | nil => exact Nat.zero_le _
    | cons s items ih =>
      simp only [itemLines,List.flatMap_cons,List.length_append,List.length_cons] at ih ⊢
      omega
  rcases items with _ | ⟨s,_ | ⟨t,items⟩⟩
  · exact Nat.zero_le _
  · simp [stringsText_one]
  · have own := lines (s :: t :: items)
    simp only [stringsText_lines,List.length_cons,List.length_append] at own ⊢
    omega

/-- A text without carriage returns has its line ends as they should be. -/
theorem joinLineEnds_of_not_mem {cs : List Char} (none : '\r' ∉ cs) : joinLineEnds cs = cs := by
  fun_induction joinLineEnds cs with
  | case1 cs ih => simp at none
  | case2 c cs other ih => rw [ih (by simp_all)]
  | case3 => rfl

end Excerpt.Toml
