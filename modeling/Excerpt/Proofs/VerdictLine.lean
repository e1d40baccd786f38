import Excerpt.Proofs.JsonText
import Excerpt.Process
import Mathlib.Data.List.DropRight

/-!
The verdict in the output of a process. The last line that shows an object decides, and a verdict that
is written on a line of its own is read back. A line that has other output in front of it is no such
line, so output without a line end hides the verdict behind it.
-/
namespace Excerpt
open Excerpt.Text

/-- A text behind which a line starts. -/
def StartsLine (before : List Char) : Prop := before = [] ∨ before.getLast? = some '\n'

/-- A text in front of which a line ends. -/
def EndsLine (after : List Char) : Prop := after = [] ∨ after.head? = some '\n'

/-- A line of a text, with what stands in front of it and behind it. -/
structure IsLine (text before line after : List Char) : Prop where
  parts : text = before ++ (line ++ after)
  starts : StartsLine before
  whole : '\n' ∉ line
  ends : EndsLine after

/-- A line that starts with the marker and shows an object behind it: what stands between an opening
brace right behind the marker and a closing brace behind which there are only blanks. -/
structure Shows (line object : List Char) : Prop where
  parts : ∃ blanks, line = verdictMarker ++ (object ++ blanks) ∧ ∀ c ∈ blanks, isBlank c
  opened : object.head? = some '\x7b'
  closed : object.getLast? = some '\x7d'

/-- No line of the text shows an object. -/
def NoneShown (text : List Char) : Prop :=
  ∀ before line after object, IsLine text before line after → ¬ Shows line object

/-- The object on the last line that shows one. -/
def LastShown (text object : List Char) : Prop :=
  ∃ before line after, IsLine text before line after ∧ Shows line object ∧ NoneShown after

theorem dropEndWhile_blanks {object blanks : List Char} (closed : object.getLast? = some '\x7d')
    (blank : ∀ c ∈ blanks, isBlank c) : dropEndWhile isBlank (object ++ blanks) = object := by
  have behind (c : Char) (member : c ∈ blanks.reverse) : isBlank c := blank c (List.mem_reverse.1 member)
  have stop : object.reverse.dropWhile isBlank = object.reverse := by
    rw [List.getLast?_eq_head?_reverse] at closed
    cases reversed : object.reverse with
    | nil => rfl
    | cons c cs =>
      rw [reversed] at closed
      cases closed
      rfl
  rw [dropEndWhile,List.reverse_append,List.dropWhile_append_of_pos behind,stop,List.reverse_reverse]

/-- The search for an object on a line finds what the line shows. -/
theorem verdictOn?_eq_some {line object : List Char} :
    verdictOn? line = some object ↔ Shows line object := by
  constructor
  · intro found
    unfold verdictOn? at found
    split at found
    · next marked =>
      obtain ⟨rest,rfl⟩ := List.isPrefixOf_iff_prefix.1 marked
      dsimp only at found
      rw [List.drop_left] at found
      split at found
      · next braces =>
        cases found
        rw [Bool.and_eq_true,beq_iff_eq,beq_iff_eq] at braces
        refine ⟨⟨rest.rtakeWhile isBlank,?_,fun c member => List.mem_rtakeWhile_imp member⟩,braces.1,braces.2⟩
        exact congrArg _ (List.rdropWhile_append_rtakeWhile).symm
      · cases found
    · cases found
  · rintro ⟨⟨blanks,rfl,blank⟩,opened,closed⟩
    have marked : verdictMarker.isPrefixOf (verdictMarker ++ (object ++ blanks)) := by simp
    unfold verdictOn?
    rw [if_pos marked,List.drop_left]
    dsimp only
    rw [dropEndWhile_blanks closed blank,opened,closed]
    rfl

theorem verdictOn?_eq_none {line : List Char} :
    verdictOn? line = none ↔ ∀ object, ¬ Shows line object := by
  rw [Option.eq_none_iff_forall_ne_some]
  exact forall_congr' fun object => not_congr verdictOn?_eq_some

theorem splitChars_append (current before after : List Char) :
    splitChars '\n' current (before ++ '\n' :: after) =
      splitChars '\n' current before ++ splitChars '\n' [] after := by
  induction before generalizing current with
  | nil => simp [splitChars]
  | cons c cs ih =>
    rw [List.cons_append,splitChars,splitChars]
    split
    · rw [ih,List.cons_append]
    · exact ih (c :: current)

theorem splitChars_of_whole {line : List Char} (whole : '\n' ∉ line) (current : List Char) :
    splitChars '\n' current line = [current.reverse ++ line] := by
  induction line generalizing current with
  | nil => simp [splitChars]
  | cons c cs ih =>
    rw [List.mem_cons,not_or] at whole
    rw [splitChars,if_neg (Ne.symm whole.1),ih whole.2,List.reverse_cons,List.append_assoc]
    rfl

/-- A line end in front of a text, or a whole line, does not change what its lines are. -/
theorem IsLine.behind {text before line after : List Char} (own : IsLine text before line after)
    (front : List Char) : IsLine (front ++ '\n' :: text) (front ++ '\n' :: before) line after := by
  refine ⟨by simp [own.parts],.inr ?_,own.whole,own.ends⟩
  rcases own.starts with rfl | ended
  · simp
  · rw [List.getLast?_append,List.getLast?_cons,ended]
    rfl

/-- The parts of a text between line ends are its lines. -/
theorem isLine_of_mem {current text line : List Char} (whole : '\n' ∉ current)
    (member : line ∈ splitChars '\n' current text) :
    ∃ before after, IsLine (current.reverse ++ text) before line after := by
  induction text generalizing current with
  | nil =>
    rw [splitChars,List.mem_singleton] at member
    exact ⟨[],[],by simp [member],.inl rfl,by simpa [member] using whole,.inl rfl⟩
  | cons c cs ih =>
    rw [splitChars] at member
    split at member
    · next same =>
      subst same
      rcases List.mem_cons.1 member with rfl | later
      · exact ⟨[],'\n' :: cs,rfl,.inl rfl,by simpa using whole,.inr rfl⟩
      · obtain ⟨before,after,own⟩ := ih (by simp) later
        exact ⟨_,after,own.behind current.reverse⟩
    · next other =>
      have longer : '\n' ∉ c :: current := by simp [whole,Ne.symm other]
      obtain ⟨before,after,own⟩ := ih longer member
      rw [List.reverse_cons,List.append_assoc] at own
      exact ⟨before,after,own⟩

/-- The lines of a text are those before a line, the line itself and those behind it. -/
theorem IsLine.splitChars_eq {text before line after : List Char} (own : IsLine text before line after) :
    ∃ earlier, splitChars '\n' [] text = earlier ++ line :: (splitChars '\n' [] after).tail := by
  have behind : splitChars '\n' [] (line ++ after) = line :: (splitChars '\n' [] after).tail := by
    rcases own.ends with rfl | next
    · rw [List.append_nil,splitChars_of_whole own.whole]
      rfl
    · obtain ⟨rest,rfl⟩ := List.head?_eq_some_iff.1 next
      rw [splitChars_append,splitChars_of_whole own.whole]
      rfl
  rcases own.starts with rfl | ended
  · exact ⟨[],by rw [own.parts,List.nil_append,behind]; rfl⟩
  · obtain ⟨front,rfl⟩ := List.getLast?_eq_some_iff.1 ended
    refine ⟨splitChars '\n' [] front,?_⟩
    rw [own.parts,List.append_assoc,List.singleton_append,splitChars_append,behind]

/-- The objects that the lines of a text show, in order. -/
def shownObjects (text : List Char) : List (List Char) :=
  (splitChars '\n' [] text).filterMap verdictOn?

theorem noneShown_iff {text : List Char} : NoneShown text ↔ shownObjects text = [] := by
  rw [shownObjects,List.filterMap_eq_nil_iff]
  constructor
  · intro none line member
    obtain ⟨before,after,own⟩ := isLine_of_mem (by simp) member
    exact verdictOn?_eq_none.2 fun object => none before line after object own
  · intro none before line after object own
    obtain ⟨earlier,lines⟩ := own.splitChars_eq
    have member : line ∈ splitChars '\n' [] text := by simp [lines]
    exact verdictOn?_eq_none.1 (none line member) object

theorem shownObjects_append (before after : List Char) :
    shownObjects (before ++ '\n' :: after) = shownObjects before ++ shownObjects after := by
  rw [shownObjects,splitChars_append,List.filterMap_append]
  rfl

theorem shownObjects_of_whole {line : List Char} (whole : '\n' ∉ line) :
    shownObjects line = (verdictOn? line).toList := by
  rw [shownObjects,splitChars_of_whole whole]
  cases found : verdictOn? line <;> simp [found]

/-- The verdict that an object stands for. -/
def decodeVerdict? (object : List Char) : Option Verdict := (Json.read? object).bind verdictOf?

theorem printedVerdict?_eq (output : String) : printedVerdict? output =
    (shownObjects output.toList).getLast?.bind decodeVerdict? := rfl

theorem printedVerdict?_of_noneShown {output : String} (none : NoneShown output.toList) :
    printedVerdict? output = .none := by
  rw [printedVerdict?_eq,noneShown_iff.1 none]
  rfl

theorem printedVerdict?_of_lastShown {output : String} {object : List Char}
    (last : LastShown output.toList object) : printedVerdict? output = decodeVerdict? object := by
  obtain ⟨before,line,after,own,shows,none⟩ := last
  obtain ⟨earlier,lines⟩ := own.splitChars_eq
  have later : (splitChars '\n' [] after).tail.filterMap verdictOn? = [] := by
    have all := List.filterMap_eq_nil_iff.1 (noneShown_iff.1 none)
    exact List.filterMap_eq_nil_iff.2 fun line member => all line (List.mem_of_mem_tail member)
  rw [printedVerdict?_eq,shownObjects,lines,List.filterMap_append,List.filterMap_cons,
    verdictOn?_eq_some.2 shows,later]
  simp

namespace Verdict

/-- Verdicts that can be reported: the numbers in them are known and have 64 bits. -/
def Fits : Verdict → Prop
  | .syntaxInvalid place => ∃ line column, place = some (line,column) ∧ line < 2 ^ 64 ∧ column < 2 ^ 64
  | .hasAsync line | .hasWildcardImport line | .undefinedReference _ line => line < 2 ^ 64
  | .valid | .importRejected _ _ | .executionError _ _ => True

/-- The text of a verdict. -/
def report (v : Verdict) : List Char := v.toJson.compact.toList

theorem scalar_fields {v : Verdict} (fits : v.Fits) :
    ∀ field ∈ ("verdict",Json.string v.tag) :: v.fields, Json.Scalar field.2 := by
  cases v with
  | syntaxInvalid place =>
    obtain ⟨line,column,rfl,small,small'⟩ := fits
    simp [fields,Json.Scalar.text,Json.Scalar.number small,Json.Scalar.number small']
  | valid => simp [fields,Json.Scalar.text]
  | hasAsync line => simp [fields,Json.Scalar.text,Json.Scalar.number fits]
  | hasWildcardImport line => simp [fields,Json.Scalar.text,Json.Scalar.number fits]
  | undefinedReference name line => simp [fields,Json.Scalar.text,Json.Scalar.number fits]
  | importRejected path reason => simp [fields,Json.Scalar.text]
  | executionError exception message => simp [fields,Json.Scalar.text]

theorem natural?_ofNat {n : Nat} (fits : n < 2 ^ 64) : Json.natural? (.ofNat n) = some n := by
  have digits : (numeral n).all Char.isDigit := List.all_eq_true.2 fun _ => isDigit_of_mem_numeral
  have same : Json.natural? (.ofNat n) = if ((numeral n).all Char.isDigit &&
    decide (Json.digitsValue (numeral n) < Nat.pow 2 64)) = true then
      some (Json.digitsValue (numeral n)) else none := rfl
  rw [same,digits,Json.digitsValue_numeral]
  exact if_pos (by simpa using fits)

/-- A verdict is the verdict that its object stands for. -/
theorem verdictOf?_toJson {v : Verdict} (fits : v.Fits) : verdictOf? v.toJson = some v := by
  cases v with
  | syntaxInvalid place =>
    obtain ⟨line,column,rfl,small,small'⟩ := fits
    have first := natural?_ofNat small
    have second := natural?_ofNat small'
    simp [verdictOf?,toJson,fields,tag,Json.fields?,textField,naturalField,onlyField,Json.string?,first,second]
  | valid => rfl
  | hasAsync line =>
    have number := natural?_ofNat fits
    simp [verdictOf?,toJson,fields,tag,Json.fields?,textField,naturalField,onlyField,Json.string?,number]
  | hasWildcardImport line =>
    have number := natural?_ofNat fits
    simp [verdictOf?,toJson,fields,tag,Json.fields?,textField,naturalField,onlyField,Json.string?,number]
  | undefinedReference name line =>
    have number := natural?_ofNat fits
    simp [verdictOf?,toJson,fields,tag,Json.fields?,textField,naturalField,onlyField,Json.string?,number]
  | importRejected path reason => rfl
  | executionError exception message => rfl

theorem decodeVerdict?_report {v : Verdict} (fits : v.Fits) : decodeVerdict? v.report = some v := by
  have read := Json.read?_compact (List.cons_ne_nil _ _) (scalar_fields fits)
  rw [decodeVerdict?,report,toJson,read]
  exact verdictOf?_toJson fits

theorem shows_report {v : Verdict} : Shows (verdictMarker ++ v.report) v.report := by
  have text := Json.toList_compact_object (("verdict",.string v.tag) :: v.fields)
  refine ⟨⟨[],by rw [List.append_nil],by simp⟩,?_,?_⟩
  · rw [report,toJson,text]
    rfl
  · rw [report,toJson,text,← List.cons_append,List.getLast?_concat]

theorem newline_not_mem_report {v : Verdict} (fits : v.Fits) : '\n' ∉ v.report := by
  have text := Json.toList_compact_object (("verdict",.string v.tag) :: v.fields)
  have inside := Json.newline_not_mem_written (scalar_fields fits)
  rw [report,toJson,text]
  simp [inside]

end Verdict

/-- A verdict on a line of its own is the last that is shown if no line behind it shows an object. -/
theorem lastShown_report {v : Verdict} (fits : v.Fits) {before after : List Char}
    (starts : StartsLine before) (none : NoneShown after) :
    LastShown (before ++ (verdictMarker ++ v.report ++ '\n' :: after)) v.report := by
  have unmarked : '\n' ∉ verdictMarker := by decide
  refine ⟨before,verdictMarker ++ v.report,'\n' :: after,⟨rfl,starts,?_,.inr rfl⟩,Verdict.shows_report,?_⟩
  · simp [unmarked,Verdict.newline_not_mem_report fits]
  · have split := shownObjects_append [] after
    rw [noneShown_iff] at none ⊢
    rw [List.nil_append,none] at split
    exact split

/-- A text in which the marker stands at the start of a line, with an object behind it on the same line
and blanks behind that, which may cross line ends, up to the end of a line. -/
structure Occurs (text before object blanks after : List Char) : Prop where
  parts : text = before ++ (verdictMarker ++ (object ++ (blanks ++ after)))
  starts : StartsLine before
  opened : object.head? = some '\x7b'
  closed : object.getLast? = some '\x7d'
  whole : '\n' ∉ object
  blank : ∀ c ∈ blanks, isBlank c
  ends : EndsLine after

/-- Blanks that cross line ends do not make a difference: the marker with an object behind it occurs
where a line shows the object. -/
theorem occurs_iff_shows {text before object : List Char} :
    (∃ blanks after, Occurs text before object blanks after) ↔
      ∃ line after, IsLine text before line after ∧ Shows line object := by
  have unmarked : '\n' ∉ verdictMarker := by decide
  constructor
  · rintro ⟨blanks,after,found⟩
    let near := blanks.takeWhile (· != '\n')
    let far := blanks.dropWhile (· != '\n')
    have split : near ++ far = blanks := List.takeWhile_append_dropWhile
    have close : '\n' ∉ near := fun member => by
      simpa using List.mem_takeWhile_imp member
    refine ⟨verdictMarker ++ (object ++ near),far ++ after,⟨?_,found.starts,?_,?_⟩,⟨near,rfl,?_⟩,
      found.opened,found.closed⟩
    · rw [found.parts,← split]
      simp
    · simp [unmarked,found.whole,close]
    · cases behind : far with
      | nil => exact found.ends
      | cons c cs =>
        have stop := List.head?_dropWhile_not (· != '\n') blanks
        rw [show blanks.dropWhile (· != '\n') = c :: cs from behind] at stop
        exact .inr (by simpa using stop)
    · exact fun c member => found.blank c (List.takeWhile_subset _ member)
  · rintro ⟨line,after,own,⟨⟨blanks,rfl,blank⟩,opened,closed⟩⟩
    refine ⟨blanks,after,?_,own.starts,opened,closed,?_,blank,own.ends⟩
    · rw [own.parts]
      simp
    · exact fun member => own.whole (by simp [member])

/-- Two places where the marker occurs with an object do not overlap: the marker of the second would
stand behind a line end, which the first has in its blanks only, and the marker is not blank. -/
theorem Occurs.disjoint {text before object blanks after before' object' blanks' after' : List Char}
    (first : Occurs text before object blanks after) (second : Occurs text before' object' blanks' after')
    (earlier : before.length < before'.length) :
    (before ++ (verdictMarker ++ (object ++ blanks))).length ≤ before'.length := by
  by_contra short
  have here : before' <+: text := ⟨_,second.parts.symm⟩
  have reach : before ++ (verdictMarker ++ (object ++ blanks)) <+: text := ⟨after,by simp [first.parts]⟩
  obtain ⟨y,inside⟩ := List.prefix_of_prefix_length_le here reach (by omega)
  obtain ⟨x,rfl⟩ := List.prefix_of_prefix_length_le ⟨_,first.parts.symm⟩ here earlier.le
  have ended : x.getLast? = some '\n' := by
    have nonempty : x ≠ [] := by rintro rfl; simp at earlier
    rcases second.starts with empty | ended
    · simp_all
    · rwa [List.getLast?_append_of_ne_nil _ nonempty] at ended
  have marked : '@' ∈ y := by
    have rest : y ++ after = verdictMarker ++ (object' ++ (blanks' ++ after')) := by
      apply (List.append_right_inj (before ++ x)).1
      rw [← second.parts,← List.append_assoc,inside,first.parts]
      simp
    cases y with
    | nil => simp [← inside] at short
    | cons c cs =>
      have head : c = '@' := (List.cons.inj rest).1
      simp [head]
  rw [List.append_assoc,List.append_cancel_left_eq,← List.append_assoc,List.append_eq_append_iff] at inside
  have close : '\n' ∈ x := List.mem_of_getLast? ended
  rcases inside with ⟨z,parts,rfl⟩ | ⟨z,rfl,parts⟩
  · have unmarked : '\n' ∉ verdictMarker ++ object := by
      simp [first.whole,show '\n' ∉ verdictMarker by decide]
    exact unmarked (by simp [parts,close])
  · have blank := first.blank '@' (by simp [parts,marked])
    exact absurd blank (by decide)

/-- A text has a last line that shows an object unless none does. -/
theorem noneShown_or_lastShown (text : List Char) : NoneShown text ∨ ∃ object, LastShown text object := by
  by_cases none : NoneShown text
  · exact .inl none
  · simp only [NoneShown,not_forall,not_not] at none
    obtain ⟨before,line,after,object,own,shows⟩ := none
    obtain ⟨blanks,rfl,-⟩ := shows.parts
    obtain ⟨rest,marker⟩ : ∃ rest, verdictMarker = '@' :: rest := ⟨_,rfl⟩
    have shorter : after.length < text.length := by
      rw [own.parts,marker]
      simp only [List.length_append,List.length_cons]
      omega
    rcases noneShown_or_lastShown after with none | ⟨object',before',line',after',own',shows',none⟩
    · exact .inr ⟨object,before,_,after,own,shows,none⟩
    · refine .inr ⟨object',before ++ (verdictMarker ++ (object ++ blanks) ++ before'),line',after',
        ⟨?_,?_,own'.whole,own'.ends⟩,shows',none⟩
      · rw [own.parts,own'.parts]
        simp
      · rcases own'.starts with rfl | ended
        · obtain ⟨_,rfl,-⟩ := shows'.parts
          have head : after.head? = some '@' := by
            simp [own'.parts,marker]
          rcases own.ends with rfl | next
          · cases head
          · rw [head] at next
            cases next
        · exact .inr (by simp [ended])
termination_by text.length

/-- The last line of an output that shows an object decides what its verdict is, and a verdict on a line
of its own is read back. The marker with an object and blanks that cross line ends does not occur
anywhere but on such a line, and no two of these places overlap. -/
theorem last_verdict_line_decides (output : String) :
    (∀ object, LastShown output.toList object → printedVerdict? output = decodeVerdict? object) ∧
    (NoneShown output.toList → printedVerdict? output = none) ∧
    (NoneShown output.toList ∨ ∃ object, LastShown output.toList object) ∧
    (∀ (v : Verdict) (before after : String), v.Fits → StartsLine before.toList →
      NoneShown after.toList →
        printedVerdict? (before ++ String.ofList (verdictMarker ++ v.report) ++ "\n" ++ after) = some v) ∧
    (∀ before object, (∃ blanks after, Occurs output.toList before object blanks after) ↔
      ∃ line after, IsLine output.toList before line after ∧ Shows line object) ∧
    ∀ before object blanks after before' object' blanks' after',
      Occurs output.toList before object blanks after →
      Occurs output.toList before' object' blanks' after' → before.length < before'.length →
        (before ++ (verdictMarker ++ (object ++ blanks))).length ≤ before'.length := by
  refine ⟨fun _ => printedVerdict?_of_lastShown,printedVerdict?_of_noneShown,
    noneShown_or_lastShown _,?_,fun _ _ => occurs_iff_shows,fun _ _ _ _ _ _ _ _ => Occurs.disjoint⟩
  intro v before after fits starts none
  have last : LastShown (before ++ String.ofList (verdictMarker ++ v.report) ++ "\n" ++ after).toList
      v.report := by
    simpa using lastShown_report fits starts none
  rw [printedVerdict?_of_lastShown last]
  exact Verdict.decodeVerdict?_report fits

/-- A line with a verdict in front, a message that holds a marked line itself, and a marked line without
an object behind. -/
theorem last_verdict_line_decides_nested :
    let v := Verdict.executionError "ValueError" "\n@@pyslice-verdict@@ \x7b\x7d\n\x22"
    let before := "@@pyslice-verdict@@ \x7b\x22verdict\x22:\x22valid\x22\x7d\n"
    let after := "@@pyslice-verdict@@ broken\n"
    v.Fits ∧ StartsLine before.toList ∧ NoneShown after.toList ∧
      printedVerdict? (before ++ String.ofList (verdictMarker ++ v.report) ++ "\n" ++ after) = some v := by
  intro v before after
  have fits : v.Fits := trivial
  have starts : StartsLine before.toList := .inr (by decide)
  have none : NoneShown after.toList := noneShown_iff.2 (by decide)
  exact ⟨fits,starts,none,(last_verdict_line_decides "").2.2.2.1 v before after fits starts none⟩

end Excerpt
