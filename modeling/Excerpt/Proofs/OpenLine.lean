import Excerpt.Proofs.VerdictLine

/-!
A verdict behind other output. A verdict is read back if the output in front of it ends with a line. If it
does not, the verdict shares its line with the end of that output and is lost, whatever it is: an earlier
line of the output decides instead, or none if the open line starts like a verdict itself.
-/
namespace Excerpt
open Excerpt.Text

/-- What an output has behind its last line end. -/
def openLine (out : List Char) : List Char := out.rtakeWhile (· != '\n')

/-- An output up to its last line end. -/
def completeLines (out : List Char) : List Char := out.rdropWhile (· != '\n')

theorem completeLines_append_openLine (out : List Char) : completeLines out ++ openLine out = out :=
  List.rdropWhile_append_rtakeWhile

theorem newline_not_mem_openLine (out : List Char) : '\n' ∉ openLine out :=
  fun member => by simpa using List.mem_rtakeWhile_imp member

theorem startsLine_completeLines (out : List Char) : StartsLine (completeLines out) := by
  by_cases empty : completeLines out = []
  · exact .inl empty
  · have ended := List.rdropWhile_last_not (· != '\n') out empty
    refine .inr ?_
    rw [bne_iff_ne,not_not] at ended
    rw [List.getLast?_eq_some_getLast empty]
    exact congrArg some ended

/-- An output has no open line if it is empty or ends with a line end. -/
theorem openLine_eq_nil_iff {out : List Char} : openLine out = [] ↔ StartsLine out := by
  constructor
  · intro empty
    have same := completeLines_append_openLine out
    rw [empty,List.append_nil] at same
    exact same ▸ startsLine_completeLines out
  · rintro (rfl | ended)
    · rfl
    · obtain ⟨front,rfl⟩ := List.getLast?_eq_some_iff.1 ended
      simp [openLine]

/-- An output with a verdict behind it, as a process prints it. -/
def reported (out : String) (v : Verdict) : String :=
  out ++ String.ofList (verdictMarker ++ v.report) ++ "\n"

/-- The objects that the lines of an output show, with one line more behind it. -/
theorem shownObjects_line {lines line : List Char} (starts : StartsLine lines) (whole : '\n' ∉ line) :
    shownObjects (lines ++ (line ++ ['\n'])) = shownObjects lines ++ (verdictOn? line).toList := by
  have last : shownObjects (line ++ ['\n']) = (verdictOn? line).toList := by
    rw [shownObjects_append,shownObjects_of_whole whole]
    exact List.append_nil _
  rcases starts with rfl | ended
  · exact last
  · obtain ⟨front,rfl⟩ := List.getLast?_eq_some_iff.1 ended
    rw [List.append_assoc,List.singleton_append,shownObjects_append,last,shownObjects_append]
    exact congrArg (· ++ _) (List.append_nil _).symm

theorem marker_unbordered : ∀ k < 20, 0 < k → ¬ (verdictMarker.drop k).isPrefixOf verdictMarker := by
  decide

/-- The marker does not overlap itself, so no text in front of it makes it start earlier. -/
theorem marker_prefix_of_append {front rest : List Char} (present : front ≠ [])
    (marked : verdictMarker <+: front ++ (verdictMarker ++ rest)) : verdictMarker <+: front := by
  obtain ⟨tail,same⟩ := marked
  rcases List.append_eq_append_iff.1 same with ⟨z,long,-⟩ | ⟨z,short,behind⟩
  · exact ⟨z,long.symm⟩
  · by_cases empty : z = []
    · exact ⟨[],by rw [short,empty,List.append_nil,List.append_nil]⟩
    · exfalso
      have length : front.length + z.length = 20 := by
        rw [← List.length_append,← short]
        decide
      have border : z <+: verdictMarker := by
        refine List.prefix_of_prefix_length_le ⟨tail,behind.symm⟩ (List.prefix_append _ rest) ?_
        rw [short]
        simp
      have dropped : verdictMarker.drop front.length = z := by rw [short,List.drop_left]
      refine marker_unbordered front.length ?_ (List.length_pos_iff.2 present) ?_
      · have := List.length_pos_iff.2 empty
        omega
      · rw [dropped]
        exact List.isPrefixOf_iff_prefix.2 border

/-- How a line has to start to show an object. -/
def verdictStart : List Char := verdictMarker ++ ['\x7b']

/-- A verdict behind an open line that starts like a verdict makes one long object with it. -/
theorem shows_of_start {o : List Char} (v : Verdict) :
    Shows (verdictStart ++ o ++ (verdictMarker ++ v.report)) ('\x7b' :: o ++ (verdictMarker ++ v.report)) := by
  have closed := (Verdict.shows_report (v := v)).closed
  refine ⟨⟨[],by simp [verdictStart],by simp⟩,rfl,?_⟩
  rw [List.getLast?_append,List.getLast?_append,closed]
  rfl

/-- A verdict behind an open line that does not start like a verdict is not shown. -/
theorem verdictOn?_hidden {front : List Char} (present : front ≠ []) (v : Verdict)
    (other : ¬ verdictStart <+: front) : verdictOn? (front ++ (verdictMarker ++ v.report)) = none := by
  refine verdictOn?_eq_none.2 fun object shows => other ?_
  obtain ⟨blanks,line,-⟩ := shows.parts
  obtain ⟨o,rfl⟩ := marker_prefix_of_append present ⟨_,line.symm⟩
  obtain ⟨inside,rfl⟩ := List.head?_eq_some_iff.1 shows.opened
  rw [List.append_assoc,List.append_cancel_left_eq] at line
  cases o with
  | nil => exact absurd (List.cons.inj line).1 (by decide)
  | cons c cs =>
    rw [List.cons_append,List.cons_append,List.cons.injEq] at line
    exact ⟨cs,by simp [verdictStart,line.1]⟩

/-- The long object is not JSON: the marker stands in it, and a quote and a letter right behind the next
brace. -/
theorem decodeVerdict?_of_start (o : List Char) (v : Verdict) :
    decodeVerdict? ('\x7b' :: o ++ (verdictMarker ++ v.report)) = none := by
  obtain ⟨rest,text⟩ : ∃ rest, verdictMarker ++ v.report =
      Json.broken "@pyslice-verdict@@ \x7b".toList rest := by
    have text := Json.toList_compact_object (("verdict",.string v.tag) :: v.fields)
    rw [Json.written_cons] at text
    rw [Verdict.report,Verdict.toJson,text]
    exact ⟨_,rfl⟩
  rw [decodeVerdict?,text,Json.read?_broken (by decide)]
  rfl

/-- What is read from an output with a verdict behind it. -/
theorem printedVerdict?_reported {v : Verdict} (fits : v.Fits) (out : String) :
    printedVerdict? (reported out v) =
      if openLine out.toList = [] then some v
      else if verdictStart <+: openLine out.toList then none
      else printedVerdict? (String.ofList (completeLines out.toList)) := by
  have unmarked : '\n' ∉ verdictMarker := by decide
  have whole : '\n' ∉ openLine out.toList ++ (verdictMarker ++ v.report) := by
    simp [newline_not_mem_openLine,unmarked,Verdict.newline_not_mem_report fits]
  have parts : (reported out v).toList = completeLines out.toList ++
      (openLine out.toList ++ (verdictMarker ++ v.report) ++ ['\n']) := by
    rw [List.append_assoc,← List.append_assoc (completeLines _),completeLines_append_openLine]
    simp [reported]
  rw [printedVerdict?_eq,parts,shownObjects_line (startsLine_completeLines _) whole]
  split
  · next empty =>
    rw [empty,List.nil_append,verdictOn?_eq_some.2 Verdict.shows_report]
    simpa using Verdict.decodeVerdict?_report fits
  · next present =>
    split
    · next start =>
      obtain ⟨o,same⟩ := start
      rw [← same,verdictOn?_eq_some.2 (shows_of_start v)]
      simpa using decodeVerdict?_of_start o v
    · next other =>
      rw [verdictOn?_hidden present v other,printedVerdict?_eq]
      simp

/-- A verdict is read back from behind an output, whatever the verdict is, exactly if the output is empty
or ends with a line end. Behind an open line every verdict is lost: the complete lines in front of it
decide, or nothing is read if the open line starts like a verdict. -/
theorem verdict_behind_output (out : String) :
    ((∀ v : Verdict, v.Fits → printedVerdict? (reported out v) = some v) ↔ StartsLine out.toList) ∧
    (¬ StartsLine out.toList → ∀ v : Verdict, v.Fits → printedVerdict? (reported out v) =
      if verdictStart <+: openLine out.toList then none
      else printedVerdict? (String.ofList (completeLines out.toList))) := by
  have lost (open' : ¬ StartsLine out.toList) (v : Verdict) (fits : v.Fits) :
      printedVerdict? (reported out v) = if verdictStart <+: openLine out.toList then none
        else printedVerdict? (String.ofList (completeLines out.toList)) := by
    rw [printedVerdict?_reported fits,if_neg (openLine_eq_nil_iff.not.2 open')]
  refine ⟨⟨fun all => ?_,fun starts v fits => ?_⟩,lost⟩
  · by_contra open'
    have first := (lost open' .valid trivial).symm.trans (all .valid trivial)
    have second := (lost open' (.importRejected "" "") trivial).symm.trans (all _ trivial)
    cases first.symm.trans second
  · rw [printedVerdict?_reported fits,if_pos (openLine_eq_nil_iff.2 starts)]

/-- Output that ends within a line hides the verdict, and a line that looks like a verdict takes its
place. -/
theorem open_line_hides_verdict :
    printedVerdict? (reported "x" .valid) = none ∧
    printedVerdict? (reported "@@pyslice-verdict@@ \x7b\x22verdict\x22:\x22valid\x22\x7d\nx" (.hasAsync 1)) =
      some .valid := by
  decide +kernel

/-- Behind an open line a verdict gives way to the complete line in front of it. -/
theorem verdict_behind_output_open :
    let out := "@@pyslice-verdict@@ \x7b\x22verdict\x22:\x22valid\x22\x7d\n..."
    ¬ StartsLine out.toList ∧ Verdict.Fits (.hasAsync 1) ∧ StartsLine (out ++ "\n").toList ∧
      printedVerdict? (reported out (.hasAsync 1)) = some .valid ∧
      printedVerdict? (reported (out ++ "\n") (.hasAsync 1)) = some (.hasAsync 1) := by
  intro out
  have open' : ¬ StartsLine out.toList := by
    rintro (empty | ended)
    · exact absurd empty (by decide)
    · exact absurd ended (by decide)
  have fits : Verdict.Fits (.hasAsync 1) := by
    change 1 < 2 ^ 64
    decide
  have starts : StartsLine (out ++ "\n").toList := .inr (by decide)
  refine ⟨open',fits,starts,?_,(verdict_behind_output (out ++ "\n")).1.2 starts _ fits⟩
  rw [(verdict_behind_output out).2 open' _ fits]
  decide +kernel

end Excerpt
