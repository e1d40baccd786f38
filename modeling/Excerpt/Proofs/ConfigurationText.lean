import Excerpt.Configuration
import Excerpt.Proofs.TomlText

/-!
The file of a configuration. What is written for a configuration is read as the same configuration,
whatever texts it holds, as long as its numbers fit.
-/
namespace Excerpt
open Excerpt.Toml

namespace Toml

/-- A key without quotes. -/
def IsWord (key : String) : Prop := key.toList ≠ [] ∧ ∀ c ∈ key.toList, isKeyChar c

-- the list is searched, not the alphabet
instance (key : String) : Decidable (IsWord key) :=
  have := List.decidableBAll (fun c => isKeyChar c = true) key.toList
  instDecidableAnd

/-- A line that opens a table. -/
def headerLine (key : String) (rest : List Char) : List Char := '[' :: (key.toList ++ ']' :: '\n' :: rest)

/-- A line that gives a key its value. -/
def fieldLine (key : String) (text rest : List Char) : List Char :=
  key.toList ++ ' ' :: '=' :: ' ' :: (text ++ '\n' :: rest)

/-- A text from which a value is read at the end of a line. -/
structure Written (text : List Char) (value : Toml) : Prop where
  solid : ∀ rest, skipSpaces (text ++ rest) = text ++ rest
  read : ∀ rest fuel, text.length + 1 < fuel →
    readValue fuel maximalDepth (text ++ '\n' :: rest) = some (value,'\n' :: rest)
  joined : '\r' ∉ text

theorem written_string (s : String) : Written (stringText s) (.string s) where
  solid := skipSpaces_stringText s
  read rest fuel enough := by
    obtain ⟨fuel,rfl⟩ := Nat.exists_eq_add_of_lt enough
    exact readValue_stringText s (endsString_cons (by decide) rest) _ _
  joined := return_not_mem_stringText s

theorem written_strings (items : List String) : Written (stringsText items) (.array (items.map .string)) where
  solid rest := by
    obtain ⟨text,start⟩ := stringsText_cons items
    rw [start]
    rfl
  read rest fuel enough := by
    obtain ⟨fuel,rfl⟩ := Nat.exists_eq_add_of_lt enough
    have fewer := length_le_stringsText items
    exact readValue_stringsText items _ (by omega) _
  joined := return_not_mem_stringsText items

theorem written_numeral {n : Nat} (fits : n < 2 ^ 63) : Written (numeral n) (.integer n) where
  solid rest := by
    obtain ⟨c,cs,start,digit⟩ := exists_numeral_cons n
    have solid : ¬ isBlankChar c := by
      intro blank
      simp only [isBlankChar,Bool.or_eq_true,beq_iff_eq] at blank
      rcases blank with rfl | rfl <;> exact absurd digit (by decide)
    rw [start,List.cons_append,skipSpaces,List.dropWhile_cons_of_neg solid]
  read rest fuel enough := by
    obtain ⟨fuel,rfl⟩ := Nat.exists_eq_add_of_lt enough
    have read := readNumber_numeral fits rest
    obtain ⟨c,cs,start,digit⟩ := exists_numeral_cons n
    have other (d : Char) (not : d.isDigit = false) : (c == d) = false := by
      rw [beq_eq_false_iff_ne]
      rintro rfl
      exact absurd digit (by simp [not])
    rw [start,List.cons_append] at read ⊢
    unfold readValue
    simp [other,read]
  joined member := absurd (isDigit_of_mem_numeral member) (by decide)

theorem isKeyChar_head {key : String} (word : IsWord key) : ∃ c cs, key.toList = c :: cs ∧ isKeyChar c := by
  obtain ⟨c,cs,start⟩ := List.exists_cons_of_ne_nil word.1
  exact ⟨c,cs,start,word.2 c (by simp [start])⟩

theorem skipSpaces_word {key : String} (word : IsWord key) (rest : List Char) :
    skipSpaces (key.toList ++ rest) = key.toList ++ rest := by
  obtain ⟨c,cs,start,own⟩ := isKeyChar_head word
  have solid : ¬ isBlankChar c := by
    intro blank
    simp only [isBlankChar,Bool.or_eq_true,beq_iff_eq] at blank
    rcases blank with rfl | rfl <;> exact absurd own (by decide)
  rw [start,List.cons_append,skipSpaces,List.dropWhile_cons_of_neg solid]

/-- A word is read as a key of one part, if what follows it neither continues the word nor is a dot. -/
theorem readKey_word {key : String} (word : IsWord key) {rest : List Char}
    (ends : ∀ c ∈ rest.head?, ¬ isKeyChar c) (undotted : ∀ tail, skipSpaces rest ≠ '.' :: tail) (left : Nat) :
    readKey (left + 1) (key.toList ++ rest) = some ([key],skipSpaces rest) := by
  have stop : rest.takeWhile isKeyChar = [] ∧ rest.dropWhile isKeyChar = rest := by
    cases rest with
    | nil => exact ⟨rfl,rfl⟩
    | cons c cs => simp [ends c rfl]
  have simple : readSimpleKey (key.toList ++ rest) = some (key,rest) := by
    obtain ⟨c,cs,start,own⟩ := isKeyChar_head word
    have taken : (key.toList ++ rest).takeWhile isKeyChar = key.toList := by
      rw [List.takeWhile_append_of_pos word.2,stop.1,List.append_nil]
    have dropped : (key.toList ++ rest).dropWhile isKeyChar = rest := by
      rw [List.dropWhile_append_of_pos word.2,stop.2]
    unfold readSimpleKey
    split
    · next same =>
      rw [start,List.cons_append,List.cons.injEq] at same
      exact absurd (same.1 ▸ own) (by decide)
    · next same =>
      rw [start,List.cons_append,List.cons.injEq] at same
      exact absurd (same.1 ▸ own) (by decide)
    · simp [taken,dropped,word.1]
  rw [readKey,skipSpaces_word word,simple]
  simp only [Option.bind_eq_bind,Option.bind_some]
  rfl

theorem readHeader_word {key : String} (word : IsWord key) (rest : List Char) :
    readHeader 1 (key.toList ++ ']' :: '\n' :: rest) = some ([key],rest) := by
  have ends : ∀ c ∈ (']' :: '\n' :: rest).head?, ¬ isKeyChar c := by
    rintro c ⟨⟩
    decide
  rw [readHeader,maximalDepth,readKey_word word ends fun _ same => absurd (List.cons.inj same).1 (by decide)]
  rfl

/-- A header line opens its table. -/
theorem readDocument_headerLine {key : String} (word : IsWord key) (fuel : Nat) (d : Draft) (rest : List Char) :
    readDocument (fuel + 1) d (headerLine key rest) =
      (d.openTable [key]).bind fun d => readDocument fuel d rest := by
  obtain ⟨c,cs,start,own⟩ := isKeyChar_head word
  have read := readHeader_word word rest
  have single : c ≠ '[' := by
    rintro rfl
    exact absurd own (by decide)
  have solid : skipSpaces (headerLine key rest) = '[' :: (key.toList ++ ']' :: '\n' :: rest) := rfl
  rw [readDocument,solid]
  split
  · next same => cases same
  · next same => cases same
  · next same => cases same
  · next same =>
    rw [start,List.cons_append,List.cons.injEq,List.cons.injEq] at same
    exact absurd same.2.1 single
  · next same =>
    rw [← (List.cons.inj same).2,read]
    rfl
  · next other => exact absurd rfl (other _)

/-- A line with a key and its value puts the value under the key. -/
theorem readDocument_fieldLine {key : String} (word : IsWord key) {text : List Char} {value : Toml}
    (written : Written text value) (fuel : Nat) (d : Draft) (rest : List Char) :
    readDocument (fuel + 1) d (fieldLine key text rest) =
      (d.put [key] value).bind fun d => readDocument fuel d rest := by
  obtain ⟨c,cs,start,own⟩ := isKeyChar_head word
  have ends : ∀ c ∈ (' ' :: '=' :: ' ' :: (text ++ '\n' :: rest)).head?, ¬ isKeyChar c := by
    rintro c ⟨⟩
    decide
  have keyRead : readKey maximalDepth (key.toList ++ ' ' :: '=' :: ' ' :: (text ++ '\n' :: rest)) =
      some ([key],'=' :: ' ' :: (text ++ '\n' :: rest)) :=
    readKey_word word ends (fun _ same => absurd (List.cons.inj same).1 (by decide)) 78
  have equals : afterChar '=' ('=' :: ' ' :: (text ++ '\n' :: rest)) = some (' ' :: (text ++ '\n' :: rest)) := rfl
  have ended : endLine ('\n' :: rest) = some rest := rfl
  have valueRead := written.read rest (2 * (text ++ '\n' :: rest).length + 2) (by simp; omega)
  have other {d : Char} {tail : List Char} (not : isKeyChar d = false)
      (same : key.toList ++ ' ' :: '=' :: ' ' :: (text ++ '\n' :: rest) = d :: tail) : False := by
    rw [start,List.cons_append,List.cons.injEq] at same
    rw [← same.1,own] at not
    cases not
  rw [readDocument,fieldLine,skipSpaces_word word]
  split
  · next same => simp [start] at same
  · next same => exact (other (by decide) same).elim
  · next same => exact (other (by decide) same).elim
  · next same => exact (other (by decide) same).elim
  · next same => exact (other (by decide) same).elim
  · simp only [keyRead,equals,skipSpaces_space,written.solid,valueRead,ended,Option.bind_eq_bind,Option.bind_some]

theorem readDocument_newline (fuel : Nat) (d : Draft) (rest : List Char) :
    readDocument (fuel + 1) d ('\n' :: rest) = readDocument fuel d rest := rfl

/-- A key that is not there yet is put behind the others. -/
theorem Draft.put_fresh {d : Draft} {key : String} (sort : d.sort = .header) (fresh : fieldAt key d.current = none)
    (value : Toml) : d.put [key] value = some {d with current := d.current ++ [(key,value)]} := by
  obtain ⟨root,kind,current,path,element⟩ := d
  subst sort
  simp [Draft.put,putValue,descend,show fieldAt key current = none from fresh]

end Toml

namespace Configuration

/-- A configuration whose numbers a file can hold. -/
def Fits (c : Configuration) : Prop := c.sandbox.timeoutSecs < 2 ^ 63 ∧ ∀ n ∈ c.scan.workers, n < 2 ^ 63

/-- The last line of a file, if there is a number of workers. -/
def workersText : Option Nat → List Char
  | none => []
  | some n => fieldLine "parallel_workers" (numeral n) []

/-- The lines of a file, from the texts of its values. -/
theorem toList_lines (backend python timeout known ignore workers : String) :
    ("[sandbox]\nbackend = " ++ backend ++ "\npython = " ++ python ++ "\ntimeout_secs = " ++ timeout ++
      "\nknown_modules = " ++ known ++ "\n\n[scan]\nignore = " ++ ignore ++ "\n" ++ workers).toList =
    headerLine "sandbox" (fieldLine "backend" backend.toList (fieldLine "python" python.toList
      (fieldLine "timeout_secs" timeout.toList (fieldLine "known_modules" known.toList
      ('\n' :: headerLine "scan" (fieldLine "ignore" ignore.toList workers.toList)))))) := by
  simp [headerLine,fieldLine]

theorem toList_workers (n : Nat) :
    ("parallel_workers = " ++ toString n ++ "\n").toList = workersText (some n) := by
  simp [workersText,fieldLine,numeral]

theorem toList_render (c : Configuration) : c.render.toList =
    headerLine "sandbox" (fieldLine "backend" (stringText c.sandbox.backend.name)
      (fieldLine "python" (stringText c.sandbox.python)
      (fieldLine "timeout_secs" (numeral c.sandbox.timeoutSecs)
      (fieldLine "known_modules" (stringsText c.sandbox.knownModules)
      ('\n' :: headerLine "scan" (fieldLine "ignore" (stringsText c.scan.ignore)
      (workersText c.scan.workers))))))) := by
  delta render
  rw [toList_lines]
  cases c.scan.workers with
  | none => rfl
  | some n =>
    dsimp only
    rw [toList_workers]
    rfl

/-- The table of a configuration's first part, as it is read. -/
def sandboxFields (c : SandboxSettings) : Fields :=
  [("backend",.string c.backend.name),("python",.string c.python),("timeout_secs",.integer c.timeoutSecs),
    ("known_modules",.array (c.knownModules.map .string))]

def scanFields (c : ScanSettings) : Fields :=
  ("ignore",.array (c.ignore.map .string)) :: (c.workers.map fun n => ("parallel_workers",.integer n)).toList

theorem readDocument_workersText {workers : Option Nat} (fits : ∀ n ∈ workers, n < 2 ^ 63) (fuel : Nat)
    {d : Draft} (sort : d.sort = .header) (fresh : fieldAt "parallel_workers" d.current = none) :
    readDocument (fuel + 2) d (workersText workers) = some {d with
      current := d.current ++ (workers.map fun n => ("parallel_workers",.integer n)).toList} := by
  cases workers with
  | none => simp [workersText,readDocument,skipSpaces]
  | some n =>
    rw [workersText,readDocument_fieldLine (by decide) (written_numeral (fits n rfl)),Draft.put_fresh sort fresh]
    rfl

theorem readDocument_render {c : Configuration} (fits : c.Fits) (fuel : Nat) :
    readDocument (fuel + 10) Draft.start c.render.toList = some ⟨[("sandbox",.table .header (sandboxFields c.sandbox))],
      .header,scanFields c.scan,["scan"],false⟩ := by
  have sandbox : Draft.start.openTable ["sandbox"] = some ⟨[],.header,[],["sandbox"],false⟩ := rfl
  have scan : Draft.openTable ⟨[],.header,sandboxFields c.sandbox,["sandbox"],false⟩ ["scan"] =
      some ⟨[("sandbox",.table .header (sandboxFields c.sandbox))],.header,[],["scan"],false⟩ := rfl
  rw [toList_render,readDocument_headerLine (by decide),sandbox,Option.bind_some,
    readDocument_fieldLine (by decide) (written_string _),Draft.put_fresh rfl rfl,Option.bind_some,
    readDocument_fieldLine (by decide) (written_string _),Draft.put_fresh rfl rfl,Option.bind_some,
    readDocument_fieldLine (by decide) (written_numeral fits.1),Draft.put_fresh rfl rfl,Option.bind_some,
    readDocument_fieldLine (by decide) (written_strings _),Draft.put_fresh rfl rfl,Option.bind_some,
    readDocument_newline]
  change readDocument _ ⟨[],.header,sandboxFields c.sandbox,["sandbox"],false⟩ _ = _
  rw [readDocument_headerLine (by decide),scan,Option.bind_some,
    readDocument_fieldLine (by decide) (written_strings _),Draft.put_fresh rfl rfl,Option.bind_some,
    readDocument_workersText fits.2 _ rfl rfl]
  rfl

theorem return_not_mem_render {c : Configuration} (fits : c.Fits) : '\r' ∉ c.render.toList := by
  have workers : '\r' ∉ workersText c.scan.workers := by
    cases workers : c.scan.workers with
    | none => simp [workersText]
    | some n => simp [workersText,fieldLine,(written_numeral (fits.2 n workers)).joined]
  rw [toList_render]
  simp [headerLine,fieldLine,(written_string _).joined,(written_strings _).joined,(written_numeral fits.1).joined,
    workers]

theorem read?_render {c : Configuration} (fits : c.Fits) : Toml.read? c.render = some (.table .header
    [("sandbox",.table .header (sandboxFields c.sandbox)),("scan",.table .header (scanFields c.scan))]) := by
  obtain ⟨text,start⟩ : ∃ text, c.render.toList = '[' :: text := ⟨_,toList_render c⟩
  obtain ⟨fuel,long⟩ : ∃ fuel, c.render.toList.length + 1 = fuel + 10 := by
    refine ⟨c.render.toList.length - 9,?_⟩
    rw [toList_render]
    simp [headerLine]
  have read := readDocument_render fits fuel
  rw [← long] at read
  have finished : Draft.finish ⟨[("sandbox",.table .header (sandboxFields c.sandbox))],.header,scanFields c.scan,
      ["scan"],false⟩ = some [("sandbox",.table .header (sandboxFields c.sandbox)),
        ("scan",.table .header (scanFields c.scan))] := rfl
  rw [Toml.read?,joinLineEnds_of_not_mem (return_not_mem_render fits)]
  rw [start] at read ⊢
  change (readDocument (('[' :: text).length + 1) Draft.start ('[' :: text)).bind _ = _
  rw [read,Option.bind_some,finished]
  rfl

theorem texts?_map (items : List String) : texts? (.array (items.map .string)) = some items := by
  induction items with
  | nil => rfl
  | cons s items ih =>
    simp only [texts?,List.map_cons,List.mapM_cons] at ih ⊢
    rw [ih]
    rfl

theorem natural?_ofNat (n : Nat) : natural? (.integer n) = some n := by
  simp [natural?]

theorem backend?_name (b : Backend) : backend? (.string b.name) = some b := by
  cases b <;> rfl

theorem sandboxSettings?_fields (c : SandboxSettings) :
    sandboxSettings? (.table .header (sandboxFields c)) = some c := by
  have backend : fieldAt "backend" (sandboxFields c) = some (.string c.backend.name) := rfl
  have python : fieldAt "python" (sandboxFields c) = some (.string c.python) := rfl
  have timeout : fieldAt "timeout_secs" (sandboxFields c) = some (.integer c.timeoutSecs) := rfl
  have known : fieldAt "known_modules" (sandboxFields c) = some (.array (c.knownModules.map .string)) := rfl
  delta sandboxSettings?
  simp only [record?,backend,python,timeout,known,optional,Option.bind_eq_bind,Option.bind_some,backend?_name,text?,
    natural?_ofNat,texts?_map]
  rfl

theorem scanSettings?_fields (c : ScanSettings) : scanSettings? (.table .header (scanFields c)) = some c := by
  obtain ⟨items,workers⟩ := c
  have ignore : fieldAt "ignore" (scanFields ⟨items,workers⟩) = some (.array (items.map .string)) := rfl
  have number : fieldAt "parallel_workers" (scanFields ⟨items,workers⟩) = workers.map fun n => .integer n := by
    cases workers <;> rfl
  delta scanSettings?
  simp only [record?,ignore,number,optional,Option.bind_eq_bind,Option.bind_some,texts?_map]
  cases workers with
  | none => rfl
  | some n => simp [natural?_ofNat]

theorem ofToml?_fields (c : Configuration) : ofToml? (.table .header
    [("sandbox",.table .header (sandboxFields c.sandbox)),("scan",.table .header (scanFields c.scan))]) = some c := by
  have sandbox : fieldAt "sandbox" [("sandbox",.table .header (sandboxFields c.sandbox)),
    ("scan",.table .header (scanFields c.scan))] = some (.table .header (sandboxFields c.sandbox)) := rfl
  have scan : fieldAt "scan" [("sandbox",.table .header (sandboxFields c.sandbox)),
    ("scan",.table .header (scanFields c.scan))] = some (.table .header (scanFields c.scan)) := rfl
  delta ofToml?
  simp only [record?,sandbox,scan,optional,Option.bind_eq_bind,Option.bind_some,sandboxSettings?_fields,
    scanSettings?_fields]
  rfl

/-- A configuration is read back from its text. -/
theorem parse?_render {c : Configuration} (fits : c.Fits) : parse? c.render = some c := by
  rw [parse?,read?_render fits,Option.bind_some,ofToml?_fields]

/-- Exactly the configurations whose numbers fit have a text. -/
theorem rendered_eq_ok {c : Configuration} {text : String} : c.rendered = .ok text ↔ c.Fits ∧ c.render = text := by
  have range : (inRange c.sandbox.timeoutSecs && c.scan.workers.all inRange) = true ↔ c.Fits := by
    simp [inRange,Fits,Option.all_eq_true]
  delta rendered
  split
  · next fits => simp [range.1 fits]
  · next other => simp [(not_congr range).1 other]

/-- The text of a configuration exists exactly if its numbers fit, and a file with this text is loaded as
the same configuration. In particular the text of a new file is loaded as the default. -/
theorem load_rendered (c : Configuration) :
    ((∃ text, c.rendered = .ok text) ↔ c.Fits) ∧
    (∀ text named, c.rendered = .ok text → load named (.text text) = .ok c) ∧
    ∀ path, ∃ text, initial path false = .ok text ∧ ∀ named, load named (.text text) = .ok {} := by
  have loaded {c : Configuration} (fits : c.Fits) (named : Option String) : load named (.text c.render) = .ok c := by
    simp only [load,parse?_render fits,Option.getD_some]
  have default : Fits {} := ⟨by decide,by simp⟩
  refine ⟨⟨?_,?_⟩,?_,?_⟩
  · rintro ⟨text,same⟩
    exact (rendered_eq_ok.1 same).1
  · exact fun fits => ⟨_,rendered_eq_ok.2 ⟨fits,rfl⟩⟩
  · intro text named same
    obtain ⟨fits,rfl⟩ := rendered_eq_ok.1 same
    exact loaded fits named
  · exact fun path => ⟨render {},rendered_eq_ok.2 ⟨default,rfl⟩,loaded default⟩

/-- Texts with quotes, backslashes and line ends in every form, and the largest numbers. -/
theorem load_rendered_quotes :
    let sandbox : SandboxSettings := {
      backend := .process
      python := "C:\\py\n\x22\x22\x22"
      timeoutSecs := 2 ^ 63 - 1
      knownModules := ["'\n\\","\u0000\r"]}
    let c : Configuration := ⟨sandbox,⟨["\x22\n''"],some (2 ^ 63 - 1)⟩⟩
    c.Fits ∧ ∃ text, c.rendered = .ok text ∧ load none (.text text) = .ok c := by
  intro sandbox c
  have fits : c.Fits := ⟨by decide,fun n same => by cases same; decide⟩
  obtain ⟨text,same⟩ := (load_rendered c).1.2 fits
  exact ⟨fits,text,same,(load_rendered c).2.1 text none same⟩

end Configuration

end Excerpt
