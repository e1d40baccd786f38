import Excerpt.Proofs.Numeral

/-!
JSON on one line. An object of texts and numbers that is written without blanks stays on its line and
is read back as it was.
-/
namespace Excerpt.Json

/-- Texts, and numbers of 64 bits. -/
inductive Scalar : Json → Prop
  | text (s : String) : Scalar (.string s)
  | number {n : Nat} (fits : n < 2 ^ 64) : Scalar (.ofNat n)

theorem hexValue?_hexDigit {n : Nat} (small : n < 16) : hexValue? (hexDigit n) = some n := by
  have all : ∀ k < 16, hexValue? (hexDigit k) = some k := by decide
  exact all n small

/-- Control characters without a letter of their own are written by their code. -/
theorem readQuoted_code {c : Char} (control : c.toNat < 0x20) (cs : List Char) :
    readQuoted .plain
        (['\\','u','0','0',hexDigit (c.toNat / 16),hexDigit (c.toNat % 16)] ++ cs) =
      (readQuoted .plain cs).map fun (s,rest) => (c :: s,rest) := by
  have value : 16 * (16 * (16 * (16 * 0 + 0) + 0) + c.toNat / 16) + c.toNat % 16 = c.toNat := by omega
  have zero : hexValue? '0' = some 0 := by decide
  have unpaired : ¬ 0xD800 ≤ c.toNat := by omega
  have unpaired' : ¬ 0xDC00 ≤ c.toNat := by omega
  have start : readQuoted .plain ('\\' :: 'u' :: '0' :: '0' :: hexDigit (c.toNat / 16) ::
      hexDigit (c.toNat % 16) :: cs) =
    readQuoted (.hex none 0 0) ('0' :: '0' :: hexDigit (c.toNat / 16) ::
      hexDigit (c.toNat % 16) :: cs) := rfl
  simp only [List.cons_append,List.nil_append,start,readQuoted,zero,
    hexValue?_hexDigit (by omega : c.toNat / 16 < 16),hexValue?_hexDigit (Nat.mod_lt c.toNat (by decide)),
    value]
  simp [unpaired,unpaired']

/-- A character is written by a letter behind a backslash, by its code, or as it is. -/
theorem escapeChar_cases (c : Char) :
    (∃ e, e ≠ 'u' ∧ e ≠ '\n' ∧ escaped? e = some c ∧ escapeChar c = ['\\',e]) ∨
    (c.toNat < 0x20 ∧
      escapeChar c = ['\\','u','0','0',hexDigit (c.toNat / 16),hexDigit (c.toNat % 16)]) ∨
    (c ≠ '\x22' ∧ c ≠ '\\' ∧ ¬ c.toNat < 0x20 ∧ escapeChar c = [c]) := by
  have lettered {d e : Char} (same : (c == d) = true) (written : escapeChar d = ['\\',e])
      (letter : e ≠ 'u' ∧ e ≠ '\n' ∧ escaped? e = some d) :
      ∃ e, e ≠ 'u' ∧ e ≠ '\n' ∧ escaped? e = some c ∧ escapeChar c = ['\\',e] := by
    rw [beq_iff_eq.1 same]
    exact ⟨e,letter.1,letter.2.1,letter.2.2,written⟩
  by_cases quote : c == '\x22'
  · exact .inl (lettered quote rfl (by decide))
  by_cases backslash : c == '\\'
  · exact .inl (lettered backslash rfl (by decide))
  by_cases feed : c == '\n'
  · exact .inl (lettered feed rfl (by decide))
  by_cases carriage : c == '\r'
  · exact .inl (lettered carriage rfl (by decide))
  by_cases tab : c == '\t'
  · exact .inl (lettered tab rfl (by decide))
  by_cases back : c == '\x08'
  · exact .inl (lettered back rfl (by decide))
  by_cases page : c == '\x0c'
  · exact .inl (lettered page rfl (by decide))
  right
  by_cases control : c.toNat < 0x20
  · exact .inl ⟨control,by simp [escapeChar,quote,backslash,feed,carriage,tab,back,page,control]⟩
  · refine .inr ⟨by simpa using quote,by simpa using backslash,control,?_⟩
    simp [escapeChar,quote,backslash,feed,carriage,tab,back,page,control]

/-- A character is read back from the way it is written between quotes. -/
theorem readQuoted_escapeChar (c : Char) (cs : List Char) :
    readQuoted .plain (escapeChar c ++ cs) =
      (readQuoted .plain cs).map fun (s,rest) => (c :: s,rest) := by
  rcases escapeChar_cases c with ⟨e,code,-,letter,written⟩ | ⟨control,written⟩ |
    ⟨quote,backslash,printable,written⟩
  · simp [written,readQuoted,code,letter]
  · rw [written,readQuoted_code control]
  · simp [written,readQuoted,quote,backslash,printable]

theorem readQuoted_escaped (s rest : List Char) :
    readQuoted .plain (s.flatMap escapeChar ++ '\x22' :: rest) = some (s,rest) := by
  induction s with
  | nil => rfl
  | cons c cs ih => rw [List.flatMap_cons,List.append_assoc,readQuoted_escapeChar,ih]; rfl

theorem toList_quote (s : String) :
    (quote s).toList = '\x22' :: (s.toList.flatMap escapeChar ++ ['\x22']) := by
  rw [quote,String.toList_ofList,List.cons_append]

theorem toList_compact_ofNat (n : Nat) : (compact (.ofNat n)).toList = numeral n := by
  rw [ofNat,compact,numeral]

/-- A text or a number is read back if nothing behind it could belong to a number. -/
theorem readValue_scalar {j : Json} (scalar : Scalar j) {rest : List Char} (ends : EndsNumber rest)
    (fuel depth : Nat) : readValue (fuel + 1) depth (j.compact.toList ++ rest) = some (j,rest) := by
  cases scalar with
  | text s =>
    have blank : skipBlanks ('\x22' :: (s.toList.flatMap escapeChar ++ '\x22' :: rest)) =
        '\x22' :: (s.toList.flatMap escapeChar ++ '\x22' :: rest) := rfl
    rw [compact,toList_quote,List.cons_append,List.append_assoc,List.singleton_append,readValue,blank]
    simp [readQuoted_escaped]
  | number fits =>
    rename_i n
    rw [toList_compact_ofNat]
    have read := readNumber_numeral fits ends
    obtain ⟨c,cs,digits,digit⟩ := exists_numeral_cons n
    rw [digits,List.cons_append] at read ⊢
    have other {d : Char} (mark : d.isDigit = false) : c ≠ d := by
      rintro rfl
      rw [mark] at digit
      cases digit
    have blank : skipBlanks (c :: (cs ++ rest)) = c :: (cs ++ rest) := by
      simp [skipBlanks,@other ' ' rfl,@other '\t' rfl,@other '\n' rfl,@other '\r' rfl]
    rw [readValue,blank]
    simp [@other '\x22' rfl,@other '\x7b' rfl,@other '[' rfl,@other 't' rfl,@other 'f' rfl,
      @other 'n' rfl,read]

/-- The fields of an object between its braces. -/
def written (fields : List (String × Json)) : List Char :=
  (",".intercalate (compactFields fields)).toList

theorem written_cons (key : String) (value : Json) (fields : List (String × Json)) :
    written ((key,value) :: fields) = (quote key).toList ++ ':' :: (value.compact.toList ++
      if fields.isEmpty then [] else ',' :: written fields) := by
  cases fields with
  | nil => simp [written,compactFields]
  | cons field fields => simp [written,compactFields]

/-- What follows a field: the other fields, or the end of the object. -/
theorem written_split (key : String) (value : Json) (fields : List (String × Json))
    (rest : List Char) : written ((key,value) :: fields) ++ '\x7d' :: rest =
      '\x22' :: (key.toList.flatMap escapeChar ++ '\x22' :: ':' :: (value.compact.toList ++
        if fields.isEmpty then '\x7d' :: rest else ',' :: (written fields ++ '\x7d' :: rest))) := by
  rw [written_cons,toList_quote]
  cases fields <;> simp

theorem readFields_written {fields : List (String × Json)} (present : fields ≠ [])
    (scalar : ∀ field ∈ fields, Scalar field.2) {fuel : Nat} (enough : fields.length < fuel)
    (depth : Nat) (rest : List Char) :
    readFields fuel depth (written fields ++ '\x7d' :: rest) = some (fields,rest) := by
  induction fields generalizing fuel with
  | nil => exact absurd rfl present
  | cons field fields ih =>
    obtain ⟨key,value⟩ := field
    rw [List.length_cons] at enough
    obtain ⟨fuel,rfl⟩ : ∃ k, fuel = k + 1 + 1 := ⟨fuel - 2,by omega⟩
    have own := scalar _ List.mem_cons_self
    have later : ∀ field ∈ fields, Scalar field.2 :=
      fun field member => scalar field (List.mem_cons_of_mem _ member)
    rw [written_split,readFields]
    cases fields with
    | nil =>
      have read := @readValue_scalar value own ('\x7d' :: rest) (by simp [EndsNumber]) fuel depth
      simp [skipBlanks,readQuoted_escaped,read]
    | cons next fields =>
      have read := @readValue_scalar value own
        (',' :: (written (next :: fields) ++ '\x7d' :: rest)) (by simp [EndsNumber]) fuel depth
      have others := @ih (by simp) later (fuel + 1) (by simpa using enough)
      simp [skipBlanks,readQuoted_escaped,read,others]

theorem length_le_written (fields : List (String × Json)) :
    fields.length ≤ (written fields).length := by
  induction fields with
  | nil => exact Nat.zero_le _
  | cons field fields ih =>
    obtain ⟨key,value⟩ := field
    rw [written_cons]
    cases fields with
    | nil =>
      simp only [List.length_append,List.length_cons,List.length_nil]
      omega
    | cons next fields =>
      simp only [List.length_append,List.length_cons,List.isEmpty_cons,Bool.false_eq_true,if_false]
        at ih ⊢
      omega

theorem toList_compact_object (fields : List (String × Json)) :
    (compact (.object fields)).toList = '\x7b' :: (written fields ++ ['\x7d']) := by
  simp [compact,written]

/-- An object is read back from its text. -/
theorem read?_compact {fields : List (String × Json)} (present : fields ≠ [])
    (scalar : ∀ field ∈ fields, Scalar field.2) :
    read? (compact (.object fields)).toList = some (.object fields) := by
  rw [toList_compact_object]
  have enough := length_le_written fields
  have size : ('\x7b' :: (written fields ++ ['\x7d'])).length = (written fields).length + 2 := by simp
  obtain ⟨⟨key,value⟩,others,rfl⟩ := List.exists_cons_of_ne_nil present
  obtain ⟨tail,first⟩ : ∃ tail, written ((key,value) :: others) ++ ['\x7d'] = '\x22' :: tail :=
    ⟨_,written_split key value others []⟩
  have body := readFields_written present scalar
    (by omega : ((key,value) :: others).length < 2 * ((written ((key,value) :: others)).length + 2) + 1)
    126 []
  rw [read?,size,maximalDepth,readValue]
  rw [first] at body ⊢
  simp [skipBlanks,body]

/-- What is written between quotes stays on its line. -/
theorem newline_not_mem_escapeChar (c : Char) : '\n' ∉ escapeChar c := by
  have digit : ∀ k < 16, '\n' ≠ hexDigit k := by decide
  rcases escapeChar_cases c with ⟨e,-,line,-,written⟩ | ⟨control,written⟩ | ⟨-,-,printable,written⟩
  · simp [written,line.symm]
  · have high := digit (c.toNat / 16) (by omega)
    have low := digit (c.toNat % 16) (by omega)
    simp [written,high,low]
  · rw [written,List.mem_singleton]
    rintro rfl
    exact printable (by decide)

theorem newline_not_mem_quote (s : String) : '\n' ∉ (quote s).toList := by
  simp [toList_quote,newline_not_mem_escapeChar]

theorem newline_not_mem_scalar {j : Json} (scalar : Scalar j) : '\n' ∉ j.compact.toList := by
  cases scalar with
  | text s => exact newline_not_mem_quote s
  | number fits =>
    rw [toList_compact_ofNat]
    intro member
    exact absurd (isDigit_of_mem_numeral member) (by decide)

theorem newline_not_mem_written {fields : List (String × Json)}
    (scalar : ∀ field ∈ fields, Scalar field.2) : '\n' ∉ written fields := by
  induction fields with
  | nil => simp [written,compactFields]
  | cons field fields ih =>
    obtain ⟨key,value⟩ := field
    have own := newline_not_mem_scalar (scalar _ List.mem_cons_self)
    have later := ih fun field member => scalar field (List.mem_cons_of_mem _ member)
    rw [written_cons]
    cases fields <;> simp_all [newline_not_mem_quote]

section Broken

/-- A text that cannot be the end of a value, whatever stands in front of it: it begins with a
character that JSON has between quotes only, and the first quote behind it has a letter after it. -/
def broken (inside rest : List Char) : List Char := '@' :: (inside ++ '\x22' :: 'v' :: rest)

/-- Characters that stand for themselves between quotes. -/
def Plain (cs : List Char) : Prop := ∀ c ∈ cs, c ≠ '\x22' ∧ c ≠ '\\' ∧ ¬ c.toNat < 0x20

-- the list is searched, not the alphabet
instance (cs : List Char) : Decidable (Plain cs) := List.decidableBAll _ cs

/-- What is left is still in front of the break. -/
def Before (inside rest left : List Char) : Prop := ∃ front, left = front ++ broken inside rest

variable {inside rest : List Char}

/-- A character of a quotation ends it, or reading goes on behind the character. -/
theorem readQuoted_step {q : Quoting} {c : Char} {cs s left : List Char}
    (read : readQuoted q (c :: cs) = some (s,left)) :
    left = cs ∨ ∃ q' s', readQuoted q' cs = some (s',left) := by
  have behind {q' : Quoting} {e : Char}
      (mapped : ((readQuoted q' cs).map fun (s,rest) => (e :: s,rest)) = some (s,left)) :
      ∃ q' s', readQuoted q' cs = some (s',left) := by
    obtain ⟨⟨s',left'⟩,inner,same⟩ := Option.map_eq_some_iff.1 mapped
    cases same
    exact ⟨q',s',inner⟩
  cases q with
  | plain =>
    simp only [readQuoted] at read
    split at read
    · cases read
      exact .inl rfl
    split at read
    · exact .inr ⟨.escape,s,read⟩
    split at read
    · cases read
    · exact .inr (behind read)
  | escape =>
    simp only [readQuoted] at read
    split at read
    · exact .inr ⟨.hex none 0 0,s,read⟩
    split at read
    · exact .inr (behind read)
    · cases read
  | hex high count value =>
    simp only [readQuoted] at read
    split at read
    · cases read
    split at read
    · exact .inr ⟨_,s,read⟩
    split at read
    · split at read
      · exact .inr (behind read)
      · cases read
    split at read
    · cases read
    split at read
    · exact .inr ⟨_,s,read⟩
    · exact .inr (behind read)
  | pair high =>
    simp only [readQuoted] at read
    split at read
    · exact .inr ⟨_,s,read⟩
    · cases read
  | pairEscape high =>
    simp only [readQuoted] at read
    split at read
    · exact .inr ⟨_,s,read⟩
    · cases read

theorem readQuoted_inside (plain : Plain inside) :
    readQuoted .plain (inside ++ '\x22' :: 'v' :: rest) = some (inside,'v' :: rest) := by
  induction inside with
  | nil => rfl
  | cons c cs ih =>
    obtain ⟨quote,backslash,printable⟩ := plain c List.mem_cons_self
    have later := ih fun d member => plain d (List.mem_cons_of_mem c member)
    simp [readQuoted,quote,backslash,printable,later]

theorem left_of_readQuoted (plain : Plain inside) {q : Quoting} {front s left : List Char}
    (read : readQuoted q (front ++ broken inside rest) = some (s,left)) :
    Before inside rest left ∨ left = 'v' :: rest := by
  induction front generalizing q s with
  | nil =>
    cases q with
    | plain =>
      have ends : readQuoted .plain (broken inside rest) = some ('@' :: inside,'v' :: rest) := by
        rw [broken,readQuoted,readQuoted_inside plain]
        rfl
      rw [List.nil_append,ends] at read
      cases read
      exact .inr rfl
    | escape => cases read
    | hex high count value => cases read
    | pair high => cases read
    | pairEscape high => cases read
  | cons c front ih =>
    rcases readQuoted_step read with rfl | ⟨q',s',further⟩
    · exact .inl ⟨front,rfl⟩
    · exact ih further

theorem Before.dropWhile {left : List Char} (before : Before inside rest left) {p : Char → Bool}
    (stops : p '@' = false) : Before inside rest (left.dropWhile p) := by
  obtain ⟨front,rfl⟩ := before
  induction front with
  | nil => exact ⟨[],by simp [broken,stops]⟩
  | cons c front ih =>
    by_cases holds : p c
    · simpa [holds] using ih
    · exact ⟨c :: front,by simp [holds]⟩

theorem Before.skipBlanks {left : List Char} (before : Before inside rest left) :
    Before inside rest (skipBlanks left) := before.dropWhile (by decide)

theorem Before.tail {c : Char} {more : List Char} (before : Before inside rest (c :: more))
    (other : c ≠ '@') : Before inside rest more := by
  obtain ⟨front,same⟩ := before
  cases front with
  | nil =>
    rw [List.nil_append,broken,List.cons.injEq] at same
    exact absurd same.1 other
  | cons d front =>
    rw [List.cons_append,List.cons.injEq] at same
    exact ⟨front,same.2⟩

theorem Before.tail_of_head {left : List Char} (before : Before inside rest left) {c : Char}
    (head : left.head? = some c) (other : c ≠ '@') : Before inside rest left.tail := by
  cases left with
  | nil => cases head
  | cons d ds =>
    cases head
    exact before.tail other

theorem Before.ne_nil {left : List Char} (before : Before inside rest left) : left ≠ [] := by
  obtain ⟨front,rfl⟩ := before
  simp [broken]

theorem Before.afterWord {word : String} {left more : List Char} (before : Before inside rest left)
    (other : '@' ∉ word.toList) (read : afterWord word left = some more) : Before inside rest more := by
  obtain ⟨front,rfl⟩ := before
  unfold Json.afterWord at read
  split at read
  · next spelled =>
    cases read
    obtain ⟨tail,same⟩ := List.isPrefixOf_iff_prefix.1 spelled
    rcases List.append_eq_append_iff.1 same with ⟨ahead,rfl,-⟩ | ⟨beyond,own,same⟩
    · refine ⟨ahead,?_⟩
      rw [← String.length_toList,List.append_assoc,List.drop_left]
    · cases beyond with
      | nil => exact ⟨[],by rw [← String.length_toList,own,List.append_nil,List.drop_left]; rfl⟩
      | cons c beyond =>
        rw [broken,List.cons_append,List.cons.injEq] at same
        exact absurd (by rw [own,← same.1]; simp) other
  · cases read

theorem Before.readFraction {left more digits : List Char} (before : Before inside rest left)
    (read : readFraction left = some (digits,more)) : Before inside rest more := by
  unfold Json.readFraction at read
  split at read
  · dsimp only at read
    split at read
    · cases read
    · cases read
      exact (before.tail (by decide)).dropWhile (by decide)
  · cases read
    exact before

theorem Before.readExponent {left more : List Char} {exponent : Option Int}
    (before : Before inside rest left) (read : readExponent left = some (exponent,more)) :
    Before inside rest more := by
  cases left with
  | nil => exact absurd rfl before.ne_nil
  | cons c cs =>
    simp only [Json.readExponent] at read
    split at read
    · next mark =>
      have other : c ≠ '@' := by
        rintro rfl
        exact absurd mark (by decide)
      have digits := before.tail other
      have signed : Before inside rest
          (if (cs.head? == some '-' || cs.head? == some '+') = true then cs.tail else cs) := by
        split
        · next sign =>
          rw [Bool.or_eq_true,beq_iff_eq,beq_iff_eq] at sign
          rcases sign with sign | sign
          · exact digits.tail_of_head sign (by decide)
          · exact digits.tail_of_head sign (by decide)
        · exact digits
      generalize (if (cs.head? == some '-' || cs.head? == some '+') = true then cs.tail else cs) = number
        at signed read
      split at read
      · cases read
      · cases read
        exact signed.dropWhile (by decide)
    · cases read
      exact before

theorem Before.readNumber {left more : List Char} {j : Json} (before : Before inside rest left)
    (read : readNumber left = some (j,more)) : Before inside rest more := by
  have unsigned : Before inside rest (if (left.head? == some '-') = true then left.tail else left) := by
    split
    · next sign => exact before.tail_of_head (beq_iff_eq.1 sign) (by decide)
    · exact before
  simp only [Json.readNumber] at read
  generalize (if (left.head? == some '-') = true then left.tail else left) = number at unsigned read
  split at read
  · cases read
  · obtain ⟨⟨fraction,behind⟩,fractional,read⟩ := Option.bind_eq_some_iff.1 read
    obtain ⟨⟨exponent,behind'⟩,scaled,read⟩ := Option.bind_eq_some_iff.1 read
    have kept := ((unsigned.dropWhile (by decide)).readFraction fractional).readExponent scaled
    split at read
    · cases read
      exact kept
    · cases read

/-- A mark behind a value stands in front of the break. -/
theorem before_of_mark {left more : List Char} {c : Char}
    (ended : Before inside rest left ∨ left = 'v' :: rest) (start : skipBlanks left = c :: more)
    (other : c ≠ '@' ∧ c ≠ 'v') : Before inside rest more := by
  rcases ended with before | rfl
  · have kept := before.skipBlanks
    rw [start] at kept
    exact kept.tail other.1
  · have same : 'v' :: rest = c :: more := start
    rw [List.cons.injEq] at same
    exact absurd same.1.symm other.2

/-- What holds of the readers with a number of steps: no value ends behind the break, and no array or
object ends inside it. -/
structure Stuck (inside rest : List Char) (fuel : Nat) : Prop where
  value : ∀ {depth : Nat} {text left : List Char} {j : Json}, Before inside rest text →
    readValue fuel depth text = some (j,left) → Before inside rest left ∨ left = 'v' :: rest
  items : ∀ {depth : Nat} {text left : List Char} {items : List Json}, Before inside rest text →
    readItems fuel depth text = some (items,left) → Before inside rest left
  fields : ∀ {depth : Nat} {text left : List Char} {fields : List (String × Json)},
    Before inside rest text → readFields fuel depth text = some (fields,left) → Before inside rest left

theorem Stuck.value_succ {fuel : Nat} (stuck : Stuck inside rest fuel) (plain : Plain inside) {depth : Nat}
    {text left : List Char} {j : Json} (before : Before inside rest text)
    (read : readValue (fuel + 1) depth text = some (j,left)) :
    Before inside rest left ∨ left = 'v' :: rest := by
  have inner := before.skipBlanks
  rw [readValue] at read
  cases start : skipBlanks text with
  | nil => exact absurd start inner.ne_nil
  | cons c cs =>
    rw [start] at inner read
    dsimp only at read
    split at read
    · next quote =>
      obtain ⟨⟨s,more⟩,quoted,same⟩ := Option.map_eq_some_iff.1 read
      cases same
      obtain ⟨front,rfl⟩ := inner.tail (by rw [beq_iff_eq.1 quote]; decide)
      exact left_of_readQuoted plain quoted
    split at read
    · next brace =>
      have kept := (inner.tail (by rw [beq_iff_eq.1 brace]; decide)).skipBlanks
      left
      cases depth with
      | zero => cases read
      | succ depth =>
        dsimp only at read
        split at read
        · next more empty =>
          cases read
          rw [empty] at kept
          exact kept.tail (by decide)
        · obtain ⟨⟨fields,more⟩,all,same⟩ := Option.map_eq_some_iff.1 read
          cases same
          exact stuck.fields kept all
    split at read
    · next bracket =>
      have kept := (inner.tail (by rw [beq_iff_eq.1 bracket]; decide)).skipBlanks
      left
      cases depth with
      | zero => cases read
      | succ depth =>
        dsimp only at read
        split at read
        · next more empty =>
          cases read
          rw [empty] at kept
          exact kept.tail (by decide)
        · obtain ⟨⟨items,more⟩,all,same⟩ := Option.map_eq_some_iff.1 read
          cases same
          exact stuck.items kept all
    left
    split at read
    · obtain ⟨more,spelled,same⟩ := Option.map_eq_some_iff.1 read
      cases same
      exact inner.afterWord (by decide) spelled
    split at read
    · obtain ⟨more,spelled,same⟩ := Option.map_eq_some_iff.1 read
      cases same
      exact inner.afterWord (by decide) spelled
    split at read
    · obtain ⟨more,spelled,same⟩ := Option.map_eq_some_iff.1 read
      cases same
      exact inner.afterWord (by decide) spelled
    · exact inner.readNumber read

theorem Stuck.items_succ {fuel : Nat} (stuck : Stuck inside rest fuel) {depth : Nat}
    {text left : List Char} {items : List Json} (before : Before inside rest text)
    (read : readItems (fuel + 1) depth text = some (items,left)) : Before inside rest left := by
  rw [readItems] at read
  split at read
  · cases read
  · next item more first =>
    have ended := stuck.value before first
    split at read
    · next behind start =>
      obtain ⟨⟨others,more'⟩,all,same⟩ := Option.map_eq_some_iff.1 read
      cases same
      exact stuck.items (before_of_mark ended start (by decide)) all
    · next behind start =>
      cases read
      exact before_of_mark ended start (by decide)
    · cases read

theorem Stuck.fields_succ {fuel : Nat} (stuck : Stuck inside rest fuel) (plain : Plain inside) {depth : Nat}
    {text left : List Char} {fields : List (String × Json)} (before : Before inside rest text)
    (read : readFields (fuel + 1) depth text = some (fields,left)) : Before inside rest left := by
  have inner := before.skipBlanks
  rw [readFields] at read
  split at read
  · next opened start =>
    rw [start] at inner
    obtain ⟨front,rfl⟩ := inner.tail (by decide)
    split at read
    · cases read
    · next key more quoted =>
      have keyed := left_of_readQuoted plain quoted
      split at read
      · next behind colon =>
        have kept := before_of_mark keyed colon (by decide)
        split at read
        · cases read
        · next value more' first =>
          have ended := stuck.value kept first
          dsimp only at read
          split at read
          · next behind' start' =>
            obtain ⟨⟨others,more''⟩,all,same⟩ := Option.map_eq_some_iff.1 read
            cases same
            exact stuck.fields (before_of_mark ended start' (by decide)) all
          · next behind' start' =>
            cases read
            exact before_of_mark ended start' (by decide)
          · cases read
      · cases read
  · cases read

theorem stuck (plain : Plain inside) (fuel : Nat) :
    Stuck inside rest fuel := by
  induction fuel with
  | zero =>
    constructor
    all_goals
      intro _ _ _ _ _ read
      cases read
  | succ fuel ih => exact ⟨ih.value_succ plain,ih.items_succ,ih.fields_succ plain⟩

/-- No text with a broken end is JSON. -/
theorem read?_broken (plain : Plain inside) (front : List Char) :
    read? (front ++ broken inside rest) = none := by
  unfold read?
  split
  · next value left read =>
    rcases (stuck plain _).value ⟨front,rfl⟩ read with before | rfl
    · simp [before.skipBlanks.ne_nil]
    · rfl
  · rfl

end Broken

end Excerpt.Json
