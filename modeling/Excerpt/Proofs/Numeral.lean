import Excerpt.Json.Reader
import Excerpt.Toml.Reader
import Mathlib

/-!
Decimal numbers in texts. The digits of a natural number are read back as that number, in JSON as far
as 64 bits go and in TOML as far as signed 64 bits go, if nothing behind them could belong to a number.
-/
namespace Excerpt

/-- The digits of a number. -/
def numeral (n : Nat) : List Char := (toString n).toList

theorem numeral_eq (n : Nat) : numeral n = Nat.toDigits 10 n := by
  rw [numeral,Nat.toString_eq_ofList_toDigits,String.toList_ofList]

theorem numeral_ne_nil (n : Nat) : numeral n ≠ [] := by
  rw [numeral_eq]
  exact Nat.toDigits_ne_nil

theorem isDigit_of_mem_numeral {n : Nat} {c : Char} (member : c ∈ numeral n) : c.isDigit := by
  rw [numeral_eq] at member
  exact Nat.isDigit_of_mem_toDigits (by decide) (by decide) member

/-- Only zero is written with a zero in front. -/
theorem numeral_of_head_zero {n : Nat} (zero : (numeral n).head? = some '0') : numeral n = ['0'] := by
  induction n using Nat.strongRecOn with
  | _ n ih =>
    rw [numeral_eq,Nat.toDigits_eq_if (by decide)] at zero ⊢
    split at zero
    · next small =>
      have : n = 0 := by
        have digit : Nat.digitChar n = '0' := by simpa using zero
        have all : ∀ k < 10, Nat.digitChar k = '0' → k = 0 := by decide
        exact all n small digit
      subst this
      rfl
    · next large =>
      exfalso
      rw [← numeral_eq] at zero
      have front : (numeral (n / 10)).head? = some '0' := by
        cases digits : numeral (n / 10) with
        | nil => exact absurd digits (numeral_ne_nil _)
        | cons c cs => simpa [digits] using zero
      have whole := ih (n / 10) (by omega) front
      have value := @Nat.ofDigitChars_ten_toDigits (n / 10)
      rw [← numeral_eq,whole] at value
      have : n / 10 = 0 := value.symm
      omega

/-- Text that cannot go on with a number whose digits stand in front of it. -/
def EndsNumber (rest : List Char) : Prop :=
  ∀ c ∈ rest.head?, c.isDigit = false ∧ c ≠ '.' ∧ c ≠ 'e' ∧ c ≠ 'E'

theorem takeWhile_numeral {n : Nat} {rest : List Char} (ends : EndsNumber rest) :
    (numeral n ++ rest).takeWhile Char.isDigit = numeral n := by
  rw [List.takeWhile_append_of_pos fun _ => isDigit_of_mem_numeral]
  cases rest with
  | nil => simp
  | cons c cs => simp [(ends c rfl).1]

theorem dropWhile_numeral {n : Nat} {rest : List Char} (ends : EndsNumber rest) :
    (numeral n ++ rest).dropWhile Char.isDigit = rest := by
  rw [List.dropWhile_append_of_pos fun _ => isDigit_of_mem_numeral]
  cases rest with
  | nil => rfl
  | cons c cs => simp [(ends c rfl).1]

/-- The first character of a number is a digit. -/
theorem exists_numeral_cons (n : Nat) : ∃ c cs, numeral n = c :: cs ∧ c.isDigit := by
  cases digits : numeral n with
  | nil => exact absurd digits (numeral_ne_nil n)
  | cons c cs => exact ⟨c,cs,rfl,isDigit_of_mem_numeral (digits ▸ List.mem_cons_self)⟩

namespace Json

theorem digitsValue_numeral (n : Nat) : digitsValue (numeral n) = n := by
  rw [numeral_eq]
  exact Nat.ofDigitChars_ten_toDigits

theorem foldl_digits_le (cs : List Char) (m : Nat) :
    m ≤ cs.foldl (fun n c => 10 * n + (c.toNat - 48)) m := by
  induction cs generalizing m with
  | nil => exact Nat.le_refl m
  | cons c cs ih => exact Nat.le_trans (by omega) (ih (10 * m + (c.toNat - 48)))

/-- Digits that fit are all taken over. -/
theorem Scaled.whole_eq {cs : List Char} {m : Nat} {e : Int}
    (fits : cs.foldl (fun n c => 10 * n + (c.toNat - 48)) m < 2 ^ 64) :
    Scaled.whole false ⟨m,e⟩ cs = ⟨cs.foldl (fun n c => 10 * n + (c.toNat - 48)) m,e⟩ := by
  induction cs generalizing m with
  | nil => rfl
  | cons c cs ih =>
    rw [List.foldl_cons] at fits
    have next := Nat.lt_of_le_of_lt (foldl_digits_le cs (10 * m + (c.toNat - 48))) fits
    have room : ¬ Nat.pow 2 64 ≤ 10 * m + (c.toNat - 48) := Nat.not_le_of_lt next
    rw [Scaled.whole,List.foldl_cons]
    simp only [Bool.false_or,decide_eq_true_eq,room,if_false]
    exact ih fits

theorem roundToDouble_le (n : Nat) : roundToDouble n ≤ 2 * n + 1 := by
  simp only [roundToDouble]
  generalize unit : Nat.pow 2 (n.log2 + 1 - 53) = u
  have bound : u ≤ n + 1 := by
    by_cases zero : n = 0
    · subst zero
      subst unit
      decide
    · have power := Nat.log2_self_le zero
      have mono : Nat.pow 2 (n.log2 + 1 - 53) ≤ 2 ^ n.log2 := Nat.pow_le_pow_right (by decide) (by omega)
      omega
  have split := Nat.div_add_mod n u
  have up : u * (n / u + 1) = u * (n / u) + u := Nat.mul_succ u (n / u)
  have even : u * (n / u + n / u % 2) ≤ u * (n / u + 1) := Nat.mul_le_mul_left u (by omega)
  split
  · omega
  · split <;> omega

/-- Numbers of 64 bits are far from the bounds of a double. -/
theorem Scaled.isFinite_of_fits {n : Nat} (fits : n < 2 ^ 64) : Scaled.isFinite ⟨n,0⟩ := by
  have single : roundToDouble (Nat.pow 10 (0 : Int).toNat) = 1 := by decide
  have first := roundToDouble_le n
  have second := roundToDouble_le (roundToDouble n * 1)
  have small : roundToDouble (roundToDouble n * 1) < 2 ^ 67 := by omega
  have below (k : Nat) (long : 67 ≤ k) : decide (roundToDouble (roundToDouble n * 1) < Nat.pow 2 k) :=
    decide_eq_true (Nat.lt_of_lt_of_le small (Nat.pow_le_pow_right (by decide) long))
  rw [Scaled.isFinite,single,Bool.or_eq_true,Bool.and_eq_true]
  exact .inr ⟨rfl,below 1024 (by decide)⟩

/-- A number of 64 bits is read back from its digits. -/
theorem readNumber_numeral {n : Nat} (fits : n < 2 ^ 64) {rest : List Char} (ends : EndsNumber rest) :
    readNumber (numeral n ++ rest) = some (.ofNat n,rest) := by
  obtain ⟨c,cs,digits,digit⟩ := exists_numeral_cons n
  have unsigned : (numeral n ++ rest).head? ≠ some '-' := by
    rw [digits]
    rintro ⟨⟩
    exact absurd digit (by decide)
  have single : ¬ ((numeral n).head? = some '0' ∧ 1 < (numeral n).length) := by
    rintro ⟨zero,long⟩
    rw [numeral_of_head_zero zero] at long
    exact absurd long (by decide)
  have noFraction : readFraction rest = some ([],rest) := by
    cases rest with
    | nil => rfl
    | cons d ds =>
      unfold readFraction
      split
      · next same => cases same; exact absurd rfl (ends '.' rfl).2.1
      · rfl
  have noExponent : readExponent rest = some (none,rest) := by
    cases rest with
    | nil => rfl
    | cons d ds => simp [readExponent,(ends d rfl).2.2]
  have scaled : Scaled.whole false ⟨0,0⟩ (numeral n) = ⟨n,0⟩ := by
    have value := digitsValue_numeral n
    rw [digitsValue] at value
    rw [Scaled.whole_eq (by rwa [value]),value]
  unfold readNumber
  simp only [beq_iff_eq,unsigned,if_false,takeWhile_numeral ends,dropWhile_numeral ends,noFraction,
    Option.bind_eq_bind,Option.bind_some,noExponent,scaled,Scaled.fraction,Option.getD_none,
    Int.add_zero,Scaled.isFinite_of_fits fits,if_true]
  have literal : (numeral n ++ rest).take ((numeral n ++ rest).length - rest.length) = numeral n := by
    simp
  rw [if_neg (by simp [List.isEmpty_iff,numeral_ne_nil,single]),literal,numeral,String.ofList_toList]
  rfl

end Json

namespace Toml

theorem valueIn_numeral (n : Nat) : valueIn 10 (numeral n) = n := by
  have digit {c : Char} (digit : c.isDigit) : (hexValue? c).getD 0 = c.toNat - '0'.toNat := by
    have range : ('0' ≤ c && c ≤ '9') = true := by
      simp only [Char.isDigit,Bool.and_eq_true,decide_eq_true_eq] at digit ⊢
      exact digit
    rw [hexValue?,range]
    rfl
  have same {cs : List Char} (digits : ∀ c ∈ cs, c.isDigit) (m : Nat) :
      cs.foldl (fun n c => 10 * n + (hexValue? c).getD 0) m = Nat.ofDigitChars 10 cs m := by
    induction cs generalizing m with
    | nil => rfl
    | cons c cs ih =>
      rw [List.foldl_cons,Nat.ofDigitChars_cons,digit (digits c List.mem_cons_self)]
      exact ih (fun d member => digits d (List.mem_cons_of_mem c member)) _
  rw [valueIn,same fun _ => isDigit_of_mem_numeral,numeral_eq,Nat.ofDigitChars_ten_toDigits]

theorem readDigits_of_digits {cs rest : List Char} (digits : ∀ c ∈ cs, c.isDigit) :
    readDigits Char.isDigit (cs ++ '\n' :: rest) = some (cs,'\n' :: rest) := by
  induction cs with
  | nil => rfl
  | cons c cs ih =>
    have digit := digits c List.mem_cons_self
    have mark : c ≠ '_' := by
      rintro rfl
      exact absurd digit (by decide)
    have later := ih fun d member => digits d (List.mem_cons_of_mem c member)
    rw [List.cons_append,readDigits]
    · simp [digit,later,before]
    · exact mark

/-- Behind some digits of a number, either its other digits or the end of the line follow. -/
theorem head_of_readFixed {cs : List Char} (digits : ∀ c ∈ cs, c.isDigit)
    {count low high value : Nat} {rest more : List Char}
    (read : readFixed count low high (cs ++ '\n' :: rest) = some (value,more)) :
    ∃ c tail, more = c :: tail ∧ (c.isDigit ∨ c = '\n') := by
  simp only [readFixed] at read
  split at read
  · next fixed =>
    cases read
    simp only [Bool.and_eq_true,decide_eq_true_eq,List.all_eq_true] at fixed
    have inside : count ≤ cs.length := by
      refine Nat.le_of_not_lt fun beyond => ?_
      have taken : '\n' ∈ (cs ++ '\n' :: rest).take count := by
        rw [List.take_append,List.mem_append]
        right
        obtain ⟨k,more⟩ := Nat.exists_eq_succ_of_ne_zero (Nat.sub_ne_zero_of_lt beyond)
        rw [more,List.take_succ_cons]
        exact List.mem_cons_self
      exact absurd (fixed.1.1.2 _ taken) (by decide)
    rw [List.drop_append_of_le_length inside]
    cases left : cs.drop count with
    | nil => exact ⟨'\n',rest,rfl,.inr rfl⟩
    | cons c tail =>
      refine ⟨c,tail ++ '\n' :: rest,rfl,.inl (digits c ?_)⟩
      exact List.mem_of_mem_drop (left ▸ List.mem_cons_self)
  · cases read

theorem afterChar_of_readFixed {cs : List Char} (digits : ∀ c ∈ cs, c.isDigit)
    {count low high value : Nat} {rest more : List Char}
    (read : readFixed count low high (cs ++ '\n' :: rest) = some (value,more)) {mark : Char}
    (other : mark.isDigit = false ∧ mark ≠ '\n') : afterChar mark more = none := by
  obtain ⟨c,tail,rfl,kind⟩ := head_of_readFixed digits read
  have differs : c ≠ mark := by
    rintro rfl
    rcases kind with digit | line
    · rw [other.1] at digit
      cases digit
    · exact other.2 line
  simp [afterChar,differs]

theorem readDatetime_of_digits {cs : List Char} (digits : ∀ c ∈ cs, c.isDigit) (rest : List Char) :
    readDatetime (cs ++ '\n' :: rest) = none := by
  have noDate : readDate (cs ++ '\n' :: rest) = none := by
    unfold readDate
    cases read : readFixed 4 0 9999 (cs ++ '\n' :: rest) with
    | none => rfl
    | some result => simp [afterChar_of_readFixed digits read (by decide : '-'.isDigit = false ∧ '-' ≠ '\n')]
  have noTime : readTime (cs ++ '\n' :: rest) = none := by
    unfold readTime
    cases read : readFixed 2 0 23 (cs ++ '\n' :: rest) with
    | none => rfl
    | some result => simp [afterChar_of_readFixed digits read (by decide : ':'.isDigit = false ∧ ':' ≠ '\n')]
  simp [readDatetime,noDate,noTime]

theorem readSign_numeral (n : Nat) (rest : List Char) :
    readSign (numeral n ++ rest) = (false,numeral n ++ rest) := by
  obtain ⟨c,cs,digits,digit⟩ := exists_numeral_cons n
  rw [digits,List.cons_append]
  unfold readSign
  split
  · next same => cases same; exact absurd digit (by decide)
  · next same => cases same; exact absurd digit (by decide)
  · rfl

theorem readDecimal_numeral (n : Nat) (rest : List Char) :
    readDecimal (numeral n ++ '\n' :: rest) = some (numeral n,'\n' :: rest) := by
  have digits (c : Char) : c ∈ numeral n → c.isDigit := isDigit_of_mem_numeral
  by_cases zero : (numeral n).head? = some '0'
  · rw [numeral_of_head_zero zero]
    rfl
  · obtain ⟨c,cs,own,digit⟩ := exists_numeral_cons n
    rw [own] at zero digits ⊢
    have later := @readDigits_of_digits cs rest fun d member => digits d (List.mem_cons_of_mem c member)
    unfold readDecimal
    split
    · next same => cases same; exact absurd rfl zero
    · simp [readDigits1,digit,later,before]

theorem afterWord_numeral {word : String} {first : Char} {others : List Char}
    (spelled : word.toList = first :: others) (other : first.isDigit = false) (n : Nat)
    (rest : List Char) : afterWord word (numeral n ++ rest) = none := by
  obtain ⟨c,cs,digits,digit⟩ := exists_numeral_cons n
  have differs : first ≠ c := by
    rintro rfl
    rw [other] at digit
    cases digit
  rw [afterWord,spelled,digits]
  simp [differs]

theorem readFloat_numeral (n : Nat) (rest : List Char) :
    readFloat (numeral n ++ '\n' :: rest) = none := by
  unfold readFloat
  rw [readSign_numeral]
  simp only [afterWord_numeral (by rfl : "inf".toList = ['i','n','f']) (by decide),
    afterWord_numeral (by rfl : "nan".toList = ['n','a','n']) (by decide),Option.or_none]
  simp [readDecimal_numeral,readFraction,readExponent]

theorem isSmall_of_fits {n : Nat} (fits : n < 2 ^ 63) : isSmall n := by
  have power : Int.pow 2 63 = 9223372036854775808 := by decide
  rw [isSmall,power,Bool.and_eq_true,decide_eq_true_eq,decide_eq_true_eq]
  omega

/-- A number of signed 64 bits at the end of a line is read back from its digits. -/
theorem readNumber_numeral {n : Nat} (fits : n < 2 ^ 63) (rest : List Char) :
    readNumber (numeral n ++ '\n' :: rest) = some (.integer n,'\n' :: rest) := by
  -- A number with a zero in front is over behind it, so no base is given.
  have base {c : Char} {more : List Char} (same : numeral n ++ '\n' :: rest = '0' :: c :: more) :
      c = '\n' := by
    have zero : (numeral n).head? = some '0' := by
      obtain ⟨d,ds,digits,-⟩ := exists_numeral_cons n
      rw [digits,List.cons_append,List.cons.injEq] at same
      rw [digits,same.1]
      rfl
    rw [numeral_of_head_zero zero,List.singleton_append,List.cons.injEq,List.cons.injEq] at same
    exact same.2.1.symm
  have integer : readInteger (numeral n ++ '\n' :: rest) = some (.integer n,'\n' :: rest) := by
    unfold readInteger
    split
    · next same => exact absurd (base same) (by decide)
    · next same => exact absurd (base same) (by decide)
    · next same => exact absurd (base same) (by decide)
    · rw [readSign_numeral]
      dsimp only
      rw [readDecimal_numeral,Option.bind_eq_bind,Option.bind_some]
      dsimp only
      rw [valueIn_numeral]
      exact if_pos (isSmall_of_fits fits)
  rw [readNumber,readDatetime_of_digits fun _ => isDigit_of_mem_numeral,readFloat_numeral,Option.none_or,
    Option.none_or,integer]

end Toml

end Excerpt
