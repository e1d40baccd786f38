/-!
Text from bytes. A sequence of bytes that breaks off or could not begin a character is a fault, and
reading goes on with the byte behind it.
-/
namespace Excerpt.Text

/-- A character of which some bytes are still missing; the next must lie between two bounds. -/
structure Unfinished where
  missing : Nat
  low : Nat
  high : Nat
  value : Nat
deriving DecidableEq, Repr

/-- What a byte can begin: a character of its own, or a longer one. -/
def beginChar (b : Nat) : Option (Char ⊕ Unfinished) :=
  if b < 0x80 then some (.inl (Char.ofNat b))
  else if 0xC2 ≤ b && b ≤ 0xDF then some (.inr ⟨1,0x80,0xBF,b % 32⟩)
  else if 0xE0 ≤ b && b ≤ 0xEF then
    some (.inr ⟨2,if b == 0xE0 then 0xA0 else 0x80,if b == 0xED then 0x9F else 0xBF,b % 16⟩)
  else if 0xF0 ≤ b && b ≤ 0xF4 then
    some (.inr ⟨3,if b == 0xF0 then 0x90 else 0x80,if b == 0xF4 then 0x8F else 0xBF,b % 8⟩)
  else none

/-- The characters that bytes stand for, with `none` for every fault. -/
def decodeFrom (open? : Option Unfinished) : List UInt8 → List (Option Char)
  | [] => if open?.isSome then [none] else []
  | b :: bs =>
    let b := b.toNat
    match open? with
    | some u =>
      if u.low ≤ b && b ≤ u.high then
        let value := 64 * u.value + b % 64
        if u.missing ≤ 1 then some (Char.ofNat value) :: decodeFrom none bs
        else decodeFrom (some ⟨u.missing - 1,0x80,0xBF,value⟩) bs
      else
        match beginChar b with
        | some (.inl c) => none :: some c :: decodeFrom none bs
        | some (.inr u) => none :: decodeFrom (some u) bs
        | none => none :: none :: decodeFrom none bs
    | none =>
      match beginChar b with
      | some (.inl c) => some c :: decodeFrom none bs
      | some (.inr u) => decodeFrom (some u) bs
      | none => none :: decodeFrom none bs

/-- Every fault becomes a replacement character. -/
def decodeLossy (bytes : List UInt8) : String :=
  String.ofList ((decodeFrom none bytes).map (·.getD '\ufffd'))

/-- The text of bytes without any fault. -/
def decode? (bytes : List UInt8) : Option String :=
  let cs := decodeFrom none bytes
  if cs.all Option.isSome then some (String.ofList (cs.map (·.getD ' '))) else none

end Excerpt.Text
