/-!
Binary fractions: doubles between zero and one. The double nearest to a quotient, and how it is
written with a fixed number of places or with the fewest digits that read back.
-/
namespace Excerpt

/-- The quotient rounded to the nearest number; a half goes to the even neighbour. -/
def roundHalfEven (num den : Nat) : Nat :=
  let low := num / den
  let twice := 2 * (num % den)
  if twice < den then low
  else if den < twice then low + 1
  else low + low % 2

/-- The number `mantissa / 2 ^ scale`. -/
structure BinaryFraction where
  mantissa : Nat
  scale : Nat
deriving DecidableEq, Repr

namespace BinaryFraction

def zero : BinaryFraction := ⟨0,0⟩

/-- The scale at which a quotient up to one has 53 binary digits. -/
def scaleOf (num den : Nat) : Nat :=
  let guess := 52 + den.log2 - num.log2
  if num * Nat.pow 2 guess < Nat.pow 2 52 * den then guess + 1 else guess

/-- The double nearest to a quotient up to one. -/
def nearest (num den : Nat) : BinaryFraction :=
  if num = 0 || den = 0 then zero
  else
    let scale := scaleOf num den
    ⟨roundHalfEven (num * Nat.pow 2 scale) den,scale⟩

def padded (width : Nat) (digits : List Char) : List Char :=
  List.replicate (width - digits.length) '0' ++ digits

/-- The number with a fixed number of decimal places. -/
def fixed (places : Nat) (x : BinaryFraction) : String :=
  let units := roundHalfEven (x.mantissa * Nat.pow 10 places) (Nat.pow 2 x.scale)
  toString (units / Nat.pow 10 places) ++ "." ++
    String.ofList (padded places (toString (units % Nat.pow 10 places)).toList)

/-- Whether `digits / 10 ^ places` reads back as the number: it lies between the two halves of the
way to the neighbouring doubles, or on one of them if the mantissa is even. -/
def readsBack (x : BinaryFraction) (digits places : Nat) : Bool :=
  let value := digits * Nat.pow 2 (x.scale + 2)
  let low := (4 * x.mantissa - if x.mantissa = Nat.pow 2 52 then 1 else 2) * Nat.pow 10 places
  let high := (4 * x.mantissa + 2) * Nat.pow 10 places
  if x.mantissa % 2 = 0 then low ≤ value && value ≤ high else low < value && value < high

/-- The digits at so many places that read back: of the two neighbours the nearer. -/
def digitsAt? (x : BinaryFraction) (places : Nat) : Option Nat :=
  let scaled := x.mantissa * Nat.pow 10 places
  let near := roundHalfEven scaled (Nat.pow 2 x.scale)
  let low := scaled / Nat.pow 2 x.scale
  let far := if near = low then low + 1 else low
  if x.readsBack near places then some near
  else if x.readsBack far places then some far
  else none

/-- The fewest places, from `places` on, at which some digits read back. -/
def shortestFrom (x : BinaryFraction) (places : Nat) : Nat → Nat × Nat
  | 0 => (x.mantissa * Nat.pow 10 places / Nat.pow 2 x.scale,places)
  | fuel + 1 =>
    match x.digitsAt? places with
    | some digits => (digits,places)
    | none => x.shortestFrom (places + 1) fuel

/-- The fewest digits that read back, and the number of places that they take. A double between
zero and one that is no smaller than `2 ^ -64` takes at most 37 places. -/
def shortest (x : BinaryFraction) : Nat × Nat := x.shortestFrom 0 40

/-- The number as a literal: positional down to five places behind the point, and with an exponent
below. -/
def literal (x : BinaryFraction) : String :=
  let (units,places) := x.shortest
  let digits := (toString units).toList
  if places = 0 then toString units ++ ".0"
  else if places < digits.length + 5 then "0." ++ String.ofList (padded places digits)
  else
    let point := if digits.length = 1 then [] else ['.']
    String.ofList (digits.take 1 ++ point ++ digits.drop 1) ++ "e-" ++
      toString (places + 1 - digits.length)

end BinaryFraction

end Excerpt
