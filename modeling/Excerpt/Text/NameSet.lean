/-!
Sets of names as ascending lists without repetition, ordered by code points.
-/
namespace Excerpt.Text

/-- Puts a name at its place; a name that is there already stays single. -/
def insertName (name : String) : List String → List String
  | [] => [name]
  | n :: ns =>
    if name = n then n :: ns
    else if name < n then name :: n :: ns
    else n :: insertName name ns

def nameSet (names : List String) : List String := names.foldr insertName []

@[simp] theorem mem_insertName {name other : String} {ns : List String} :
    other ∈ insertName name ns ↔ other = name ∨ other ∈ ns := by
  induction ns with
  | nil => simp [insertName]
  | cons n ns ih =>
    simp only [insertName]
    split
    · rename_i same
      subst same
      simp
    · split <;> simp [ih,or_left_comm]

@[simp] theorem mem_nameSet {name : String} {names : List String} :
    name ∈ nameSet names ↔ name ∈ names := by
  induction names with
  | nil => simp [nameSet]
  | cons n ns ih =>
    have step : nameSet (n :: ns) = insertName n (nameSet ns) := rfl
    simp [step,ih]

end Excerpt.Text
