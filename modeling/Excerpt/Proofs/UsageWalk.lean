import Excerpt.Proofs.ClassReads
import Excerpt.Proofs.CommentLines
import Mathlib

/-!
The walk that collects the names in use. Nodes wait for a visit; a visit notes the name of an identifier and
lets those children wait below which names count. Whichever node is visited next, the walk ends, and it has
noted the identifiers that can be reached from its first node by steps to children that count.
-/
namespace Excerpt.Text

theorem ascending_insertName {name : String} {ns : List String} (ascending : ns.Pairwise (· < ·)) :
    (insertName name ns).Pairwise (· < ·) := by
  induction ns with
  | nil => simp [insertName]
  | cons n ns ih =>
    obtain ⟨first,rest⟩ := List.pairwise_cons.1 ascending
    rw [insertName]
    split_ifs with same before
    · exact ascending
    · refine List.pairwise_cons.2 ⟨?_,ascending⟩
      intro other member
      rcases List.mem_cons.1 member with rfl | later
      · exact before
      · exact before.trans (first other later)
    · refine List.pairwise_cons.2 ⟨?_,ih rest⟩
      intro other member
      rcases mem_insertName.1 member with rfl | later
      · exact lt_of_le_of_ne (not_lt.1 before) (Ne.symm same)
      · exact first other later

theorem ascending_nameSet (names : List String) : (nameSet names).Pairwise (· < ·) := by
  induction names with
  | nil => exact List.Pairwise.nil
  | cons name names ih => exact ascending_insertName ih

end Excerpt.Text

namespace Excerpt.Syntax.Tree

theorem preorderAll_eq_flatMap (ts : List Tree) : preorderAll ts = ts.flatMap preorder := by
  induction ts with
  | nil => rfl
  | cons t ts ih => rw [preorderAll,ih,List.flatMap_cons]

/-- The children that wait after a visit to a node. -/
def onward (t : Tree) : List Tree :=
  match t.symbol with
  | .token _ => t.namedChildren
  | .named k =>
    if k == .identifier then []
    else if k == .member then (t.child? .object).toList
    else if k == .dottedName then t.namedChildren.head?.toList
    else if carriesName k then (t.children.eraseP (·.field == some .name)).filter isNamed
    else if hidesNames k then []
    else t.namedChildren

theorem toList_find?_sublist (p : Tree → Bool) (ts : List Tree) : (ts.find? p).toList.Sublist ts := by
  cases found : ts.find? p with
  | none => exact List.nil_sublist ts
  | some t => exact List.singleton_sublist.2 (List.mem_of_find?_eq_some found)

theorem onward_sublist (t : Tree) : t.onward.Sublist t.children := by
  unfold onward
  split
  · exact List.filter_sublist
  · split_ifs
    · exact List.nil_sublist _
    · exact toList_find?_sublist _ _
    · rw [namedChildren,List.head?_filter]
      exact toList_find?_sublist _ _
    · exact List.filter_sublist.trans List.eraseP_sublist
    · exact List.nil_sublist _
    · exact List.filter_sublist

theorem length_preorderAll_onward (t : Tree) : (preorderAll t.onward).length < t.preorder.length := by
  have fewer := (t.onward_sublist.flatMap preorder).length_le
  rw [preorder_eq,List.length_cons,preorderAll_eq_flatMap,preorderAll_eq_flatMap]
  exact Nat.lt_succ_of_le fewer

end Excerpt.Syntax.Tree

namespace Excerpt
open Excerpt.Text Excerpt.Syntax

section Names

variable {n : String} {cs : List Tree}

theorem mem_namesInObject : n ∈ namesInObject cs ↔
    ∃ u, cs.find? (·.field == some .object) = some u ∧ n ∈ namesIn u := by
  induction cs with
  | nil => simp [namesInObject]
  | cons c cs ih =>
    rw [namesInObject,List.find?_cons]
    cases own : c.field == some .object <;> simp [ih]

theorem mem_namesInFirst : n ∈ namesInFirst cs ↔
    ∃ u, cs.find? Tree.isNamed = some u ∧ n ∈ namesIn u := by
  induction cs with
  | nil => simp [namesInFirst]
  | cons c cs ih =>
    rw [namesInFirst,List.find?_cons]
    cases own : c.isNamed <;> simp [ih]

theorem mem_namesInUnnamed_iff : n ∈ namesInUnnamed cs ↔
    ∃ u ∈ cs.eraseP (·.field == some .name), u.isNamed ∧ n ∈ namesIn u := by
  induction cs with
  | nil => simp [namesInUnnamed]
  | cons c cs ih =>
    rw [namesInUnnamed,List.eraseP_cons]
    cases own : c.field == some .name with
    | true => simpa using Program.mem_namesInAll
    | false => cases named : c.isNamed <;> simp [ih,named]

theorem mem_namesInAll_iff {t : Tree} :
    n ∈ namesInAll t.children ↔ ∃ u ∈ t.namedChildren, n ∈ namesIn u := by
  simp [Program.mem_namesInAll,Tree.namedChildren,and_assoc]

theorem namesIn_token {t : Tree} {spelling : String} (symbol : t.symbol = .token spelling) :
    namesIn t = namesInAll t.children := by
  obtain ⟨l,cs⟩ := t
  rw [Tree.symbol_node] at symbol
  simp [namesIn,symbol]

theorem namesIn_named {t : Tree} {k : Kind} (symbol : t.symbol = .named k) : namesIn t =
    if k == .identifier then [t.text]
    else if k == .member then namesInObject t.children
    else if k == .dottedName then namesInFirst t.children
    else if carriesName k then namesInUnnamed t.children
    else if hidesNames k then []
    else namesInAll t.children := by
  obtain ⟨l,cs⟩ := t
  rw [Tree.symbol_node] at symbol
  simp [namesIn,symbol]

/-- A name is in use at a node if the node is that identifier, or if it is in use at a child that waits after
a visit to the node. -/
theorem mem_namesIn {t : Tree} : n ∈ namesIn t ↔
    t.is .identifier ∧ t.text = n ∨ ∃ u ∈ t.onward, n ∈ namesIn u := by
  rw [Tree.onward]
  cases symbol : t.symbol with
  | token spelling => simp [namesIn_token symbol,mem_namesInAll_iff,Tree.is,symbol]
  | named k =>
    rw [namesIn_named symbol]
    have own : t.is .identifier = (k == .identifier) := by simp [Tree.is,symbol]
    dsimp only
    split_ifs with word member dotted named hidden
    · simp [own,word,eq_comm]
    · simp [own,word,mem_namesInObject,Tree.child?]
    · simp [own,word,mem_namesInFirst,Tree.namedChildren]
    · simp [own,word,mem_namesInUnnamed_iff,and_assoc]
    · simp [own,word]
    · simp [own,word,mem_namesInAll_iff]

end Names

/-- What is noted after a visit to a node. -/
def note (t : Tree) (used : List String) : List String :=
  if t.is .identifier then insertName t.text used else used

theorem mem_note {t : Tree} {n : String} {used : List String} :
    n ∈ note t used ↔ t.is .identifier ∧ t.text = n ∨ n ∈ used := by
  rw [note]
  split_ifs with word
  · simp [word,eq_comm]
  · simp [word]

/-- A walk on its way: the nodes that wait for a visit, and the names that were noted. -/
structure Walk where
  waiting : List Tree
  used : List String

namespace Walk

variable {w v : Walk}

def start (t : Tree) : Walk := ⟨[t],[]⟩

/-- Any node that waits may be visited next, and what waits after the visit may wait in any order. -/
inductive Step : Walk → Walk → Prop
  | visit {before after waiting : List Tree} {t : Tree} {used : List String}
      (order : waiting.Perm (before ++ after ++ t.onward)) :
      Step ⟨before ++ t :: after,used⟩ ⟨waiting,note t used⟩

/-- A number of visits one after the other. -/
inductive Visits : Nat → Walk → Walk → Prop
  | none (w : Walk) : Visits 0 w w
  | next {k : Nat} {w v u : Walk} (first : Step w v) (rest : Visits k v u) : Visits (k + 1) w u

/-- How many nodes there are at and below those that wait. -/
def ahead (w : Walk) : Nat := (Tree.preorderAll w.waiting).length

/-- The names that the walk has noted or will come to. -/
def Shows (w : Walk) (n : String) : Prop := n ∈ w.used ∨ ∃ t ∈ w.waiting, n ∈ namesIn t

theorem Step.ahead_lt (step : Step w v) : v.ahead < w.ahead := by
  cases step with
  | @visit before after waiting t used order =>
    have same := (order.flatMap_right Tree.preorder).length_eq
    have less := t.length_preorderAll_onward
    simp only [ahead,Tree.preorderAll_eq_flatMap,List.flatMap_append,List.flatMap_cons,
      List.length_append] at same less ⊢
    omega

/-- A visit moves names from what waits to what is noted, and loses none. -/
theorem Step.shows_iff (step : Step w v) {n : String} : v.Shows n ↔ w.Shows n := by
  cases step with
  | @visit before after waiting t used order =>
    -- The names at the visited node are its own and those of the children that wait now.
    have own := @mem_namesIn n t
    simp only [Shows,mem_note,order.mem_iff,List.mem_append,List.mem_cons]
    grind

theorem Step.ascending (step : Step w v) (ascending : w.used.Pairwise (· < ·)) :
    v.used.Pairwise (· < ·) := by
  cases step with
  | @visit before after waiting t used order =>
    dsimp only [note]
    split_ifs
    · exact ascending_insertName ascending
    · exact ascending

/-- There are never more visits than nodes. -/
theorem Visits.ahead_le {k : Nat} (visits : Visits k w v) : k + v.ahead ≤ w.ahead := by
  induction visits with
  | none w => omega
  | next first rest ih =>
    have less := first.ahead_lt
    omega

theorem Visits.shows_iff {k : Nat} (visits : Visits k w v) {n : String} : v.Shows n ↔ w.Shows n := by
  induction visits with
  | none w => exact Iff.rfl
  | next first rest ih => exact ih.trans first.shows_iff

theorem Visits.ascending {k : Nat} (visits : Visits k w v) (ascending : w.used.Pairwise (· < ·)) :
    v.used.Pairwise (· < ·) := by
  induction visits with
  | none w => exact ascending
  | next first rest ih => exact ih (first.ascending ascending)

/-- As long as a node waits, the walk goes on. -/
theorem waiting_eq_nil_of_stuck (stuck : ∀ v, ¬ Step w v) : w.waiting = [] := by
  obtain ⟨waiting,used⟩ := w
  cases waiting with
  | nil => rfl
  | cons t rest =>
    have visit : Step ⟨t :: rest,used⟩ ⟨rest ++ t.onward,note t used⟩ :=
      @Step.visit [] rest _ t used (List.Perm.refl _)
    exact absurd visit (stuck _)

/-- Where a walk ends, the names in use are noted, whatever the order of the visits was. -/
theorem Visits.used_eq {k : Nat} {t : Tree} (visits : Visits k (start t) w) (ended : w.waiting = []) :
    w.used = usage t := by
  refine (visits.ascending List.Pairwise.nil).eq_of_mem_iff (ascending_nameSet _) fun n => ?_
  have same := visits.shows_iff (n := n)
  simpa [Shows,start,ended,usage] using same

end Walk

/-- The walk with a stack, on which the node that was put there last is visited first. -/
def stackWalk : List Tree → List String → List String
  | [],used => used
  | t :: stack,used => stackWalk (t.onward.reverse ++ stack) (note t used)
termination_by stack => (Tree.preorderAll stack).length
decreasing_by
  have same := ((List.reverse_perm t.onward).flatMap_right Tree.preorder).length_eq
  have less := t.length_preorderAll_onward
  simp only [Tree.preorderAll_eq_flatMap,List.flatMap_append,List.flatMap_cons,
    List.length_append] at same less ⊢
  omega

theorem visits_stackWalk (stack : List Tree) (used : List String) :
    ∃ k, Walk.Visits k ⟨stack,used⟩ ⟨[],stackWalk stack used⟩ := by
  fun_induction stackWalk stack used with
  | case1 used => exact ⟨0,.none _⟩
  | case2 t stack used ih =>
    obtain ⟨k,rest⟩ := ih
    have order : (t.onward.reverse ++ stack).Perm ([] ++ stack ++ t.onward) :=
      List.perm_append_comm.trans ((List.reverse_perm _).append_left stack)
    exact ⟨k + 1,.next (@Walk.Step.visit [] stack _ t used order) rest⟩

theorem stackWalk_eq_usage (t : Tree) : stackWalk [t] [] = usage t := by
  obtain ⟨k,visits⟩ := visits_stackWalk [t] []
  exact visits.used_eq rfl

end Excerpt

namespace Excerpt.Syntax.Tree

/-- A step down to the child at an index, on the way to names in use. It leads to a construct. A member is
left only to its object and a dotted name only to its first construct, the name of a definition or of a
keyword argument is never entered, and imports and declarations are never left. -/
@[mk_iff]
structure Descends (t : Tree) (i : Nat) (u : Tree) : Prop where
  child : t.children[i]? = some u
  named : u.isNamed
  object : t.is .member → t.children.findIdx? (·.field == some .object) = some i
  head : t.is .dottedName → t.children.findIdx? isNamed = some i
  unnamed : t.is .classDefinition ∨ t.is .functionDefinition ∨ t.is .keywordArgument →
    t.children.findIdx? (·.field == some .name) ≠ some i
  shown : ¬ (t.is .importStatement ∨ t.is .importFromStatement ∨ t.is .futureImportStatement ∨
    t.is .globalStatement ∨ t.is .nonlocalStatement)

/-- The nodes at the ends of the paths that consist of such steps. -/
def Reaches : Tree → Tree → Prop := Relation.ReflTransGen fun t u => ∃ i, t.Descends i u

/-- Words stand at the bottom of a tree: an identifier has no parts, and no token has one below it. -/
structure Lexical (t : Tree) : Prop where
  word : ∀ u, t.Contains u → u.is .identifier → u.children = []
  token : ∀ u, t.Contains u → u.isNamed = false → ∀ v, u.Contains v → v.is .identifier = false

theorem Lexical.child {t u : Tree} (lexical : t.Lexical) (member : u ∈ t.children) : u.Lexical :=
  ⟨fun v inside => lexical.word v (.part member inside),
    fun v inside => lexical.token v (.part member inside)⟩

theorem Contains.trans {t u v : Tree} (outer : t.Contains u) (inner : u.Contains v) : t.Contains v := by
  induction outer with
  | self t => exact inner
  | part child _ ih => exact .part child (ih inner)

end Excerpt.Syntax.Tree

namespace Excerpt
open Excerpt.Text Excerpt.Syntax

section Paths

variable {t u : Tree} {n : String}

theorem find?_eq_some_iff_findIdx? {p : Tree → Bool} {ts : List Tree} :
    ts.find? p = some u ↔ ∃ i, ts[i]? = some u ∧ ts.findIdx? p = some i := by
  induction ts with
  | nil => simp
  | cons c cs ih =>
    rw [List.find?_cons,List.findIdx?_cons]
    cases own : p c <;> simp [ih]

theorem mem_eraseP_iff_findIdx? {p : Tree → Bool} {ts : List Tree} :
    u ∈ ts.eraseP p ↔ ∃ i, ts[i]? = some u ∧ ts.findIdx? p ≠ some i := by
  rw [List.eraseP_eq_eraseIdx]
  cases found : ts.findIdx? p with
  | none => simp [List.mem_iff_getElem?]
  | some k => simp [List.mem_eraseIdx_iff_getElem?,and_comm,eq_comm]

theorem carriesName_iff {k : Kind} : carriesName k ↔
    k = .classDefinition ∨ k = .functionDefinition ∨ k = .keywordArgument := by
  cases k <;> decide

theorem hidesNames_iff {k : Kind} : hidesNames k ↔ k = .importStatement ∨ k = .importFromStatement ∨
    k = .futureImportStatement ∨ k = .globalStatement ∨ k = .nonlocalStatement := by
  cases k <;> decide

theorem descends_iff_of_kind {k : Kind} {i : Nat} (symbol : t.symbol = .named k) : t.Descends i u ↔
    t.children[i]? = some u ∧ u.isNamed ∧
    (k = .member → t.children.findIdx? (·.field == some .object) = some i) ∧
    (k = .dottedName → t.children.findIdx? Tree.isNamed = some i) ∧
    (carriesName k → t.children.findIdx? (·.field == some .name) ≠ some i) ∧ ¬ hidesNames k := by
  have own (other : Kind) : t.is other ↔ k = other := by simp [Tree.is,symbol]
  rw [Tree.descends_iff,carriesName_iff,hidesNames_iff]
  simp only [own]

theorem mem_namedChildren_iff (named : u.isNamed) :
    u ∈ t.namedChildren ↔ ∃ i : Nat, t.children[i]? = some u := by
  rw [Tree.namedChildren,List.mem_filter,List.mem_iff_getElem?]
  exact and_iff_left named

/-- The constructs that wait after a visit are those to which there is a step, unless the node is a word. -/
theorem mem_onward_iff (open_ : t.is .identifier = false) (named : u.isNamed) :
    u ∈ t.onward ↔ ∃ i, t.Descends i u := by
  rw [Tree.onward]
  cases symbol : t.symbol with
  | token spelling =>
    have plain (k : Kind) : t.is k = false := by simp [Tree.is,symbol]
    refine (mem_namedChildren_iff named).trans (exists_congr fun i => ⟨fun child => ?_,Tree.Descends.child⟩)
    constructor <;> simp [plain,child,named]
  | named k =>
    have other : k ≠ .identifier := by simpa [Tree.is,symbol] using open_
    simp only [descends_iff_of_kind symbol,named,true_and]
    split_ifs with word member dotted carries hides
    · exact absurd (beq_iff_eq.1 word) other
    · obtain rfl := beq_iff_eq.1 member
      simpa [carriesName,hidesNames,Tree.child?] using find?_eq_some_iff_findIdx?
    · obtain rfl := beq_iff_eq.1 dotted
      simpa [carriesName,hidesNames,Tree.namedChildren] using find?_eq_some_iff_findIdx?
    · have shown : ¬ hidesNames k := by
        rw [carriesName_iff] at carries
        rcases carries with rfl | rfl | rfl <;> decide
      simp_all [mem_eraseP_iff_findIdx?]
    · simp [hides]
    · simp_all [mem_namedChildren_iff named]

theorem contains_identifier_of_mem_namesIn {t : Tree} (used : n ∈ namesIn t) :
    ∃ u, t.Contains u ∧ u.is .identifier := by
  rcases mem_namesIn.1 used with ⟨word,-⟩ | ⟨u,waits,inside⟩
  · exact ⟨t,.self t,word⟩
  · have child := t.onward_sublist.subset waits
    have := Tree.sizeOf_lt_of_mem child
    obtain ⟨v,lower,word⟩ := contains_identifier_of_mem_namesIn inside
    exact ⟨v,.part child lower,word⟩
termination_by sizeOf t

/-- Where words stand at the bottom, a name is in use at a node if the node is that identifier, or if it is in
use where a step leads. -/
theorem mem_namesIn_of_lexical (lexical : t.Lexical) : n ∈ namesIn t ↔
    t.is .identifier ∧ t.text = n ∨ ∃ i u, t.Descends i u ∧ n ∈ namesIn u := by
  cases word : t.is .identifier with
  | true =>
    have leaf := lexical.word t (.self t) word
    have still : t.onward = [] := List.sublist_nil.1 (leaf ▸ t.onward_sublist)
    have none (i : Nat) (u : Tree) : ¬ t.Descends i u := fun step => by simpa [leaf] using step.child
    rw [mem_namesIn]
    simp [word,still,none]
  | false =>
    rw [mem_namesIn]
    simp only [word,Bool.false_eq_true,false_and,false_or]
    constructor
    · rintro ⟨u,waits,used⟩
      have child := t.onward_sublist.subset waits
      -- The object of a member waits even if it is a token, but then nothing below it is a name.
      have named : u.isNamed := by
        by_contra unnamed
        obtain ⟨v,lower,identifier⟩ := contains_identifier_of_mem_namesIn used
        rw [lexical.token u (.part child (.self u)) (Bool.eq_false_iff.2 unnamed) v lower] at identifier
        cases identifier
      obtain ⟨i,step⟩ := (mem_onward_iff word named).1 waits
      exact ⟨i,u,step,used⟩
    · rintro ⟨i,u,step,used⟩
      exact ⟨u,(mem_onward_iff word step.named).2 ⟨i,step⟩,used⟩

theorem reaches_of_mem_namesIn {t : Tree} (lexical : t.Lexical) (used : n ∈ namesIn t) :
    ∃ u, t.Reaches u ∧ u.is .identifier ∧ u.text = n := by
  rcases (mem_namesIn_of_lexical lexical).1 used with ⟨word,text⟩ | ⟨i,u,step,inside⟩
  · exact ⟨t,.refl,word,text⟩
  · have child := List.mem_of_getElem? step.child
    have := Tree.sizeOf_lt_of_mem child
    obtain ⟨v,path,word,text⟩ := reaches_of_mem_namesIn (lexical.child child) inside
    exact ⟨v,.head ⟨i,step⟩ path,word,text⟩
termination_by sizeOf t

theorem mem_namesIn_of_reaches (lexical : t.Lexical) (path : t.Reaches u) (word : u.is .identifier) :
    u.text ∈ namesIn t := by
  induction path using Relation.ReflTransGen.head_induction_on with
  | refl => exact mem_namesIn.2 (.inl ⟨word,rfl⟩)
  | head step rest ih =>
    obtain ⟨i,step⟩ := step
    have inside := ih (lexical.child (List.mem_of_getElem? step.child))
    exact (mem_namesIn_of_lexical lexical).2 (.inr ⟨i,_,step,inside⟩)

theorem mem_usage_iff_reaches (lexical : t.Lexical) :
    n ∈ usage t ↔ ∃ u, t.Reaches u ∧ u.is .identifier ∧ u.text = n := by
  rw [usage,mem_nameSet]
  constructor
  · exact reaches_of_mem_namesIn lexical
  · rintro ⟨u,path,word,rfl⟩
    exact mem_namesIn_of_reaches lexical path word

example : (classesOf "class A:\n    x = os.path.join(y)\nclass B(A, key=M):\n    from yaml import load\n").map
    usage = [["os","x","y"],["A","M"]] := by
  decide +kernel

end Paths

section Reading

theorem fits_of_contains {t u : Tree} {p : Place} (placed : t.fits p) (inside : t.Contains u) :
    ∃ q : Place, u.fits q := by
  induction inside generalizing p with
  | self t => exact ⟨p,placed⟩
  | part child _ ih => exact ih ((Tree.fits_iff.1 placed).2 _ child)

theorem below_token (symbol : Symbol) (role : Option Field) : Place.below .token symbol role = .token := by
  cases symbol <;> rfl

/-- Below a token stand only comments, line continuations and other tokens. -/
theorem not_identifier_of_fits_token {t u : Tree} (placed : t.fits .token) (inside : t.Contains u) :
    u.is .identifier = false := by
  induction inside with
  | self t =>
    have allowed := (Tree.fits_iff.1 placed).1
    rw [Bool.eq_false_iff]
    intro word
    rw [beq_iff_eq.1 word] at allowed
    cases allowed
  | part child _ ih =>
    have lower := (Tree.fits_iff.1 placed).2 _ child
    rw [below_token] at lower
    exact ih lower

theorem not_identifier_of_token {t u : Tree} {p : Place} (placed : t.fits p) (token : t.isNamed = false)
    (inside : t.Contains u) : u.is .identifier = false := by
  cases symbol : t.symbol with
  | named k => simp [Tree.isNamed,symbol] at token
  | token spelling =>
    cases inside with
    | self => simp [Tree.is,symbol]
    | part child lower =>
      have below := (Tree.fits_iff.1 placed).2 _ child
      rw [symbol] at below
      exact not_identifier_of_fits_token below lower

/-- In every tree that is read words stand at the bottom. -/
theorem Source.lexical_of_read {text : String} {source : Source} {t : Tree}
    (read : Source.read text = .ok source) (inside : source.root.Contains t) : t.Lexical := by
  have tree := Source.readTree_of_read read
  let _ : Script := ⟨text.toList⟩
  have placed : source.root.Placed := readTree_placed tree
  obtain ⟨program,below⟩ := placed_of_readTree tree
  constructor
  · intro u lower word
    exact (placed.liesIn (inside.trans lower)).2.2 word
  · intro u lower token v deeper
    cases inside.trans lower with
    | self => simp [Tree.isNamed,program] at token
    | part child within =>
      obtain ⟨q,fits⟩ := fits_of_contains (below _ child) within
      exact not_identifier_of_token fits token deeper

end Reading

/-- The names in use at a node of a source are the identifiers that can be reached from it. A walk collects
them, and with a stack it does so as with any other order of visits: no walk visits more nodes than there
are, and one that cannot go on has collected all names in use and nothing else. -/
theorem usage_walk_exact :
    (∀ text source, Source.read text = .ok source → ∀ t, source.root.Contains t → t.Lexical) ∧
    (∀ t : Tree, t.Lexical → ∀ n, n ∈ usage t ↔ ∃ u, t.Reaches u ∧ u.is .identifier ∧ u.text = n) ∧
    ∀ t : Tree, (usage t).Pairwise (· < ·) ∧ stackWalk [t] [] = usage t ∧
      ∀ k w, Walk.Visits k (Walk.start t) w → k ≤ t.preorder.length ∧
        ((∀ v, ¬ Walk.Step w v) → w.waiting = [] ∧ w.used = usage t) := by
  refine ⟨fun text source read t => Source.lexical_of_read read,fun t lexical n => mem_usage_iff_reaches lexical,
    fun t => ⟨ascending_nameSet _,stackWalk_eq_usage t,fun k w visits => ⟨?_,fun stuck => ?_⟩⟩⟩
  · have bound := visits.ahead_le
    simp only [Walk.ahead,Walk.start,Tree.preorderAll,List.append_nil] at bound
    omega
  · have ended := Walk.waiting_eq_nil_of_stuck stuck
    exact ⟨ended,visits.used_eq ended⟩

/-- A class with a member, a keyword argument and an import, of each of which a part does not count. -/
theorem usage_walk_exact_class : ∃ source t,
    Source.read "class A(b.c, d=e):\n    import f.g\n    h = b\n" = .ok source ∧
    source.root.Contains t ∧ t.Lexical ∧ usage t = ["b","e","h"] ∧
    (∀ n, n ∈ ["b","e","h"] ↔ ∃ u, t.Reaches u ∧ u.is .identifier ∧ u.text = n) ∧
    stackWalk [t] [] = ["b","e","h"] ∧
    ∀ k w, Walk.Visits k (Walk.start t) w → (∀ v, ¬ Walk.Step w v) → w.used = ["b","e","h"] := by
  have computed : Execution.readsAs "class A(b.c, d=e):\n    import f.g\n    h = b\n" fun source =>
      source.root.children.any fun t => usage t == ["b","e","h"] := by
    decide +kernel
  obtain ⟨source,read,checked⟩ := Execution.ok_of_readsAs computed
  obtain ⟨t,child,names⟩ := List.any_eq_true.1 checked
  rw [beq_iff_eq] at names
  obtain ⟨reading,exact_,walks⟩ := usage_walk_exact
  have inside : source.root.Contains t := .part child (.self t)
  have lexical := reading _ _ read t inside
  obtain ⟨-,stacked,visiting⟩ := walks t
  refine ⟨source,t,read,inside,lexical,names,?_,names ▸ stacked,?_⟩
  · intro n
    rw [← names]
    exact exact_ t lexical n
  · intro k w visits stuck
    rw [← names]
    exact ((visiting k w visits).2 stuck).2

end Excerpt
