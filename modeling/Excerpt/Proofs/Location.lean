import Excerpt.Proofs.ParserInvariant
import Mathlib

/-!
Where trees lie in a text. A parser only ever looks at ends of the text it was given, together with the
place where such an end begins; so every node that it makes covers a part of the text and knows the place
of that part. The rules for the basic parsers are triples, from which the conditions for the productions
are generated.
-/
namespace Excerpt.Text

/-- The text that is being read, of which parsers only see the ends. -/
class Script where
  chars : List Char

namespace Cursor

/-- A cursor of a text: what remains is an end of the text, and the place is counted from its start. -/
def In [Script] (c : Cursor) : Prop :=
  ∃ passed, Script.chars = passed ++ c.rest ∧ c.place = Position.start.after passed

variable [Script] {cs : List Char} {x : Char} {p : Position} {c : Cursor}

theorem in_start : (⟨Script.chars,Position.start⟩ : Cursor).In := ⟨[],rfl,rfl⟩

theorem In.next (inside : (⟨x :: cs,p⟩ : Cursor).In) : (⟨cs,p.next x⟩ : Cursor).In := by
  obtain ⟨passed,whole,place⟩ := inside
  refine ⟨passed ++ [x],by rw [whole,List.append_assoc]; rfl,?_⟩
  rw [Position.after_append,← place]
  rfl

theorem In.advance (inside : c.In) : c.advance.In := by
  obtain ⟨rest,place⟩ := c
  cases rest with
  | nil => exact inside
  | cons x xs => exact inside.next

theorem In.drop {n : Nat} (inside : c.In) : (c.drop n).In := by
  induction n generalizing c with
  | zero => exact inside
  | succ n ih => exact ih inside.advance

/-- What is read from a cursor stands in the text right there. -/
theorem In.textUpTo (inside : c.In) (stop : Nat) : ∃ before after,
    Script.chars = before ++ (c.textUpTo stop).toList ++ after ∧ c.place = Position.start.after before := by
  have front (n : Nat) (cs : List Char) : takeBytes n cs <+: cs := by
    induction cs generalizing n with
    | nil => exact List.prefix_rfl
    | cons x xs ih =>
      rw [takeBytes]
      split
      · exact List.nil_prefix
      · exact List.cons_prefix_cons.2 ⟨rfl,ih _⟩
  obtain ⟨passed,whole,place⟩ := inside
  obtain ⟨after,rest⟩ := front (stop - c.place.byte) c.rest
  refine ⟨passed,after,?_,place⟩
  rw [Cursor.textUpTo,String.toList_ofList,List.append_assoc,rest,whole]

omit [Script] in
theorem byte_le_drop (n : Nat) (c : Cursor) : c.place.byte ≤ (c.drop n).place.byte := by
  induction n generalizing c with
  | zero => exact Nat.le_refl _
  | succ n ih =>
    refine Nat.le_trans ?_ (ih c.advance)
    obtain ⟨rest,place⟩ := c
    cases rest with
    | nil => exact Nat.le_refl _
    | cons x xs =>
      simp only [Cursor.advance,Position.next]
      split <;> exact Nat.le_add_right _ _

omit [Script] in
/-- A character at least is read if there is one. -/
theorem textUpTo_ne_empty (n : Nat) (x : Char) (cs : List Char) (p : Position) :
    (⟨x :: cs,p⟩ : Cursor).textUpTo ((⟨x :: cs,p⟩ : Cursor).drop (n + 1)).place.byte ≠ "" := by
  have passed : p.byte + x.utf8Size ≤ ((⟨x :: cs,p⟩ : Cursor).drop (n + 1)).place.byte := by
    refine Nat.le_trans (Nat.le_of_eq ?_) (byte_le_drop n ⟨cs,p.next x⟩)
    rw [Position.next]
    split <;> rfl
  have wide := x.utf8Size_pos
  rw [textUpTo,takeBytes,if_neg (by dsimp only; omega),Ne,← String.toList_inj]
  simp

end Cursor

end Excerpt.Text

namespace Excerpt.Syntax
open Std.Do Excerpt.Text

set_option mvcgen.warning false

section Tokens

variable [Script] {cs : List Char} {p : Position} {c : Cursor}

theorem in_skipBlanks (inside : c.In) (rest : c.rest = cs) :
    (Token.skipBlanks cs c.place).In := by
  obtain ⟨ds,p⟩ := c
  obtain rfl : ds = cs := rest
  induction ds generalizing p with
  | nil => exact inside
  | cons x xs ih =>
    rw [Token.skipBlanks]
    split
    · exact ih _ inside.next
    · exact inside

theorem in_gap {comments inComment broken : Bool} {width : Nat} {comment : Option Nat} {g : Layout.Gap}
    (inside : (⟨cs,p⟩ : Cursor).In)
    (found : Layout.gap comments inComment broken width comment cs p = some g) : g.cursor.In := by
  fun_induction Layout.gap comments inComment broken width comment cs p <;> grind [Cursor.In.next]

/-- The cursor at which a stretch ends is one of the text. -/
def Quotation.Stretch.In : Stretch → Prop
  | .text stop | .close stop => stop.In
  | .other | .ended => True

theorem in_stretch {d : Delimiter} {step : Quotation.RawStep} {begun : Bool}
    (inside : (⟨cs,p⟩ : Cursor).In) : (Quotation.stretch d step begun cs p).In := by
  fun_induction Quotation.stretch d step begun cs p <;> grind [Cursor.In.next,Quotation.Stretch.In]

omit [Script] in
/-- A comment has at least the character that opens it. -/
theorem comment_ne_empty {e : Expect} {n : Nat} (found : Token.read e c.rest = (.comment,n)) :
    c.textUpTo (c.drop n).place.byte ≠ "" := by
  obtain ⟨rest,place⟩ := c
  cases rest with
  | nil => cases found
  | cons x xs =>
    dsimp only [Token.read] at found
    split_ifs at found with hash
    · cases found
      rw [Token.commentLength,if_neg (by rw [hash]; decide)]
      exact Cursor.textUpTo_ne_empty _ x xs place
    -- Only one way of reading gives a comment.
    all_goals
      try split at found
      all_goals cases found

/-- The ends of a piece are cursors of the text, and comments are not empty. -/
def Piece.In : Piece → Prop
  | .text stop | .escape stop | .backslash stop | .doubledBrace stop | .brace stop | .close stop =>
    stop.In
  | .comment start stop => start.In ∧ stop.In ∧ start.textUpTo stop.place.byte ≠ ""
  | .continuation start stop => start.In ∧ stop.In
  | .broken => True

theorem in_irregular (inside : c.In) : (Quotation.irregular c).In := by
  have start : (Token.skipBlanks c.rest c.place).In := in_skipBlanks inside rfl
  unfold Quotation.irregular
  split
  · dsimp only
    split <;> exact inside.drop
  · dsimp only
    split
    · exact start
    · split
      · next found => exact ⟨start,start.drop,comment_ne_empty found⟩
      · exact ⟨start,start.drop⟩
      · trivial

theorem in_piece {d : Delimiter} {l : Layout} (inside : c.In) : (Quotation.piece d l c).In := by
  have stretch : (Quotation.stretch d .plain false c.rest c.place).In := in_stretch inside
  unfold Quotation.piece
  dsimp only
  split
  · next found => grind [Piece.In,Cursor.In.drop]
  · split
    · next found => rwa [found] at stretch
    · next found => rwa [found] at stretch
    · exact in_irregular inside
    · split
      · trivial
      · exact in_irregular inside

/-- Where a token begins and ends; a comment does not end where it begins. -/
theorem in_scan {e : Expect} {l : Layout} (inside : c.In) :
    (Token.scan e l c).start.In ∧ (Token.scan e l c).stop.In ∧
      ((Token.scan e l c).token = .comment →
        (Token.scan e l c).start.textUpTo (Token.scan e l c).stop.place.byte ≠ "") := by
  have start : (Token.skipBlanks c.rest c.place).In := in_skipBlanks inside rfl
  have plain (comment : (Token.read e (Token.skipBlanks c.rest c.place).rest).1 = .comment) :=
    comment_ne_empty (Prod.ext comment rfl)
  unfold Token.scan
  dsimp only
  split
  · exact ⟨start,start.drop,plain⟩
  · next g found =>
    have behind := in_gap inside found
    split
    · exact ⟨inside,inside,nofun⟩
    · exact ⟨inside,inside,nofun⟩
    · exact ⟨inside,inside,nofun⟩
    · split
      · split
        · exact ⟨behind,behind.drop,nofun⟩
        · exact ⟨start,start.drop,plain⟩
      · exact ⟨start,start.drop,plain⟩

end Tokens

/-- The kinds of nodes that are put together from parts: comments and identifiers are not. -/
def Kind.Composite (k : Kind) : Prop := k ≠ .comment ∧ k ≠ .identifier

@[simp] theorem Kind.composite_iff {k : Kind} : k.Composite ↔ k ≠ .comment ∧ k ≠ .identifier := Iff.rfl

/-- A node covers a part of the text and starts at the place of that part; a comment covers something, and
an identifier is read in one piece. -/
def Tree.LiesIn [Script] (t : Tree) : Prop :=
  (∃ before after, Script.chars = before ++ t.text.toList ++ after ∧ t.start = Position.start.after before) ∧
    (t.is .comment → t.text ≠ "") ∧ (t.is .identifier → t.children = [])

/-- A tree all nodes of which lie in the text. -/
inductive Tree.Placed [Script] : Tree → Prop
  | node {l : Label} {cs : List Tree} (own : (Tree.node l cs).LiesIn)
    (parts : ∀ c ∈ cs, c.Placed) : (Tree.node l cs).Placed

def AllPlaced [Script] (ts : List Tree) : Prop := ∀ t ∈ ts, t.Placed

section Trees

variable [Script] {t : Tree} {ts us : List Tree} {k : Kind} {start : Cursor}

theorem placed_iff : t.Placed ↔ t.LiesIn ∧ AllPlaced t.children := by
  obtain ⟨l,cs⟩ := t
  exact ⟨fun | .node own parts => ⟨own,parts⟩,fun ⟨own,parts⟩ => .node own parts⟩

@[simp] theorem allPlaced_nil : AllPlaced [] := nofun

@[simp] theorem allPlaced_cons : AllPlaced (t :: ts) ↔ t.Placed ∧ AllPlaced ts := by
  simp [AllPlaced]

@[simp] theorem allPlaced_append : AllPlaced (ts ++ us) ↔ AllPlaced ts ∧ AllPlaced us := by
  simp [AllPlaced,or_imp,forall_and]

/-- Neither the role of a node nor its kind says where it lies, as long as it is no comment. -/
theorem Tree.LiesIn.relabel {l m : Label} {cs : List Tree} (lies : (Tree.node l cs).LiesIn)
    (place : m.start = l.start) (same : m.text = l.text) (plain : m.symbol ≠ .named .comment)
    (piece : m.symbol = .named .identifier → ts = []) : (Tree.node m ts).LiesIn := by
  obtain ⟨⟨before,after,whole,start⟩,-⟩ := lies
  refine ⟨⟨before,after,?_,place.trans start⟩,fun comment => absurd (beq_iff_eq.1 comment) plain,
    fun word => piece (beq_iff_eq.1 word)⟩
  rw [Tree.text_node,same]
  exact whole

@[simp] theorem placed_withField {f : Field} : (t.withField f).Placed ↔ t.Placed := by
  rw [placed_iff,placed_iff]
  rfl

@[simp] theorem placed_withKind (plain : k ≠ .comment) (piece : k = .identifier → t.children = [])
    (placed : t.Placed) : (t.withKind k).Placed := by
  obtain ⟨own,parts⟩ := placed
  exact .node (own.relabel rfl rfl (by simpa using plain) (by simpa using piece)) parts

/-- What is made of a part of the text lies there. -/
theorem placed_of_label {l : Label} (inside : start.In) (plain : l.symbol ≠ .named .comment)
    (piece : l.symbol = .named .identifier → ts = []) (place : l.start = start.place) {stop : Nat}
    (covers : l.text = start.textUpTo stop) : (Tree.node l ts).Placed ↔ AllPlaced ts := by
  rw [placed_iff]
  refine and_iff_right ⟨?_,fun comment => absurd (beq_iff_eq.1 comment) plain,
    fun word => piece (beq_iff_eq.1 word)⟩
  obtain ⟨before,after,whole,passed⟩ := inside.textUpTo stop
  exact ⟨before,after,by rwa [Tree.text_node,covers],place.trans passed⟩

@[simp] theorem placed_nodeTo (plain : k.Composite) (inside : start.In) {stop : Nat} :
    (Parser.nodeTo k start stop ts).Placed ↔ AllPlaced ts :=
  placed_of_label inside (by simpa using plain.1) (fun word => absurd (Symbol.named.inj word) plain.2) rfl rfl

@[simp] theorem placed_node (plain : k.Composite) (inside : start.In) :
    (Parser.node k start ts).Placed ↔ AllPlaced ts := placed_nodeTo plain inside

@[simp] theorem placed_compound {spelling : String} (inside : start.In) :
    (Parser.compound spelling start ts).Placed ↔ AllPlaced ts :=
  placed_of_label inside nofun nofun rfl rfl

@[simp] theorem placed_leaf {symbol : Symbol} {stop : Cursor} (plain : symbol ≠ .named .comment)
    (inside : start.In) : (Parser.leaf symbol start stop).Placed :=
  (placed_of_label inside plain (fun _ => rfl) rfl rfl).2 allPlaced_nil

@[simp] theorem placed_comment {stop : Cursor} (inside : start.In)
    (filled : start.textUpTo stop.place.byte ≠ "") :
    (Parser.leaf (.named .comment) start stop).Placed :=
  .node ⟨inside.textUpTo stop.place.byte,fun _ => filled,nofun⟩ nofun

end Trees

/-- The state of a parser that reads the text. -/
structure State.On [Script] (s : State) : Prop where
  start : s.start.In
  stop : s.stop.In
  waiting : AllPlaced s.waiting

namespace Parser

/-- From the text the parser yields only what has the property, and it stays with the text. -/
abbrev Reads [Script] {α : Type} (p : Parser α) (post : α → Prop) : Prop :=
  ⦃fun s => ⌜s.On⌝⦄ p ⦃post⟨fun a s => ⌜post a ∧ s.On⌝,fun _ => ⌜True⌝⟩⦄

variable [Script] {α : Type} {p q : Parser α} {post : α → Prop}

theorem reads_iff : Reads p post ↔
    ∀ s, s.On → ∀ a t, p s = some (a,t) → post a ∧ t.On := keeps_iff

@[local spec] theorem reads_nothing : Reads (failure : Parser α) fun _ => False := keeps_failure

theorem reads_orElse (first : Reads p post) (second : Reads q post) :
    Reads (p <|> q) post := keeps_orElse first second

theorem fetch_on {limit : Nat} {e : Expect} {l : Layout} : ∀ {n : Nat} {waiting : List Tree} {c : Cursor},
    AllPlaced waiting → c.In → (fetch limit e l waiting n c).On
  | 0,_,_,placed,inside => ⟨inside,inside,placed⟩
  | n + 1,waiting,c,placed,inside => by
    obtain ⟨start,stop,filled⟩ := in_scan (e := e) (l := l) inside
    rw [fetch]
    split
    · next comment => exact fetch_on (by simp [placed,start,filled comment]) stop
    · exact fetch_on (by simp [placed,start]) stop
    · exact ⟨start,stop,placed⟩

@[local spec] theorem reads_advance (e : Expect) : Reads (advance e) fun _ => True := by
  mvcgen [advance]
  rename_i on _
  exact ⟨trivial,fetch_on allPlaced_nil on.stop⟩

theorem reads_seek {c : Cursor} (inside : c.In) : Reads (seek c) fun _ => True := by
  mvcgen [seek]
  exact ⟨trivial,inside,inside,allPlaced_nil⟩

@[local spec] theorem reads_token : Reads token fun _ => True := by
  mvcgen [token]

theorem reads_here : Reads here fun c => c.In := by
  mvcgen [here]
  rename_i on
  exact ⟨on.start,on⟩

theorem reads_behind : Reads behind fun c => c.In := by
  mvcgen [behind]
  rename_i on
  exact ⟨on.stop,on⟩

@[local spec] theorem reads_isMark (spelling : String) : Reads (isMark spelling) fun _ => True := by
  mvcgen [isMark]

@[local spec] theorem reads_isWord (spelling : String) : Reads (isWord spelling) fun _ => True := by
  mvcgen [isWord]

theorem reads_isOneOf (spellings : List String) : Reads (isOneOf spellings) fun _ => True := by
  mvcgen [isOneOf]

@[local spec] theorem reads_require (b : Bool) : Reads (require b) fun _ => b := keeps_require b

theorem reads_shorten : Reads shorten fun _ => True := by
  mvcgen [shorten]
  rename_i on _
  exact ⟨trivial,on.start,on.start.drop,on.waiting⟩

@[local spec] theorem reads_waiting : Reads waiting AllPlaced := by
  mvcgen [waiting]
  rename_i on
  exact ⟨on.waiting,on.start,on.stop,allPlaced_nil⟩

/-- A token becomes a leaf that lies where the token stands. -/
@[local spec] theorem reads_take {symbol : Symbol} (plain : symbol ≠ .named .comment) (e : Expect) :
    Reads (take symbol e) Tree.Placed := by
  mvcgen [take]
  rename_i on _ _ after
  exact ⟨placed_leaf plain on.start,after.2⟩

@[local spec] theorem reads_mark (spelling : String) (e : Expect) :
    Reads (mark spelling e) Tree.Placed := by
  mvcgen [mark] <;> simp_all

theorem reads_keyword (spelling : String) (e : Expect) :
    Reads (keyword spelling e) Tree.Placed := by
  mvcgen [keyword] <;> simp_all

theorem reads_name (e : Expect) : Reads (name e) Tree.Placed := by
  mvcgen [name] <;> simp_all

theorem reads_also {ts : List Tree} {p : Parser Tree} (start : AllPlaced ts)
    (element : Reads p Tree.Placed) : Reads (also ts p) AllPlaced :=
  keeps_also reads_waiting start element

theorem reads_alsoAll {ts : List Tree} {p : Parser (List Tree)} (start : AllPlaced ts)
    (elements : Reads p AllPlaced) : Reads (alsoAll ts p) AllPlaced :=
  keeps_alsoAll reads_waiting start elements

theorem reads_loop {step : α → Parser (Option α)} {n : Nat} {a : α} (kept : α → Prop) (start : kept a)
    (stays : ∀ a, kept a → Reads (step a) fun next => ∀ b ∈ next, kept b) :
    Reads (loop step n a) kept := keeps_loop kept start stays

theorem reads_commas {n : Nat} {e : Expect} {more : Parser Bool} {element : Parser (List Tree)}
    {ts : List Tree} (start : AllPlaced ts) (follows : Reads more fun _ => True)
    (elements : Reads element AllPlaced) :
    Reads (commas n e more element ts) AllPlaced :=
  keeps_commas reads_waiting (reads_mark "," e) (reads_isMark ",") start follows elements

end Parser

/-- The goals under which no comment and no identifier is read as a construct with parts. -/
def Goal.Plain : Goal → Prop
  | .interpolation kind => kind.Composite
  | _ => True

/-- A grammar whose parsers find trees of the text. -/
class Grammar.Located [Script] (g : Grammar) : Prop where
  reaches : ∀ goal : Goal, goal.Plain → Parser.Reads (g.parse goal) AllPlaced

end Excerpt.Syntax
