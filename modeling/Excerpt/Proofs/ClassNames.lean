import Excerpt.Proofs.BlockGrammar

/-!
The names of classes. A word is made of characters of identifiers, and the production of a class puts
a word behind the keyword; so every class at the top of a text that is read has a name, and no name
has a dot.
-/
namespace Excerpt.Text.Cursor

theorem drop_eq (n : Nat) (c : Cursor) :
    c.drop n = ⟨c.rest.drop n,c.place.after (c.rest.take n)⟩ := by
  induction n generalizing c with
  | zero => rfl
  | succ n ih =>
    obtain ⟨rest,place⟩ := c
    rw [drop,ih]
    cases rest with
    | nil => simp [advance]
    | cons x xs => rfl

theorem byte_after (p : Position) (cs : List Char) :
    (p.after cs).byte = p.byte + (cs.map Char.utf8Size).sum := by
  induction cs generalizing p with
  | nil => rfl
  | cons c cs ih =>
    have passed : (p.next c).byte = p.byte + c.utf8Size := by
      rw [Position.next]
      split <;> rfl
    rw [Position.after_cons,ih,passed,List.map_cons,List.sum_cons,Nat.add_assoc]

theorem takeBytes_take (n : Nat) (cs : List Char) :
    takeBytes ((cs.take n).map Char.utf8Size).sum cs = cs.take n := by
  induction cs generalizing n with
  | nil => simp [takeBytes]
  | cons c cs ih =>
    cases n with
    | zero => simp [takeBytes]
    | succ n =>
      have wide := c.utf8Size_pos
      rw [List.take_succ_cons,List.map_cons,List.sum_cons,takeBytes,if_neg (by omega),
        Nat.add_sub_cancel_left,ih]

theorem textUpTo_drop (n : Nat) (c : Cursor) :
    c.textUpTo (c.drop n).place.byte = String.ofList (c.rest.take n) := by
  rw [textUpTo,drop_eq,byte_after,Nat.add_sub_cancel_left,takeBytes_take]

end Excerpt.Text.Cursor

namespace Excerpt.Syntax
open Std.Do Excerpt.Text

set_option mvcgen.warning false

/-- A text that consists of characters of identifiers. -/
def Worded (text : String) : Prop := ∀ c ∈ text.toList, Identifier.isPart c

theorem isPart_of_mem_word {c : Char} {cs : List Char}
    (member : c ∈ cs.take (Token.wordLength cs)) : Identifier.isPart c := by
  induction cs with
  | nil => cases member
  | cons d ds ih =>
    rw [Token.wordLength] at member
    split at member
    · next part =>
      rcases List.mem_cons.1 member with rfl | later
      · exact part
      · exact ih later
    · cases member

theorem Token.read_word {e : Expect} {cs : List Char} {w : String}
    (word : (Token.read e cs).1 = .word w) : (Token.read e cs).2 = Token.wordLength cs := by
  revert word
  cases cs with
  | nil =>
    intro word
    cases word
  | cons c cs =>
    -- Only one way of reading gives a word.
    dsimp only [Token.read]
    split_ifs with hash slash first starred float integer conversion
    rotate_left 3
    · exact fun _ => rfl
    all_goals
      try split
      all_goals
        intro word
        cases word

/-- A word covers the characters that it is read from. -/
theorem Token.scan_word {e : Expect} {l : Layout} {c : Cursor} {w : String}
    (word : (Token.scan e l c).token = .word w) :
    Worded ((Token.scan e l c).start.textUpTo (Token.scan e l c).stop.place.byte) := by
  have plain {start : Cursor} (first : (Token.read e start.rest).1 = .word w) :
      Worded (start.textUpTo (start.drop (Token.read e start.rest).2).place.byte) := by
    intro x member
    rw [Cursor.textUpTo_drop,String.toList_ofList,Token.read_word first] at member
    exact isPart_of_mem_word member
  revert word
  dsimp only [Token.scan]
  split
  · exact plain
  · split
    · nofun
    · nofun
    · nofun
    · split
      · split
        · nofun
        · exact plain
      · exact plain

namespace Parser

theorem fetch_word {limit : Nat} {e : Expect} {l : Layout} {w : String} :
    ∀ {n : Nat} {waiting : List Tree} {c : Cursor}, (fetch limit e l waiting n c).token = .word w →
      Worded ((fetch limit e l waiting n c).start.textUpTo (fetch limit e l waiting n c).stop.place.byte)
  | 0,_,_ => nofun
  | n + 1,waiting,c => by
    rw [fetch]
    split
    · exact fetch_word
    · exact fetch_word
    · exact Token.scan_word

variable {α β : Type} {p q : Parser α} {f : α → Parser β} {post : α → Prop} {final : β → Prop}

theorem of_bind {s t : State} {b : β} (ran : (p >>= f) s = some (b,t)) :
    ∃ a u, p s = some (a,u) ∧ f a u = some (b,t) := by
  obtain ⟨⟨a,u⟩,first,rest⟩ := Option.bind_eq_some_iff.1 ran
  exact ⟨a,u,first,rest⟩

theorem take_eq_some {symbol : Symbol} {e : Expect} {s u : State} {t : Tree}
    (ran : take symbol e s = some (t,u)) :
    t = leaf symbol s.start s.stop ∧ u = fetch s.limit e s.layout [] s.limit s.stop := by
  cases ran
  exact ⟨rfl,rfl⟩

theorem keyword_eq_some {spelling : String} {e : Expect} {s u : State} {t : Tree}
    (ran : keyword spelling e s = some (t,u)) :
    t = leaf (.token spelling) s.start s.stop ∧ u = fetch s.limit e s.layout [] s.limit s.stop := by
  obtain ⟨found,v,looked,ran⟩ := of_bind ran
  cases looked
  obtain ⟨_,v,required,ran⟩ := of_bind ran
  unfold require at required
  split at required
  · cases required
    exact take_eq_some ran
  · cases required

theorem name_eq_some {e : Expect} {s u : State} {t : Tree} (ran : name e s = some (t,u)) :
    (∃ w, s.token = .word w) ∧ t = leaf (.named .identifier) s.start s.stop := by
  obtain ⟨found,v,looked,ran⟩ := of_bind ran
  cases looked
  cases token : s.token with
  | word w =>
    rw [token] at ran
    exact ⟨⟨w,rfl⟩,(take_eq_some ran).1⟩
  | _ =>
    rw [token] at ran
    cases ran

theorem also_eq_some {ts us : List Tree} {p : Parser Tree} {s u : State}
    (ran : also ts p s = some (us,u)) :
    ∃ t, p {s with waiting := []} = some (t,u) ∧ us = ts ++ s.waiting ++ [t] := by
  obtain ⟨between,v,waited,ran⟩ := of_bind ran
  cases waited
  obtain ⟨t,w,made,ran⟩ := of_bind ran
  cases ran
  exact ⟨t,made,rfl⟩

/-- Whatever the parser yields, from any state, has the property. -/
def Gives (p : Parser α) (post : α → Prop) : Prop := ∀ s a t, p s = some (a,t) → post a

theorem gives_pure {a : α} (holds : post a) : Gives (pure a) post := by
  intro s b t ran
  cases ran
  exact holds

theorem gives_failure : Gives (failure : Parser α) post := fun _ _ _ ran => nomatch ran

theorem gives_bind (rest : ∀ a, Gives (f a) final) : Gives (p >>= f) final := by
  intro s b t ran
  obtain ⟨a,u,-,later⟩ := of_bind ran
  exact rest a u b t later

/-- What comes first matters for the result. -/
theorem Gives.bind (first : Gives p post) (rest : ∀ a, post a → Gives (f a) final) :
    Gives (p >>= f) final := by
  intro s b t ran
  obtain ⟨a,u,start,later⟩ := of_bind ran
  exact rest a (first s a u start) u b t later

theorem gives_orElse (first : Gives p post) (second : Gives q post) : Gives (p <|> q) post := by
  intro s a t ran
  change (p s <|> q s) = some (a,t) at ran
  cases left : p s with
  | none => exact second s a t (by simpa [left] using ran)
  | some x => exact first s a t (by simpa [left] using ran)

theorem Gives.yields {other : α → Prop} (gives : Gives p post) (tidy : Yields p other) :
    Yields p post :=
  yields_iff.2 fun s start a t ran => ⟨gives s a t ran,(yields_iff.1 tidy s start a t ran).2⟩

theorem gives_also {ts : List Tree} {p : Parser Tree} : Gives (also ts p) (ts <+: ·) :=
  gives_bind fun between => gives_bind fun t => gives_pure (by simp [List.append_assoc])

theorem gives_alsoAll {ts : List Tree} {p : Parser (List Tree)} : Gives (alsoAll ts p) (ts <+: ·) :=
  gives_bind fun between => gives_bind fun us => gives_pure (by simp [List.append_assoc])

end Parser

namespace Tree

/-- A node that neither is a class nor holds one as its definition. -/
def Classless (t : Tree) : Prop := t.is .classDefinition = false ∧ t.is .decoratedDefinition = false

/-- A node that is called by a word. -/
def Named (t : Tree) : Prop := ∃ n, t.child? .name = some n ∧ n.is .identifier ∧ Worded n.text

/-- A node that is called by a word if it is a class. -/
def Called (t : Tree) : Prop := t.is .classDefinition → t.Named

/-- A node whose definition, or that itself, is called by a word if it is a class. -/
def Titled (t : Tree) : Prop := t.definition.Called

theorem Classless.called {t : Tree} (classless : t.Classless) : t.Called := by
  intro isClass
  rw [classless.1] at isClass
  cases isClass

theorem titled_of_called {t : Tree} (called : t.Called) (whole : t.is .decoratedDefinition = false) :
    t.Titled := by
  rw [Titled,definition,if_neg (by simp [whole])]
  exact called

theorem Classless.titled {t : Tree} (classless : t.Classless) : t.Titled :=
  titled_of_called classless.called classless.2

theorem classless_of_kind {t : Tree} {k : Kind} (symbol : t.symbol = .named k)
    (other : (k == .classDefinition || k == .decoratedDefinition) = false) : t.Classless := by
  cases k <;> first | exact ⟨by rw [is,symbol]; rfl,by rw [is,symbol]; rfl⟩ | cases other

/-- A statement that holds no other statements. -/
def Simple (t : Tree) : Prop := ∃ k : Kind, t.symbol = .named k ∧ k.isSimple

theorem Simple.classless {t : Tree} (simple : t.Simple) : t.Classless := by
  obtain ⟨k,symbol,plain⟩ := simple
  exact classless_of_kind symbol (by cases k <;> first | rfl | cases plain)

theorem Bare.titled {t : Tree} (bare : t.Bare) : t.Titled := by
  have token : ∃ spelling, t.symbol = .token spelling := by
    have plain := bare.1
    unfold isNamed at plain
    split at plain
    · cases plain
    · exact ⟨_,‹_›⟩
  obtain ⟨spelling,symbol⟩ := token
  exact Classless.titled ⟨by rw [is,symbol]; rfl,by rw [is,symbol]; rfl⟩

theorem Spare.titled {t : Tree} (spare : t.Spare) : t.Titled := by
  have extra := spare.1
  simp only [isExtra,is,Bool.or_eq_true,beq_iff_eq] at extra
  rcases extra with symbol | symbol
  · exact (classless_of_kind symbol rfl).titled
  · exact (classless_of_kind symbol rfl).titled

/-- The first child in a role stays the first if more children follow. -/
theorem child?_of_prefix {t n : Tree} {role : Field} {before : List Tree}
    (first : before ++ [n] <+: t.children) (plain : ∀ c ∈ before, c.field = none)
    (named : n.field = some role) : t.child? role = some n := by
  obtain ⟨later,whole⟩ := first
  have passed : before.find? (·.field == some role) = none := by
    simp only [List.find?_eq_none]
    intro c member
    simp [plain c member]
  rw [child?,← whole,List.append_assoc,List.find?_append,passed]
  simp [named]

end Tree

namespace Grammar
open Excerpt.Syntax.Parser

variable {g : Grammar} {after : Expect} {start : Cursor} {ts : List Tree}

theorem gives_body {role : Field} : Gives (body g role after ts) (ts <+: ·) :=
  gives_also.bind fun _ first => fun s us t ran => first.trans (gives_alsoAll s us t ran)

/-- Once the name is read, whatever else belongs to the class follows. -/
theorem gives_classBehind {cs : List Tree} : Gives (do
    let cs ← if ← isMark "[" then
      also cs (return (← typeParameters g {}).withField .typeParameters) else pure cs
    let cs ← if ← isMark "(" then
      also cs (return (← arguments g false {}).withField .superclasses) else pure cs
    return node .classDefinition start (← body g .body after cs)) fun t =>
      t.is .classDefinition ∧ cs <+: t.children := by
  have rest (us : List Tree) (first : cs <+: us) : Gives (do
      return node .classDefinition start (← body g .body after us)) fun t =>
        t.is .classDefinition ∧ cs <+: t.children :=
    gives_body.bind fun vs more => gives_pure ⟨rfl,first.trans more⟩
  have bases (us : List Tree) (first : cs <+: us) : Gives (do
      let cs ← if ← isMark "(" then
        also us (return (← arguments g false {}).withField .superclasses) else pure us
      return node .classDefinition start (← body g .body after cs)) fun t =>
        t.is .classDefinition ∧ cs <+: t.children := by
    refine gives_bind fun opens => ?_
    dsimp only
    split
    · exact gives_also.bind fun vs more => rest vs (first.trans more)
    · exact rest us first
  refine gives_bind fun opens => ?_
  dsimp only
  split
  · exact gives_also.bind bases
  · exact bases cs (List.prefix_refl cs)

/-- The name of a class is the word behind the keyword. -/
theorem gives_classDefinition :
    Gives (classDefinition g after) fun t => t.is .classDefinition ∧ t.Named := by
  intro s t final ran
  obtain ⟨start,u,-,ran⟩ := of_bind ran
  obtain ⟨first,v,begun,ran⟩ := of_bind ran
  obtain ⟨cs,w,named,ran⟩ := of_bind ran
  obtain ⟨isClass,whole⟩ := gives_classBehind w t final ran
  obtain ⟨rfl,rfl⟩ := keyword_eq_some begun
  obtain ⟨n,read,rfl⟩ := also_eq_some named
  obtain ⟨word,x,read,ended⟩ := of_bind read
  cases ended
  obtain ⟨⟨spelling,token⟩,rfl⟩ := name_eq_some read
  refine ⟨isClass,_,Tree.child?_of_prefix whole ?_ rfl,rfl,fetch_word token⟩
  intro c member
  rcases List.mem_append.1 member with only | waited
  · cases List.mem_singleton.1 only
    rfl
  · exact (fetch_tidy spares_nil c waited).2.1

theorem gives_calledClass : Gives (classDefinition g after) Tree.Called :=
  fun s t u ran _ => (gives_classDefinition s t u ran).2

theorem titled_of_class {t : Tree} (named : t.is .classDefinition ∧ t.Named) : t.Titled := by
  refine Tree.titled_of_called (fun _ => named.2) ?_
  have symbol : t.symbol = .named .classDefinition := beq_iff_eq.1 named.1
  rw [Tree.is,symbol]
  rfl

theorem classless_node {k : Kind}
    (other : (k == .classDefinition || k == .decoratedDefinition) = false) :
    (node k start ts).Classless := Tree.classless_of_kind rfl other

theorem simple_node {k : Kind} (simple : k.isSimple) : (node k start ts).Simple := ⟨k,rfl,simple⟩

theorem gives_importStatement : Gives (importStatement g) Tree.Simple :=
  gives_bind fun _ => gives_bind fun _ => gives_bind fun _ => gives_pure (simple_node rfl)

theorem gives_importFrom : Gives (importFrom g) Tree.Simple := by
  refine gives_bind fun _ => gives_bind fun _ => gives_bind fun future => ?_
  split
  · exact gives_bind fun _ => gives_bind fun _ => gives_bind fun _ => gives_pure (simple_node rfl)
  · exact gives_bind fun _ => gives_bind fun _ => gives_bind fun _ => gives_pure (simple_node rfl)

theorem gives_expressionsEnd : Gives (expressionsEnd g start ts) Tree.Simple := by
  refine gives_bind fun assigned => ?_
  split
  · split
    · exact gives_bind fun _ => gives_pure (simple_node rfl)
    · exact gives_failure
  · exact gives_pure (simple_node rfl)

theorem gives_crossing : Gives (crossing g start ts) Tree.Simple := by
  have ending (us : List Tree) : Gives (do
      require (← assigns)
      let t ← expressionsEnd g start us
      require (← statementEnds)
      return t) Tree.Simple :=
    gives_bind fun _ => gives_bind fun _ => gives_expressionsEnd.bind fun t simple =>
      gives_bind fun _ => gives_bind fun _ => gives_pure simple
  refine gives_bind fun _ => gives_bind fun comma => gives_bind fun assigned => ?_
  dsimp only
  split
  · exact gives_bind ending
  · exact gives_bind ending

theorem gives_expressionsBehind : ∀ {n : Nat} {ts : List Tree},
    Gives (expressionsBehind g start n ts) Tree.Simple
  | 0,_ => gives_failure
  | n + 1,ts => by
    refine gives_bind fun comma => ?_
    split
    · refine gives_bind fun before => gives_bind fun us => gives_bind fun next => ?_
      split
      · refine gives_bind fun later => gives_bind fun _ => gives_orElse gives_crossing ?_
        exact gives_bind fun _ => gives_expressionsEnd
      · refine gives_bind fun operand => ?_
        split
        · exact gives_bind fun _ => gives_expressionsBehind
        · exact gives_expressionsEnd
    · exact gives_expressionsEnd

theorem gives_expressionStatement : Gives (expressionStatement g) Tree.Simple := by
  refine gives_bind fun _ => gives_bind fun yields => ?_
  split
  · exact gives_bind fun _ => gives_pure (simple_node rfl)
  · exact gives_bind fun _ => gives_expressionsBehind

theorem gives_printing : Gives (printing g) Tree.Simple := by
  have values : Gives (printValues g) Tree.Simple :=
    gives_bind fun _ => gives_bind fun _ => gives_bind fun _ => gives_bind fun _ =>
      gives_pure (simple_node rfl)
  have whole : Gives (wholeExpression g) Tree.Simple :=
    gives_expressionStatement.bind fun t simple => gives_bind fun _ => gives_bind fun _ =>
      gives_pure simple
  refine gives_orElse ?_ (gives_orElse whole values)
  exact gives_bind fun _ => gives_bind fun _ => gives_bind fun _ => gives_bind fun _ =>
    gives_bind fun _ => gives_bind fun _ => gives_pure (simple_node rfl)

theorem gives_execution : Gives (execution g) Tree.Simple := by
  refine gives_bind fun start => gives_bind fun before => gives_bind fun first => ?_
  refine gives_bind fun next => ?_
  extract_lets more rest
  have done (code : Bool) : Gives (rest code) Tree.Simple := by
    dsimp only [rest]
    split
    · exact gives_bind fun _ => gives_expressionStatement
    · refine gives_bind fun cs => gives_bind fun within => ?_
      split
      · exact gives_bind fun _ => gives_bind fun _ => gives_pure (simple_node rfl)
      · exact gives_pure (simple_node rfl)
  split
  · exact gives_bind done
  · exact gives_bind done
  · exact gives_bind done

theorem gives_aliasing : Gives (aliasing g) Tree.Simple := by
  refine gives_orElse ?_ gives_expressionStatement
  exact gives_bind fun _ => gives_bind fun _ => gives_bind fun _ => gives_bind fun _ =>
    gives_bind fun _ => gives_bind fun _ => gives_bind fun _ => gives_bind fun _ =>
    gives_bind fun _ => gives_pure (simple_node rfl)

theorem gives_raising : Gives (raising g) Tree.Simple := by
  refine gives_bind fun start => gives_bind fun first => gives_bind fun operand => ?_
  refine gives_bind fun caused => ?_
  extract_lets rest
  have done (cs : List Tree) : Gives (rest cs) Tree.Simple := by
    refine gives_bind fun caused => ?_
    split
    · exact gives_bind fun _ => gives_bind fun _ => gives_pure (simple_node rfl)
    · exact gives_pure (simple_node rfl)
  split
  · exact gives_bind done
  · exact gives_bind done

theorem gives_returning : Gives (returning g) Tree.Simple := by
  refine gives_bind fun _ => gives_bind fun _ => gives_bind fun operand => ?_
  split
  · exact gives_bind fun _ => gives_pure (simple_node rfl)
  · exact gives_pure (simple_node rfl)

theorem gives_deletion : Gives (deletion g) Tree.Simple :=
  gives_bind fun _ => gives_bind fun _ => gives_bind fun _ => gives_pure (simple_node rfl)

theorem gives_assertion : Gives (assertion g) Tree.Simple :=
  gives_bind fun _ => gives_bind fun _ => gives_bind fun _ => gives_pure (simple_node rfl)

theorem gives_bare {spelling : String} {kind : Kind} (simple : kind.isSimple) :
    Gives (bare spelling kind) Tree.Simple :=
  gives_bind fun _ => gives_bind fun _ => gives_pure (simple_node simple)

theorem gives_declaration {spelling : String} {kind : Kind} (simple : kind.isSimple) :
    Gives (declaration g spelling kind) Tree.Simple :=
  gives_bind fun _ => gives_bind fun _ => gives_bind fun _ => gives_pure (simple_node simple)

theorem gives_simpleStatement : Gives (simpleStatement g) Tree.Simple := by
  refine gives_bind fun next => ?_
  split
  · exact gives_importStatement
  · exact gives_importFrom
  · exact gives_printing
  · exact gives_execution
  · exact gives_aliasing
  · exact gives_assertion
  · exact gives_returning
  · exact gives_deletion
  · exact gives_raising
  · exact gives_bare rfl
  · exact gives_bare rfl
  · exact gives_bare rfl
  · exact gives_declaration rfl
  · exact gives_declaration rfl
  · exact gives_expressionStatement

theorem gives_ifStatement : Gives (ifStatement g after) Tree.Classless :=
  gives_bind fun _ => gives_bind fun _ => gives_bind fun _ => gives_bind fun _ =>
    gives_pure (classless_node rfl)

theorem gives_whileStatement : Gives (whileStatement g after) Tree.Classless :=
  gives_bind fun _ => gives_bind fun _ => gives_bind fun _ => gives_pure (classless_node rfl)

theorem gives_forStatement : Gives (forStatement g after start ts) Tree.Classless :=
  gives_bind fun _ => gives_bind fun _ => gives_bind fun _ => gives_bind fun _ =>
    gives_bind fun _ => gives_bind fun _ => gives_pure (classless_node rfl)

theorem gives_withStatement : Gives (withStatement g after start ts) Tree.Classless :=
  gives_bind fun _ => gives_bind fun _ => gives_bind fun _ => gives_pure (classless_node rfl)

theorem gives_matchStatement : Gives (matchStatement g after) Tree.Classless :=
  gives_bind fun _ => gives_bind fun _ => gives_bind fun _ => gives_bind fun _ =>
    gives_bind fun _ => gives_pure (classless_node rfl)

theorem gives_tryStatement : Gives (tryStatement g after) Tree.Classless := by
  refine gives_bind fun start => gives_bind fun first => gives_bind fun cs => ?_
  extract_lets handlers final last rest
  have finished (us : List Tree) : Gives (final us) Tree.Classless := by
    refine gives_bind fun ends => ?_
    split
    · exact gives_bind fun _ => gives_pure (classless_node rfl)
    · exact gives_pure (classless_node rfl)
  have done (us : List Tree) : Gives (rest us) Tree.Classless := by
    refine gives_bind fun other => ?_
    split
    · exact gives_bind finished
    · exact gives_bind finished
  refine gives_bind fun ends => ?_
  split
  · exact finished cs
  · refine gives_bind fun _ => gives_bind fun _ => gives_bind fun _ => gives_bind fun plain => ?_
    split
    · exact gives_bind done
    · exact gives_bind done

theorem gives_functionDefinition : Gives (functionDefinition g after start ts) Tree.Classless := by
  refine gives_bind fun _ => gives_bind fun _ => gives_bind fun generic => ?_
  extract_lets rest
  have done (cs : List Tree) : Gives (rest cs) Tree.Classless := by
    refine gives_bind fun us => gives_bind fun arrow => ?_
    split
    · exact gives_bind fun _ => gives_bind fun _ => gives_bind fun _ => gives_bind fun _ =>
        gives_bind fun _ => gives_bind fun _ => gives_bind fun _ => gives_bind fun _ =>
        gives_pure (classless_node rfl)
    · exact gives_bind fun _ => gives_pure (classless_node rfl)
  split
  · exact gives_bind done
  · exact gives_bind done

theorem gives_asynchronous : Gives (asynchronous g after) Tree.Classless := by
  refine gives_bind fun _ => gives_bind fun _ => gives_bind fun next => ?_
  split
  · exact gives_functionDefinition
  · exact gives_forStatement
  · exact gives_withStatement
  · exact gives_failure

theorem gives_decorator : Gives (decorator g) fun t => t.field = none :=
  gives_bind fun _ => gives_bind fun _ => gives_bind fun _ => gives_bind fun _ =>
    gives_bind fun _ => gives_bind fun _ => gives_bind fun _ => gives_pure rfl

/-- Statements of which those that are classes are called by words. -/
def AllTitled (ts : List Tree) : Prop := ∀ t ∈ ts, t.Titled

theorem allTitled_nil : AllTitled [] := nofun

theorem allTitled_cons {t : Tree} : AllTitled (t :: ts) ↔ t.Titled ∧ AllTitled ts := by
  simp [AllTitled]

theorem allTitled_append {us : List Tree} :
    AllTitled (ts ++ us) ↔ AllTitled ts ∧ AllTitled us := by
  simp [AllTitled,or_imp,forall_and]

theorem allTitled_of_spares (spares : Spares ts) : AllTitled ts :=
  fun t member => (spares t member).titled

/-- Nodes that play no role. -/
def Roleless (ts : List Tree) : Prop := ∀ t ∈ ts, t.field = none

theorem roleless_nil : Roleless [] := nofun

theorem roleless_cons {t : Tree} : Roleless (t :: ts) ↔ t.field = none ∧ Roleless ts := by
  simp [Roleless]

theorem roleless_append {us : List Tree} : Roleless (ts ++ us) ↔ Roleless ts ∧ Roleless us := by
  simp [Roleless,or_imp,forall_and]

theorem roleless_of_spares (spares : Spares ts) : Roleless ts :=
  fun t member => (spares t member).2.1

attribute [local simp] allTitled_nil allTitled_cons allTitled_append allTitled_of_spares
  Tree.Bare.titled roleless_nil roleless_cons roleless_append roleless_of_spares

section Titles

variable [g.Sound]

theorem yields_titled {other : Tree → Prop} {p : Parser Tree} (gives : Gives p Tree.Classless)
    (tidy : Yields p other) : Yields p Tree.Titled :=
  Gives.yields (fun s t u ran => (gives s t u ran).titled) tidy

theorem yields_titledLine (after : Expect) : Yields (lineOfStatements g after) AllTitled := by
  have simple : Yields (simpleStatement g) Tree.Titled :=
    yields_titled (fun s t u ran => (gives_simpleStatement s t u ran).classless)
      yields_simpleStatement
  have rounds {step} {n} {ts} := @yields_loop (List Tree) step n ts AllTitled
  mvcgen [lineOfStatements,also,rounds,simple,-yields_lineOfStatements,-yields_simpleStatement]
  all_goals
    clear rounds simple
    simp_all

theorem yields_titledMatching (after : Expect) : Yields (matching g after) AllTitled := by
  have line := yields_titledLine (g := g) after
  have statement : Yields (matchStatement g after) Tree.Titled :=
    yields_titled gives_matchStatement (yields_matchStatement after)
  mvcgen [matching,line,statement,-yields_matching,-yields_lineOfStatements,-yields_matchStatement]
  all_goals
    clear line statement
    simp_all

/-- What is decorated is the definition, if nothing in front of it plays a role. -/
theorem titled_decorated {us : List Tree} {t : Tree} (decorators : Roleless ts) (between : Spares us)
    (called : t.Called) :
    (node .decoratedDefinition start (ts ++ (us ++ [t.withField .definition]))).Titled := by
  have roleless : Roleless (ts ++ us) := roleless_append.2 ⟨decorators,roleless_of_spares between⟩
  have found : (node .decoratedDefinition start (ts ++ (us ++ [t.withField .definition]))).child?
      .definition = some (t.withField .definition) :=
    Tree.child?_of_prefix (by rw [List.append_assoc]; exact List.prefix_refl _) roleless rfl
  have whole : (node .decoratedDefinition start
      (ts ++ (us ++ [t.withField .definition]))).definition = t.withField .definition := by
    rw [Tree.definition,if_pos (by rfl),found,Option.getD_some]
  rw [Tree.Titled,whole]
  exact called

theorem yields_titledDecorated (after : Expect) : Yields (decorated g after) Tree.Titled := by
  have decorators : Yields (decorator g) fun t => t.field = none :=
    gives_decorator.yields yields_decorator
  have classes : Yields (classDefinition g after) Tree.Called :=
    gives_calledClass.yields (yields_classDefinition after)
  have functions {start ts} (parts : Sections ts) :
      Yields (functionDefinition g after start ts) Tree.Called :=
    Gives.yields (fun s t u ran => (gives_functionDefinition s t u ran).called)
      (yields_functionDefinition parts)
  have rounds {step} {n} {ts} := @yields_loop (List Tree) step n ts Roleless
  mvcgen [decorated,also,rounds,decorators,classes,functions,-yields_decorated,-yields_decorator,
    -yields_classDefinition,-yields_functionDefinition]
  all_goals
    clear rounds decorators classes functions
    simp_all +decide [titled_decorated]

theorem yields_titledStatement (after : Expect) : Yields (statement g after) AllTitled := by
  have ifs := yields_titled gives_ifStatement (yields_ifStatement (g := g) after)
  have whiles := yields_titled gives_whileStatement (yields_whileStatement (g := g) after)
  have tries := yields_titled gives_tryStatement (yields_tryStatement (g := g) after)
  have fors {start ts} (parts : Sections ts) : Yields (forStatement g after start ts) Tree.Titled :=
    yields_titled gives_forStatement (yields_forStatement parts)
  have withs {start ts} (parts : Sections ts) : Yields (withStatement g after start ts) Tree.Titled :=
    yields_titled gives_withStatement (yields_withStatement parts)
  have functions {start ts} (parts : Sections ts) :
      Yields (functionDefinition g after start ts) Tree.Titled :=
    yields_titled gives_functionDefinition (yields_functionDefinition parts)
  have classes : Yields (classDefinition g after) Tree.Titled :=
    Gives.yields (fun s t u ran => titled_of_class (gives_classDefinition s t u ran))
      (yields_classDefinition after)
  have others := yields_titled gives_asynchronous (yields_asynchronous (g := g) after)
  have decorations := yields_titledDecorated (g := g) after
  have lines := yields_titledLine (g := g) after
  have choices := yields_titledMatching (g := g) after
  mvcgen [statement,ifs,whiles,tries,fors,withs,functions,classes,others,decorations,lines,choices,
    -yields_statement,-yields_ifStatement,-yields_whileStatement,-yields_tryStatement,
    -yields_forStatement,-yields_withStatement,-yields_functionDefinition,-yields_classDefinition,
    -yields_asynchronous,-yields_decorated,-yields_lineOfStatements,-yields_matching]
  all_goals
    clear ifs whiles tries fors withs functions classes others decorations lines choices
    simp_all

end Titles

end Grammar

open Excerpt.Syntax.Parser Excerpt.Syntax.Grammar

theorem yields_titledStatements {g : Grammar} [g.Sound] (start : Cursor) :
    Yields (statements g start) fun t => AllTitled t.children := by
  have lines := yields_titledStatement (g := g) {strings := true}
  have rounds {step} {n} {ts} := @yields_loop (List Tree) step n ts AllTitled
  have root {ts : List Tree} : (node .program start ts).children = ts := rfl
  mvcgen [statements,alsoAll,rounds,lines,-yields_statement]
  all_goals
    clear rounds lines
    simp_all [allTitled_append,allTitled_of_spares]

/-- Every class at the top of a text that has a tree is called by a word. -/
theorem titled_of_readTree {text : String} {root : Tree} (read : readTree text = some root) :
    AllTitled root.children := by
  obtain ⟨⟨tree,rest⟩,parsed,rfl⟩ := Option.map_eq_some_iff.1 read
  have := sound_reach (16 * (Cursor.ofString text).rest.length + 64)
    (16 * (Cursor.ofString text).rest.length + 64)
  exact (yields_iff.1 (yields_titledStatements _) _ (fetch_tidy spares_nil) _ _ parsed).1

end Excerpt.Syntax
