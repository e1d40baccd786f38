import Excerpt.Proofs.ConditionMeaning
import Excerpt.Proofs.JoinedParts
import Excerpt.Proofs.Reraise

/-!
The messages of exceptions. The message of `raise E(…)` is the text of the arguments, from which the
parentheses at both ends are taken away: not only the two that enclose the arguments, but all of them.
So the arguments survive in the message if they neither begin nor end with a parenthesis of their own,
and only then.
-/
namespace Excerpt.Text

/-- A text without the opening parentheses in front and the closing ones at the end. -/
def stripParentheses (cs : List Char) : List Char := dropEndWhile (· == ')') (cs.dropWhile (· == '('))

/-- The parentheses around a text are stripped before those of the text. -/
theorem stripParentheses_enclosed (cs : List Char) :
    stripParentheses ('(' :: cs ++ [')']) = stripParentheses cs := by
  have opened : ('(' :: cs ++ [')']).dropWhile (· == '(') = cs.dropWhile (· == '(') ++ [')'] := by
    rw [List.cons_append,List.dropWhile_cons_of_pos rfl,List.dropWhile_append]
    split
    · next all => simp [List.isEmpty_iff.1 all]
    · rfl
  rw [stripParentheses,opened]
  exact List.rdropWhile_concat_pos _ _ ')' rfl

theorem eq_replicate_takeWhile (c : Char) (cs : List Char) :
    cs.takeWhile (· == c) = List.replicate (cs.takeWhile (· == c)).length c :=
  List.eq_replicate_iff.2 ⟨rfl,fun x member => by simpa using List.mem_takeWhile_imp member⟩

/-- Nothing but parentheses is stripped. -/
theorem stripParentheses_split (cs : List Char) : ∃ opened closed,
    cs = List.replicate opened '(' ++ stripParentheses cs ++ List.replicate closed ')' := by
  have behind : (cs.dropWhile (· == '(')).rtakeWhile (· == ')') =
      List.replicate ((cs.dropWhile (· == '(')).reverse.takeWhile (· == ')')).length ')' := by
    rw [List.rtakeWhile,eq_replicate_takeWhile,List.reverse_replicate,List.length_replicate]
  refine ⟨(cs.takeWhile (· == '(')).length,
    ((cs.dropWhile (· == '(')).reverse.takeWhile (· == ')')).length,?_⟩
  have whole : stripParentheses cs ++ (cs.dropWhile (· == '(')).rtakeWhile (· == ')') =
      cs.dropWhile (· == '(') := List.rdropWhile_append_rtakeWhile
  rw [← eq_replicate_takeWhile,← behind,List.append_assoc,whole,List.takeWhile_append_dropWhile]

theorem getLast?_stripParentheses (cs : List Char) : (stripParentheses cs).getLast? ≠ some ')' := by
  intro last
  have filled : stripParentheses cs ≠ [] := fun none => by simp [none] at last
  refine List.rdropWhile_last_not (· == ')') (cs.dropWhile (· == '(')) filled ?_
  rw [List.getLast?_eq_some_getLast filled,Option.some.injEq] at last
  exact beq_iff_eq.2 last

theorem head?_stripParentheses (cs : List Char) : (stripParentheses cs).head? ≠ some '(' := by
  intro first
  obtain ⟨rest,whole⟩ : stripParentheses cs <+: cs.dropWhile (· == '(') := List.rdropWhile_prefix _ _
  have front : (cs.dropWhile (· == '(')).head? = some '(' := by
    rw [← whole,List.head?_append,first,Option.some_or]
  simpa [front] using List.head?_dropWhile_not (· == '(') cs

/-- A text is left alone if it has parentheses at neither end. -/
theorem stripParentheses_eq_self_iff (cs : List Char) :
    stripParentheses cs = cs ↔ cs.head? ≠ some '(' ∧ cs.getLast? ≠ some ')' := by
  constructor
  · intro same
    exact ⟨same ▸ head?_stripParentheses cs,same ▸ getLast?_stripParentheses cs⟩
  · rintro ⟨front,back⟩
    obtain ⟨opened,closed,whole⟩ := stripParentheses_split cs
    cases opened with
    | succ n => exact absurd (by rw [whole]; rfl) front
    | zero =>
      cases closed with
      | succ n => exact absurd (by rw [whole,List.replicate_succ',← List.append_assoc]; simp) back
      | zero => simpa using whole.symm

end Excerpt.Text

namespace Excerpt.Program
open Excerpt.Syntax Excerpt.Text

variable {t call a : Tree}

theorem raiseMessage_eq_strip (filled : a.items ≠ [])
    (other : ∀ only, a.items = [only] → only.is .string = false) :
    raiseMessage a = String.ofList (stripParentheses a.text.toList) := raiseMessage_eq_bare filled other

/-- A string in which something is interpolated stands for itself. -/
theorem raiseMessage_interpolated {only c : Tree} (single : a.items = [only]) (string : only.is .string)
    (member : c ∈ only.namedChildren) (interpolated : c.is .interpolation) :
    raiseMessage a = only.text := by
  have unknown : literalText only = none := by
    simp only [Tree.is,beq_iff_eq] at interpolated
    refine if_neg fun plain => ?_
    simpa [Tree.is,interpolated] using List.all_eq_true.1 plain c member
  rw [raiseMessage,items_of_arguments,show a.children.filter Tree.isItem = [only] from single]
  dsimp only
  rw [if_pos string,unknown,Option.getD_none]

theorem stmtOf_raise (raising : t.is .raiseStatement) (first : t.namedChildren.head? = some call)
    (isCall : call.is .call) (arguments : call.child? .arguments = some a) :
    stmtOf t = .raising (exprsOf t.children).items
      (some ⟨lastSegment ((call.childText .function).getD "Exception"),raiseMessage a,t.line⟩) := by
  obtain ⟨l,cs⟩ := t
  simp only [Tree.is,beq_iff_eq,Tree.symbol_node] at raising
  simp only [stmtOf,raising,thrownBy,first,Option.map_some,if_pos isCall,arguments,Option.getD_some,
    Tree.children_node]

end Excerpt.Program

namespace Excerpt.Execution
open Excerpt.Program Excerpt.Syntax Excerpt.Text Exec

/-- The exception of a `raise` once what stands behind it is evaluated. -/
theorem execute_raising {lazy : Bool} {items : List Expr} {thrown : Thrown} {s m : State}
    {values : List Appraisal} (ran : evaluateEach items s = (.ok values,m)) :
    execute lazy (.raising items (some thrown)) s =
      (.error (.other thrown.exception thrown.message thrown.line),m) := by
  rw [execute,bind_apply,ran]
  rfl

/-- What is raised by hand ends the module that raises it, and the verdict is that on its class and its
message. An interpolated string alone is its own message. Otherwise the message is what lies between the
parentheses of the arguments, stripped of all parentheses at its ends: it is the text of the arguments
exactly if that text neither begins nor ends with a parenthesis. -/
theorem raise_message_strips_parentheses {t call a : Tree} {inner : String}
    (raising : t.is .raiseStatement) (first : t.namedChildren.head? = some call) (isCall : call.is .call)
    (arguments : call.child? .arguments = some a) (filled : a.items ≠ [])
    (enclosed : a.text = "(" ++ inner ++ ")") :
    (∀ (known : List String) (source : Source) (l : Label) (before after : List Tree) (s m : State)
        (values : List Appraisal), source.root = .node l (before ++ t :: after) →
      executeAll (isLazy (ofTree source.root)) (bodyOf before) (State.start known) = (.ok (),s) →
      evaluateEach (exprsOf t.children).items s = (.ok values,m) →
      runStatically known source =
        (Raised.other (lastSegment ((call.childText .function).getD "Exception")) (raiseMessage a)
          t.line).verdict) ∧
    (∀ only c, a.items = [only] → only.is .string → c ∈ only.namedChildren → c.is .interpolation →
      raiseMessage a = only.text) ∧
    ((∀ only, a.items = [only] → only.is .string = false) →
      (∃ opened closed, inner.toList =
        List.replicate opened '(' ++ (raiseMessage a).toList ++ List.replicate closed ')') ∧
      (raiseMessage a).toList.head? ≠ some '(' ∧ (raiseMessage a).toList.getLast? ≠ some ')' ∧
      (raiseMessage a = inner ↔ inner.toList.head? ≠ some '(' ∧ inner.toList.getLast? ≠ some ')')) := by
  refine ⟨fun known source l before after s m values root reached ran => ?_,
    fun only c single string member interpolated =>
      raiseMessage_interpolated single string member interpolated,fun other => ?_⟩
  · have program : ofTree source.root = bodyOf before ++ stmtOf t :: bodyOf after := by
      rw [ofTree,root,Tree.children_node,bodyOf_split raising]
    rw [runStatically_eq]
    rw [program] at reached ⊢
    rw [runFrom_append reached,runFrom,executeAll,bind_apply,stmtOf_raise raising first isCall arguments,
      execute_raising ran]
  · have message : (raiseMessage a).toList = stripParentheses inner.toList := by
      rw [raiseMessage_eq_strip filled other,String.toList_ofList,enclosed]
      simpa using stripParentheses_enclosed inner.toList
    rw [message]
    refine ⟨stripParentheses_split _,head?_stripParentheses _,getLast?_stripParentheses _,?_⟩
    rw [← String.toList_inj,message]
    exact stripParentheses_eq_self_iff _

/-- Arguments that begin with a tuple and end with a call. -/
theorem raise_message_strips_parentheses_nested : ∃ (l : Label) (t call a : Tree),
    readTree "raise ValueError((1, 2), len([3]))\n" = some (.node l [t]) ∧ t.is .raiseStatement ∧
    t.namedChildren.head? = some call ∧ call.is .call ∧ call.child? .arguments = some a ∧
    a.text = "(" ++ "(1, 2), len([3])" ++ ")" ∧ a.items.length = 2 ∧
    runStatically [] ⟨"",.node l [t]⟩ = .executionError "ValueError" (raiseMessage a) ∧
    raiseMessage a ≠ "(1, 2), len([3])" := by
  have computed : (readTree "raise ValueError((1, 2), len([3]))\n").any fun root =>
      decide (root.children.length = 1) && root.children.head?.any fun t => t.is .raiseStatement &&
        (evaluateEach (exprsOf t.children).items (State.start [])).1.isOk &&
        t.namedChildren.head?.any fun call => call.is .call &&
          decide (lastSegment ((call.childText .function).getD "Exception") = "ValueError") &&
          (call.child? .arguments).any fun a => decide (a.text = "(" ++ "(1, 2), len([3])" ++ ")") &&
            decide (a.items.length = 2) := by
    decide +kernel
  obtain ⟨⟨l,cs⟩,read,found⟩ := (Option.any_eq_true _ _).1 computed
  simp only [Bool.and_eq_true,Tree.children_node] at found
  obtain ⟨one,found⟩ := found
  obtain ⟨t,rfl⟩ := List.length_eq_one_iff.1 (of_decide_eq_true one)
  simp only [List.head?_cons,Option.any_some,Bool.and_eq_true] at found
  obtain ⟨⟨raising,evaluated⟩,found⟩ := found
  obtain ⟨call,first,found⟩ := (Option.any_eq_true _ _).1 found
  simp only [Bool.and_eq_true] at found
  obtain ⟨⟨isCall,class_⟩,found⟩ := found
  obtain ⟨a,arguments,found⟩ := (Option.any_eq_true _ _).1 found
  simp only [Bool.and_eq_true] at found
  have enclosed := of_decide_eq_true found.1
  have two := of_decide_eq_true found.2
  have filled : a.items ≠ [] := fun none => by simp [none] at two
  have result := raise_message_strips_parentheses raising first isCall arguments filled enclosed
  refine ⟨l,t,call,a,read,raising,first,isCall,arguments,enclosed,two,?_,fun same => ?_⟩
  · rcases ran : evaluateEach (exprsOf t.children).items (State.start []) with ⟨r | values,m⟩
    · rw [ran] at evaluated
      cases evaluated
    · have verdict := result.1 [] ⟨"",.node l [t]⟩ l [] [] (State.start []) m values rfl rfl ran
      rw [of_decide_eq_true class_] at verdict
      exact verdict
  · have other (only : Tree) (single : a.items = [only]) : only.is .string = false := by
      simp [single] at two
    exact ((result.2.2 other).2.2.2.1 same).1 rfl

/-- Parentheses of the arguments are missing in the message. -/
theorem raise_message_not_verbatim :
    validate [] "raise ValueError(len([]))\n" = .executionError "ValueError" "len([]" ∧
      validate [] "raise ValueError((1, 2))\n" = .executionError "ValueError" "1, 2" ∧
      validate [] "raise ValueError(1, 2)\n" = .executionError "ValueError" "1, 2" := by
  decide +kernel

end Excerpt.Execution
