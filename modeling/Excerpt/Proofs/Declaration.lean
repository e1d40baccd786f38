import Excerpt.Proofs.ScopeResolution
import Excerpt.Scope.Scan

/-!
Names that are declared global. Only statements declare them, so the scopes of lambdas and
comprehensions add no names to the module.
-/
namespace Excerpt

namespace Scope

mutual
/-- A name that a scope adds to the module is bound and declared global by one and the same scope
inside it. -/
theorem inside_of_mem_globalStores {n : String} {root : Scope} {around : List Frame} :
    ∀ s : Scope, Inside root around s → n ∈ s.globalStores →
      ∃ outer u, Inside root outer u ∧ n ∈ u.globals ∧ n ∈ u.bindings
  | .mk k fs, within, stored => by
    simp only [globalStores,List.mem_append,List.mem_filter] at stored
    rcases stored with ⟨declared,bound⟩ | inner
    · exact ⟨around,.mk k fs,within,declared,List.contains_iff_mem.1 bound⟩
    · exact inside_of_mem_innerStores fs (fun s found => .inner within found) inner
theorem inside_of_mem_innerStores {n : String} {root : Scope} {around : List Frame} :
    ∀ fs : List Finding, (∀ s, .inner s ∈ fs → Inside root around s) → n ∈ innerStores fs →
      ∃ outer u, Inside root outer u ∧ n ∈ u.globals ∧ n ∈ u.bindings
  | [], _, stored => by cases stored
  | .inner s :: fs, within, stored => by
    have later := fun t found => within t (List.mem_cons_of_mem _ found)
    exact (List.mem_append.1 stored).elim
      (inside_of_mem_globalStores s (within s List.mem_cons_self))
      (inside_of_mem_innerStores fs later)
  | .bind _ :: fs, within, stored | .walrus _ :: fs, within, stored
  | .declareGlobal _ :: fs, within, stored | .declareNonlocal _ :: fs, within, stored
  | .load _ :: fs, within, stored =>
    inside_of_mem_innerStores fs (fun t found => within t (List.mem_cons_of_mem _ found)) stored
end

theorem innerStores_append (fs gs : List Finding) :
    innerStores (fs ++ gs) = innerStores fs ++ innerStores gs := by
  induction fs with
  | nil => rfl
  | cons f fs ih => cases f <;> simp [innerStores,ih]

end Scope

/-- Whether neither the findings themselves nor the scopes among them declare a name global. -/
def Undeclared (fs : List Finding) : Prop :=
  fs.filterMap Finding.global? = [] ∧ Scope.innerStores fs = []

namespace Undeclared

variable {fs gs : List Finding}

theorem nil : Undeclared [] := ⟨rfl,rfl⟩

theorem globalStores (none : Undeclared fs) (k : ScopeKind) :
    (Scope.mk k fs).globalStores = [] := by
  simp [Scope.globalStores,none.1,none.2]

theorem cons {f : Finding} (declares : f.global? = none)
    (stores : ∀ s, f = .inner s → s.globalStores = []) (rest : Undeclared fs) :
    Undeclared (f :: fs) := by
  refine ⟨by simp [declares,rest.1],?_⟩
  cases f with
  | inner s => simp [Scope.innerStores,stores s rfl,rest.2]
  | bind | walrus | declareGlobal | declareNonlocal | load => exact rest.2

theorem append (first : Undeclared fs) (second : Undeclared gs) : Undeclared (fs ++ gs) :=
  ⟨by simp [first.1,second.1],by simp [Scope.innerStores_append,first.2,second.2]⟩

theorem inner {k : ScopeKind} (none : Undeclared fs) : Undeclared [.inner (.mk k fs)] := by
  refine .cons rfl ?_ .nil
  rintro s ⟨⟩
  exact none.globalStores k

theorem walruses (names : List String) : Undeclared (names.map .walrus) := by
  induction names with
  | nil => exact .nil
  | cons n ns ih => exact .cons rfl (by simp) ih

end Undeclared

namespace Program

mutual
theorem Expr.undeclared (hinted : Bool) (role : Role) :
    ∀ e : Expr, Undeclared (e.findings hinted role)
  | .name id line => by cases role <;> exact .cons rfl (by simp) .nil
  | .none | .truth _ | .integer _ | .blank => .nil
  | .group items | .comparison items _ | .suspension _ items => undeclaredAll _ _ items
  | .parens items | .sequence _ items | .splat _ items => undeclaredAll _ _ items
  | .member object _ => object.undeclared _ _
  | .keyword _ value => value.undeclared _ _
  | .negation argument => argument.undeclared _ _
  | .walrus _ value => .cons rfl (by simp) (value.undeclared _ _)
  | .call left right | .conjunction left right | .disjunction left right | .binary left right
  | .aliased left right => (left.undeclared _ _).append (right.undeclared _ _)
  | .subscript value indices => (value.undeclared _ _).append (undeclaredAll _ _ indices)
  | .conditional body condition alternative =>
    ((body.undeclared _ _).append (condition.undeclared _ _)).append (alternative.undeclared _ _)
  | .lambda parameters body =>
    (undeclaredDefaults hinted parameters).append
      (.inner ((undeclaredTargets parameters).append (body.undeclared _ _)))
  | .comprehension parts =>
    ((undeclaredFirst hinted parts).append (.walruses _)).append (.inner (undeclaredParts false parts))
  | .assignment target hint value => by
    refine ((target.undeclared _ _).append ?_).append (undeclaredOf _ value)
    split
    · exact undeclaredOf _ hint
    · exact .nil
  | .augmented target value =>
    ((target.undeclared _ _).append (target.undeclared _ _)).append (value.undeclared _ _)
theorem undeclaredAll (hinted : Bool) (role : Role) :
    ∀ es : List Expr, Undeclared (findingsAll hinted role es)
  | [] => .nil
  | e :: es => (e.undeclared _ _).append (undeclaredAll _ _ es)
theorem undeclaredOf (hinted : Bool) : ∀ e? : Option Expr, Undeclared (findingsOf hinted e?)
  | none => .nil
  | some e => e.undeclared _ _
theorem undeclaredTargets : ∀ ps : List Parameter, Undeclared (targetFindings ps)
  | [] => .nil
  | .mk target _ _ :: ps => (undeclaredBound target).append (undeclaredTargets ps)
theorem undeclaredBound : ∀ e? : Option Expr, Undeclared (boundFindings e?)
  | none => .nil
  | some e => e.undeclared _ _
theorem undeclaredDefaults (hinted : Bool) :
    ∀ ps : List Parameter, Undeclared (defaultFindings hinted ps)
  | [] => .nil
  | .mk _ _ default :: ps => (undeclaredOf hinted default).append (undeclaredDefaults hinted ps)
theorem undeclaredFirst (hinted : Bool) : ∀ ps : List Part, Undeclared (firstFindings hinted ps)
  | [] => .nil
  | .clause _ iterables :: _ => undeclaredAll _ _ iterables
  | .element _ :: ps => undeclaredFirst hinted ps
theorem undeclaredParts (seen : Bool) : ∀ ps : List Part, Undeclared (partFindings seen ps)
  | [] => .nil
  | .clause target iterables :: ps => by
    refine ((target.undeclared _ _).append ?_).append (undeclaredParts true ps)
    split
    · exact undeclaredAll _ _ iterables
    · exact .nil
  | .element value :: ps => (value.undeclared _ _).append (undeclaredParts seen ps)
end

theorem globalStores_lambdaScope (ps : List Parameter) (body : Expr) :
    (lambdaScope ps body).globalStores = [] :=
  ((undeclaredTargets ps).append (body.undeclared false .read)).globalStores _

theorem globalStores_comprehensionScope (parts : List Part) :
    (comprehensionScope parts).globalStores = [] := (undeclaredParts false parts).globalStores _

end Program

end Excerpt
