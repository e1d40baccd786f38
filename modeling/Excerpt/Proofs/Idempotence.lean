import Excerpt.Extraction
import Excerpt.Proofs.Relocation

/-!
Extraction from an extracted text. If the text is read as the chosen import statements followed by
the class, each moved to its new place, the class is found again, uses the same names and gives the
same text, and none of its imports is dropped.
-/
namespace Excerpt
open Excerpt.Text Excerpt.Syntax

namespace Syntax

variable {t u : Tree} {before later : Nat}

theorem Tree.text_of_shifts (related : t.alike (Label.shifts before later) u) :
    t.text = u.text := by
  have label := label_of_alike related
  simp only [Label.shifts,Bool.and_eq_true,beq_iff_eq] at label
  exact label.1

theorem Tree.startByte_of_shifts (related : t.alike (Label.shifts before later) u) :
    t.startByte + later = u.startByte + before := by
  have label := label_of_alike related
  simp only [Label.shifts,Bool.and_eq_true,beq_iff_eq] at label
  exact label.2

theorem Tree.endByte_of_shifts (related : t.alike (Label.shifts before later) u) :
    t.endByte + later = u.endByte + before := by
  have first : t.start.byte + later = u.start.byte + before := startByte_of_shifts related
  rw [endByte,endByte,text_of_shifts related]
  omega

end Syntax

/-- An import statement without the place where it stands. -/
def ImportStatement.unplaced (s : ImportStatement) : ImportStatement :=
  {s with line := 0,startByte := 0,endByte := 0}

@[simp] theorem ImportStatement.text_unplaced (s : ImportStatement) : s.unplaced.text = s.text := rfl

@[simp] theorem ImportStatement.boundNames_unplaced (s : ImportStatement) :
    s.unplaced.boundNames = s.boundNames := rfl

section Imports

variable {t u : Tree} {before later : Nat}

theorem importedName_of_shifts (plain : Bool) (related : t.alike (Label.shifts before later) u) :
    importedName? plain t = importedName? plain u := by
  have text (f : Field) : t.childText f = u.childText f :=
    Tree.childText_of_alike related fun _ _ _ => Tree.text_of_shifts
  rw [importedName?,importedName?,Tree.kind_of_alike related,Tree.text_of_shifts related,
    text .name,text .alias]

theorem importedNames_of_shifts (plain : Bool) (related : t.alike (Label.shifts before later) u) :
    t.namedChildren.filterMap (importedName? plain) =
      u.namedChildren.filterMap (importedName? plain) :=
  filterMap_of_alikeAll (fun _ _ => importedName_of_shifts plain)
    (Tree.namedChildren_of_alike related)

theorem plainImport_of_shifts (related : t.alike (Label.shifts before later) u) :
    (plainImport t).unplaced = (plainImport u).unplaced := by
  simp only [plainImport,ImportStatement.unplaced,importedNames_of_shifts true related,
    Tree.text_of_shifts related]

theorem futureImport_of_shifts (related : t.alike (Label.shifts before later) u) :
    (futureImport t).unplaced = (futureImport u).unplaced := by
  simp only [futureImport,ImportStatement.unplaced,importedNames_of_shifts false related,
    Tree.text_of_shifts related]

/-- The module part and everything behind it move by the same distance, so the same children are
imported names. -/
theorem fromImport_of_shifts (related : t.alike (Label.shifts before later) u) :
    (fromImport t).unplaced = (fromImport u).unplaced := by
  have parts := Tree.child_of_alike related .moduleName
  have paths : importedModule (t.child? .moduleName) = importedModule (u.child? .moduleName) := by
    rcases parts with ⟨left,right⟩ | ⟨a,b,left,right,below⟩
    · rw [left,right]
    · simp only [left,right,importedModule,Tree.text_of_shifts below,Tree.is_of_alike below]
  have behind (c d : Tree) (below : c.alike (Label.shifts before later) d) :
      decide (((t.child? .moduleName).map Tree.endByte).getD 0 ≤ c.startByte) =
        decide (((u.child? .moduleName).map Tree.endByte).getD 0 ≤ d.startByte) := by
    have start := Tree.startByte_of_shifts below
    rcases parts with ⟨left,right⟩ | ⟨a,b,left,right,part⟩
    · simp [left,right]
    · have stop := Tree.endByte_of_shifts part
      simp only [left,right,Option.map_some,Option.getD_some,decide_eq_decide]
      omega
  have imported := alikeAll_filter behind (Tree.namedChildren_of_alike related)
  have names := filterMap_of_alikeAll (fun _ _ => importedName_of_shifts false) imported
  have wildcard := any_of_alikeAll (fun _ _ below => Tree.is_of_alike below .wildcardImport) imported
  simp only [fromImport,ImportStatement.unplaced,paths,names,wildcard,Tree.text_of_shifts related]

/-- A statement at another place imports the same. -/
theorem importStatement_of_shifted (related : t.shifted u) :
    (importStatement? t).map ImportStatement.unplaced =
      (importStatement? u).map ImportStatement.unplaced := by
  rw [importStatement?,importStatement?,← Tree.kind_of_alike related]
  split
  · exact congrArg some (plainImport_of_shifts related)
  · exact congrArg some (fromImport_of_shifts related)
  · exact congrArg some (futureImport_of_shifts related)
  · rfl

end Imports

/-- An import that binds a name in use. -/
def bindsUsed (used : List String) (t : Tree) : Bool :=
  (importStatement? t).any (·.boundNames.any used.contains)

theorem selectImports_filterMap (used : List String) (ts : List Tree) :
    selectImports (ts.filterMap importStatement?) used =
      (ts.filter (bindsUsed used)).filterMap importStatement? := by
  rw [selectImports,List.filter_filterMap,List.filterMap_filter]
  congr 1
  funext t
  cases found : importStatement? t <;> simp [bindsUsed,found,Option.filter]

/-- The nodes `us` are the import statements `ts` and then the class `t`, each at its new place. -/
def listed (t : Tree) : List Tree → List Tree → Bool
  | [],[u] => t.cropped u
  | i :: ts,j :: us => i.shifted j && listed t ts us
  | _,_ => false

theorem listed_cons {t i j : Tree} {ts us : List Tree} :
    listed t (i :: ts) (j :: us) ↔ i.shifted j ∧ listed t ts us := by
  rw [listed,Bool.and_eq_true]

/-- The text is read as a source that holds the chosen imports and the class `t`, and nothing
else. -/
def Source.rereads (s : Source) (t : Tree) (text : String) : Bool :=
  match readSource text with
  | .error _ => false
  | .ok reread =>
    listed t (s.root.namedChildren.filter (bindsUsed (usage t))) reread.root.namedChildren

/-- Whether the text that is extracted for a name is read as it was put together. -/
def Source.survives (s : Source) (name : String) : Bool :=
  match s.findClass? name,s.extract name with
  | some t,.ok out => s.rereads t out.text
  | _,_ => false

example : (readSource "import a\n\nclass B:\n    x = a # y").toOption.any (·.survives "B") := by
  decide +kernel

section Listed

variable {t u : Tree}

theorem Syntax.Tree.symbol_of_kind {k : Kind} (kind : t.kind? = some k) : t.symbol = .named k := by
  unfold Tree.kind? at kind
  split at kind
  · rename_i symbol
    rw [symbol,Option.some.inj kind]
  · cases kind

/-- A class is no import statement. -/
theorem importStatement_eq_none (isClass : t.definition.is .classDefinition) :
    importStatement? t = none := by
  have other {k : Kind} (kind : t.kind? = some k) (plain : k ≠ .decoratedDefinition) :
      k = .classDefinition := by
    have symbol := Tree.symbol_of_kind kind
    simpa [Tree.definition,Tree.is,symbol,plain] using isClass
  rw [importStatement?]
  split
  · rename_i kind; cases other kind (by decide)
  · rename_i kind; cases other kind (by decide)
  · rename_i kind; cases other kind (by decide)
  · rfl

theorem isClass_of_alike {same : Label → Label → Bool} (related : t.alike same u) :
    t.definition.is .classDefinition = u.definition.is .classDefinition :=
  Tree.is_of_alike (Tree.definition_of_alike related) .classDefinition

variable (isClass : t.definition.is .classDefinition)
include isClass

/-- The imports are read back, at other places, and the class is none of them. -/
theorem imports_of_listed : ∀ {ts us : List Tree}, listed t ts us →
    (us.filterMap importStatement?).map ImportStatement.unplaced =
      (ts.filterMap importStatement?).map ImportStatement.unplaced
  | [],[u],related => by
    have copied := (isClass_of_alike related).symm.trans isClass
    simp [importStatement_eq_none copied]
  | i :: ts,j :: us,related => by
    obtain ⟨head,tail⟩ := listed_cons.1 related
    have same := importStatement_of_shifted head
    have rest := imports_of_listed tail
    rw [List.map_filterMap,List.map_filterMap] at rest ⊢
    rw [List.filterMap_cons,List.filterMap_cons,same,rest]

/-- The class is the only one. -/
theorem classes_of_listed : ∀ {ts us : List Tree}, (∀ i ∈ ts, (importStatement? i).isSome) →
    listed t ts us → ∃ u, t.cropped u ∧ us.filter (·.definition.is .classDefinition) = [u]
  | [],[u],_,related => by
    have copied := (isClass_of_alike related).symm.trans isClass
    exact ⟨u,related,by simp [copied]⟩
  | i :: ts,j :: us,imports,related => by
    obtain ⟨head,tail⟩ := listed_cons.1 related
    obtain ⟨u,copy,only⟩ := classes_of_listed (fun k member => imports k (.tail _ member)) tail
    have imported := imports i (.head _)
    have other : j.definition.is .classDefinition = false := by
      rw [← isClass_of_alike head]
      refine Bool.eq_false_iff.2 fun another => ?_
      rw [importStatement_eq_none another] at imported
      cases imported
    exact ⟨u,copy,by rw [List.filter_cons,other,if_neg Bool.false_ne_true,only]⟩

end Listed

theorem extractionText_congr {xs ys : List ImportStatement} {left right : String}
    (imports : xs.map ImportStatement.unplaced = ys.map ImportStatement.unplaced)
    (trimmed : trimEnd left = trimEnd right) : extractionText xs left = extractionText ys right := by
  have texts : xs.map (·.text ++ "\n") = ys.map (·.text ++ "\n") := by
    simpa [Function.comp_def] using congrArg (List.map (·.text ++ "\n")) imports
  have empty : xs.isEmpty = ys.isEmpty := by
    simpa using congrArg List.isEmpty imports
  rw [extractionText,extractionText,texts,empty,trimmed]

/-- What is found is the first class of the name, and one of the classes. -/
theorem findClass_spec {s : Source} {name : String} {t : Tree} (found : s.findClass? name = some t) :
    t.definition.is .classDefinition ∧ className t == lastSegment name := by
  unfold Source.findClass? at found
  exact ⟨(List.mem_filter.1 (List.mem_of_find?_eq_some found)).2,
    List.find?_some (p := (className · == lastSegment name)) found⟩

/-- A source that holds the chosen imports and the class, at other places, gives the text that the
first source gave. -/
theorem extract_of_listed {s reread : Source} {name : String} {t : Tree}
    (found : s.findClass? name = some t)
    (related : listed t (s.root.namedChildren.filter (bindsUsed (usage t)))
      reread.root.namedChildren) :
    ∃ again, reread.extract name = .ok again ∧ again.used = usage t ∧
      again.text = extractionText (selectImports s.imports (usage t)) t.text := by
  obtain ⟨isClass,named⟩ := findClass_spec found
  obtain ⟨u,copy,only⟩ := classes_of_listed isClass (fun i member => by
    have binds := (List.mem_filter.1 member).2
    cases imported : importStatement? i <;> simp_all [bindsUsed]) related
  have name' : className u == lastSegment name := className_of_cropped copy ▸ named
  have found' : reread.findClass? name = some u := by
    rw [Source.findClass?,Source.classNodes,only,List.find?_cons,name']
  have imports := imports_of_listed isClass related
  rw [← selectImports_filterMap] at imports
  -- Every import that was kept binds a name in use, so choosing again drops none.
  have kept : selectImports reread.imports (usage u) = reread.imports := by
    refine List.filter_eq_self.2 fun i member => ?_
    obtain ⟨j,chosen,same⟩ := List.mem_map.1 (imports ▸ List.mem_map_of_mem member)
    have binds := (List.mem_filter.1 chosen).2
    rwa [← usage_of_cropped copy,← ImportStatement.boundNames_unplaced,← same]
  refine ⟨_,by rw [Source.extract,found'],(usage_of_cropped copy).symm,?_⟩
  simp only [kept]
  exact extractionText_congr imports (trimEnd_of_cropped copy)

/-- Extraction is idempotent: the extracted text, from which the same class is extracted again,
stays as it is. The parser is assumed to find in it the statements that were put together. -/
theorem extract_extracted {text name : String} {out : Extraction}
    (extracted : readSource text >>= (·.extract name) = .ok out)
    (parses : ∀ source t, readSource text = .ok source → source.findClass? name = some t →
      source.rereads t out.text) :
    ∃ again, readSource out.text >>= (·.extract name) = .ok again ∧
      again.text = out.text ∧ again.used = out.used := by
  cases read : readSource text with
  | error fault =>
    rw [read] at extracted
    cases extracted
  | ok source =>
    rw [read] at extracted
    change source.extract name = .ok out at extracted
    unfold Source.extract at extracted
    split at extracted
    · cases extracted
    · rename_i t found
      cases extracted
      have again := parses source t read found
      unfold Source.rereads at again
      split at again
      · cases again
      · rename_i reread second
        obtain ⟨out,extracted,used,text⟩ := extract_of_listed found again
        exact ⟨out,by rw [second]; exact extracted,text,used⟩

/-- Two imports of which one is used, and a class behind which a comment ends in blanks. -/
theorem extract_extracted_comment :
    ∃ out, readSource "import os, re\nimport sys\n@sys.x\nclass A:\n    y = sys.z # end  \n" >>=
        (·.extract "pkg.A") = .ok out ∧
      out.text = "import sys\n\n@sys.x\nclass A:\n    y = sys.z # end\n" ∧
      ∃ again, readSource out.text >>= (·.extract "pkg.A") = .ok again ∧
        again.text = out.text ∧ again.used = out.used := by
  have computed : (match readSource "import os, re\nimport sys\n@sys.x\nclass A:\n    y = sys.z # end  \n" with
      | .error _ => false
      | .ok source =>
        match source.findClass? "pkg.A",source.extract "pkg.A" with
        | some t,.ok out =>
          decide (out.text = "import sys\n\n@sys.x\nclass A:\n    y = sys.z # end\n") &&
            source.rereads t out.text
        | _,_ => false) = true := by decide +kernel
  split at computed
  · cases computed
  · rename_i source read
    split at computed
    · rename_i t out found extracted
      obtain ⟨text,reread⟩ := Bool.and_eq_true_iff.1 computed
      have whole : readSource "import os, re\nimport sys\n@sys.x\nclass A:\n    y = sys.z # end  \n" >>=
          (·.extract "pkg.A") = .ok out := by rw [read]; exact extracted
      refine ⟨out,whole,of_decide_eq_true text,extract_extracted whole ?_⟩
      intro source' t' read' found'
      cases read.symm.trans read'
      cases found.symm.trans found'
      exact reread
    · cases computed

end Excerpt
