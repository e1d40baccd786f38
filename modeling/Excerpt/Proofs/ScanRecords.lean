import Excerpt.Proofs.ClassLookup
import Excerpt.Scan
import Excerpt.Validation

/-!
The records of a scan. There is one record for each class of a file, in order. A class is looked up by
its name, so that a record describes the first class of that name: the class itself if none before it
has its name, and another class otherwise.
-/
namespace Excerpt
open Excerpt.Text Excerpt.Syntax Excerpt.Files Excerpt.Ignore

/-- The report on the unit with the given text. -/
structure Report.Describes (judge : String → Verdict) (text : String) (r : Report) : Prop where
  failed : ∀ error, readSource text = .error error → r = .failed error
  scanned : ∀ part, readSource text = .ok part →
    r = .scanned part.commentStats.1 part.commentStats.2 part.skeleton (judge part.text)

variable {judge : String → Verdict} {source : Source} {text : String}

theorem describes_reportClass {name : String} {t : Tree}
    (first : source.IsFirst (lastSegment name) t) :
    (reportClass judge source name).Describes judge (source.unitText t) := by
  have whole : (source.extract name >>= fun e => readSource e.text) =
      readSource (source.unitText t) := by
    simp only [Source.extract_of_isFirst first,bind,Except.bind]
  constructor
  · intro error unread
    unfold reportClass
    rw [whole,unread]
  · intro part read
    unfold reportClass
    rw [whole,read]

theorem Source.IsFirst.unique {name : String} {t u : Tree} (plain : Execution.Undotted name)
    (first : source.IsFirst name t) (other : source.IsFirst name u) : t = u := by
  rw [← lastSegment_of_undotted plain] at first other
  exact Option.some.inj ((findClass?_eq_some.2 first).symm.trans (findClass?_eq_some.2 other))

theorem isFirst_of_nodup (distinct : source.classNames.Nodup) {t : Tree}
    (member : t ∈ source.classNodes) : source.IsFirst (className t) t := by
  obtain ⟨before,later,whole⟩ := List.append_of_mem member
  refine ⟨before,later,whole,rfl,fun u earlier same => ?_⟩
  rw [Source.classNames,whole,List.map_append,List.nodup_append] at distinct
  exact distinct.2.2 (className u) (List.mem_map_of_mem earlier) (className t) (by simp) same

/-- A record of the class at a node: it describes the first class of that name, and so the class itself
if that is the first. -/
structure ClassRecord.Covers (judge : String → Verdict) (source : Source) (repository file : String)
    (t : Tree) (r : ClassRecord) : Prop where
  repository : r.repository = repository
  file : r.file = file
  name : r.name = className t
  first : ∃ u, source.IsFirst (className t) u ∧ r.report.Describes judge (source.unitText u)
  own : source.IsFirst (className t) t → r.report.Describes judge (source.unitText t)

theorem covers_reportClass (read : Source.read text = .ok source) (repository file : String) {t : Tree}
    (member : t ∈ source.classNodes) : ClassRecord.Covers judge source repository file t
      ⟨repository,file,className t,reportClass judge source (className t)⟩ := by
  have listed : className t ∈ source.classNames := List.mem_map_of_mem member
  have plain := undotted_of_mem_classNames read listed
  have segment := lastSegment_of_undotted plain
  obtain ⟨u,first⟩ := Source.exists_isFirst (segment.symm ▸ listed)
  have described := @describes_reportClass judge source (className t) u first
  rw [segment] at first
  refine ⟨rfl,rfl,rfl,⟨u,first,described⟩,fun own => ?_⟩
  rwa [← own.unique plain first] at described

theorem scanText_of_read (read : Source.read text = .ok source) (repository file : String) :
    scanText judge repository file text = source.classNodes.map fun t =>
      ⟨repository,file,className t,reportClass judge source (className t)⟩ := by
  have readable : readSource text = .ok source := by rw [readSource,read]; rfl
  unfold scanText
  rw [readable]
  simp only [Source.classNames,List.map_map,Function.comp_def]

theorem scanFile_of_decoded {f : FoundFile} (decoded : decode? f.content = some text)
    (repository : String) :
    scanFile judge repository f = scanText judge repository ("/".intercalate f.path) text := by
  unfold scanFile
  rw [decoded]

/-- A file that is read has one record for each class, in order. Each record describes the first class
of its name, with the imports that this class uses; if no two classes have the same name, each describes
its own class. -/
theorem records_of_first_classes (judge : String → Verdict) (repository : String) {f : FoundFile}
    (decoded : decode? f.content = some text) (read : Source.read text = .ok source) :
    List.Forall₂ (ClassRecord.Covers judge source repository ("/".intercalate f.path))
      source.classNodes (scanFile judge repository f) ∧
    (source.classNames.Nodup →
      List.Forall₂ (fun t r => r.name = className t ∧ r.report.Describes judge (source.unitText t))
        source.classNodes (scanFile judge repository f)) := by
  have covers (t : Tree) (member : t ∈ source.classNodes) :=
    @covers_reportClass judge source text read repository ("/".intercalate f.path) t member
  rw [scanFile_of_decoded decoded,scanText_of_read read]
  refine ⟨List.forall₂_map_right_iff.2 (List.forall₂_same.2 covers),fun distinct => ?_⟩
  refine List.forall₂_map_right_iff.2 (List.forall₂_same.2 fun t member => ⟨rfl,?_⟩)
  exact (covers t member).own (isFirst_of_nodup distinct member)

/-- Two classes of different names, with the imports they use. -/
theorem records_of_first_classes_distinct :
    ∃ source, Source.read "import os\nclass A(os.x):\n    pass\nclass B(A): pass\n" = .ok source ∧
      source.classNames = ["A","B"] ∧
      List.Forall₂ (fun t r => r.name = className t ∧
          r.report.Describes (validate []) (source.unitText t)) source.classNodes
        (scanFile (validate []) "repo"
          ⟨["a.py"],"import os\nclass A(os.x):\n    pass\nclass B(A): pass\n".toUTF8.data.toList⟩) := by
  obtain ⟨source,read,names⟩ := @Execution.ok_of_any _ _
    (Source.read "import os\nclass A(os.x):\n    pass\nclass B(A): pass\n")
    (fun source => source.classNames == ["A","B"]) (by decide +kernel)
  have listed : source.classNames = ["A","B"] := beq_iff_eq.1 names
  have distinct : source.classNames.Nodup := by
    rw [listed]
    decide
  exact ⟨source,read,listed,(records_of_first_classes (validate []) "repo" (by decide +kernel) read).2
    distinct⟩

/-- The second of two classes of one name fails by itself, but its record is that of the first. -/
theorem record_of_other_class :
    (scanText (validate []) "repo" "a.py" "class A:\n    pass\n\nclass A(missing):\n    x = 1\n").map
        (fun r => (r.name,r.report.isValid)) = [("A",true),("A",true)] ∧
      validate [] "class A:\n    pass\n" = .valid ∧
      validate [] "class A(missing):\n    x = 1\n" = .undefinedReference "missing" 1 := by
  decide +kernel

end Excerpt
