import NamedTree.Proofs.Discovery.Targets
import NamedTree.Proofs.FileTree.Components

/-! # Output paths mirror the documents

A document below the root has an output path below the output directory: the same directories, and
in place of the document's name its stem with the new extension (`Discovery.Mirrors`). This is so for
any spelling of the paths and for any extension, and no two documents have one output path
(`Discovery.outputPath_distinct`).

The extension is a text of its own and may have slashes in it. Then the output path goes on below
the stem, but in the same way for every document: only the first of the names that the text makes
depends on the stem (`exists_ofText_append`). The stem with the extension is then not the file name
of the output path, and it is not if it is the step up either (`outputPath_not_named`). -/

namespace NamedTree

namespace Path

/-- A text with something put before it changes the first segment alone. -/
theorem exists_ofText_append (extension : String) : ∃ first others,
    ('/' ∉ extension.toList → first = extension ∧ others = []) ∧
    ∀ stem : String, '/' ∉ stem.toList →
      ofText (stem ++ "." ++ extension) = ⟨false, (stem ++ "." ++ first) :: others⟩ := by
  obtain ⟨first, others, hsplit⟩ :=
    List.exists_cons_of_ne_nil (List.splitOn_ne_nil '/' extension.toList)
  refine ⟨String.ofList first, others.map String.ofList, fun hslash => ?_, fun stem hstem => ?_⟩
  · rw [List.splitOn_eq_singleton hslash] at hsplit
    obtain ⟨rfl, rfl⟩ := List.cons.inj hsplit
    exact ⟨String.ofList_toList, rfl⟩
  · have htext : (stem ++ "." ++ extension).toList = (stem.toList ++ ['.']) ++ extension.toList := by
      simp
    have hslash : '/' ∉ stem.toList ++ ['.'] := by simp [hstem]
    obtain ⟨c, cs, hcons⟩ := List.exists_cons_of_ne_nil (show stem.toList ++ ['.'] ≠ [] by simp)
    have hc : c ≠ '/' := by
      rintro rfl
      exact hslash (by simp [hcons])
    rw [hcons, List.cons_append] at htext
    rw [ofText_eq htext hc, ← List.cons_append, ← hcons, splitOn_append hslash, hsplit]
    simp [String.append_assoc]

end Path

namespace Discovery

/-- A path below a root: the root, followed by names. -/
def IsBelow (root path : Path) : Prop :=
  ∃ names ≠ [], path.components = root.components ++ names.map .name

/-- A target mirrors a document below a root: it stands below the output directory under the same
directories, and in place of the document's name it has the stem with the extension. If this is one
name, it is the file name of the target. -/
structure Mirrors (root outDir document target : Path) (extension : String) (dirs : List String)
    (stem : String) : Prop where
  origin : document.components =
    root.components ++ dirs.map .name ++ [.name (stem ++ documentSuffix)]
  fileName : document.fileName? = some (stem ++ documentSuffix)
  placed : ∃ directory : Path, directory.components = outDir.components ++ dirs.map .name ∧
    target = directory.join (.ofText (stem ++ "." ++ extension))
  components : target.components =
    outDir.components ++ dirs.map .name ++ (Path.ofText (stem ++ "." ++ extension)).components
  name : '/' ∉ extension.toList → stem ++ "." ++ extension ≠ ".." →
    target.fileName? = some (stem ++ "." ++ extension) ∧
      ∃ directory : Path, target.parent? = some directory ∧
        directory.components = outDir.components ++ dirs.map .name

/-- The stem of a name with an extension leads somewhere. -/
theorem isFiller_stem_append {stem : String} (hne : stem ≠ "") (first : String) :
    Path.isFiller (stem ++ "." ++ first) = false := by
  have hpos : 0 < stem.length := Nat.pos_of_ne_zero (by simpa using hne)
  have hlong : 1 < (stem ++ "." ++ first).length := by
    have hdot : ".".length = 1 := rfl
    rw [String.length_append, String.length_append, hdot]
    omega
  have hshort : ∀ text : String, text.length ≤ 1 → stem ++ "." ++ first ≠ text :=
    fun text htext heq => by rw [heq] at hlong; omega
  simp [Path.isFiller, hshort "" (by decide), hshort "." (by decide)]

/-- What the text of an output name adds to the components of a directory. -/
theorem exists_components_output (extension : String) :
    ∃ (first : String) (others : List Component), ∀ stem : String, stem ≠ "" → '/' ∉ stem.toList →
      (Path.ofText (stem ++ "." ++ extension)).IsPlain ∧
      ∃ component, Path.component? (stem ++ "." ++ first) = some component ∧
        (Path.ofText (stem ++ "." ++ extension)).components = component :: others ∧
        ('/' ∉ extension.toList → stem ++ "." ++ extension ≠ ".." →
          component = .name (stem ++ "." ++ extension) ∧ others = []) := by
  obtain ⟨first, others, hone, htext⟩ := Path.exists_ofText_append extension
  refine ⟨first, others.filterMap Path.component?, fun stem hne hslash => ?_⟩
  have hfiller := isFiller_stem_append hne first
  have hplain : (Path.ofText (stem ++ "." ++ extension)).IsPlain := by
    rw [htext stem hslash]
    exact ⟨rfl, by simpa using hfiller⟩
  obtain ⟨component, hcomponent⟩ := Path.exists_component? hfiller
  refine ⟨hplain, component, hcomponent, ?_, fun hextension hdots => ?_⟩
  · rw [hplain.components, htext stem hslash, List.filterMap_cons_some hcomponent]
  · obtain ⟨rfl, rfl⟩ := hone hextension
    rw [Path.component?, hfiller, if_neg Bool.false_ne_true, if_neg hdots] at hcomponent
    exact ⟨(Option.some.inj hcomponent).symm, rfl⟩

section Documents
variable {root document : String} (hbelow : IsBelow (.ofText root) (.ofText document))
  (hdocument : isDocument (.ofText document) = true)
include hbelow hdocument

/-- Every document has a mirrored target. -/
theorem exists_mirrors (outDir extension : String) :
    ∃ dirs stem, stem ≠ "" ∧ '/' ∉ stem.toList ∧
      Mirrors (.ofText root) (.ofText outDir) (.ofText document)
        (outputPath (.ofText root) (.ofText document) (.ofText outDir) extension) extension
        dirs stem := by
  obtain ⟨names, hnames, hcomponents⟩ := hbelow
  obtain ⟨dirs, name, rfl⟩ := (List.eq_nil_or_concat names).resolve_left hnames
  rw [List.concat_eq_append] at hcomponents
  have hsource : (Path.ofText document).components =
      (Path.ofText root).components ++ dirs.map .name ++ [.name name] := by
    rw [hcomponents, List.map_append, ← List.append_assoc]
    rfl
  have hfile := Path.fileName?_of_components hsource
  obtain ⟨stem, hne, rfl, hstem⟩ := exists_stem hfile hdocument
  have hslash : '/' ∉ stem.toList := by
    have hname := Path.slash_notMem_of_mem_segments
      (Path.mem_segments_of_mem_components (by rw [hsource]; simp) :
        stem ++ documentSuffix ∈ (Path.ofText document).segments)
    rw [String.toList_append, List.mem_append, not_or] at hname
    exact hname.1
  obtain ⟨rest, hrelative, hplain, hrest⟩ :=
    Path.exists_relativeTo? (Path.isProper_ofText document) hcomponents
  rw [List.map_append] at hrest
  obtain ⟨parent, hparent, hdirs, hplainParent⟩ := Path.exists_parent? hrest
  have hproper := Path.isProper_ofText outDir
  obtain ⟨first, others, houtput⟩ := exists_components_output extension
  obtain ⟨hplainName, component, -, hname, hone⟩ := houtput stem hne hslash
  have htarget : outputPath (.ofText root) (.ofText document) (.ofText outDir) extension =
      ((Path.ofText outDir).join parent).join (.ofText (stem ++ "." ++ extension)) := by
    simp only [outputPath, hrelative, Option.getD_some, hparent, hstem]
  have hdirectory : ((Path.ofText outDir).join parent).components =
      (Path.ofText outDir).components ++ dirs.map .name := by
    rw [(hplainParent hplain).components_join hproper, hdirs]
  have hmirrored : (outputPath (.ofText root) (.ofText document) (.ofText outDir)
      extension).components = (Path.ofText outDir).components ++ dirs.map .name ++
        (Path.ofText (stem ++ "." ++ extension)).components := by
    rw [htarget, hplainName.components_join ((hplainParent hplain).isProper_join hproper),
      hdirectory]
  refine ⟨dirs, stem, hne, hslash, hsource, hfile, ⟨_, hdirectory, htarget⟩, hmirrored,
    fun hextension hdots => ?_⟩
  obtain ⟨rfl, rfl⟩ := hone hextension hdots
  rw [hname] at hmirrored
  obtain ⟨directory, htargetParent, hcomponents', -⟩ := Path.exists_parent? hmirrored
  exact ⟨Path.fileName?_of_components hmirrored, directory, htargetParent, hcomponents'⟩

end Documents

/-- **Output paths mirror the documents, and distinct documents have distinct output paths.** -/
theorem outputPath_distinct (root outDir extension : String) {document document' : String}
    (hbelow : IsBelow (.ofText root) (.ofText document))
    (hbelow' : IsBelow (.ofText root) (.ofText document'))
    (hdocument : isDocument (.ofText document) = true)
    (hdocument' : isDocument (.ofText document') = true) :
    ((Path.ofText document).components ≠ (Path.ofText document').components →
      (outputPath (.ofText root) (.ofText document) (.ofText outDir) extension).components ≠
        (outputPath (.ofText root) (.ofText document') (.ofText outDir) extension).components) ∧
    ∀ text ∈ [document, document'], ∃ dirs stem,
      Mirrors (.ofText root) (.ofText outDir) (.ofText text)
        (outputPath (.ofText root) (.ofText text) (.ofText outDir) extension) extension
        dirs stem := by
  obtain ⟨dirs, stem, hne, hslash, hmirrors⟩ := exists_mirrors hbelow hdocument outDir extension
  obtain ⟨dirs', stem', hne', hslash', hmirrors'⟩ :=
    exists_mirrors hbelow' hdocument' outDir extension
  refine ⟨fun hdistinct heq => hdistinct ?_, ?_⟩
  · obtain ⟨first, others, houtput⟩ := exists_components_output extension
    obtain ⟨-, component, hcomponent, hname, -⟩ := houtput stem hne hslash
    obtain ⟨-, component', hcomponent', hname', -⟩ := houtput stem' hne' hslash'
    rw [hmirrors.components, hmirrors'.components, hname, hname'] at heq
    obtain ⟨hdirs, hnames⟩ := List.append_inj' heq rfl
    obtain rfl := (List.cons.inj hnames).1
    have hstem := Path.component?_inj hcomponent hcomponent'
    rw [String.append_left_inj, String.append_left_inj] at hstem
    rw [hmirrors.origin, hmirrors'.origin, hstem, List.append_cancel_left hdirs]
  · intro text htext
    rcases List.mem_pair.mp htext with rfl | rfl
    · exact ⟨dirs, stem, hmirrors⟩
    · exact ⟨dirs', stem', hmirrors'⟩

/-- Two documents in one directory, spelled in different ways, one with the suffix twice. -/
theorem outputPath_distinct_suffix_twice :
    IsBelow (.ofText "./in") (.ofText "./in/a//x.ast.json") ∧
    IsBelow (.ofText "./in") (.ofText "./in/./a/x.ast.json.ast.json") ∧
    isDocument (.ofText "./in/a//x.ast.json") = true ∧
    isDocument (.ofText "./in/./a/x.ast.json.ast.json") = true ∧
    (outputPath (.ofText "./in") (.ofText "./in/a//x.ast.json") (.ofText "out/") "json").components ≠
      (outputPath (.ofText "./in") (.ofText "./in/./a/x.ast.json.ast.json") (.ofText "out/")
        "json").components ∧
    ∀ text ∈ ["./in/a//x.ast.json", "./in/./a/x.ast.json.ast.json"], ∃ dirs stem,
      Mirrors (.ofText "./in") (.ofText "out/") (.ofText text)
        (outputPath (.ofText "./in") (.ofText text) (.ofText "out/") "json") "json" dirs stem := by
  have hbelow : IsBelow (.ofText "./in") (.ofText "./in/a//x.ast.json") :=
    ⟨["a", "x.ast.json"], by decide, by decide +kernel⟩
  have hbelow' : IsBelow (.ofText "./in") (.ofText "./in/./a/x.ast.json.ast.json") :=
    ⟨["a", "x.ast.json.ast.json"], by decide, by decide +kernel⟩
  have hdocument : isDocument (.ofText "./in/a//x.ast.json") = true := by decide +kernel
  have hdocument' : isDocument (.ofText "./in/./a/x.ast.json.ast.json") = true := by
    decide +kernel
  have h := outputPath_distinct "./in" "out/" "json" hbelow hbelow' hdocument hdocument'
  exact ⟨hbelow, hbelow', hdocument, hdocument', h.1 (by decide +kernel), h.2⟩

/-- With a slash in the extension the file name is what comes after it, and a stem of one dot makes a
step up with the empty extension. -/
theorem outputPath_not_named :
    (IsBelow (.ofText "in") (.ofText "in/x.ast.json") ∧
      isDocument (.ofText "in/x.ast.json") = true ∧
      (Path.ofText "in/x.ast.json").fileName? = some ("x" ++ documentSuffix) ∧
      (outputPath (.ofText "in") (.ofText "in/x.ast.json") (.ofText "out") "a/b").fileName? =
        some "b" ∧ "b" ≠ "x" ++ "." ++ "a/b") ∧
    IsBelow (.ofText "in") (.ofText "in/..ast.json") ∧
      isDocument (.ofText "in/..ast.json") = true ∧
      (Path.ofText "in/..ast.json").fileName? = some ("." ++ documentSuffix) ∧
      (outputPath (.ofText "in") (.ofText "in/..ast.json") (.ofText "out") "").fileName? = none := by
  refine ⟨⟨⟨["x.ast.json"], by decide, by decide +kernel⟩, ?_⟩,
    ⟨["..ast.json"], by decide, by decide +kernel⟩, ?_⟩
  · decide +kernel
  · decide +kernel

end Discovery

end NamedTree
