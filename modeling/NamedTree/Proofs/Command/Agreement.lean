import NamedTree.Proofs.Command.Order

/-! # Batches and single conversions

A batch whose targets are free writes for every document what `convert` writes for it, and counts as
failed the documents that `convert` rejects (`runBatch_agrees`). That the targets are free means
that none of them is a document or a directory, and that the way to a target leads over no file and
no target (`Batch.Unobstructed`). The last must hold for the target itself as well, which may stand
on the way when the output directory is written with steps up; the names in the path of the output
directory must be such that directories can have them; and the paths of the targets must not be too
long as a whole (`runBatch_not_agrees`). -/

namespace NamedTree

/-- A document has a result if its root is a node. -/
theorem Document.isSome_result_convert (document : Document) (maxDepth : UInt64) :
    (document.convert maxDepth).result.isSome = (document.rootSort == "node") := by
  unfold convert rootSort
  rcases document.tree with _ | ⟨kind, children, location⟩ | value
  · rfl
  · simp only [Tree.convert, convertTree_node]
    split <;> rfl
  · rfl

namespace Command

open FileTree (isName isPath)

/-- Whether a document is rejected: it cannot be read, is no text or is malformed. -/
def rejects (tree : FileTree) (document : Path) : Bool :=
  match Document.load tree document with
  | .error _ => true
  | .ok _ => false

/-- Whether a document that is not rejected has no tree or a literal at the root. -/
def lacksNode (tree : FileTree) (document : Path) : Bool :=
  match Document.load tree document with
  | .error _ => false
  | .ok document => document.rootSort != "node"

/-- No target is a document or a directory, and no file and no target of another document is on the
way to one. -/
structure Batch.Unobstructed (settings : Settings) (root outDir : Path) (tree : FileTree)
    (documents : List Path) : Prop extends Independent settings root outDir tree documents where
  directory : ∀ document ∈ documents,
    tree.isDirectory (tree.place (target settings root outDir document)) = false
  file : ∀ document ∈ documents, ∀ ancestor ∈ (target settings root outDir document).ancestors,
    tree.isFile (tree.place ancestor) = false

instance (settings : Settings) (root outDir : Path) (tree : FileTree) (documents : List Path) :
    Decidable (Batch.Unobstructed settings root outDir tree documents) :=
  decidable_of_iff
    (Batch.Independent settings root outDir tree documents ∧
      (∀ document ∈ documents,
        tree.isDirectory (tree.place (Batch.target settings root outDir document)) = false) ∧
      ∀ document ∈ documents,
        ∀ ancestor ∈ (Batch.target settings root outDir document).ancestors,
          tree.isFile (tree.place ancestor) = false)
    ⟨fun h => ⟨h.1, h.2.1, h.2.2⟩, fun h => ⟨h.toIndependent, h.directory, h.file⟩⟩

/-- A batch agrees with `convert`, document by document. -/
structure Agrees (settings : Settings) (dir outDir : Path) (tree : FileTree)
    (documents : List Path) : Prop where
  /-- The target of a document holds what `convert` writes to any output. -/
  written : ∀ document ∈ documents, rejects tree document = false →
    ∀ output, tree.Writable output → ∃ content,
      (runConvert settings document (some output) tree).failure = none ∧
      (runConvert settings document (some output) tree).tree.read? output = some content ∧
      (runBatch settings dir outDir tree).tree.read? (Batch.target settings dir outDir document) =
        some content
  /-- For a document that `convert` rejects nothing is written. -/
  rejected : ∀ document ∈ documents, rejects tree document = true →
    (∀ output, (runConvert settings document output tree).failure.isSome) ∧
    ∀ content,
      (runBatch settings dir outDir tree).tree.get?
          (tree.place (Batch.target settings dir outDir document)) = some (.file content) ↔
        tree.get? (tree.place (Batch.target settings dir outDir document)) = some (.file content)
  /-- Files that are no targets stay, and there are no new ones. -/
  unchanged : ∀ place,
    (∀ document ∈ documents, tree.place (Batch.target settings dir outDir document) ≠ place) →
    ∀ content, (runBatch settings dir outDir tree).tree.get? place = some (.file content) ↔
      tree.get? place = some (.file content)
  /-- The counts add up to the number of documents. -/
  counts : ∃ converted,
    converted + documents.countP (lacksNode tree) + documents.countP (rejects tree) =
      documents.length ∧
    (runBatch settings dir outDir tree).stdout =
      "converted " ++ toString converted ++ ", absent " ++
        toString (documents.countP (lacksNode tree)) ++ ", failed " ++
        toString (documents.countP (rejects tree)) ++ "\n"
  /-- The batch fails if a document is rejected. -/
  failure : (runBatch settings dir outDir tree).failure =
    if documents.countP (rejects tree) = 0 then none
    else some (.batch (documents.countP (rejects tree)) documents.length)
  exitCode : (runBatch settings dir outDir tree).exitCode =
    if documents.countP (rejects tree) = 0 then 0 else 1

/-! ### Single documents -/

section Single
variable (settings : Settings) {tree : FileTree} {document : Path}

theorem renderDocument_of_rejects (h : rejects tree document = true) :
    ∃ failure, renderDocument settings tree document = .error failure := by
  unfold rejects at h
  unfold renderDocument
  cases hload : Document.load tree document with
  | error failure => exact ⟨failure, rfl⟩
  | ok loaded => rw [hload] at h; cases h

theorem renderDocument_of_not_rejects (h : rejects tree document = false) :
    ∃ rendered, renderDocument settings tree document = .ok rendered ∧
      rendered.present = !lacksNode tree document := by
  unfold rejects at h
  unfold renderDocument lacksNode
  cases hload : Document.load tree document with
  | error failure => rw [hload] at h; cases h
  | ok loaded =>
    refine ⟨_, rfl, ?_⟩
    simp only [Document.isSome_result_convert, bne, Bool.not_not]

theorem lacksNode_of_rejects (h : rejects tree document = true) :
    lacksNode tree document = false := by
  unfold rejects at h
  unfold lacksNode
  cases hload : Document.load tree document with
  | error failure => rfl
  | ok loaded => rw [hload] at h; cases h

/-- What `convert` writes is the text of the document. -/
theorem runConvert_of_writable {settings : Settings} {rendered : Rendered}
    (hrender : renderDocument settings tree document = .ok rendered) {output : Path}
    (houtput : tree.Writable output) :
    (runConvert settings document (some output) tree).failure = none ∧
      (runConvert settings document (some output) tree).tree.read? output =
        some rendered.text.toUTF8 := by
  have hwrite := FileTree.write?_of_writable houtput rendered.text.toUTF8
  rw [runConvert, hrender]
  simp only [hwrite]
  exact ⟨trivial, FileTree.read?_write? houtput hwrite⟩

theorem runConvert_of_rejects (h : rejects tree document = true) (output : Option Path) :
    (runConvert settings document output tree).failure.isSome := by
  obtain ⟨failure, hrender⟩ := renderDocument_of_rejects settings h
  rw [runConvert, hrender]
  rfl

end Single

namespace Batch
variable {settings : Settings} {root outDir : Path} {tree : FileTree} {documents : List Path}

/-- What a document counts as in a batch, when it can be written. -/
theorem alone_counts (hready : Ready settings root outDir tree documents) {document : Path}
    (hdocument : document ∈ documents)
    (hadmits : tree.Admits (target settings root outDir document)) :
    (alone settings root outDir tree document).failed = (rejects tree document).toNat ∧
      (alone settings root outDir tree document).absent = (lacksNode tree document).toNat ∧
      (alone settings root outDir tree document).converted + (lacksNode tree document).toNat +
        (rejects tree document).toNat = 1 := by
  cases hrejects : rejects tree document with
  | true =>
    obtain ⟨failure, hrender⟩ := renderDocument_of_rejects settings hrejects
    simp [alone, step, hrender, lacksNode_of_rejects hrejects]
  | false =>
    obtain ⟨rendered, hrender, hpresent⟩ := renderDocument_of_not_rejects settings hrejects
    obtain ⟨way, file, hsegments, hfile⟩ :=
      hready.apart.shape _ (List.mem_map_of_mem hdocument)
    obtain ⟨tree', hwrite, -⟩ := FileTree.exists_writeBelow hready.closed hready.working hsegments
      hfile rendered.text
    rw [FileTree.obstacle?, if_pos hadmits, target] at hwrite
    cases hlacks : lacksNode tree document <;>
      simp [alone, step, hrender, hwrite, hpresent, hlacks]

/-- Files can be written at targets that are free. -/
theorem Unobstructed.admits (h : Unobstructed settings root outDir tree documents)
    (hwf : tree.WellFormed) (hproper : root.isProper = true)
    (hdiscover : Discovery.discover tree root = .ok documents)
    (hown : ∀ document ∈ documents, ∀ ancestor ∈ (target settings root outDir document).ancestors,
      tree.place ancestor ≠ tree.place (target settings root outDir document))
    (hnames : ∀ segment ∈ outDir.segments, isName segment = true)
    (hpaths : ∀ document ∈ documents, isPath (target settings root outDir document) = true)
    {document : Path} (hdocument : document ∈ documents) : tree.Admits (target settings root outDir document) := by
  obtain ⟨pathOf, hlocated⟩ := Discovery.exists_located hwf hproper hdiscover
  obtain ⟨dirs, stem, -, hlocation⟩ := hlocated document hdocument
  have hsegments : (target settings root outDir document).segments =
      (outDir.openEnd ++ dirs) ++ [stem ++ "." ++ settings.format.extension] :=
    congrArg Path.segments (hlocation.output outDir settings.format)
  refine ⟨hpaths document hdocument, ?_, h.directory document hdocument, fun hmakes => ?_⟩
  · rw [hsegments, List.dropLast_concat]
    apply FileTree.reach_eq_self
    · refine List.forall_mem_append.mpr ⟨fun segment hsegment => ?_, fun dir hdir => ?_⟩
      · exact hnames segment (Path.mem_of_mem_openEnd hsegment)
      · exact Path.isName_of_isEntryName (hlocation.isEntryName_dirs dir hdir)
    · intro place hpasses
      obtain ⟨ancestor, hancestor, rfl⟩ :=
        (FileTree.exists_ancestor_iff tree hsegments place).mpr hpasses
      exact h.file document hdocument ancestor hancestor
  · obtain ⟨ancestor, hancestor, hplace⟩ := hmakes.exists_ancestor hsegments
    exact hown document hdocument ancestor hancestor hplace

theorem sum_map_eq_countP {count : Path → Nat} {p : Path → Bool}
    (h : ∀ document ∈ documents, count document = (p document).toNat) :
    (documents.map count).sum = documents.countP p := by
  induction documents with
  | nil => rfl
  | cons document documents ih =>
    rw [List.forall_mem_cons] at h
    rw [List.map_cons, List.sum_cons, List.countP_cons, ih h.2, h.1, Nat.add_comm]
    cases p document <;> rfl

theorem sum_map_add_countP {count : Path → Nat} {p q : Path → Bool}
    (h : ∀ document ∈ documents, count document + (p document).toNat + (q document).toNat = 1) :
    (documents.map count).sum + documents.countP p + documents.countP q = documents.length := by
  induction documents with
  | nil => rfl
  | cons document documents ih =>
    rw [List.forall_mem_cons] at h
    have hrest := ih h.2
    have hfirst := h.1
    rw [List.map_cons, List.sum_cons, List.countP_cons, List.countP_cons, List.length_cons]
    cases hp : p document <;> cases hq : q document <;>
      simp only [hp, hq, Bool.toNat_true, Bool.toNat_false, if_true, Bool.false_eq_true,
        if_false] at hfirst ⊢ <;> omega

section After
variable {batch : Batch} (hready : Ready settings root outDir tree documents)
  (hafter : After settings root outDir tree documents batch)
include hready hafter

/-- Files stay where nothing is written for a document that is not rejected. -/
theorem After.get?_eq_file_iff {place : List String}
    (hplace : ∀ document ∈ documents, rejects tree document = false →
      tree.place (target settings root outDir document) ≠ place) (content : ByteArray) :
    batch.tree.get? place = some (.file content) ↔ tree.get? place = some (.file content) := by
  refine hafter.filled.get?_eq_file_iff hready.working (fun write hwrite _ => ?_) content
  obtain ⟨document, hdocument, hwrite⟩ := List.mem_filterMap.mp hwrite
  rw [mem_write? hwrite]
  apply hplace document hdocument
  by_contra hrejects
  obtain ⟨failure, hrender⟩ := renderDocument_of_rejects settings (by simpa using hrejects)
  rw [write?, hrender] at hwrite
  cases hwrite

variable (hadmits : ∀ document ∈ documents, tree.Admits (target settings root outDir document))
include hadmits

omit hready in
/-- The target of a document holds its text. -/
theorem After.read?_target {document : Path} (hdocument : document ∈ documents)
    {rendered : Rendered} (hrender : renderDocument settings tree document = .ok rendered) :
    batch.tree.read? (target settings root outDir document) = some rendered.text.toUTF8 := by
  have hwrite : (target settings root outDir document, rendered.text.toUTF8) ∈
      documents.filterMap (write? settings root outDir tree) :=
    List.mem_filterMap.mpr ⟨document, hdocument, by rw [write?, hrender]⟩
  have hresolve := hafter.filled.resolve _ hwrite (hadmits document hdocument)
  have hcontent := hafter.filled.content _ hwrite (hadmits document hdocument)
  rw [FileTree.read?, hresolve, Option.bind_some, hcontent]

/-- Rejected documents count as failed, and every document counts once. -/
theorem After.counts :
    batch.failed = documents.countP (rejects tree) ∧
      batch.absent = documents.countP (lacksNode tree) ∧
      batch.converted + documents.countP (lacksNode tree) + documents.countP (rejects tree) =
        documents.length := by
  have hcounts := fun document (hdocument : document ∈ documents) =>
    alone_counts hready hdocument (hadmits document hdocument)
  refine ⟨?_, ?_, ?_⟩
  · rw [hafter.failed]
    exact sum_map_eq_countP fun document hdocument => (hcounts document hdocument).1
  · rw [hafter.absent]
    exact sum_map_eq_countP fun document hdocument => (hcounts document hdocument).2.1
  · rw [hafter.converted]
    exact sum_map_add_countP fun document hdocument => (hcounts document hdocument).2.2

end After

end Batch

open Batch (Unobstructed target)

/-- **A batch agrees with `convert`** when its targets are free. -/
theorem runBatch_agrees (settings : Settings) (dir outDir : String) {tree : FileTree}
    (hwf : tree.WellFormed) {documents : List Path}
    (hdiscover : Discovery.discover tree (.ofText dir) = .ok documents)
    (hfree : Unobstructed settings (.ofText dir) (.ofText outDir) tree documents)
    (hown : ∀ document ∈ documents,
      ∀ ancestor ∈ (target settings (.ofText dir) (.ofText outDir) document).ancestors,
        tree.place ancestor ≠ tree.place (target settings (.ofText dir) (.ofText outDir) document))
    (hnames : ∀ segment ∈ (Path.ofText outDir).segments, isName segment = true)
    (hpaths : ∀ document ∈ documents,
      isPath (target settings (.ofText dir) (.ofText outDir) document) = true) :
    Agrees settings (.ofText dir) (.ofText outDir) tree documents := by
  have hproper := Path.isProper_ofText dir
  have hready := Batch.ready_of_discover hwf hproper hdiscover hfree.toIndependent
  have hafter := Batch.after_run hready fun _ hdocument => hdocument
  have hadmits := fun document (hdocument : document ∈ documents) =>
    hfree.admits hwf hproper hdiscover hown hnames hpaths hdocument
  obtain ⟨hfailed, habsent, hcount⟩ := hafter.counts hready hadmits
  constructor
  case written =>
    intro document hdocument haccepted output houtput
    obtain ⟨rendered, hrender, -⟩ := renderDocument_of_not_rejects settings haccepted
    obtain ⟨hsuccess, hread⟩ := runConvert_of_writable hrender houtput
    refine ⟨rendered.text.toUTF8, hsuccess, hread, ?_⟩
    rw [runBatch, hdiscover]
    exact hafter.read?_target hadmits hdocument hrender
  case rejected =>
    intro document hdocument hrejected
    refine ⟨runConvert_of_rejects settings hrejected, ?_⟩
    rw [runBatch, hdiscover]
    refine hafter.get?_eq_file_iff hready fun other hother haccepted heq => ?_
    -- A file at the target of a rejected document could only have come from this document.
    have hsame := Discovery.eq_of_place_outputPath_eq hwf hproper hdiscover _ _ hother hdocument heq
    rw [hsame, hrejected] at haccepted
    cases haccepted
  case unchanged =>
    intro place hplace
    rw [runBatch, hdiscover]
    exact hafter.get?_eq_file_iff hready fun document hdocument _ => hplace document hdocument
  case counts =>
    refine ⟨_, hcount, ?_⟩
    rw [runBatch, hdiscover, ← habsent, ← hfailed]
    rfl
  case failure => rw [runBatch, hdiscover, ← hfailed]
  case exitCode => rw [runBatch, hdiscover, ← hfailed]

theorem runBatch_agrees_mixed :
    Agrees {} (.ofText "in") (.ofText "out") Batch.mixed Batch.mixedDocuments :=
  runBatch_agrees {} "in" "out" (show Batch.mixed.WellFormed by decide +kernel)
    (show Discovery.discover Batch.mixed (.ofText "in") = .ok Batch.mixedDocuments from
      Discovery.discover_of_pairwise (by decide +kernel) (by decide +kernel))
    (show Unobstructed {} (.ofText "in") (.ofText "out") Batch.mixed Batch.mixedDocuments by
      decide +kernel)
    (by decide +kernel) (by decide +kernel) (by decide +kernel)

/-- A tree with a single document. -/
def single : FileTree where
  entries :=
    [(["in"], .directory), (["in", "x.ast.json"], .file "\x7b\"source\":\"\"\x7d".toUTF8)]

/-- A name of 256 bytes. -/
def longName : String := String.ofList (List.replicate 64 '😀')

/-- A name of 248 bytes. -/
def fittingName : String := String.ofList (List.replicate 62 '😀')

/-- Seventeen names that directories can have, in a path of 4232 bytes. -/
def longPath : String := "/".intercalate (List.replicate 17 fittingName)

theorem slash_not_mem_of_replicate (n : ℕ) :
    '/' ∉ (String.ofList (List.replicate n '😀')).toList := by
  rw [String.toList_ofList]
  exact fun hslash => absurd (List.eq_of_mem_replicate hslash) (by decide)

theorem ofText_longName : Path.ofText longName = ⟨false, [longName]⟩ :=
  Path.ofText_of_not_mem (by decide +kernel) (slash_not_mem_of_replicate 64)

theorem ofText_longPath : Path.ofText longPath = ⟨false, List.replicate 17 fittingName⟩ := by
  rw [longPath, List.replicate_succ]
  refine Path.ofText_intercalate (by decide +kernel) fun name hname => ?_
  rw [← List.replicate_succ] at hname
  rw [List.eq_of_mem_replicate hname]
  exact slash_not_mem_of_replicate 62

/-- A batch can fail although no document and no other target is in the way: making the directories
above a target can make one in its own place, a name can be too long for a directory, and a path can
be too long even if each of its names is not. -/
theorem runBatch_not_agrees :
    single.WellFormed ∧
      Discovery.discover single (.ofText "in") = .ok [.ofText "in/x.ast.json"] ∧
      ∀ outDir ∈ ["out/x.json/..", longName, longPath],
        Unobstructed {} (.ofText "in") (.ofText outDir) single [.ofText "in/x.ast.json"] ∧
          ¬ Agrees {} (.ofText "in") (.ofText outDir) single [.ofText "in/x.ast.json"] := by
  have hdiscover : Discovery.discover single (.ofText "in") = .ok [.ofText "in/x.ast.json"] :=
    Discovery.discover_of_pairwise (by decide +kernel) (by decide +kernel)
  refine ⟨by decide +kernel, hdiscover, ?_⟩
  simp only [List.forall_mem_cons, List.not_mem_nil, false_imp_iff, implies_true, and_true,
    ofText_longName, ofText_longPath]
  refine ⟨⟨by decide +kernel, fun h => ?_⟩, ⟨by decide +kernel, fun h => ?_⟩,
    by decide +kernel, fun h => ?_⟩
  all_goals
    have hexit := h.exitCode
    rw [runBatch, hdiscover] at hexit
    exact absurd hexit (by decide +kernel)

end Command

end NamedTree
