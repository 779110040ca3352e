import NamedTree.Proofs.Command.Filling
import Mathlib.Algebra.BigOperators.Group.List.Basic
import Mathlib.Algebra.GroupWithZero.Nat

/-! # The order of a batch

Documents are *independent* when no target is the place of a document or on the way to the target of
another document (`Batch.Independent`). In a batch of independent documents each has the effect that
it has alone (`Batch.alone`), whichever were converted before: the same reports, the same counts and
the same changes to the tree (`After.step`). What a batch leaves behind is therefore the sum of
these effects (`after_run`), and the order of the documents does not matter (`run_matches`). -/

namespace NamedTree

namespace Command.Batch

open FileTree (Apart Filled)

/-- The documents that a batch reports as failed. -/
def failing (batch : Batch) : List Path :=
  batch.log.filterMap fun
    | .failed document _ => some document
    | _ => none

/-- Batches with the same tree, the same reports up to order, and the same counts. -/
structure Matches (batch batch' : Batch) : Prop where
  tree : ∀ place, batch.tree.get? place = batch'.tree.get? place
  working : batch.tree.working = batch'.tree.working
  log : batch.log.Perm batch'.log
  failing : ∀ document, document ∈ batch.failing ↔ document ∈ batch'.failing
  summary : batch.summary = batch'.summary

section Documents
variable (settings : Settings) (root outDir : Path) (tree : FileTree)

/-- Where the converted form of a document goes. -/
def target (document : Path) : Path :=
  Discovery.outputPath root document outDir settings.format.extension

/-- The batch of a single document. -/
def alone (document : Path) : Batch := step settings root outDir { tree := tree } document

/-- What is written for a document that is not rejected. -/
def write? (document : Path) : Option (Path × ByteArray) :=
  match renderDocument settings tree document with
  | .error _ => none
  | .ok rendered => some (target settings root outDir document, rendered.text.toUTF8)

/-- No target is the place of a document, and none is on the way to the target of another
document. -/
structure Independent (documents : List Path) : Prop where
  input : ∀ document ∈ documents, ∀ other ∈ documents,
    tree.place (target settings root outDir document) ≠ tree.place other
  way : ∀ document ∈ documents, ∀ other ∈ documents, document ≠ other →
    ∀ ancestor ∈ (target settings root outDir document).ancestors,
      tree.place ancestor ≠ tree.place (target settings root outDir other)

/-- Independent documents in a tree where the path of each leads to a file, and whose targets are
apart. -/
structure Ready (documents : List Path) : Prop where
  closed : tree.Closed
  working : tree.isDirectory tree.working = true
  walk : ∀ document ∈ documents,
    tree.walk (tree.origin document) document.segments = some (tree.place document)
  file : ∀ document ∈ documents, ∃ content, tree.get? (tree.place document) = some (.file content)
  input : ∀ document ∈ documents, ∀ other ∈ documents,
    tree.place (target settings root outDir document) ≠ tree.place other
  distinct : ∀ document ∈ documents, ∀ other ∈ documents,
    target settings root outDir document = target settings root outDir other → document = other
  apart : Apart tree (documents.map (target settings root outDir))

/-- A batch that has converted documents: what it did is the sum of what these do alone. -/
structure After (documents : List Path) (batch : Batch) : Prop where
  filled : Filled tree (documents.filterMap (write? settings root outDir tree)) batch.tree
  log : batch.log = documents.flatMap fun document => (alone settings root outDir tree document).log
  converted : batch.converted =
    (documents.map fun document => (alone settings root outDir tree document).converted).sum
  absent : batch.absent =
    (documents.map fun document => (alone settings root outDir tree document).absent).sum
  failed : batch.failed =
    (documents.map fun document => (alone settings root outDir tree document).failed).sum

end Documents

instance (settings : Settings) (root outDir : Path) (tree : FileTree) (documents : List Path) :
    Decidable (Independent settings root outDir tree documents) :=
  decidable_of_iff
    ((∀ document ∈ documents, ∀ other ∈ documents,
        tree.place (target settings root outDir document) ≠ tree.place other) ∧
      ∀ document ∈ documents, ∀ other ∈ documents, document ≠ other →
        ∀ ancestor ∈ (target settings root outDir document).ancestors,
          tree.place ancestor ≠ tree.place (target settings root outDir other))
    ⟨fun h => ⟨h.1, h.2⟩, fun h => ⟨h.input, h.way⟩⟩

/-! ### One document after others -/

section Step
variable {settings : Settings} {root outDir : Path} {tree : FileTree} {documents : List Path}

theorem ready_of_discover (hwf : tree.WellFormed) (hproper : root.isProper = true)
    (hdiscover : Discovery.discover tree root = .ok documents)
    (h : Independent settings root outDir tree documents) :
    Ready settings root outDir tree documents := by
  obtain ⟨pathOf, hlocated⟩ := Discovery.exists_located hwf hproper hdiscover
  refine ⟨hwf.closed, hwf.working, fun document hdocument => ?_, fun document hdocument => ?_,
    h.input, fun document hdocument other hother heq => ?_, ?_, ?_, ?_⟩
  · obtain ⟨_, _, -, hdocument⟩ := hlocated document hdocument
    exact hdocument.walk
  · obtain ⟨_, _, -, hdocument⟩ := hlocated document hdocument
    exact hdocument.file
  · refine Discovery.eq_of_place_outputPath_eq hwf hproper hdiscover outDir settings.format
      hdocument hother ?_
    exact congrArg tree.place heq
  · intro path hpath
    obtain ⟨document, hdocument, rfl⟩ := List.mem_map.mp hpath
    obtain ⟨dirs, stem, -, hdocument⟩ := hlocated document hdocument
    refine ⟨_, _, congrArg Path.segments (hdocument.output outDir settings.format), ?_⟩
    exact Discovery.isEntryName_output hdocument.isEntryName_stem hdocument.stem_ne settings.format
  · intro path hpath path' hpath' heq
    obtain ⟨document, hdocument, rfl⟩ := List.mem_map.mp hpath
    obtain ⟨other, hother, rfl⟩ := List.mem_map.mp hpath'
    rw [Discovery.eq_of_place_outputPath_eq hwf hproper hdiscover outDir settings.format
      hdocument hother heq]
  · intro path hpath path' hpath' hne
    obtain ⟨document, hdocument, rfl⟩ := List.mem_map.mp hpath
    obtain ⟨other, hother, rfl⟩ := List.mem_map.mp hpath'
    exact h.way document hdocument other hother fun heq => hne (by rw [heq])

theorem renderDocument_congr {tree' : FileTree} {document : Path}
    (h : tree'.read? document = tree.read? document) :
    renderDocument settings tree' document = renderDocument settings tree document := by
  rw [renderDocument, renderDocument, Document.load, Document.load, h]

theorem mem_write? {document : Path} {write : Path × ByteArray}
    (h : write? settings root outDir tree document = some write) :
    write.1 = target settings root outDir document := by
  unfold write? at h
  split at h
  · cases h
  · cases h
    rfl

theorem tree_step (batch : Batch) (document : Path) :
    (step settings root outDir batch document).tree =
      match renderDocument settings batch.tree document with
      | .error _ => batch.tree
      | .ok rendered =>
        (writeBelow batch.tree (target settings root outDir document) rendered.text).1 := by
  unfold step target
  cases renderDocument settings batch.tree document with
  | error failure => rfl
  | ok rendered =>
    dsimp only
    split <;> rename_i hwrite <;> rw [hwrite]

/-- A step that reads and writes as in another tree adds the reports and counts from there. -/
theorem step_eq_alone {batch : Batch} {document : Path}
    (hrender : renderDocument settings batch.tree document = renderDocument settings tree document)
    (hwrite : ∀ rendered, renderDocument settings tree document = .ok rendered →
      (writeBelow batch.tree (target settings root outDir document) rendered.text).2 =
        (writeBelow tree (target settings root outDir document) rendered.text).2) :
    step settings root outDir batch document =
      { tree := (step settings root outDir batch document).tree
        log := batch.log ++ (alone settings root outDir tree document).log
        converted := batch.converted + (alone settings root outDir tree document).converted
        absent := batch.absent + (alone settings root outDir tree document).absent
        failed := batch.failed + (alone settings root outDir tree document).failed } := by
  unfold alone step target at *
  rw [hrender]
  cases hresult : renderDocument settings tree document with
  | error failure => simp
  | ok rendered =>
    have hfailure := hwrite rendered hresult
    rcases hthere : writeBelow batch.tree (Discovery.outputPath root document outDir
      settings.format.extension) rendered.text with ⟨tree', failure⟩
    rcases hhere : writeBelow tree (Discovery.outputPath root document outDir
      settings.format.extension) rendered.text with ⟨only, failure'⟩
    rw [hthere, hhere] at hfailure
    obtain rfl : failure = failure' := hfailure
    cases failure with
    | none => simp [hthere, hhere]
    | some failure => simp [hthere, hhere]

section After
variable (hready : Ready settings root outDir tree documents) {processed : List Path}
  (hprocessed : ∀ document ∈ processed, document ∈ documents) {batch : Batch}
  (hafter : After settings root outDir tree processed batch) {document : Path}
  (hdocument : document ∈ documents)
include hready hprocessed hafter hdocument

/-- A document is read as if nothing had been written. -/
theorem renderDocument_after :
    renderDocument settings batch.tree document = renderDocument settings tree document := by
  apply renderDocument_congr
  apply FileTree.read?_of_grows hafter.filled.grows (hready.walk document hdocument)
  obtain ⟨content, hfile⟩ := hready.file document hdocument
  have hplace : ∀ write ∈ processed.filterMap (write? settings root outDir tree),
      tree.Admits write.1 → tree.place write.1 ≠ tree.place document := by
    intro write hwrite _
    obtain ⟨other, hother, hwrite⟩ := List.mem_filterMap.mp hwrite
    rw [mem_write? hwrite]
    exact hready.input other (hprocessed other hother) document hdocument
  rw [hfile, hafter.filled.get?_eq_file_iff hready.working hplace, hfile]

/-- A document is written with the success that it would have had if nothing had been written, and
its file is added to those that were. -/
theorem writeBelow_after {rendered : Rendered}
    (hrender : renderDocument settings tree document = .ok rendered) :
    (writeBelow batch.tree (target settings root outDir document) rendered.text).2 =
        (writeBelow tree (target settings root outDir document) rendered.text).2 ∧
      Filled tree ((processed ++ [document]).filterMap (write? settings root outDir tree))
        (writeBelow batch.tree (target settings root outDir document) rendered.text).1 := by
  have hfilled := hafter.filled
  have hwrite : write? settings root outDir tree document =
      some (target settings root outDir document, rendered.text.toUTF8) := by rw [write?, hrender]
  have htarget : target settings root outDir document ∈
      documents.map (target settings root outDir) := List.mem_map_of_mem hdocument
  have hmem : ∀ write ∈ processed.filterMap (write? settings root outDir tree),
      write.1 ∈ documents.map (target settings root outDir) := by
    intro write hwrite
    obtain ⟨other, hother, hwrite⟩ := List.mem_filterMap.mp hwrite
    rw [mem_write? hwrite]
    exact List.mem_map_of_mem (hprocessed other hother)
  -- A document that was converted before has been written to the same target with the same text.
  have hsame : ∀ write ∈ processed.filterMap (write? settings root outDir tree),
      write.1 = target settings root outDir document → write.2 = rendered.text.toUTF8 := by
    intro write hmem heq
    obtain ⟨other, hother, hwritten⟩ := List.mem_filterMap.mp hmem
    rw [mem_write? hwritten] at heq
    rw [hready.distinct other (hprocessed other hother) document hdocument heq, hwrite] at hwritten
    cases hwritten
    rfl
  have hworking : batch.tree.isDirectory batch.tree.working = true := by
    rw [hfilled.grows.working]
    exact hfilled.grows.directory _ hready.working
  obtain ⟨way, file, hsegments, hfile⟩ := hready.apart.shape _ htarget
  obtain ⟨only, honly, -⟩ := FileTree.exists_writeBelow hready.closed hready.working hsegments hfile
    rendered.text
  obtain ⟨tree', hbelow, hfilled'⟩ := FileTree.exists_writeBelow hfilled.closed hworking hsegments
    hfile rendered.text
  rw [honly, hbelow, List.filterMap_append, List.filterMap_cons_some hwrite, List.filterMap_nil]
  exact ⟨hfilled.obstacle?_eq hready.working hready.apart hmem htarget,
    hfilled.append hready.working hready.apart hmem htarget hfilled' hsame⟩

/-- **One document of a batch does what it does alone.** -/
theorem After.step : After settings root outDir tree (processed ++ [document])
    (step settings root outDir batch document) := by
  have hrender := renderDocument_after hready hprocessed hafter hdocument
  have hwrite := fun rendered (hresult : renderDocument settings tree document = .ok rendered) =>
    writeBelow_after hready hprocessed hafter hdocument hresult
  have htree : Filled tree ((processed ++ [document]).filterMap (write? settings root outDir tree))
      (Batch.step settings root outDir batch document).tree := by
    rw [tree_step, hrender]
    cases hresult : renderDocument settings tree document with
    | error failure =>
      have hnone : write? settings root outDir tree document = none := by rw [write?, hresult]
      rw [List.filterMap_append, List.filterMap_cons_none hnone, List.filterMap_nil,
        List.append_nil]
      exact hafter.filled
    | ok rendered => exact (hwrite rendered hresult).2
  have hstep := step_eq_alone hrender fun rendered hresult => (hwrite rendered hresult).1
  refine ⟨htree, ?_, ?_, ?_, ?_⟩
  · rw [hstep, hafter.log, List.flatMap_append, List.flatMap_singleton]
  · rw [hstep, hafter.converted, List.map_append, List.sum_append, List.map_singleton,
      List.sum_singleton]
  · rw [hstep, hafter.absent, List.map_append, List.sum_append, List.map_singleton,
      List.sum_singleton]
  · rw [hstep, hafter.failed, List.map_append, List.sum_append, List.map_singleton,
      List.sum_singleton]

end After

/-! ### All documents -/

/-- **A batch is the sum of its documents**, in whatever order and however often they are
converted. -/
theorem after_run (hready : Ready settings root outDir tree documents) {order : List Path}
    (horder : ∀ document ∈ order, document ∈ documents) :
    After settings root outDir tree order (run settings root outDir tree order) := by
  induction order using List.reverseRecOn with
  | nil => exact ⟨Filled.refl hready.closed, rfl, rfl, rfl, rfl⟩
  | append_singleton order document ih =>
    rw [List.forall_mem_append] at horder
    rw [run, List.foldl_append]
    exact (ih horder.1).step hready horder.1 (horder.2 document (List.mem_singleton_self _))

end Step

theorem After.matches {settings : Settings} {root outDir : Path} {tree : FileTree}
    {order order' : List Path} {batch batch' : Batch}
    (h : After settings root outDir tree order batch)
    (h' : After settings root outDir tree order' batch') (horder : order.Perm order') :
    Matches batch batch' := by
  have hlog : batch.log.Perm batch'.log := by
    rw [h.log, h'.log]
    exact horder.flatMap_right _
  have hsum : ∀ count : Path → Nat, (order.map count).sum = (order'.map count).sum :=
    fun count => (horder.map count).sum_eq
  have hconverted : batch.converted = batch'.converted := by rw [h.converted, h'.converted, hsum]
  have habsent : batch.absent = batch'.absent := by rw [h.absent, h'.absent, hsum]
  have hfailed : batch.failed = batch'.failed := by rw [h.failed, h'.failed, hsum]
  have hwrites := fun write =>
    (horder.filterMap (write? settings root outDir tree)).mem_iff (a := write)
  have hworking := h.filled.grows.working.trans h'.filled.grows.working.symm
  refine ⟨h.filled.get?_eq h'.filled hwrites, hworking, hlog,
    fun document => (hlog.filterMap _).mem_iff, ?_⟩
  delta summary
  rw [hconverted, habsent, hfailed]

/-- **The order of a batch does not matter** when its documents are independent. -/
theorem run_matches (settings : Settings) (dir outDir : String) {tree : FileTree}
    (hwf : tree.WellFormed) {documents : List Path}
    (hdiscover : Discovery.discover tree (.ofText dir) = .ok documents)
    (hindependent : Independent settings (.ofText dir) (.ofText outDir) tree documents)
    {order order' : List Path} (horder : order.Perm documents) (horder' : order'.Perm documents) :
    Matches (run settings (.ofText dir) (.ofText outDir) tree order)
      (run settings (.ofText dir) (.ofText outDir) tree order') := by
  have hready := ready_of_discover hwf (Path.isProper_ofText dir) hdiscover hindependent
  have hafter := after_run hready fun document hdocument => horder.mem_iff.mp hdocument
  have hafter' := after_run hready fun document hdocument => horder'.mem_iff.mp hdocument
  exact hafter.matches hafter' (horder.trans horder'.symm)

/-- A tree with four documents: one is converted, one has no tree, one is malformed and one is no
text. A file stands where the malformed one would be written. -/
def mixed : FileTree where
  entries :=
    [(["in"], .directory),
      (["in", "a.ast.json"],
        .file "\x7b\"source\":\"\",\"tree\":\x7b\"type\":\"nil\"\x7d\x7d".toUTF8),
      (["in", "b.ast.json"], .file "[".toUTF8),
      (["in", "c"], .directory),
      (["in", "c", "d.ast.json"], .file "\x7b\"source\":\"\"\x7d".toUTF8),
      (["in", "e.ast.json"], .file ⟨#[0xff]⟩),
      (["out"], .directory),
      (["out", "b.json"], .file "kept".toUTF8)]

/-- The documents of `mixed`. -/
def mixedDocuments : List Path :=
  ["in/a.ast.json", "in/b.ast.json", "in/c/d.ast.json", "in/e.ast.json"].map Path.ofText

theorem run_matches_mixed :
    Matches (run {} (.ofText "in") (.ofText "out") mixed mixedDocuments)
      (run {} (.ofText "in") (.ofText "out") mixed mixedDocuments.reverse) :=
  run_matches {} "in" "out" (show mixed.WellFormed by decide +kernel)
    (show Discovery.discover mixed (.ofText "in") = .ok mixedDocuments from
      Discovery.discover_of_pairwise (by decide +kernel) (by decide +kernel))
    (show Independent {} (.ofText "in") (.ofText "out") mixed mixedDocuments by decide +kernel)
    (List.Perm.refl _) (List.reverse_perm _)

/-- Two documents, the first of which is converted to a file where the other one needs a
directory. -/
def crossing : FileTree where
  entries :=
    [(["in"], .directory),
      (["in", "x.ast.json"], .file "\x7b\"source\":\"\"\x7d".toUTF8),
      (["in", "x.json"], .directory),
      (["in", "x.json", "b.ast.json"], .file "\x7b\"source\":\"\"\x7d".toUTF8)]

/-- Two documents, the first of which is converted to the place of the other one when the output
goes to their own directory. -/
def overlapping : FileTree where
  entries :=
    [(["in"], .directory),
      (["in", "x.ast.ast.json"], .file "\x7b\"source\":\"\"\x7d".toUTF8),
      (["in", "x.ast.json"], .file "\x7b\"source\":\"\"\x7d".toUTF8)]

/-- The order of documents that are not independent shows in what fails and in what is written. -/
theorem run_not_matches :
    (crossing.WellFormed ∧
      ∃ documents, Discovery.discover crossing (.ofText "in") = .ok documents ∧
        ¬ Matches (run {} (.ofText "in") (.ofText "out") crossing documents)
          (run {} (.ofText "in") (.ofText "out") crossing documents.reverse)) ∧
    overlapping.WellFormed ∧
      ∃ documents, Discovery.discover overlapping (.ofText "in") = .ok documents ∧
        ¬ Matches (run {} (.ofText "in") (.ofText "in") overlapping documents)
          (run {} (.ofText "in") (.ofText "in") overlapping documents.reverse) := by
  refine ⟨⟨by decide +kernel, ["in/x.ast.json", "in/x.json/b.ast.json"].map Path.ofText,
    Discovery.discover_of_pairwise (by decide +kernel) (by decide +kernel), fun h => ?_⟩,
    by decide +kernel, ["in/x.ast.ast.json", "in/x.ast.json"].map Path.ofText,
    Discovery.discover_of_pairwise (by decide +kernel) (by decide +kernel), fun h => ?_⟩
  · exact absurd (h.failing (.ofText "in/x.ast.json")) (by decide +kernel)
  · exact absurd (h.failing (.ofText "in/x.ast.json")) (by decide +kernel)

end Command.Batch

end NamedTree
