import NamedTree.Proofs.Convert.Pruning
import NamedTree.Proofs.Snippet.Containment

/-! # Coherent meta data

The offsets and the code of a node are found by separate functions from one optional location, and
they agree at every node of a document (`convert_coherent`). The two offsets are given together or
not at all. There is code exactly if they are boundaries of the source in order, and then the code is
the trimmed piece of the source whose bytes lie between them. So the code follows from the source
and the two offsets alone, as `Snippet.between` finds it.

Stubs are no exception, because the meta data of every node is that of a location of the source tree
(`exists_location`). -/

namespace NamedTree

namespace Text

theorem utf8ByteSize_ofList (cs : List Char) : (String.ofList cs).utf8ByteSize = byteLength cs := by
  induction cs with
  | nil => rfl
  | cons c cs ih =>
    rw [String.ofList_cons, String.utf8ByteSize_append, String.utf8ByteSize_singleton, ih,
      byteLength_cons]

theorem IsBoundary.le_byteLength {cs : List Char} {n : ℕ} (h : IsBoundary cs n) :
    n ≤ byteLength cs := by
  obtain ⟨before, ⟨after, rfl⟩, rfl⟩ := h
  rw [byteLength_append]
  omega

theorem IsBoundary.le_utf8ByteSize {text : String} {n : ℕ} (h : IsBoundary text.toList n) :
    n ≤ text.utf8ByteSize := by
  have hsize := utf8ByteSize_ofList text.toList
  rw [String.ofList_toList] at hsize
  rw [hsize]
  exact h.le_byteLength

/-- There is a piece between two offsets exactly if they are boundaries in order. -/
theorem isSome_slice_iff {first last : ℕ} {cs : List Char} :
    (slice first last cs).isSome = true ↔
      first ≤ last ∧ IsBoundary cs first ∧ IsBoundary cs last := by
  rw [Option.isSome_iff_exists]
  constructor
  · rintro ⟨piece, h⟩
    obtain ⟨before, after, rfl, rfl, rfl⟩ := slice_eq_some_iff.mp h
    refine ⟨?_, ⟨before, ⟨piece ++ after, by simp⟩, rfl⟩, ⟨before ++ piece, ⟨after, rfl⟩, rfl⟩⟩
    rw [byteLength_append]
    omega
  · rintro ⟨hle, ⟨before, hbefore, rfl⟩, ⟨upTo, hupTo, rfl⟩⟩
    obtain ⟨piece, rfl⟩ := isPrefix_of_byteLength_le hbefore hupTo hle
    obtain ⟨after, rfl⟩ := hupTo
    exact ⟨piece, slice_eq_some_iff.mpr ⟨before, after, rfl, rfl, rfl⟩⟩

/-- The piece between two offsets has the bytes between them. -/
theorem extract_toUTF8_of_slice {first last : ℕ} {source : String} {piece : List Char}
    (h : slice first last source.toList = some piece) :
    source.toUTF8.extract first last = (String.ofList piece).toUTF8 := by
  obtain ⟨before, after, hsource, rfl, rfl⟩ := slice_eq_some_iff.mp h
  have hsplit : source = String.ofList before ++ String.ofList piece ++ String.ofList after := by
    rw [← String.toList_inj, hsource]
    simp
  have hbefore : byteLength before = (String.ofList before).toByteArray.size :=
    (utf8ByteSize_ofList before).symm
  have hpiece : byteLength piece = (String.ofList piece).toByteArray.size :=
    (utf8ByteSize_ofList piece).symm
  rw [hsplit, byteLength_append, hbefore, hpiece]
  simp only [String.toUTF8, String.toByteArray_append]
  rw [ByteArray.extract_append, ByteArray.extract_append_eq_right rfl rfl]
  simp

end Text

namespace Snippet

/-- The source between two offsets on one line, if both are given and boundaries in order. -/
def between (source : String) : Option UInt64 → Option UInt64 → Option String
  | some first, some last => ofRange source ⟨first, last⟩
  | _, _ => none

end Snippet

/-- Meta data whose offsets and code say the same about the source. -/
structure MetaData.Coherent (source : String) (metaData : MetaData) : Prop where
  paired : metaData.offsetStart.isSome = metaData.offsetEnd.isSome
  isSome_code_iff : metaData.code.isSome = true ↔ ∃ first last,
    metaData.offsetStart = some first ∧ metaData.offsetEnd = some last ∧ first ≤ last ∧
      last.toNat ≤ source.utf8ByteSize ∧ Text.IsBoundary source.toList first.toNat ∧
        Text.IsBoundary source.toList last.toNat
  code_eq : ∀ first last code, metaData.offsetStart = some first →
    metaData.offsetEnd = some last → metaData.code = some code → ∃ piece : String,
      source.toUTF8.extract first.toNat last.toNat = piece.toUTF8 ∧ code = Snippet.trim piece
  between : metaData.code = Snippet.between source metaData.offsetStart metaData.offsetEnd

/-- The meta data of a location is coherent. -/
theorem MetaData.coherent_ofLocation (source : String) (location : Option Location) :
    (MetaData.ofLocation source location).Coherent source := by
  cases hrange : Location.range? location with
  | none =>
    have hcode : Snippet.extract source location = none := by rw [Snippet.extract, hrange]; rfl
    refine ⟨by simp [ofLocation, hrange], ?_, ?_, ?_⟩
    · simp [ofLocation, hrange, hcode]
    · simp [ofLocation, hrange]
    · simp [ofLocation, hrange, hcode, Snippet.between]
  | some range =>
    have hcode : Snippet.extract source location = Snippet.ofRange source range := by
      rw [Snippet.extract, hrange]; rfl
    refine ⟨by simp [ofLocation, hrange], ?_, ?_, ?_⟩
    · have hsome : (Snippet.ofRange source range).isSome =
          (Text.slice range.first.toNat range.last.toNat source.toList).isSome := by
        rw [Snippet.ofRange, Option.isSome_map]
      simp only [ofLocation, hrange, hcode, Option.map_some, hsome, Text.isSome_slice_iff,
        Option.some.injEq, exists_and_left, exists_eq_left', UInt64.le_iff_toNat_le]
      constructor
      · rintro ⟨hle, hfirst, hlast⟩
        exact ⟨hle, hlast.le_utf8ByteSize, hfirst, hlast⟩
      · rintro ⟨hle, -, hfirst, hlast⟩
        exact ⟨hle, hfirst, hlast⟩
    · simp only [ofLocation, hrange, hcode, Option.map_some, Option.some.injEq]
      rintro first last code rfl rfl hsome
      obtain ⟨piece, hpiece, rfl⟩ := Option.map_eq_some_iff.mp hsome
      refine ⟨String.ofList piece, Text.extract_toUTF8_of_slice hpiece, ?_⟩
      rw [Snippet.trim, String.toList_ofList]
    · simp [ofLocation, hrange, hcode, Snippet.between]

/-- Every node of a document has the meta data of a location. -/
theorem exists_location {ctx : Context} {depth : UInt64} {tree : Tree} {out node : OutputNode}
    (h : (tree.convert ctx depth).1 = some out) {address : List ℕ}
    (hnode : out.at? address = some node) :
    ∃ location, node.metaData = .ofLocation ctx.source location := by
  have hlevels : tree.levels ctx.source (ctx.maxDepth.toNat - depth.toNat) = .node out := by
    simp only [Tree.convert, convertTree_fst] at h
    exact Converted.eq_node_of_asNode h
  obtain ⟨image, htraced⟩ := exists_traced ctx.source tree _ out hlevels
  obtain ⟨_, _, location, -, -, hmeta, -⟩ := htraced.made address node hnode
  exact ⟨location, hmeta⟩

/-- **The meta data of every node is coherent.** -/
theorem convert_coherent {ctx : Context} {depth : UInt64} {tree : Tree} {out node : OutputNode}
    (h : (tree.convert ctx depth).1 = some out) {address : List ℕ}
    (hnode : out.at? address = some node) : node.metaData.Coherent ctx.source := by
  obtain ⟨location, hlocation⟩ := exists_location h hnode
  rw [hlocation]
  exact MetaData.coherent_ofLocation ctx.source location

/-- A stub that stands for a piece of two lines, the first character of two bytes. -/
theorem convert_coherent_stub : ∃ out node : OutputNode,
    (Tree.convert ⟨"é \t=\n1", none, 1⟩ 0 (.node (.ofName "begin") [.node (.ofName "lvasgn") []
      (some { expression := some ⟨0, 7⟩ })] none)).1 = some out ∧ out.at? [0] = some node ∧
    node.isNested = true ∧ node.metaData.code = some "é = 1" ∧
    node.metaData.Coherent "é \t=\n1" := by
  have hstub : ∃ out node : OutputNode,
      (Tree.convert ⟨"é \t=\n1", none, 1⟩ 0 (.node (.ofName "begin") [.node (.ofName "lvasgn") []
        (some { expression := some ⟨0, 7⟩ })] none)).1 = some out ∧ out.at? [0] = some node ∧
      node.isNested = true ∧ node.metaData.code = some "é = 1" :=
    ⟨_, _, rfl, rfl, rfl, by decide +kernel⟩
  obtain ⟨out, node, hout, hnode, hnested, hcode⟩ := hstub
  exact ⟨out, node, hout, hnode, hnested, hcode, convert_coherent hout hnode⟩

end NamedTree
