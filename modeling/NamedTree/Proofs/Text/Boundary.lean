import NamedTree.Text.Bytes
import Mathlib.Data.List.Infix

/-! # Byte offsets between characters

An offset is a *boundary* of a text if a beginning of the text has exactly so many bytes
(`IsBoundary`). A text is cut between two offsets exactly if they are boundaries in order, and the
piece between them is then the one piece that has the right number of bytes before it and in it
(`slice_eq_some_iff`). Beginnings of one text are ordered by their number of bytes
(`isPrefix_of_byteLength_le`), because no character is empty. -/

namespace NamedTree.Text

/-- An offset in bytes at which no character is cut apart. -/
def IsBoundary (cs : List Char) (n : ℕ) : Prop := ∃ before, before <+: cs ∧ byteLength before = n

theorem byteLength_eq_zero_iff (cs : List Char) : byteLength cs = 0 ↔ cs = [] := by
  cases cs with
  | nil => simp
  | cons c cs =>
    have := c.utf8Size_pos
    simp only [byteLength_cons, reduceCtorEq, iff_false]
    omega

/-- A beginning of a text that has no more bytes than another one is a beginning of it. -/
theorem isPrefix_of_byteLength_le {as bs cs : List Char} (ha : as <+: cs) (hb : bs <+: cs)
    (h : byteLength as ≤ byteLength bs) : as <+: bs := by
  rcases List.prefix_or_prefix_of_prefix ha hb with hab | ⟨more, rfl⟩
  · exact hab
  · have hmore : byteLength more = 0 := by
      rw [byteLength_append] at h
      omega
    rw [(byteLength_eq_zero_iff more).mp hmore, List.append_nil]

theorem takeBytes_succ_cons {n : ℕ} {c : Char} {cs head : List Char} :
    takeBytes (n + 1) (c :: cs) = some head ↔ ∃ rest, head = c :: rest ∧ c.utf8Size ≤ n + 1 ∧
      takeBytes (n + 1 - c.utf8Size) cs = some rest := by
  rw [takeBytes]
  split_ifs with hle
  · rw [Option.map_eq_some_iff]
    constructor
    · rintro ⟨rest, hrest, rfl⟩
      exact ⟨rest, rfl, hle, hrest⟩
    · rintro ⟨rest, rfl, -, hrest⟩
      exact ⟨rest, hrest, rfl⟩
  · simp [hle]

/-- The first `n` bytes of a text are its one beginning of so many bytes. -/
theorem takeBytes_eq_some_iff {n : ℕ} {cs head : List Char} :
    takeBytes n cs = some head ↔ head <+: cs ∧ byteLength head = n := by
  induction cs generalizing n head with
  | nil =>
    rw [List.prefix_nil]
    cases n with
    | zero =>
      simp only [takeBytes, Option.some.injEq]
      constructor
      · rintro rfl
        exact ⟨rfl, rfl⟩
      · rintro ⟨rfl, -⟩
        rfl
    | succ n =>
      simp only [takeBytes, reduceCtorEq, false_iff, not_and]
      rintro rfl
      simp
  | cons c cs ih =>
    have hpos := c.utf8Size_pos
    cases n with
    | zero =>
      simp only [takeBytes, Option.some.injEq, byteLength_eq_zero_iff]
      constructor
      · rintro rfl
        exact ⟨List.nil_prefix, rfl⟩
      · rintro ⟨-, rfl⟩
        rfl
    | succ n =>
      rw [takeBytes_succ_cons]
      constructor
      · rintro ⟨rest, rfl, hle, hrest⟩
        obtain ⟨hbegin, hlength⟩ := ih.mp hrest
        refine ⟨List.cons_prefix_cons.mpr ⟨rfl, hbegin⟩, ?_⟩
        rw [byteLength_cons]
        omega
      · rintro ⟨hbegin, hlength⟩
        cases head with
        | nil => simp at hlength
        | cons d rest =>
          obtain ⟨rfl, hrest⟩ := List.cons_prefix_cons.mp hbegin
          rw [byteLength_cons] at hlength
          exact ⟨rest, rfl, by omega, ih.mpr ⟨hrest, by omega⟩⟩

theorem isBoundary_iff (cs : List Char) (n : ℕ) :
    IsBoundary cs n ↔ (takeBytes n cs).isSome = true := by
  rw [Option.isSome_iff_exists]
  exact exists_congr fun before => takeBytes_eq_some_iff.symm

instance (cs : List Char) (n : ℕ) : Decidable (IsBoundary cs n) :=
  decidable_of_iff _ (isBoundary_iff cs n).symm

/-- **A piece of a text by its offsets.** -/
theorem slice_eq_some_iff {first last : ℕ} {cs piece : List Char} :
    slice first last cs = some piece ↔ ∃ before after, cs = before ++ piece ++ after ∧
      byteLength before = first ∧ byteLength (before ++ piece) = last := by
  unfold slice
  split_ifs with hle
  · rw [Option.bind_eq_some_iff]
    constructor
    · rintro ⟨rest, hrest, hpiece⟩
      obtain ⟨before, rfl, hbefore⟩ := dropBytes_eq_some_iff.mp hrest
      obtain ⟨⟨after, rfl⟩, hlength⟩ := takeBytes_eq_some_iff.mp hpiece
      refine ⟨before, after, by rw [List.append_assoc], hbefore, ?_⟩
      rw [byteLength_append]
      omega
    · rintro ⟨before, after, rfl, hbefore, hlast⟩
      rw [byteLength_append] at hlast
      refine ⟨piece ++ after, dropBytes_eq_some_iff.mpr ⟨before, by simp, hbefore⟩, ?_⟩
      exact takeBytes_eq_some_iff.mpr ⟨⟨after, rfl⟩, by omega⟩
  · refine iff_of_false (by simp) ?_
    rintro ⟨before, after, -, hbefore, hlast⟩
    rw [byteLength_append] at hlast
    omega

/-- Four boundaries in order cut a text into five pieces. -/
theorem exists_pieces {cs : List Char} {i j k l : ℕ} (hij : i ≤ j) (hjk : j ≤ k) (hkl : k ≤ l)
    (h : ∀ n ∈ [i, j, k, l], IsBoundary cs n) : ∃ before left piece right after,
      cs = before ++ (left ++ piece ++ right) ++ after ∧ byteLength before = i ∧
      byteLength (before ++ left) = j ∧ byteLength (before ++ left ++ piece) = k ∧
      byteLength (before ++ (left ++ piece ++ right)) = l := by
  obtain ⟨before, hbefore, rfl⟩ := h i (by simp)
  obtain ⟨upToLeft, hleft, rfl⟩ := h j (by simp)
  obtain ⟨upToPiece, hpiece, rfl⟩ := h k (by simp)
  obtain ⟨upToRight, hright, rfl⟩ := h l (by simp)
  obtain ⟨left, rfl⟩ := isPrefix_of_byteLength_le hbefore hleft hij
  obtain ⟨piece, rfl⟩ := isPrefix_of_byteLength_le hleft hpiece hjk
  obtain ⟨right, rfl⟩ := isPrefix_of_byteLength_le hpiece hright hkl
  obtain ⟨after, rfl⟩ := hright
  exact ⟨before, left, piece, right, after, by simp, rfl, rfl, rfl, by simp⟩

end NamedTree.Text
