/-! # Byte offsets into text

Texts are lists of characters, while offsets count the bytes of their UTF-8 form. `dropBytes` and
`takeBytes` cut a text at such an offset and refuse an offset that lies beyond the text or inside a
character; `slice` combines them to the text between two offsets. -/

namespace NamedTree.Text

/-- The number of bytes of a text in UTF-8. -/
def byteLength : List Char → Nat
  | [] => 0
  | c :: cs => c.utf8Size + byteLength cs

/-- The text after its first `n` bytes, if the cut falls between two characters. -/
def dropBytes : Nat → List Char → Option (List Char)
  | 0, cs => some cs
  | _ + 1, [] => none
  | n + 1, c :: cs => if c.utf8Size ≤ n + 1 then dropBytes (n + 1 - c.utf8Size) cs else none

/-- The first `n` bytes of the text, if the cut falls between two characters. -/
def takeBytes : Nat → List Char → Option (List Char)
  | 0, _ => some []
  | _ + 1, [] => none
  | n + 1, c :: cs =>
    if c.utf8Size ≤ n + 1 then (takeBytes (n + 1 - c.utf8Size) cs).map (c :: ·) else none

/-- The text between two byte offsets, if they are in order and fall between characters. -/
def slice (first last : Nat) (cs : List Char) : Option (List Char) :=
  if first ≤ last then (dropBytes first cs).bind (takeBytes (last - first)) else none

@[simp] theorem byteLength_nil : byteLength [] = 0 := rfl

@[simp] theorem byteLength_cons (c : Char) (cs : List Char) :
    byteLength (c :: cs) = c.utf8Size + byteLength cs := rfl

@[simp] theorem byteLength_append (as bs : List Char) :
    byteLength (as ++ bs) = byteLength as + byteLength bs := by
  induction as with
  | nil => simp
  | cons a as ih => simp [ih, Nat.add_assoc]

/-- A cut of `n` bytes splits the text at a beginning of exactly `n` bytes. -/
theorem dropBytes_eq_some_iff {n : Nat} {cs rest : List Char} :
    dropBytes n cs = some rest ↔ ∃ head, cs = head ++ rest ∧ byteLength head = n := by
  induction cs generalizing n with
  | nil =>
    cases n with
    | zero =>
      simp only [dropBytes, Option.some.injEq]
      constructor
      · rintro rfl; exact ⟨[], rfl, rfl⟩
      · rintro ⟨head, h, -⟩; exact (List.append_eq_nil_iff.mp h.symm).2.symm
    | succ n =>
      simp only [dropBytes, reduceCtorEq, false_iff, not_exists, not_and]
      intro head h
      simp [(List.append_eq_nil_iff.mp h.symm).1]
  | cons c cs ih =>
    have hpos := c.utf8Size_pos
    cases n with
    | zero =>
      simp only [dropBytes, Option.some.injEq]
      constructor
      · rintro rfl; exact ⟨[], rfl, rfl⟩
      · rintro ⟨head, h, hn⟩
        cases head with
        | nil => simpa using h
        | cons a as => have := a.utf8Size_pos; simp at hn; omega
    | succ n =>
      simp only [dropBytes]
      split
      · rename_i hle
        rw [ih]
        constructor
        · rintro ⟨head, rfl, hn⟩; exact ⟨c :: head, rfl, by simp [hn]; omega⟩
        · rintro ⟨head, h, hn⟩
          cases head with
          | nil => simp at hn
          | cons a as =>
            simp only [List.cons_append, List.cons.injEq] at h
            obtain ⟨rfl, rfl⟩ := h
            exact ⟨as, rfl, by simp at hn; omega⟩
      · rename_i hle
        simp only [reduceCtorEq, false_iff, not_exists, not_and]
        intro head h hn
        cases head with
        | nil => simp at hn
        | cons a as =>
          simp only [List.cons_append, List.cons.injEq] at h
          obtain ⟨rfl, rfl⟩ := h
          simp at hn; omega

end NamedTree.Text
