import NamedTree.Text.Position
import Mathlib.Data.List.Basic
import Mathlib.Data.List.DropRight
import Mathlib.Tactic.SplitIfs

/-! # Positions count bytes

The position after `n` bytes of a text depends on these bytes alone, also where the last of them
belongs to a character that is cut apart: its line is one more than the number of line feeds among
them, and its column is the number of bytes behind the last line feed (`after_eq`). The latter are
the bytes of the `openLine`.

In UTF-8 a character below 128 is one byte, the character itself, and every byte of any other
character is at least 128 (`utf8EncodeChar_cases`). So a byte that is a line feed is the character
line feed, and reading by characters comes to the same as a `step` for each byte
(`advance_eq_foldl`). -/

namespace NamedTree.Text

/-- The bytes of a text in UTF-8. -/
def bytes (cs : List Char) : List UInt8 := cs.flatMap String.utf8EncodeChar

/-- The byte of the character line feed. -/
def lineFeed : UInt8 := 10

/-- Of the first `n` bytes of a text, those behind the last line feed. -/
def openLine (cs : List Char) (n : ℕ) : List UInt8 :=
  ((bytes cs).take n).rtakeWhile fun b => b ≠ lineFeed

/-! ### The bytes of characters -/

@[simp] theorem bytes_nil : bytes [] = [] := rfl

@[simp] theorem bytes_cons (c : Char) (cs : List Char) :
    bytes (c :: cs) = String.utf8EncodeChar c ++ bytes cs := rfl

@[simp] theorem bytes_append (as bs : List Char) : bytes (as ++ bs) = bytes as ++ bytes bs :=
  List.flatMap_append

@[simp] theorem length_bytes (cs : List Char) : (bytes cs).length = byteLength cs := by
  induction cs with
  | nil => rfl
  | cons c cs ih => rw [bytes_cons, List.length_append, ih, String.length_utf8EncodeChar,
      byteLength_cons]

theorem utf8Size_eq_one_iff (c : Char) : c.utf8Size = 1 ↔ c.toNat < 128 := by
  have hlast : (127 : UInt32).toNat = 127 := rfl
  rw [Char.utf8Size_eq_one_iff, UInt32.le_iff_toNat_le, hlast, Char.toNat_val]
  omega

/-- All bytes of a character of several bytes are above the characters of one byte. -/
theorem le_of_mem_utf8EncodeChar {c : Char} (hc : c.utf8Size ≠ 1) {b : UInt8}
    (hb : b ∈ String.utf8EncodeChar c) : 128 ≤ b := by
  have hcode : ¬ c.val.toNat ≤ 127 := by
    rw [ne_eq, utf8Size_eq_one_iff] at hc
    rw [Char.toNat_val]
    omega
  rw [UInt8.le_iff_toNat_le]
  unfold String.utf8EncodeChar at hb
  simp only [hcode, if_false] at hb
  split_ifs at hb <;> simp only [List.mem_cons, List.not_mem_nil, or_false] at hb <;>
    rcases hb with rfl | rfl | rfl | rfl <;> simp only [UInt8.toNat_ofNat', UInt8.toNat_ofNat] <;>
    omega

/-- A character is one byte below 128, or several bytes that are all above. -/
theorem utf8EncodeChar_cases (c : Char) :
    (∃ b < 128, String.utf8EncodeChar c = [b] ∧ c.utf8Size = 1 ∧ (b = lineFeed ↔ c = '\n')) ∨
      1 < c.utf8Size ∧ c ≠ '\n' ∧ ∀ b ∈ String.utf8EncodeChar c, 128 ≤ b := by
  by_cases hc : c.utf8Size = 1
  · left
    have hcode := (utf8Size_eq_one_iff c).mp hc
    have hbyte : c.val.toUInt8.toNat = c.toNat := by
      rw [UInt32.toNat_toUInt8, Char.toNat_val]
      omega
    refine ⟨c.val.toUInt8, ?_, String.utf8EncodeChar_eq_singleton hc, hc, ?_⟩
    · rw [UInt8.lt_iff_toNat_lt, hbyte]
      exact hcode
    · rw [← UInt8.toNat_inj, hbyte, ← Char.toNat_inj]
      rfl
  · right
    have hpos := c.utf8Size_pos
    refine ⟨by omega, ?_, fun b hb => le_of_mem_utf8EncodeChar hc hb⟩
    rintro rfl
    exact hc rfl

theorem utf8EncodeChar_newline : String.utf8EncodeChar '\n' = [lineFeed] := rfl

theorem lineFeed_notMem_utf8EncodeChar {c : Char} (hc : c ≠ '\n') :
    lineFeed ∉ String.utf8EncodeChar c := by
  intro hmem
  rcases utf8EncodeChar_cases c with ⟨b, -, hbytes, -, hfeed⟩ | ⟨-, -, hbytes⟩
  · rw [hbytes, List.mem_singleton] at hmem
    exact hc (hfeed.mp hmem.symm)
  · exact absurd (hbytes _ hmem) (by decide)

/-! ### Positions -/

namespace Position

/-- The position one byte further on. -/
def step (p : Position) (b : UInt8) : Position :=
  if b = lineFeed then ⟨p.line + 1, 0⟩ else ⟨p.line, p.column + 1⟩

/-- Bytes without a line feed count as columns. -/
theorem foldl_step_of_notMem {bs : List UInt8} (h : lineFeed ∉ bs) (p : Position) :
    bs.foldl step p = ⟨p.line, p.column + bs.length⟩ := by
  induction bs generalizing p with
  | nil => rfl
  | cons b bs ih =>
    rw [List.mem_cons, not_or] at h
    have hstep : step p b = ⟨p.line, p.column + 1⟩ := by rw [step, if_neg (Ne.symm h.1)]
    rw [List.foldl_cons, hstep, ih h.2, List.length_cons]
    simp only [mk.injEq, true_and]
    omega

/-- Advancing by characters is advancing by their bytes. -/
theorem advance_eq_foldl (p : Position) (n : ℕ) (cs : List Char) :
    advance p n cs = ((bytes cs).take n).foldl step p := by
  induction cs generalizing p n with
  | nil => cases n <;> simp [advance]
  | cons c cs ih =>
    cases n with
    | zero => simp [advance]
    | succ n =>
      rw [advance, bytes_cons]
      by_cases hc : c = '\n'
      · subst hc
        rw [if_pos rfl, ih, utf8EncodeChar_newline, List.singleton_append, List.take_succ_cons,
          List.foldl_cons, step, if_pos rfl]
      · have hfeed := lineFeed_notMem_utf8EncodeChar hc
        have hfirst : lineFeed ∉ (String.utf8EncodeChar c).take (n + 1) :=
          fun hmem => hfeed (List.mem_of_mem_take hmem)
        rw [if_neg hc, List.take_append, List.foldl_append, foldl_step_of_notMem hfirst,
          List.length_take, String.length_utf8EncodeChar]
        split_ifs with hle
        · rw [ih, min_eq_right hle]
        · have hnone : n + 1 - c.utf8Size = 0 := by omega
          rw [hnone, List.take_zero, List.foldl_nil, min_eq_left (by omega)]

/-- From the beginning of a text, line feeds count as lines and the bytes behind them as columns. -/
theorem foldl_step_start (bs : List UInt8) : bs.foldl step ⟨1, 0⟩ =
    ⟨1 + bs.count lineFeed, (bs.rtakeWhile fun b => b ≠ lineFeed).length⟩ := by
  induction bs using List.reverseRecOn with
  | nil => rfl
  | append_singleton bs b ih =>
    rw [List.foldl_append, ih, List.foldl_cons, List.foldl_nil, step, List.count_append]
    by_cases hb : b = lineFeed
    · rw [if_pos hb, List.rtakeWhile_concat_neg _ _ _ (by simp [hb])]
      simp [hb, Nat.add_assoc]
    · rw [if_neg hb, List.rtakeWhile_concat_pos _ _ _ (by simp [hb])]
      simp [hb]

/-- **The position after so many bytes.** -/
theorem after_eq (cs : List Char) (n : ℕ) :
    after cs n = ⟨1 + ((bytes cs).take n).count lineFeed, (openLine cs n).length⟩ := by
  rw [after, advance_eq_foldl, foldl_step_start, openLine]

end Position

end NamedTree.Text
