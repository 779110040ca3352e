/-! # Decimal digits

`digits` writes a natural number in decimal and `value` reads a run of digits; reading what was
written gives the number back (`value_digits`). -/

namespace NamedTree.Decimal

/-- The decimal digits of a number, most significant first. -/
def digits (n : Nat) : List Char :=
  if n < 10 then [n.digitChar] else digits (n / 10) ++ [(n % 10).digitChar]

/-- The number that a digit stands for. -/
def digitValue (c : Char) : Nat := c.toNat - '0'.toNat

/-- The number written by a run of digits. -/
def value (cs : List Char) : Nat := cs.foldl (fun n c => 10 * n + digitValue c) 0

/-- The decimal form of an integer, with a leading minus sign below zero. -/
def integer (n : Int) : List Char :=
  if n < 0 then '-' :: digits n.natAbs else digits n.natAbs

theorem digitChar_spec : ∀ d < 10, digitValue d.digitChar = d ∧ d.digitChar.isDigit = true := by
  decide

/-- Reading the digits of a number gives the number. -/
theorem value_digits (n : Nat) : value (digits n) = n := by
  rw [digits]
  split
  · rename_i h; simp [value, (digitChar_spec n h).1]
  · have ih := value_digits (n / 10)
    unfold value at ih ⊢
    simp only [List.foldl_append, ih, List.foldl_cons, List.foldl_nil,
      (digitChar_spec (n % 10) (by omega)).1]
    omega
termination_by n

/-- Only digits are written. -/
theorem isDigit_of_mem_digits {n : Nat} {c : Char} (h : c ∈ digits n) : c.isDigit = true := by
  rw [digits] at h
  split at h
  · rename_i hn; rw [List.mem_singleton.mp h]; exact (digitChar_spec n hn).2
  · rcases List.mem_append.mp h with h | h
    · exact isDigit_of_mem_digits h
    · rw [List.mem_singleton.mp h]; exact (digitChar_spec (n % 10) (by omega)).2
termination_by n

end NamedTree.Decimal
