import NamedTree.Proofs.Text.Columns

/-! # Where a label stands

A label is found from a line and a column by skipping characters one column each, while columns of
positions count bytes. So the label of the position after `n` bytes is exact only in part
(`Span.at_exact`): on an empty line it stands at byte `n`, and otherwise at byte `n - 1` or later,
and exactly there if the line has only ASCII characters before that byte.

The search first skips the complete lines before the position, which no column can stop
(`skipped_lines`), and stands then at the beginning of the open line. From there every character is
one column and at least one byte, and more than one unless it is ASCII; so the bytes that are
skipped are never fewer than the columns (`le_skipped`), and as many only if all of them are ASCII
(`skipped_eq_iff`). -/

namespace NamedTree.Text

namespace Position

/-- The number of bytes that a search skips. -/
def skipped (target p : Position) (cs : List Char) : ℕ :=
  byteLength cs - byteLength (seekFrom target p cs)

/-- The position one character further on, with one column a character. -/
def next (p : Position) (c : Char) : Position :=
  if c = '\n' then ⟨p.line + 1, 0⟩ else ⟨p.line, p.column + 1⟩

/-! ### One step of the search -/

theorem seekFrom_suffix (target p : Position) (cs : List Char) : seekFrom target p cs <:+ cs := by
  induction cs generalizing p with
  | nil => exact List.suffix_refl _
  | cons c cs ih =>
    rw [seekFrom]
    split_ifs
    · exact List.suffix_refl _
    · exact (ih _).trans (List.suffix_cons c cs)
    · exact (ih _).trans (List.suffix_cons c cs)

theorem byteLength_seekFrom_le (target p : Position) (cs : List Char) :
    byteLength (seekFrom target p cs) ≤ byteLength cs := by
  obtain ⟨before, hbefore⟩ := seekFrom_suffix target p cs
  rw [← hbefore, byteLength_append, hbefore]
  omega

/-- A search that has arrived skips nothing. -/
theorem skipped_eq_zero {target p : Position} (hline : target.line ≤ p.line + 1)
    (hcolumn : target.column ≤ p.column + 1) (cs : List Char) : skipped target p cs = 0 := by
  cases cs with
  | nil => rfl
  | cons c cs => rw [skipped, seekFrom, if_pos ⟨hline, hcolumn⟩, Nat.sub_self]

/-- A search that has not arrived skips one character. -/
theorem skipped_cons {target p : Position} (c : Char) (cs : List Char)
    (h : p.line + 1 < target.line ∨ p.column + 1 < target.column) :
    skipped target p (c :: cs) = c.utf8Size + skipped target (next p c) cs := by
  have hle := byteLength_seekFrom_le target (next p c) cs
  have hnot : ¬ (target.line ≤ p.line + 1 ∧ target.column ≤ p.column + 1) := by omega
  rw [skipped, seekFrom, if_neg hnot, byteLength_cons, skipped]
  unfold next at hle ⊢
  omega

/-! ### Lines before the position -/

/-- A beginning of a text that consists of complete lines. -/
def EndsLine (lines : List Char) : Prop := ∀ c ∈ lines.getLast?, c = '\n'

theorem EndsLine.tail {c : Char} {lines : List Char} (h : EndsLine (c :: lines)) :
    EndsLine lines := by
  cases lines with
  | nil => intro d hd; cases hd
  | cons d lines => rwa [EndsLine, List.getLast?_cons_cons] at h

/-- Complete lines before the wanted one are skipped. -/
theorem skipped_lines {target p : Position} {lines : List Char} (hends : EndsLine lines)
    (hline : target.line = p.line + 1 + lines.count '\n') (hstart : lines = [] → p.column = 0)
    (cs : List Char) : skipped target p (lines ++ cs) =
      byteLength lines + skipped target ⟨p.line + lines.count '\n', 0⟩ cs := by
  induction lines generalizing p with
  | nil =>
    obtain ⟨line, column⟩ := p
    obtain rfl : column = 0 := hstart rfl
    simp
  | cons c lines ih =>
    have hlast : '\n' ∈ c :: lines := by
      have hmem := List.getLast_mem (List.cons_ne_nil c lines)
      rwa [hends _ (List.getLast?_eq_some_getLast _)] at hmem
    have hcount := List.count_pos_iff.mpr hlast
    have hstep : (next p c).line + lines.count '\n' = p.line + (c :: lines).count '\n' := by
      unfold next
      split_ifs with hc
      · rw [hc, List.count_cons_self]
        simp only
        omega
      · rw [List.count_cons_of_ne hc]
    have hcolumn : lines = [] → (next p c).column = 0 := by
      rintro rfl
      rw [List.mem_singleton] at hlast
      rw [next, if_pos hlast.symm]
    rw [List.cons_append, skipped_cons c _ (by omega), ih hends.tail (by omega) hcolumn, hstep,
      byteLength_cons]
    omega

theorem count_bytes (cs : List Char) : (bytes cs).count lineFeed = cs.count '\n' := by
  induction cs with
  | nil => rfl
  | cons c cs ih =>
    rw [bytes_cons, List.count_append, ih]
    by_cases hc : c = '\n'
    · rw [hc, utf8EncodeChar_newline, List.count_singleton_self, List.count_cons_self]
      omega
    · rw [List.count_eq_zero_of_not_mem (lineFeed_notMem_utf8EncodeChar hc),
        List.count_cons_of_ne hc]
      omega

/-- The bytes behind the last line feed, where complete lines come first. -/
theorem rtakeWhile_bytes_append {lines : List Char} (h : EndsLine lines) {bs : List UInt8}
    (hbs : lineFeed ∉ bs) : ((bytes lines ++ bs).rtakeWhile fun b => b ≠ lineFeed) = bs := by
  have hlines : ((bytes lines).rtakeWhile fun b => b ≠ lineFeed) = [] := by
    rcases List.eq_nil_or_concat lines with rfl | ⟨init, c, rfl⟩
    · rfl
    · obtain rfl : c = '\n' := h c (by simp)
      rw [List.concat_eq_append, bytes_append, bytes_cons, utf8EncodeChar_newline, bytes_nil,
        List.append_nil]
      exact List.rtakeWhile_concat_neg _ _ _ (by simp)
  have hall : ∀ b ∈ bs.reverse, decide (b ≠ lineFeed) = true := by
    intro b hb
    rw [List.mem_reverse] at hb
    simp only [ne_eq, decide_eq_true_eq]
    rintro rfl
    exact hbs hb
  rw [List.rtakeWhile, List.reverse_append, List.takeWhile_append_of_pos hall, List.reverse_append,
    List.reverse_reverse, ← List.rtakeWhile, hlines, List.nil_append]

/-- The first bytes of a text are complete lines and a beginning of the next one. -/
theorem exists_lines (cs : List Char) (n : ℕ) : ∃ lines rest, cs = lines ++ rest ∧
    EndsLine lines ∧ byteLength lines ≤ n ∧
    lineFeed ∉ (bytes rest).take (n - byteLength lines) := by
  induction cs generalizing n with
  | nil => exact ⟨[], [], rfl, by simp [EndsLine], by simp, by simp⟩
  | cons c cs ih =>
    obtain ⟨lines, rest, rfl, hends, hle, hfeed⟩ := ih (n - c.utf8Size)
    cases lines with
    | cons d lines =>
      have hpos := d.utf8Size_pos
      rw [byteLength_cons] at hle
      refine ⟨c :: d :: lines, rest, rfl, ?_, ?_, ?_⟩
      · rwa [EndsLine, List.getLast?_cons_cons]
      · rw [byteLength_cons, byteLength_cons]
        omega
      · rwa [byteLength_cons, ← Nat.sub_sub]
    | nil =>
      rw [byteLength_nil, Nat.sub_zero] at hfeed
      by_cases hc : c = '\n'
      · subst hc
        cases n with
        | zero => exact ⟨[], '\n' :: rest, rfl, by simp [EndsLine], le_refl 0, by simp⟩
        | succ n =>
          have hone : byteLength ['\n'] = 1 := rfl
          refine ⟨['\n'], rest, rfl, by simp [EndsLine], by omega, ?_⟩
          rwa [hone]
      · refine ⟨[], c :: rest, rfl, by simp [EndsLine], Nat.zero_le n, ?_⟩
        rw [byteLength_nil, Nat.sub_zero, bytes_cons, List.take_append,
          String.length_utf8EncodeChar, List.mem_append, not_or]
        exact ⟨fun h => lineFeed_notMem_utf8EncodeChar hc (List.mem_of_mem_take h), hfeed⟩

/-! ### Along the open line -/

/-- A line that goes on for another byte goes on with a character that does not end it. -/
theorem notMem_take_bytes {c : Char} {cs : List Char} {n : ℕ}
    (h : lineFeed ∉ (bytes (c :: cs)).take (n + 1)) :
    c ≠ '\n' ∧ lineFeed ∉ (bytes cs).take (n + 1 - c.utf8Size) := by
  rw [bytes_cons, List.take_append, List.mem_append, not_or, String.length_utf8EncodeChar] at h
  refine ⟨?_, h.2⟩
  rintro rfl
  exact h.1 (by simp [utf8EncodeChar_newline])

/-- Every column is at least one byte. -/
theorem le_skipped {target p : Position} {n : ℕ} {cs : List Char}
    (hcolumn : p.column + n < target.column) (hn : n ≤ byteLength cs)
    (hfeed : lineFeed ∉ (bytes cs).take n) : n ≤ skipped target p cs := by
  induction cs generalizing p n with
  | nil => exact hn
  | cons c cs ih =>
    cases n with
    | zero => exact Nat.zero_le _
    | succ n =>
      obtain ⟨hc, hrest⟩ := notMem_take_bytes hfeed
      have hpos := c.utf8Size_pos
      have hnext : (next p c).column = p.column + 1 := by rw [next, if_neg hc]
      rw [byteLength_cons] at hn
      have hle : n + 1 - c.utf8Size ≤ skipped target (next p c) cs :=
        ih (by omega) (by omega) hrest
      rw [skipped_cons c cs (by omega)]
      omega

/-- Columns are bytes exactly on a line of ASCII characters. -/
theorem skipped_eq_iff {line column n : ℕ} {cs : List Char} (hn : n < byteLength cs)
    (hfeed : lineFeed ∉ (bytes cs).take (n + 1)) :
    skipped ⟨line + 1, column + (n + 1)⟩ ⟨line, column⟩ cs = n ↔
      ∀ b ∈ (bytes cs).take n, b < 128 := by
  induction cs generalizing column n with
  | nil => simp at hn
  | cons c cs ih =>
    cases n with
    | zero => simp [skipped_eq_zero]
    | succ n =>
      obtain ⟨hc, hrest⟩ := notMem_take_bytes hfeed
      have hpos := c.utf8Size_pos
      have hnext : next ⟨line, column⟩ c = ⟨line, column + 1⟩ := by rw [next, if_neg hc]
      have harith : column + (n + 1 + 1) = column + 1 + (n + 1) := by omega
      rw [byteLength_cons] at hn
      rw [skipped_cons c cs (Or.inr (by simp only; omega)), hnext, harith]
      rcases utf8EncodeChar_cases c with ⟨b, hb, hbytes, hone, -⟩ | ⟨hwide, -, hbytes⟩
      · rw [hone] at hrest hn ⊢
        have hiff : skipped ⟨line + 1, column + 1 + (n + 1)⟩ ⟨line, column + 1⟩ cs = n ↔
            ∀ b ∈ (bytes cs).take n, b < 128 := ih (by omega) hrest
        rw [bytes_cons, hbytes, List.singleton_append, List.take_succ_cons, List.forall_mem_cons,
          ← hiff]
        simp only [hb, true_and]
        omega
      · -- a character of several bytes is one column, so that more bytes are skipped than columns
        have hle : n + 1 + 1 - c.utf8Size ≤
            skipped ⟨line + 1, column + 1 + (n + 1)⟩ ⟨line, column + 1⟩ cs :=
          le_skipped (by simp only; omega) (by omega) hrest
        refine iff_of_false (by omega) fun hascii => ?_
        obtain ⟨b, more, hmore⟩ :=
          List.exists_cons_of_ne_nil (String.utf8EncodeChar_ne_nil (c := c))
        have hb : 128 ≤ b := hbytes b (by simp [hmore])
        have hb' : b < 128 := hascii b (by simp [hmore])
        exact absurd hb (by simpa using hb')

end Position

/-! ### Labels -/

namespace Span

open Position

/-- A span of one character of a text, or the empty one at its end. -/
def IsCharacterOf (cs : List Char) (span : Span) : Prop :=
  ∃ before rest, cs = before ++ rest ∧ span.offset = byteLength before ∧
    span.length = (rest.head?.map Char.utf8Size).getD 0

theorem isCharacterOf_at (target : Position) (cs : List Char) :
    IsCharacterOf cs (Span.at target cs) := by
  obtain ⟨before, hbefore⟩ := seekFrom_suffix target ⟨0, 0⟩ cs
  refine ⟨before, seek target cs, hbefore.symm, ?_, rfl⟩
  have hlength := congrArg byteLength hbefore
  rw [byteLength_append] at hlength
  simp only [Span.at, seek]
  omega

theorem IsCharacterOf.le_byteLength {cs : List Char} {span : Span} (h : IsCharacterOf cs span) :
    span.offset + span.length ≤ byteLength cs ∧
      (span.length = 0 ↔ span.offset = byteLength cs) := by
  obtain ⟨before, rest, rfl, hoffset, hlength⟩ := h
  rw [byteLength_append, hoffset, hlength]
  cases rest with
  | nil => simp
  | cons c rest =>
    have hpos := c.utf8Size_pos
    simp only [List.head?_cons, Option.map_some, Option.getD_some, byteLength_cons]
    omega

theorem offset_at (target : Position) (cs : List Char) :
    (Span.at target cs).offset = skipped target ⟨0, 0⟩ cs := rfl

/-- The search for a position that was reached, from the beginning of its line on. -/
theorem exists_offset_eq {cs : List Char} {n : ℕ} (hn : n ≤ byteLength cs) :
    ∃ lines rest line, byteLength lines + (openLine cs n).length = n ∧
      openLine cs n = (bytes rest).take (openLine cs n).length ∧
      lineFeed ∉ openLine cs n ∧ (openLine cs n).length ≤ byteLength rest ∧
      (Span.at (after cs n) cs).offset =
        byteLength lines + skipped ⟨line + 1, 0 + (openLine cs n).length⟩ ⟨line, 0⟩ rest := by
  obtain ⟨lines, rest, rfl, hends, hle, hfeed⟩ := exists_lines cs n
  rw [byteLength_append] at hn
  have htake : (bytes (lines ++ rest)).take n =
      bytes lines ++ (bytes rest).take (n - byteLength lines) := by
    rw [bytes_append, List.take_append, length_bytes,
      List.take_of_length_le (by rw [length_bytes]; exact hle)]
  have hopen : openLine (lines ++ rest) n = (bytes rest).take (n - byteLength lines) := by
    rw [openLine, htake, rtakeWhile_bytes_append hends hfeed]
  have hlength : (openLine (lines ++ rest) n).length = n - byteLength lines := by
    rw [hopen, List.length_take, length_bytes, min_eq_left (by omega)]
  have hline : ((bytes (lines ++ rest)).take n).count lineFeed = lines.count '\n' := by
    rw [htake, List.count_append, count_bytes, List.count_eq_zero_of_not_mem hfeed, Nat.add_zero]
  refine ⟨lines, rest, lines.count '\n', by omega, by rw [hlength, hopen], by rwa [hopen],
    by omega, ?_⟩
  have hafter : after (lines ++ rest) n =
      ⟨lines.count '\n' + 1, 0 + (openLine (lines ++ rest) n).length⟩ := by
    rw [after_eq, hline, Nat.zero_add, Nat.add_comm 1]
  rw [offset_at, hafter, skipped_lines hends (by simp only; omega) (fun _ => rfl)]
  simp only [Nat.zero_add]

/-- **Where a label stands.** For every line and column the label is one character of the text, or
empty at its end. For the position after `n` bytes, whose line and column count line feeds and
bytes, it stands at byte `n` if the line is empty, and otherwise not before byte `n - 1`; there
exactly if the line holds only ASCII bytes before that byte. -/
theorem at_exact (text : String) :
    (∀ target, IsCharacterOf text.toList (Span.at target text.toList) ∧
      (Span.at target text.toList).offset + (Span.at target text.toList).length ≤
        byteLength text.toList ∧
      ((Span.at target text.toList).length = 0 ↔
        (Span.at target text.toList).offset = byteLength text.toList)) ∧
    ∀ n ≤ byteLength text.toList, ∀ position, position = after text.toList n →
      position.line = 1 + ((bytes text.toList).take n).count lineFeed ∧
      position.column = (openLine text.toList n).length ∧
      (position.column = 0 → (Span.at position text.toList).offset = n) ∧
      (1 ≤ position.column → n - 1 ≤ (Span.at position text.toList).offset ∧
        ((Span.at position text.toList).offset = n - 1 ↔
          ∀ b ∈ (openLine text.toList n).dropLast, b < 128)) := by
  refine ⟨fun target => ⟨isCharacterOf_at target _, (isCharacterOf_at target _).le_byteLength⟩, ?_⟩
  rintro n hn position rfl
  obtain ⟨lines, rest, line, hsum, hopen, hfeed, hle, hoffset⟩ := exists_offset_eq hn
  rw [hoffset, after_eq]
  refine ⟨rfl, rfl, fun hcolumn => ?_, fun hcolumn => ?_⟩
  · have hempty : (openLine text.toList n).length = 0 := hcolumn
    rw [hempty] at hsum
    rw [hempty, skipped_eq_zero (le_refl _) (by simp), hsum]
  · obtain ⟨m, hm⟩ : ∃ m, (openLine text.toList n).length = m + 1 :=
      Nat.exists_eq_add_of_le' hcolumn
    rw [hm] at hopen hsum hle
    rw [hopen] at hfeed
    have hbefore : (openLine text.toList n).dropLast = (bytes rest).take m := by
      rw [hopen, List.dropLast_eq_take, List.length_take, length_bytes, min_eq_left hle,
        List.take_take, Nat.add_sub_cancel, min_eq_left (Nat.le_succ m)]
    have hiff : skipped ⟨line + 1, 0 + (m + 1)⟩ ⟨line, 0⟩ rest = m ↔
        ∀ b ∈ (bytes rest).take m, b < 128 := skipped_eq_iff hle hfeed
    have hleast : m ≤ skipped ⟨line + 1, 0 + (m + 1)⟩ ⟨line, 0⟩ rest :=
      le_skipped (by simp only; omega) (by omega) fun hmem =>
        hfeed (List.take_subset_take_left _ (Nat.le_succ m) hmem)
    rw [hbefore, ← hiff, hm]
    omega

/-- On an empty line the label stands at the position, before `é` one byte before it, and
behind `é`, where columns and bytes differ, further on. -/
theorem at_exact_wide : ∃ text offset, text = "[\n  \"é\",\n" ∧
    offset = (fun n => (Span.at (after text.toList n) text.toList).offset) ∧
    offset 2 = 2 ∧ offset 5 = 4 ∧ 7 ≤ offset 8 ∧ offset 8 ≠ 7 := by
  have hquote : openLine "[\n  \"é\",\n".toList 5 = [32, 32, 34] := by decide
  have haccent : openLine "[\n  \"é\",\n".toList 8 = [32, 32, 34, 195, 169, 34] := by decide
  obtain ⟨-, h⟩ := at_exact "[\n  \"é\",\n"
  obtain ⟨-, -, hempty, -⟩ := h 2 (by decide) _ rfl
  obtain ⟨-, -, -, hbefore⟩ := h 5 (by decide) _ rfl
  obtain ⟨-, -, -, hbehind⟩ := h 8 (by decide) _ rfl
  rw [hquote] at hbefore
  rw [haccent] at hbehind
  refine ⟨_, _, rfl, rfl, hempty (by decide), ((hbefore (by decide)).2).mpr (by simp),
    (hbehind (by decide)).1, fun hexact => ?_⟩
  have hascii : (195 : UInt8) < 128 := ((hbehind (by decide)).2).mp hexact 195 (by simp)
  exact absurd hascii (by decide)

end Span

end NamedTree.Text
