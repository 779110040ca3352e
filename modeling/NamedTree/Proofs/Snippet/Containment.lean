import NamedTree.Proofs.Snippet.NormalForm
import NamedTree.Proofs.Text.Boundary

/-! # Snippets of nested ranges

The snippet of a range is a piece of the snippet of every range around it
(`extract_within_enclosing`). Both are normal forms of different pieces of the source, so this is a
fact about `normalize`: it keeps pieces (`normalize_isInfix`).

A piece is reached by leaving out an end and then a beginning. `trimEnd` and `collapse` follow a
text from one side, so that each of them keeps beginnings and endings by an induction on that side;
the inner text may begin or end in a word, among blanks, or before NULs that only count as its
end. -/

namespace NamedTree.Snippet

/-! ### Cutting off the end -/

theorem trimEnd_append (as bs : List Char) :
    trimEnd (as ++ bs) = if trimEnd bs = [] then trimEnd as else as ++ trimEnd bs := by
  simp only [trimEnd, List.reverse_append, List.dropWhile_append, List.reverse_eq_nil_iff,
    List.isEmpty_iff]
  split_ifs with h
  · rfl
  · rw [List.reverse_append, List.reverse_reverse]

theorem trimEnd_isPrefix (cs : List Char) : trimEnd cs <+: cs := by
  rw [trimEnd_eq_rdropWhile]
  exact List.rdropWhile_prefix isPadding cs

/-- What stands before or behind a text leaves its core in place. -/
theorem trimEnd_isInfix {as bs : List Char} (h : as <:+: bs) : trimEnd as <:+: trimEnd bs := by
  obtain ⟨before, after, rfl⟩ := h
  have hbegin : trimEnd as <+: trimEnd (as ++ after) := by
    rw [trimEnd_append]
    split_ifs
    · exact List.prefix_refl _
    · exact (trimEnd_isPrefix as).trans (List.prefix_append _ _)
  have hsuffix : trimEnd (as ++ after) <:+ trimEnd (before ++ (as ++ after)) := by
    rw [trimEnd_append before]
    split_ifs with hnil
    · rw [hnil]
      exact List.nil_suffix
    · exact List.suffix_append _ _
  rw [List.append_assoc]
  exact hbegin.isInfix.trans hsuffix.isInfix

/-! ### Joining words -/

theorem collapse_eq_nil {cs : List Char} (h : visible cs = []) : collapse cs = [] := by
  rw [collapse, (words_eq_nil_iff cs).mpr h]
  rfl

theorem collapse_suffix_cons (c : Char) (cs : List Char) : collapse cs <:+ collapse (c :: cs) := by
  by_cases hc : isBlank c = true
  · rw [collapse_of_isBlank hc]
  · rw [Bool.not_eq_true] at hc
    by_cases h : SpacedAt (c :: cs) 0
    · rw [collapse_of_spacedAt hc h]
      exact List.suffix_append [c, ' '] _
    · rw [collapse_of_not_spacedAt hc h]
      exact List.suffix_cons c _

theorem collapse_suffix_append (before cs : List Char) :
    collapse cs <:+ collapse (before ++ cs) := by
  induction before with
  | nil => exact List.suffix_refl _
  | cons c before ih => exact ih.trans (collapse_suffix_cons c _)

theorem collapse_prefix_append (cs after : List Char) :
    collapse cs <+: collapse (cs ++ after) := by
  induction cs with
  | nil => exact List.nil_prefix
  | cons c cs ih =>
    rw [List.cons_append]
    by_cases hc : isBlank c = true
    · rw [collapse_of_isBlank hc, collapse_of_isBlank hc]
      exact ih
    · rw [Bool.not_eq_true] at hc
      have hspaced : SpacedAt (c :: cs) 0 → SpacedAt (c :: (cs ++ after)) 0 := by
        rw [spacedAt_zero hc, spacedAt_zero hc]
        rintro ⟨⟨d, hhead, hd⟩, hvisible⟩
        refine ⟨⟨d, List.mem_head?_append_of_mem_head? hhead, hd⟩, ?_⟩
        rw [visible_append]
        exact fun hnil => hvisible (List.append_eq_nil_iff.mp hnil).1
      by_cases h : SpacedAt (c :: (cs ++ after)) 0
      · rw [collapse_of_spacedAt hc h]
        by_cases h' : SpacedAt (c :: cs) 0
        · rw [collapse_of_spacedAt hc h']
          exact List.cons_prefix_cons.mpr ⟨rfl, List.cons_prefix_cons.mpr ⟨rfl, ih⟩⟩
        · -- the gap is open at the end of `cs`, so that nothing follows in its own normal form
          have hvisible : visible cs = [] := by
            by_contra hvisible
            obtain ⟨⟨d, hhead, hd⟩, -⟩ := (spacedAt_zero hc _).mp h
            cases cs with
            | nil => exact hvisible rfl
            | cons e cs => exact h' ((spacedAt_zero hc _).mpr ⟨⟨d, hhead, hd⟩, hvisible⟩)
          rw [collapse_of_not_spacedAt hc h', collapse_eq_nil hvisible]
          exact List.cons_prefix_cons.mpr ⟨rfl, List.nil_prefix⟩
      · rw [collapse_of_not_spacedAt hc h, collapse_of_not_spacedAt hc fun h' => h (hspaced h')]
        exact List.cons_prefix_cons.mpr ⟨rfl, ih⟩

theorem collapse_isInfix {as bs : List Char} (h : as <:+: bs) : collapse as <:+: collapse bs := by
  obtain ⟨before, after, rfl⟩ := h
  rw [List.append_assoc]
  exact (collapse_prefix_append as after).isInfix.trans (collapse_suffix_append before _).isInfix

/-- **The normal form of a piece of a text is a piece of the normal form.** -/
theorem normalize_isInfix {as bs : List Char} (h : as <:+: bs) : normalize as <:+: normalize bs :=
  collapse_isInfix (trimEnd_isInfix h)

/-! ### Nested ranges -/

theorem ofRange_eq_some {source : String} {range : Range} {before piece after : List Char}
    (hsource : source.toList = before ++ piece ++ after)
    (hfirst : Text.byteLength before = range.first.toNat)
    (hlast : Text.byteLength (before ++ piece) = range.last.toNat) :
    ofRange source range = some (String.ofList (normalize piece)) := by
  have hslice : Text.slice range.first.toNat range.last.toNat source.toList = some piece :=
    Text.slice_eq_some_iff.mpr ⟨before, after, hsource, hfirst, hlast⟩
  rw [ofRange, hslice, Option.map_some]

theorem extract_eq_ofRange (source : String) {location : Location} {range : Range}
    (h : location.expression = some range) :
    extract source (some location) = ofRange source range := by
  rw [extract, Location.range?, Option.bind_some, h, Option.bind_some]

/-- **The snippet of a node is part of the snippet of every node around it.** If the offsets of a
range lie between those of another one, all four of them boundaries of the source, both ranges have
snippets, and the inner snippet stands in the outer one. -/
theorem extract_within_enclosing {source : String} {inner outer : Location}
    {innerRange outerRange : Range} (hinner : inner.expression = some innerRange)
    (houter : outer.expression = some outerRange) (hfirst : outerRange.first ≤ innerRange.first)
    (horder : innerRange.first ≤ innerRange.last) (hlast : innerRange.last ≤ outerRange.last)
    (hbounds : ∀ n ∈ [outerRange.first.toNat, innerRange.first.toNat, innerRange.last.toNat,
      outerRange.last.toNat], Text.IsBoundary source.toList n) :
    ∃ small large, extract source (some inner) = some small ∧
      extract source (some outer) = some large ∧
      ∃ before after : String, large = before ++ small ++ after := by
  obtain ⟨before, left, piece, right, after, hsource, hi, hj, hk, hl⟩ :=
    Text.exists_pieces (UInt64.le_iff_toNat_le.mp hfirst) (UInt64.le_iff_toNat_le.mp horder)
      (UInt64.le_iff_toNat_le.mp hlast) hbounds
  have hsource' : source.toList = before ++ left ++ piece ++ (right ++ after) := by simp [hsource]
  have hsmall := ofRange_eq_some hsource' hj hk
  have hlarge := ofRange_eq_some hsource hi hl
  rw [← extract_eq_ofRange source hinner] at hsmall
  rw [← extract_eq_ofRange source houter] at hlarge
  obtain ⟨left', right', hpiece⟩ := normalize_isInfix (List.infix_append left piece right)
  refine ⟨_, _, hsmall, hlarge, String.ofList left', String.ofList right', ?_⟩
  rw [← hpiece, String.ofList_append, String.ofList_append]

/-- An inner range that ends in a blank and a NUL, both of which the outer one keeps. -/
theorem extract_within_enclosing_blanks :
    let source := "p (é \t\x00 + b)\n\x00"
    let inner : Location := { expression := some ⟨3, 8⟩ }
    let outer : Location := { expression := some ⟨2, 14⟩ }
    ∃ small large, small = "é" ∧ large = "(é \x00 + b)" ∧
      extract source (some inner) = some small ∧ extract source (some outer) = some large ∧
      ∃ before after : String, large = before ++ small ++ after := by
  intro source inner outer
  obtain ⟨small, large, hsmall, hlarge, hwithin⟩ :=
    extract_within_enclosing (show inner.expression = some ⟨3, 8⟩ from rfl)
      (show outer.expression = some ⟨2, 14⟩ from rfl) (by decide) (by decide) (by decide)
      (show ∀ n ∈ [2, 3, 8, 14], Text.IsBoundary source.toList n by decide)
  refine ⟨small, large, ?_, ?_, hsmall, hlarge, hwithin⟩
  · exact Option.some.inj (hsmall.symm.trans (by decide +kernel))
  · exact Option.some.inj (hlarge.symm.trans (by decide +kernel))

end NamedTree.Snippet
