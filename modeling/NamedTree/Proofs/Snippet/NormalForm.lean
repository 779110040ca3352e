import NamedTree.Snippet
import Mathlib.Data.List.Basic
import Mathlib.Data.List.DropRight

/-! # The normal form of a snippet

What `normalize` makes of a text is told by three things: what is left when blanks and NULs are cut
off its end (`IsCore`), the characters of this core that are no blanks, and which neighbours among
them have blanks in between (`SpacedAt`). The result has the same characters, exactly one space
where the core has any blanks, and no other blanks; it is the only such text
(`trim_normalForm`).

The words of a text are never counted. `collapse` joins them by single spaces, and it follows the
text character by character: a blank in front changes nothing, and a visible character is written
with a space behind it exactly if a blank comes next and another word follows
(`collapse_of_isBlank`, `collapse_of_spacedAt`, `collapse_of_not_spacedAt`). These three cases are
those of `induction_gaps`, by which the rest is proved. -/

namespace NamedTree.Snippet

/-- The words of a text joined by single spaces. -/
def collapse (cs : List Char) : List Char := List.intercalate [' '] (words cs)

theorem normalize_eq_collapse (cs : List Char) : normalize cs = collapse (trimEnd cs) := rfl

/-- The characters of a text that are no blanks. -/
def visible (cs : List Char) : List Char := cs.filter fun c => !isBlank c

/-- The visible characters `i` and `i + 1` of a text stand apart: between them, with `i + 1` visible
characters before it and more after it, there is a blank. -/
def SpacedAt (cs : List Char) (i : ℕ) : Prop :=
  ∃ before c after, cs = before ++ c :: after ∧ isBlank c = true ∧
    (visible before).length = i + 1 ∧ visible after ≠ []

/-- Blanks are single spaces with a visible character on both sides. -/
structure SingleSpaced (cs : List Char) : Prop where
  eq_space : ∀ c ∈ cs, isBlank c = true → c = ' '
  not_first : cs.head? ≠ some ' '
  not_last : cs.getLast? ≠ some ' '
  not_twice : ¬ [' ', ' '] <:+: cs

/-- A text with single spaces, and with the visible characters and gaps of the given one. -/
structure IsNormalFormOf (cs core : List Char) : Prop extends SingleSpaced cs where
  visible_eq : visible cs = visible core
  spacedAt_iff : ∀ i, SpacedAt cs i ↔ SpacedAt core i

/-- Blanks and NULs, which are left out at the end of a text. -/
def isPadding (c : Char) : Bool := c = '\x00' || isBlank c

/-- What a text is without the longest ending that consists of blanks and NULs. -/
def IsCore (text core : List Char) : Prop :=
  ∃ ending, text = core ++ ending ∧ (∀ c ∈ ending, isPadding c = true) ∧
    ∀ other, other <:+ text → (∀ c ∈ other, isPadding c = true) → other <:+ ending

/-! ### Visible characters -/

@[simp] theorem visible_nil : visible [] = [] := rfl

theorem visible_of_isBlank {c : Char} (hc : isBlank c = true) (cs : List Char) :
    visible (c :: cs) = visible cs := by
  simp [visible, hc]

theorem visible_of_not_isBlank {c : Char} (hc : isBlank c = false) (cs : List Char) :
    visible (c :: cs) = c :: visible cs := by
  simp [visible, hc]

@[simp] theorem visible_append (as bs : List Char) :
    visible (as ++ bs) = visible as ++ visible bs := by
  simp [visible]

/-- A text that does not end in a blank ends as its visible characters do. -/
theorem getLast?_visible {cs : List Char} (h : ∀ c ∈ cs.getLast?, isBlank c = false) :
    (visible cs).getLast? = cs.getLast? := by
  rcases List.eq_nil_or_concat cs with rfl | ⟨init, c, rfl⟩
  · rfl
  · have hc : isBlank c = false := h c (by simp)
    rw [List.concat_eq_append, visible_append, visible_of_not_isBlank hc, visible_nil]
    simp

/-! ### Gaps between visible characters -/

/-- A gap is never in front, because a visible character stands before it. -/
theorem spacedAt_cons_iff (c : Char) (cs : List Char) (i : ℕ) :
    SpacedAt (c :: cs) i ↔ ∃ before d after, cs = before ++ d :: after ∧ isBlank d = true ∧
      (visible (c :: before)).length = i + 1 ∧ visible after ≠ [] := by
  constructor
  · rintro ⟨before, d, after, h, hd, hi, hafter⟩
    cases before with
    | nil => simp at hi
    | cons b before =>
      simp only [List.cons_append, List.cons.injEq] at h
      obtain ⟨rfl, rfl⟩ := h
      exact ⟨before, d, after, rfl, hd, hi, hafter⟩
  · rintro ⟨before, d, after, rfl, hd, hi, hafter⟩
    exact ⟨c :: before, d, after, rfl, hd, hi, hafter⟩

theorem spacedAt_of_isBlank {c : Char} (hc : isBlank c = true) (cs : List Char) (i : ℕ) :
    SpacedAt (c :: cs) i ↔ SpacedAt cs i := by
  rw [spacedAt_cons_iff]
  simp only [visible_of_isBlank hc]
  rfl

theorem spacedAt_succ {c : Char} (hc : isBlank c = false) (cs : List Char) (i : ℕ) :
    SpacedAt (c :: cs) (i + 1) ↔ SpacedAt cs i := by
  rw [spacedAt_cons_iff]
  simp only [visible_of_not_isBlank hc, List.length_cons, Nat.add_right_cancel_iff]
  rfl

/-- The first visible character stands apart if a blank follows and something visible after it. -/
theorem spacedAt_zero {c : Char} (hc : isBlank c = false) (cs : List Char) :
    SpacedAt (c :: cs) 0 ↔ (∃ d ∈ cs.head?, isBlank d = true) ∧ visible cs ≠ [] := by
  rw [spacedAt_cons_iff]
  constructor
  · rintro ⟨before, d, after, rfl, hd, hi, hafter⟩
    rw [visible_of_not_isBlank hc, List.length_cons] at hi
    have hbefore : visible before = [] := List.length_eq_zero_iff.mp (by omega)
    refine ⟨?_, by simp [visible_of_isBlank hd, hafter]⟩
    cases before with
    | nil => exact ⟨d, rfl, hd⟩
    | cons b before =>
      refine ⟨b, rfl, ?_⟩
      by_contra hb
      rw [visible_of_not_isBlank (by simpa using hb)] at hbefore
      cases hbefore
  · rintro ⟨⟨d, hhead, hd⟩, hvisible⟩
    obtain ⟨after, rfl⟩ := List.head?_eq_some_iff.mp hhead
    rw [visible_of_isBlank hd] at hvisible
    exact ⟨[], d, after, rfl, hd, by rw [visible_of_not_isBlank hc]; rfl, hvisible⟩

/-! ### Joining words follows the text -/

theorem words_of_isBlank {c : Char} (hc : isBlank c = true) (cs : List Char) :
    words (c :: cs) = words cs := by
  simp [words, List.splitOnP_cons_eq_if_modifyHead, hc]

/-- A visible character at the end of the text or before a blank is a word. -/
theorem words_of_head {c : Char} (hc : isBlank c = false) {cs : List Char}
    (hcs : ∀ d ∈ cs.head?, isBlank d = true) : words (c :: cs) = [c] :: words cs := by
  cases cs with
  | nil => simp [words, List.splitOnP_cons_eq_if_modifyHead, hc]
  | cons d cs =>
    have hd : isBlank d = true := hcs d rfl
    simp [words, List.splitOnP_cons_eq_if_modifyHead, hc, hd]

/-- A visible character before another one belongs to the same word. -/
theorem exists_words {c d : Char} (hc : isBlank c = false) (hd : isBlank d = false)
    (cs : List Char) : ∃ word others,
      words (d :: cs) = word :: others ∧ words (c :: d :: cs) = (c :: word) :: others := by
  obtain ⟨word, others, hsplit⟩ := List.exists_cons_of_ne_nil (List.splitOnP_ne_nil isBlank cs)
  refine ⟨d :: word, others.filter fun word => !word.isEmpty, ?_, ?_⟩
  · simp [words, List.splitOnP_cons_eq_if_modifyHead, hd, hsplit]
  · simp [words, List.splitOnP_cons_eq_if_modifyHead, hc, hd, hsplit]

theorem words_eq_nil_iff (cs : List Char) : words cs = [] ↔ visible cs = [] := by
  induction cs with
  | nil => simp [words]
  | cons c cs ih =>
    by_cases hc : isBlank c = true
    · rw [words_of_isBlank hc, visible_of_isBlank hc, ih]
    · rw [Bool.not_eq_true] at hc
      obtain ⟨word, others, hsplit⟩ :=
        List.exists_cons_of_ne_nil (List.splitOnP_ne_nil isBlank cs)
      have hwords : words (c :: cs) ≠ [] := by
        simp [words, List.splitOnP_cons_eq_if_modifyHead, hc, hsplit]
      simp [hwords, visible_of_not_isBlank hc]

theorem collapse_nil : collapse [] = [] := rfl

theorem collapse_of_isBlank {c : Char} (hc : isBlank c = true) (cs : List Char) :
    collapse (c :: cs) = collapse cs := by
  rw [collapse, words_of_isBlank hc, collapse]

/-- A visible character with a gap behind it is followed by one space. -/
theorem collapse_of_spacedAt {c : Char} {cs : List Char} (hc : isBlank c = false)
    (h : SpacedAt (c :: cs) 0) : collapse (c :: cs) = c :: ' ' :: collapse cs := by
  obtain ⟨⟨d, hhead, hd⟩, hvisible⟩ := (spacedAt_zero hc cs).mp h
  have hblank : ∀ d ∈ cs.head?, isBlank d = true := by
    intro d' hd'
    rw [Option.mem_unique hd' hhead]
    exact hd
  have hne : words cs ≠ [] := fun hnil => hvisible ((words_eq_nil_iff cs).mp hnil)
  rw [collapse, words_of_head hc hblank, List.intercalate_cons_of_ne_nil hne]
  rfl

/-- A visible character without a gap behind it is followed by what comes next. -/
theorem collapse_of_not_spacedAt {c : Char} {cs : List Char} (hc : isBlank c = false)
    (h : ¬ SpacedAt (c :: cs) 0) : collapse (c :: cs) = c :: collapse cs := by
  by_cases hcs : ∀ d ∈ cs.head?, isBlank d = true
  · have hnil : words cs = [] := by
      rw [words_eq_nil_iff]
      by_contra hvisible
      cases cs with
      | nil => exact hvisible rfl
      | cons d cs => exact h ((spacedAt_zero hc _).mpr ⟨⟨d, rfl, hcs d rfl⟩, hvisible⟩)
    rw [collapse, words_of_head hc hcs, collapse, hnil]
    rfl
  · push Not at hcs
    obtain ⟨d, hhead, hd⟩ := hcs
    rw [ne_eq, Bool.not_eq_true] at hd
    obtain ⟨cs, rfl⟩ := List.head?_eq_some_iff.mp hhead
    obtain ⟨word, others, hwords, hwords'⟩ := exists_words hc hd cs
    rw [collapse, collapse, hwords, hwords']
    cases others with
    | nil => rfl
    | cons other others => rfl

/-- Induction along a text by what `collapse` does at its first character. -/
theorem induction_gaps {motive : List Char → Prop} (nil : motive [])
    (blank : ∀ c cs, isBlank c = true → motive cs → motive (c :: cs))
    (spaced : ∀ c cs, isBlank c = false → SpacedAt (c :: cs) 0 → motive cs → motive (c :: cs))
    (joined : ∀ c cs, isBlank c = false → ¬ SpacedAt (c :: cs) 0 → motive cs → motive (c :: cs))
    (cs : List Char) : motive cs := by
  induction cs with
  | nil => exact nil
  | cons c cs ih =>
    by_cases hc : isBlank c = true
    · exact blank c cs hc ih
    · rw [Bool.not_eq_true] at hc
      by_cases h : SpacedAt (c :: cs) 0
      · exact spaced c cs hc h ih
      · exact joined c cs hc h ih

theorem isBlank_space : isBlank ' ' = true := rfl

/-! ### What is joined has single spaces -/

theorem visible_collapse (cs : List Char) : visible (collapse cs) = visible cs := by
  induction cs using induction_gaps with
  | nil => rfl
  | blank c cs hc ih => rw [collapse_of_isBlank hc, visible_of_isBlank hc, ih]
  | spaced c cs hc h ih =>
    rw [collapse_of_spacedAt hc h, visible_of_not_isBlank hc, visible_of_isBlank isBlank_space, ih,
      visible_of_not_isBlank hc]
  | joined c cs hc h ih =>
    rw [collapse_of_not_spacedAt hc h, visible_of_not_isBlank hc, ih, visible_of_not_isBlank hc]

/-- What is joined begins with the first visible character. -/
theorem isBlank_of_head?_collapse (cs : List Char) :
    ∀ c ∈ (collapse cs).head?, isBlank c = false := by
  induction cs using induction_gaps with
  | nil => simp [collapse_nil]
  | blank c cs hc ih =>
    rw [collapse_of_isBlank hc]
    exact ih
  | spaced c cs hc h ih =>
    rw [collapse_of_spacedAt hc h]
    rintro d ⟨⟩
    exact hc
  | joined c cs hc h ih =>
    rw [collapse_of_not_spacedAt hc h]
    rintro d ⟨⟩
    exact hc

/-- Joining words keeps the gaps. -/
theorem spacedAt_collapse (cs : List Char) (i : ℕ) : SpacedAt (collapse cs) i ↔ SpacedAt cs i := by
  induction cs using induction_gaps generalizing i with
  | nil => rfl
  | blank c cs hc ih => rw [collapse_of_isBlank hc, spacedAt_of_isBlank hc, ih]
  | spaced c cs hc h ih =>
    rw [collapse_of_spacedAt hc h]
    cases i with
    | zero =>
      have hvisible := ((spacedAt_zero hc cs).mp h).2
      refine iff_of_true ((spacedAt_zero hc _).mpr ⟨⟨' ', rfl, isBlank_space⟩, ?_⟩) h
      rwa [visible_of_isBlank isBlank_space, visible_collapse]
    | succ i => rw [spacedAt_succ hc, spacedAt_of_isBlank isBlank_space, ih, spacedAt_succ hc]
  | joined c cs hc h ih =>
    rw [collapse_of_not_spacedAt hc h]
    cases i with
    | zero =>
      refine iff_of_false (fun h' => ?_) h
      obtain ⟨⟨d, hhead, hd⟩, -⟩ := (spacedAt_zero hc _).mp h'
      rw [isBlank_of_head?_collapse cs d hhead] at hd
      cases hd
    | succ i => rw [spacedAt_succ hc, ih, spacedAt_succ hc]

/-- A visible character in front of a text with single spaces, or of such a text and a space. -/
theorem SingleSpaced.cons {c : Char} {cs : List Char} (hc : isBlank c = false)
    (hspace : ∀ d ∈ cs, isBlank d = true → d = ' ') (hlast : cs.getLast? ≠ some ' ')
    (htwice : ¬ [' ', ' '] <:+: cs) : SingleSpaced (c :: cs) := by
  have hne : c ≠ ' ' := by
    rintro rfl
    cases hc
  refine ⟨?_, by simpa using hne, ?_, ?_⟩
  · intro d hd hblank
    rcases List.mem_cons.mp hd with rfl | hd
    · rw [hc] at hblank
      cases hblank
    · exact hspace d hd hblank
  · cases cs with
    | nil => simpa using hne
    | cons d cs => rwa [List.getLast?_cons_cons]
  · intro h
    rcases List.infix_cons_iff.mp h with hbegin | hpiece
    · exact hne (List.cons_prefix_cons.mp hbegin).1.symm
    · exact htwice hpiece

theorem singleSpaced_collapse (cs : List Char) : SingleSpaced (collapse cs) := by
  induction cs using induction_gaps with
  | nil => constructor <;> simp [collapse_nil]
  | blank c cs hc ih => rwa [collapse_of_isBlank hc]
  | spaced c cs hc h ih =>
    have hne : collapse cs ≠ [] := by
      intro hnil
      have hvisible := ((spacedAt_zero hc cs).mp h).2
      rw [← visible_collapse, hnil] at hvisible
      exact hvisible rfl
    rw [collapse_of_spacedAt hc h]
    refine SingleSpaced.cons hc ?_ ?_ ?_
    · intro d hd hblank
      rcases List.mem_cons.mp hd with rfl | hd
      · rfl
      · exact ih.eq_space d hd hblank
    · obtain ⟨d, rest, hcollapse⟩ := List.exists_cons_of_ne_nil hne
      rw [hcollapse, List.getLast?_cons_cons, ← hcollapse]
      exact ih.not_last
    · intro htwice
      rcases List.infix_cons_iff.mp htwice with hbegin | hpiece
      · obtain ⟨rest, hrest⟩ := (List.cons_prefix_cons.mp hbegin).2
        exact ih.not_first (by rw [← hrest]; rfl)
      · exact ih.not_twice hpiece
  | joined c cs hc h ih =>
    rw [collapse_of_not_spacedAt hc h]
    exact SingleSpaced.cons hc ih.eq_space ih.not_last ih.not_twice

theorem isNormalFormOf_collapse (cs : List Char) : IsNormalFormOf (collapse cs) cs :=
  ⟨singleSpaced_collapse cs, visible_collapse cs, spacedAt_collapse cs⟩

/-! ### A text with single spaces is determined by its characters and gaps -/

theorem SingleSpaced.of_suffix {cs rest : List Char} (h : SingleSpaced cs) (hrest : rest <:+ cs)
    (hfirst : rest.head? ≠ some ' ') : SingleSpaced rest := by
  refine ⟨fun c hc => h.eq_space c (hrest.mem hc), hfirst, fun hlast => ?_,
    fun htwice => h.not_twice (htwice.trans hrest.isInfix)⟩
  obtain ⟨before, rfl⟩ := hrest
  refine h.not_last ?_
  rw [List.getLast?_append, hlast, Option.some_or]

theorem SingleSpaced.isBlank_head {c : Char} {cs : List Char} (h : SingleSpaced (c :: cs)) :
    isBlank c = false := by
  by_contra hc
  have hspace : c = ' ' := h.eq_space c List.mem_cons_self (by simpa using hc)
  exact h.not_first (by rw [hspace]; rfl)

/-- Joining the words of a text with single spaces changes nothing. -/
theorem SingleSpaced.collapse_eq : ∀ {cs : List Char}, SingleSpaced cs → collapse cs = cs
  | [], _ => collapse_nil
  | [c], h => by
    have hgap : ¬ SpacedAt [c] 0 := by simp [spacedAt_zero h.isBlank_head]
    rw [collapse_of_not_spacedAt h.isBlank_head hgap, collapse_nil]
  | c :: d :: cs, h => by
    have hc := h.isBlank_head
    by_cases hd : isBlank d = true
    · have hspace : d = ' ' := h.eq_space d (by simp) hd
      subst hspace
      have hcs : SingleSpaced cs := by
        refine h.of_suffix ⟨[c, ' '], rfl⟩ fun hfirst => ?_
        obtain ⟨rest, rfl⟩ := List.head?_eq_some_iff.mp hfirst
        exact h.not_twice ⟨[c], rest, rfl⟩
      have hvisible : visible cs ≠ [] := by
        cases cs with
        | nil => exact absurd rfl h.not_last
        | cons e cs => simp [visible_of_not_isBlank hcs.isBlank_head]
      have hgap : SpacedAt (c :: ' ' :: cs) 0 :=
        (spacedAt_zero hc _).mpr ⟨⟨' ', rfl, hd⟩, by rwa [visible_of_isBlank hd]⟩
      rw [collapse_of_spacedAt hc hgap, collapse_of_isBlank hd, hcs.collapse_eq]
    · have hcs : SingleSpaced (d :: cs) := by
        refine h.of_suffix ⟨[c], rfl⟩ fun hfirst => hd ?_
        cases hfirst
        rfl
      have hgap : ¬ SpacedAt (c :: d :: cs) 0 := by
        rw [spacedAt_zero hc]
        rintro ⟨⟨_, ⟨⟩, hd'⟩, -⟩
        exact hd hd'
      rw [collapse_of_not_spacedAt hc hgap, hcs.collapse_eq]

open Classical in
/-- Joined words, written out by visible characters and gaps. -/
theorem collapse_eq_flatten (cs : List Char) : collapse cs =
    ((visible cs).mapIdx fun i c => if SpacedAt cs i then [c, ' '] else [c]).flatten := by
  induction cs using induction_gaps with
  | nil => rfl
  | blank c cs hc ih =>
    simp only [collapse_of_isBlank hc, visible_of_isBlank hc, spacedAt_of_isBlank hc]
    exact ih
  | spaced c cs hc h ih =>
    rw [collapse_of_spacedAt hc h, visible_of_not_isBlank hc, List.mapIdx_cons, if_pos h, ih]
    simp only [spacedAt_succ hc]
    rfl
  | joined c cs hc h ih =>
    rw [collapse_of_not_spacedAt hc h, visible_of_not_isBlank hc, List.mapIdx_cons, if_neg h, ih]
    simp only [spacedAt_succ hc]
    rfl

/-- There is only one normal form. -/
theorem IsNormalFormOf.eq_collapse {cs core : List Char} (h : IsNormalFormOf cs core) :
    cs = collapse core := by
  have hgaps : SpacedAt cs = SpacedAt core := funext fun i => propext (h.spacedAt_iff i)
  rw [← h.toSingleSpaced.collapse_eq, collapse_eq_flatten, collapse_eq_flatten core, h.visible_eq,
    hgaps]

/-! ### The end of a text -/

theorem trimEnd_eq_rdropWhile (cs : List Char) : trimEnd cs = cs.rdropWhile isPadding := rfl

theorem isPadding_getLast?_trimEnd (cs : List Char) :
    ∀ c ∈ (trimEnd cs).getLast?, isPadding c = false := by
  intro c hc
  rw [trimEnd_eq_rdropWhile] at hc
  have hne : cs.rdropWhile isPadding ≠ [] := by
    intro hnil
    rw [hnil] at hc
    cases hc
  have hlast := List.rdropWhile_last_not isPadding cs hne
  rw [List.getLast?_eq_some_getLast hne] at hc
  cases hc
  simpa using hlast

/-- A text that ends neither in a blank nor in a NUL has nothing to be cut off. -/
theorem trimEnd_eq_self {cs : List Char} (h : ∀ c ∈ cs.getLast?, isPadding c = false) :
    trimEnd cs = cs := by
  rw [trimEnd_eq_rdropWhile, List.rdropWhile_eq_self_iff]
  intro hne
  simp [h _ (List.getLast?_eq_some_getLast hne)]

theorem isCore_trimEnd (cs : List Char) : IsCore cs (trimEnd cs) := by
  have hcs : cs = trimEnd cs ++ cs.rtakeWhile isPadding := by
    rw [trimEnd_eq_rdropWhile, List.rdropWhile_append_rtakeWhile]
  refine ⟨cs.rtakeWhile isPadding, hcs, fun c hc => List.mem_rtakeWhile_imp hc,
    fun other hsuffix hother => ?_⟩
  rcases List.suffix_or_suffix_of_suffix hsuffix (List.rtakeWhile_suffix isPadding cs) with h | h
  · exact h
  · -- what `other` has before the ending would be the end of the core
    obtain ⟨more, rfl⟩ := h
    obtain ⟨before, hbefore⟩ := hsuffix
    rw [← List.append_assoc] at hbefore
    have hcore : before ++ more = trimEnd cs := List.append_cancel_right (hbefore.trans hcs)
    rcases List.eq_nil_or_concat more with rfl | ⟨init, c, rfl⟩
    · exact List.suffix_refl _
    · have hlast := isPadding_getLast?_trimEnd cs c (by rw [← hcore]; simp)
      rw [hother c (by simp)] at hlast
      cases hlast

/-- Every text has one core. -/
theorem isCore_iff (cs core : List Char) : IsCore cs core ↔ core = trimEnd cs := by
  constructor
  · rintro ⟨ending, hcs, hending, hlongest⟩
    obtain ⟨ending', hcs', hending', hlongest'⟩ := isCore_trimEnd cs
    have hle : ending <:+ ending' := hlongest' ending ⟨core, hcs.symm⟩ hending
    have hge : ending' <:+ ending := hlongest ending' ⟨trimEnd cs, hcs'.symm⟩ hending'
    obtain rfl : ending = ending' := hle.eq_of_length (le_antisymm hle.length_le hge.length_le)
    exact List.append_cancel_right (hcs.symm.trans hcs')
  · rintro rfl
    exact isCore_trimEnd cs

theorem isBlank_of_isPadding_eq_false {c : Char} (h : isPadding c = false) : isBlank c = false := by
  rw [isPadding, Bool.or_eq_false_iff] at h
  exact h.2

/-- A snippet ends as its core does. -/
theorem getLast?_normalize (cs : List Char) : (normalize cs).getLast? = (trimEnd cs).getLast? := by
  have hlast : ∀ c ∈ (normalize cs).getLast?, isBlank c = false := by
    intro c hc
    by_contra hblank
    have hsingle := singleSpaced_collapse (trimEnd cs)
    have hspace : c = ' ' := hsingle.eq_space c (List.mem_of_getLast? hc) (by simpa using hblank)
    exact hsingle.not_last (hspace ▸ hc)
  rw [← getLast?_visible hlast, normalize_eq_collapse, visible_collapse, getLast?_visible]
  exact fun c hc => isBlank_of_isPadding_eq_false (isPadding_getLast?_trimEnd cs c hc)

theorem normalize_normalize (cs : List Char) : normalize (normalize cs) = normalize cs := by
  have hend : trimEnd (normalize cs) = normalize cs := by
    refine trimEnd_eq_self fun c hc => ?_
    rw [getLast?_normalize] at hc
    exact isPadding_getLast?_trimEnd cs c hc
  rw [normalize_eq_collapse, hend]
  exact (singleSpaced_collapse (trimEnd cs)).collapse_eq

/-! ### The main result -/

@[simp] theorem toList_trim (text : String) : (trim text).toList = normalize text.toList := by
  simp [trim]

/-- **Trimming computes a normal form.** Every text has one core, and the trimmed text is the one
text that has the visible characters of the core in their order, one space wherever the core has
blanks between two of them, and no other blanks. So it does not end in a NUL, no character but
blanks is lost from the core, and trimming again changes nothing. -/
theorem trim_normalForm (text : String) : ∃ core,
    (∀ cs, IsCore text.toList cs ↔ cs = core) ∧
    (∀ u : String, IsNormalFormOf u.toList core ↔ u = trim text) ∧
    (trim text).toList.getLast? ≠ some '\x00' ∧
    (∀ c, isBlank c = false → (trim text).toList.count c = core.count c) ∧
    trim (trim text) = trim text := by
  refine ⟨trimEnd text.toList, isCore_iff _, fun u => ?_, fun hnul => ?_, fun c hc => ?_, ?_⟩
  · constructor
    · intro h
      rw [← String.toList_inj, h.eq_collapse, toList_trim, normalize_eq_collapse]
    · rintro rfl
      rw [toList_trim]
      exact isNormalFormOf_collapse _
  · rw [toList_trim, getLast?_normalize] at hnul
    cases isPadding_getLast?_trimEnd _ _ hnul
  · have hcount : ∀ cs : List Char, cs.count c = (visible cs).count c := by
      intro cs
      rw [visible, List.count_filter (by simp [hc])]
    rw [toList_trim, normalize_eq_collapse, hcount, visible_collapse, ← hcount]
  · rw [← String.toList_inj, toList_trim, toList_trim, normalize_normalize]

end NamedTree.Snippet
