import NamedTree.Classify
import Mathlib.Data.List.Basic

/-! # What a body keeps of the children

A layout does not tell a missing child from `nil`, nor `nil` from `false` in an optional slot. These
are the only differences that it forgets, as long as there are no more children than it has room
for. The *normal form* of a list of children settles both: it is padded with `nil` to the least
number of children that fills every place (`minimum`), and in an optional slot what is not present
becomes `nil` (`settle`).

* `apply_normalize`: the body does not change when the children are put in normal form;
* `normalize_eq_of_apply_eq`: children that fit the layout and give the same body have the same
  normal form.

The normal form is defined for children of any type that says which of them is `nil` and which are
present, so that it serves trees and converted trees alike (`map_normalize`). -/

namespace NamedTree

namespace Layout

/-- The number of children that a layout has room for, if there is a bound. -/
def capacity? : Layout → Option ℕ
  | .slots places => some places.length
  | .constants _ => some 0
  | _ => none

/-- The room in the layouts of some kinds. -/
example : ["if", "while", "for", "def", "defs", "module", "itblock", "ensure", "if_guard", "redo",
    "nil", "send"].map (fun name => (Kind.ofName name).layout.capacity?) =
      [some 3, some 2, some 3, some 3, some 4, some 2, some 2, some 2, some 1, some 1, some 0,
        none] := by
  decide +kernel

/-- The least number of children for which every place of a layout has one. -/
def minimum : Layout → ℕ
  | .slots places => places.length
  | .leading names _ => names.length
  | .dispatch _ _ => 2
  | .initAndLast _ _ => 1
  | _ => 0

/-- Whether the children are written only if the first one is present. -/
def needsFirst : Layout → Bool
  | .whenPresent _ => true
  | _ => false

/-- The names that a layout gives to places. -/
def names : Layout → List String
  | .slots places => places.map Slot.name
  | .everything name => [name]
  | .leading names others => names ++ [others]
  | .dispatch head middle => [head, middle, elseClause]
  | .initAndLast initial last => [initial, last]
  | .whenPresent name => [name]
  | .constants entries => entries.map (·.1)
  | .children => []

section Children
variable {α β : Type} (absent : α) (present : α → Bool)

/-- What is not present becomes `absent`. -/
def blank (c : α) : α := if present c then c else absent

/-- Blanks what stands in optional slots. -/
def settle : Layout → List α → List α
  | .slots places, cs =>
    List.zipWith (fun place c => if place.optional then blank absent present c else c) places cs
  | .dispatch _ _, c :: cs => c :: (cs.dropLast ++ cs.getLast?.toList.map (blank absent present))
  | _, cs => cs

/-- The normal form of a list of children. -/
def normalize (layout : Layout) (cs : List α) : List α :=
  settle absent present layout (cs.rightpad layout.minimum absent)

/-- A layout drops none of the children: there is room for all of them, and where they are written
only if the first one is present, it is. -/
def Fits (layout : Layout) (cs : List α) : Prop :=
  (∀ capacity ∈ layout.capacity?, cs.length ≤ capacity) ∧
    (layout.needsFirst = true → ∀ c ∈ cs.head?, present c = true)

instance (layout : Layout) (cs : List α) : Decidable (Fits present layout cs) :=
  inferInstanceAs (Decidable ((∀ capacity ∈ layout.capacity?, cs.length ≤ capacity) ∧
    (layout.needsFirst = true → ∀ c ∈ cs.head?, present c = true)))

variable {absent present}

theorem map_normalize {absent' : β} {present' : β → Bool} {f : α → β} (habsent : f absent = absent')
    (hpresent : ∀ c, present' (f c) = present c) (layout : Layout) (cs : List α) :
    (normalize absent present layout cs).map f = normalize absent' present' layout (cs.map f) := by
  have hblank : ∀ c, f (blank absent present c) = blank absent' present' (f c) := by
    intro c
    unfold blank
    rw [hpresent, apply_ite f, habsent]
  have hpad : (cs.rightpad layout.minimum absent).map f =
      (cs.map f).rightpad layout.minimum absent' := by
    simp [List.rightpad, habsent]
  unfold normalize
  rw [← hpad]
  cases layout with
  | slots places =>
    simp only [settle, List.map_zipWith, List.zipWith_map_right]
    congr 1
    funext place c
    split_ifs
    · exact hblank c
    · rfl
  | dispatch head middle =>
    cases cs.rightpad (minimum (.dispatch head middle)) absent with
    | nil => rfl
    | cons c cs =>
      simp only [settle, List.map_cons, List.map_append, List.map_dropLast, List.getLast?_map]
      cases cs.getLast? <;> simp [hblank]
  | _ => rfl

theorem Fits.map {present' : β → Bool} {f : α → β} (hpresent : ∀ c, present' (f c) = present c)
    {layout : Layout} {cs : List α} (h : Fits present layout cs) :
    Fits present' layout (cs.map f) := by
  refine ⟨fun capacity hcapacity => ?_, fun hneeds c hc => ?_⟩
  · rw [List.length_map]
    exact h.1 capacity hcapacity
  · rw [List.head?_map] at hc
    obtain ⟨first, hfirst, rfl⟩ := Option.map_eq_some_iff.mp hc
    rw [hpresent]
    exact h.2 hneeds first hfirst

theorem mem_settle {layout : Layout} {cs : List α} {c : α}
    (h : c ∈ settle absent present layout cs) : c ∈ cs ∨ c = absent := by
  have hblank : ∀ c ∈ cs, blank absent present c ∈ cs ∨ blank absent present c = absent := by
    intro c hc
    unfold blank
    split_ifs
    · exact Or.inl hc
    · exact Or.inr rfl
  cases layout with
  | slots places =>
    rw [settle, ← List.map_uncurry_zip_eq_zipWith] at h
    obtain ⟨⟨place, d⟩, hmem, rfl⟩ := List.mem_map.mp h
    have hd := (List.of_mem_zip hmem).2
    rw [Function.uncurry_apply_pair]
    split_ifs
    · exact hblank d hd
    · exact Or.inl hd
  | dispatch head middle =>
    cases cs with
    | nil => exact Or.inl h
    | cons first cs =>
      simp only [settle, List.mem_cons, List.mem_append, List.mem_map, Option.mem_toList] at h
      rcases h with rfl | h | ⟨d, hd, rfl⟩
      · exact Or.inl (List.mem_cons_self ..)
      · exact Or.inl (List.mem_cons_of_mem _ (List.dropLast_subset _ h))
      · exact hblank d (List.mem_cons_of_mem _ (List.mem_of_getLast? hd))
  | _ => exact Or.inl h

theorem mem_normalize {layout : Layout} {cs : List α} {c : α}
    (h : c ∈ normalize absent present layout cs) : c ∈ cs ∨ c = absent := by
  rcases mem_settle h with h | h
  · rcases List.mem_append.mp h with h | h
    · exact Or.inl h
    · exact Or.inr (List.eq_of_mem_replicate h)
  · exact Or.inr h

end Children

end Layout

/-! ### The body of a normal form -/

open Converted

/-- Blanking a child changes nothing in an optional slot. -/
theorem Slot.entry_blank (slot : Slot) (hslot : slot.optional = true) (c : Converted) :
    slot.entry (Layout.blank absent present c) = slot.entry c := by
  unfold Layout.blank entry
  cases hc : c.present <;> simp [hslot, hc]

namespace Layout

theorem fill_append_replicate (places : List Slot) (cs : List Converted) (n : ℕ) :
    fill places (cs ++ List.replicate n absent) = fill places cs := by
  induction places generalizing cs n with
  | nil => rw [fill, fill]
  | cons place places ih =>
    cases cs with
    | nil =>
      cases n with
      | zero => simp
      | succ n =>
        have := ih [] n
        simpa [List.replicate_succ, fill] using this
    | cons c cs => simp [fill, ih]

theorem apply_rightpad (layout : Layout) (cs : List Converted) :
    layout.apply (cs.rightpad layout.minimum absent) = layout.apply cs := by
  cases layout with
  | slots places => simp only [apply, List.rightpad, fill_append_replicate]
  | leading names others =>
    have hdrop : (cs.rightpad names.length absent).drop names.length = cs.drop names.length := by
      rw [List.rightpad, List.drop_append, List.drop_replicate]
      simp
    rw [List.rightpad] at hdrop
    simp only [apply, minimum, List.rightpad, fill_append_replicate, hdrop]
  | dispatch head middle =>
    match cs with
    | [] => simp [apply, minimum, List.rightpad, List.replicate_succ]
    | [c] => simp [apply, minimum, List.rightpad, List.replicate_succ]
    | c :: d :: cs => simp [apply, minimum, List.rightpad]
  | initAndLast initial last =>
    cases cs with
    | nil => simp [apply, minimum, List.rightpad, List.replicate_succ]
    | cons c cs => simp [minimum, List.rightpad]
  | _ => simp [minimum, List.rightpad]

theorem fill_zipWith_blank (places : List Slot) (cs : List Converted) :
    fill places (List.zipWith
      (fun place c => if place.optional then blank absent present c else c) places cs) =
        fill places cs := by
  induction places generalizing cs with
  | nil => rw [fill, fill]
  | cons place places ih =>
    cases cs with
    | nil => rfl
    | cons c cs =>
      rw [List.zipWith_cons_cons, fill, fill, ih]
      split_ifs with hplace
      · rw [place.entry_blank hplace]
      · rfl

theorem apply_settle (layout : Layout) (cs : List Converted) :
    layout.apply (settle absent present layout cs) = layout.apply cs := by
  cases layout with
  | slots places => simp only [apply, settle, fill_zipWith_blank]
  | dispatch head middle =>
    cases cs with
    | nil => rfl
    | cons c cs =>
      rcases List.eq_nil_or_concat cs with rfl | ⟨cs, last, rfl⟩
      · rfl
      · simp [apply, settle, Slot.entry_blank]
  | _ => rfl

/-- **The body does not change when the children are put in normal form.** -/
theorem apply_normalize (layout : Layout) (cs : List Converted) :
    layout.apply (normalize absent present layout cs) = layout.apply cs := by
  rw [normalize, apply_settle, apply_rightpad]

/-! ### The children from the body -/

theorem blank_eq_of_entry_eq {place : Slot} {c d : Converted} (h : place.entry c = place.entry d) :
    (if place.optional then blank absent present c else c) =
      if place.optional then blank absent present d else d := by
  unfold Slot.entry at h
  unfold blank
  cases hplace : place.optional <;> cases hc : c.present <;> cases hd : d.present <;> simp_all

theorem name_mem_of_mem_fill {places : List Slot} {cs : List Converted}
    {entry : String × Converted} (h : entry ∈ fill places cs) :
    entry.1 ∈ places.map Slot.name := by
  have hentry : ∀ (place : Slot) (c : Converted), entry ∈ place.entry c → entry.1 = place.name := by
    intro place c hmem
    unfold Slot.entry at hmem
    split_ifs at hmem
    · cases hmem
    · rw [List.mem_singleton.mp hmem]
  fun_induction fill places cs with
  | case1 cs => cases h
  | case2 place places ih =>
    rcases List.mem_append.mp h with h | h
    · rw [hentry place absent h]; exact List.mem_cons_self ..
    · exact List.mem_cons_of_mem _ (ih h)
  | case3 place places c cs ih =>
    rcases List.mem_append.mp h with h | h
    · rw [hentry place c h]; exact List.mem_cons_self ..
    · exact List.mem_cons_of_mem _ (ih h)

/-- The entry of a slot can be told from those of slots with other names. -/
theorem entry_append_inj {place : Slot} {c d : Converted} {rest rest' : List (String × Converted)}
    (hrest : ∀ entry ∈ rest, entry.1 ≠ place.name) (hrest' : ∀ entry ∈ rest', entry.1 ≠ place.name)
    (h : place.entry c ++ rest = place.entry d ++ rest') :
    place.entry c = place.entry d ∧ rest = rest' := by
  unfold Slot.entry at h ⊢
  split_ifs at h ⊢ with hc hd hd
  · exact ⟨rfl, h⟩
  · rw [List.nil_append] at h
    exact absurd rfl (hrest (place.name, d) (by rw [h]; simp))
  · rw [List.nil_append] at h
    exact absurd rfl (hrest' (place.name, c) (by rw [← h]; simp))
  · simpa using h

/-- Slots with distinct names are filled with the same children up to what is blanked. -/
theorem settle_slots_eq_of_fill_eq {places : List Slot} (hnodup : (places.map Slot.name).Nodup)
    {cs ds : List Converted} (hcs : cs.length = places.length) (hds : ds.length = places.length)
    (h : fill places cs = fill places ds) :
    settle absent present (.slots places) cs = settle absent present (.slots places) ds := by
  induction places generalizing cs ds with
  | nil => rfl
  | cons place places ih =>
    obtain ⟨hname, hnodup⟩ := List.nodup_cons.mp hnodup
    obtain ⟨c, cs, rfl⟩ := List.exists_cons_of_length_eq_add_one hcs
    obtain ⟨d, ds, rfl⟩ := List.exists_cons_of_length_eq_add_one hds
    have hother : ∀ (cs : List Converted), ∀ entry ∈ fill places cs, entry.1 ≠ place.name :=
      fun cs entry hmem heq => hname (heq ▸ name_mem_of_mem_fill hmem)
    rw [fill, fill] at h
    obtain ⟨hentry, hfill⟩ := entry_append_inj (hother cs) (hother ds) h
    have htail := ih hnodup (by simpa using hcs) (by simpa using hds) hfill
    rw [settle, settle] at htail ⊢
    rw [List.zipWith_cons_cons, List.zipWith_cons_cons, htail, blank_eq_of_entry_eq hentry]

theorem map_snd_fill_required (names : List String) (cs : List Converted)
    (h : names.length ≤ cs.length) :
    (fill (names.map fun name => ⟨name, false⟩) cs).map (·.2) = cs.take names.length := by
  induction names generalizing cs with
  | nil => rfl
  | cons name names ih =>
    cases cs with
    | nil => simp at h
    | cons c cs =>
      have hrest := ih cs (by simpa using h)
      rw [List.map_cons, fill, List.map_append, hrest]
      rfl

theorem eq_of_leading_eq {names : List String} {others : String} {cs ds : List Converted}
    (hcs : names.length ≤ cs.length) (hds : names.length ≤ ds.length)
    (h : apply (.leading names others) cs = apply (.leading names others) ds) : cs = ds := by
  simp only [apply, Body.fields.injEq] at h
  obtain ⟨hfill, hrest⟩ := List.append_inj' h rfl
  have htake := congrArg (List.map (·.2)) hfill
  rw [map_snd_fill_required names cs hcs, map_snd_fill_required names ds hds] at htake
  have hdrop : cs.drop names.length = ds.drop names.length := by simpa using hrest
  rw [← List.take_append_drop names.length cs, htake, hdrop, List.take_append_drop]

theorem exists_first_last {cs : List α} (h : 2 ≤ cs.length) :
    ∃ first middle last, cs = first :: (middle ++ [last]) := by
  cases cs with
  | nil => simp at h
  | cons first cs =>
    rcases List.eq_nil_or_concat cs with rfl | ⟨middle, last, rfl⟩
    · simp at h
    · exact ⟨first, middle, last, by rw [List.concat_eq_append]⟩

/-- The lists that a dispatch tells apart. -/
theorem nil_or_singleton_or_first_last (cs : List α) :
    cs = [] ∨ (∃ c, cs = [c]) ∨ ∃ first middle last, cs = first :: (middle ++ [last]) := by
  by_cases hlength : 2 ≤ cs.length
  · exact Or.inr (Or.inr (exists_first_last hlength))
  · have hcases : cs.length = 0 ∨ cs.length = 1 := by omega
    rcases hcases with hzero | hone
    · exact Or.inl (List.length_eq_zero_iff.mp hzero)
    · exact Or.inr (Or.inl (List.length_eq_one_iff.mp hone))

theorem getLast?_cons_concat (first last : α) (middle : List α) :
    (first :: (middle ++ [last])).getLast? = some last := by
  rw [← List.cons_append, List.getLast?_concat]

theorem settle_eq_of_dispatch_eq {head middle : String} {cs ds : List Converted}
    (hcs : 2 ≤ cs.length) (hds : 2 ≤ ds.length)
    (h : apply (.dispatch head middle) cs = apply (.dispatch head middle) ds) :
    settle absent present (.dispatch head middle) cs =
      settle absent present (.dispatch head middle) ds := by
  obtain ⟨c, cs, last, rfl⟩ := exists_first_last hcs
  obtain ⟨d, ds, last', rfl⟩ := exists_first_last hds
  simp only [apply, List.headD_cons, List.tail_cons, List.dropLast_concat, List.getLast?_concat,
    Option.getD_some, List.cons_append, List.nil_append, Body.fields.injEq, List.cons.injEq,
    Prod.mk.injEq, true_and, list.injEq] at h
  obtain ⟨rfl, rfl, hentry⟩ := h
  have hblank := blank_eq_of_entry_eq hentry
  simpa [settle] using hblank

theorem eq_of_whenPresent_eq {name : String} {cs ds : List Converted}
    (hfit : ∀ c ∈ cs.head?, c.present = true) (hfit' : ∀ c ∈ ds.head?, c.present = true)
    (h : apply (.whenPresent name) cs = apply (.whenPresent name) ds) : cs = ds := by
  cases cs <;> cases ds <;> simp_all [apply]

/-- Children that fill every place and fit the layout are the same, up to what is blanked, if their
bodies are. -/
theorem settle_eq_of_apply_eq {layout : Layout} (hnames : layout.names.Nodup)
    {cs ds : List Converted} (hcs : layout.minimum ≤ cs.length) (hds : layout.minimum ≤ ds.length)
    (hfit : Fits present layout cs) (hfit' : Fits present layout ds)
    (h : layout.apply cs = layout.apply ds) :
    settle absent present layout cs = settle absent present layout ds := by
  cases layout with
  | slots places =>
    have hlen := hfit.1 places.length rfl
    have hlen' := hfit'.1 places.length rfl
    exact settle_slots_eq_of_fill_eq hnames (Nat.le_antisymm hlen hcs) (Nat.le_antisymm hlen' hds)
      (by simpa [apply] using h)
  | everything name => simpa [apply, settle] using h
  | leading names others => exact eq_of_leading_eq hcs hds h
  | dispatch head middle => exact settle_eq_of_dispatch_eq hcs hds h
  | initAndLast initial last =>
    rcases List.eq_nil_or_concat cs with rfl | ⟨cs, c, rfl⟩
    · simp [minimum] at hcs
    · rcases List.eq_nil_or_concat ds with rfl | ⟨ds, d, rfl⟩
      · simp [minimum] at hds
      · simpa [apply, settle] using h
  | whenPresent name => exact eq_of_whenPresent_eq (hfit.2 rfl) (hfit'.2 rfl) h
  | constants entries =>
    have hlen := hfit.1 0 rfl
    have hlen' := hfit'.1 0 rfl
    rw [List.length_eq_zero_iff.mp (Nat.le_zero.mp hlen),
      List.length_eq_zero_iff.mp (Nat.le_zero.mp hlen')]
  | children => simpa [apply, settle] using h

theorem Fits.rightpad {layout : Layout} {cs : List Converted} (h : Fits present layout cs) :
    Fits present layout (cs.rightpad layout.minimum absent) := by
  refine ⟨fun capacity hcapacity => ?_, fun hneeds => ?_⟩
  · have hminimum : layout.minimum ≤ capacity := by
      cases layout <;> cases hcapacity <;> exact Nat.le_refl _
    rw [List.length_rightpad]
    exact Nat.max_le.mpr ⟨hminimum, h.1 capacity hcapacity⟩
  · have hminimum : layout.minimum = 0 := by
      cases layout with
      | whenPresent name => rfl
      | _ => cases hneeds
    simpa [hminimum, List.rightpad] using h.2 hneeds

/-- **Children that fit the layout and give the same body have the same normal form.** -/
theorem normalize_eq_of_apply_eq {layout : Layout} (hnames : layout.names.Nodup)
    {cs ds : List Converted} (hfit : Fits present layout cs) (hfit' : Fits present layout ds)
    (h : layout.apply cs = layout.apply ds) :
    normalize absent present layout cs = normalize absent present layout ds := by
  have hlen : ∀ cs : List Converted,
      layout.minimum ≤ (cs.rightpad layout.minimum absent).length := by
    intro cs
    rw [List.length_rightpad]
    exact Nat.le_max_left ..
  rw [← apply_rightpad layout cs, ← apply_rightpad layout ds] at h
  exact settle_eq_of_apply_eq hnames (hlen cs) (hlen ds) hfit.rightpad hfit'.rightpad h

end Layout

/-- No row gives one name to two places. -/
theorem Row.nodup_layout_names : ∀ row ∈ Row.table, row.layout.names.Nodup := by
  decide +kernel

theorem Kind.nodup_layout_names (kind : Kind) : kind.layout.names.Nodup := by
  cases kind with
  | known row => exact Row.nodup_layout_names _ (List.get_mem _ row)
  | unknown name => exact List.nodup_nil

end NamedTree
