import NamedTree.Tree.Codec
import Mathlib.Data.List.Basic

/-! # Reading objects by key and lists by place

An object is read key by key. What counts for a key is the list of its occurrences, and of that only
whether it is empty, one value, or longer: a missing key, one that is given, and one that is
repeated. Two lists of occurrences that agree in this and have related values are `Alike`, and a
required or optional part reads the same in both (`required?_congr`, `optional?_congr`). A list is
read place by place, and an item may be replaced by one that reads the same at its place
(`elim_getElem?_replace`, `item?_replace`). -/

namespace NamedTree.Json

/-- The string that a value is. -/
def text? : Json → Option String
  | .str s => some s
  | _ => none

/-- Null, or what another value stands for. -/
def nullable? (read : Json → Option α) : Json → Option (Option α)
  | .null => some none
  | v => (read v).map some

theorem nullable?_of_ne_null {read : Json → Option α} {v : Json} (h : v ≠ .null) :
    nullable? read v = (read v).map some := by
  cases v with
  | null => exact absurd rfl h
  | _ => rfl

theorem text?_eq_none {v : Json} (h : ∀ s, v ≠ .str s) : text? v = none := by
  cases v with
  | str s => exact absurd rfl (h s)
  | _ => rfl

/-! ### Parts of an object -/

theorem occurrences_map (f : α → β) (key : String) (entries : List (String × α)) :
    occurrences key (entries.map fun (key, v) => (key, f v)) = (occurrences key entries).map f := by
  induction entries with
  | nil => rfl
  | cons entry entries ih =>
    rw [List.map_cons, occurrences_cons, occurrences_cons, ih]
    split_ifs <;> rfl

theorem optional?_of_once (read : Json → Option α) {key : String} {entries : List (String × Json)}
    {v : Json} (h : occurrences key entries = [v]) :
    optional? read key entries = nullable? read v := by
  rw [optional?, h]
  cases v <;> rfl

theorem optional?_of_repeated (read : Json → Option α) {key : String}
    {entries : List (String × Json)} {v w : Json} {vs : List Json}
    (h : occurrences key entries = v :: w :: vs) : optional? read key entries = none := by
  rw [optional?, h]
  cases v <;> rfl

/-- Two lists of occurrences of a key that are read alike: the key is missing, given once with
related values, or repeated. -/
inductive Alike (R : α → α → Prop) : List α → List α → Prop
  | missing : Alike R [] []
  | once {v v' : α} (h : R v v') : Alike R [v] [v']
  | repeated {v w v' w' : α} {vs vs' : List α} : Alike R (v :: w :: vs) (v' :: w' :: vs')

namespace Alike
variable {R : α → α → Prop}

theorem of_perm (hR : ∀ v, R v v) {vs vs' : List α} (h : vs.Perm vs') : Alike R vs vs' := by
  have hlen := h.length_eq
  match vs, vs', h, hlen with
  | [], [], _, _ => exact .missing
  | [v], [v'], h, _ =>
    rw [List.singleton_perm_singleton.mp h]
    exact .once (hR v')
  | _ :: _ :: _, _ :: _ :: _, _, _ => exact .repeated

theorem replace {v v' : α} (h : R v v') (before after : List α) :
    Alike R (before ++ v :: after) (before ++ v' :: after) := by
  match before, after with
  | [], [] => exact .once h
  | [], _ :: _ | [_], _ | _ :: _ :: _, _ => exact .repeated

theorem map {S : β → β → Prop} {f : α → β} (hf : ∀ v v', R v v' → S (f v) (f v'))
    {vs vs' : List α} (h : Alike R vs vs') : Alike S (vs.map f) (vs'.map f) := by
  cases h with
  | missing => exact .missing
  | once h => exact .once (hf _ _ h)
  | repeated => exact .repeated

end Alike

section Congruence
variable {R : Json → Json → Prop} {read : Json → Option α} {key : String}
  {entries entries' : List (String × Json)}
  (h : Alike R (occurrences key entries) (occurrences key entries'))
  (hread : ∀ v v', R v v' → read v = read v')
  (hnull : ∀ v v', R v v' → (v = .null ↔ v' = .null))

include hread hnull in
theorem nullable?_congr {v v' : Json} (h : R v v') : nullable? read v = nullable? read v' := by
  by_cases hv : v = .null
  · rw [hv, (hnull v v' h).mp hv]
  · have hv' : v' ≠ .null := fun hv' => hv ((hnull v v' h).mpr hv')
    rw [nullable?_of_ne_null hv, nullable?_of_ne_null hv', hread v v' h]

include h hread in
theorem required?_congr : required? read key entries = required? read key entries' := by
  unfold required?
  generalize occurrences key entries = vs, occurrences key entries' = vs' at h
  cases h with
  | missing => rfl
  | once h => exact hread _ _ h
  | repeated => rfl

include h hread hnull in
theorem optional?_congr : optional? read key entries = optional? read key entries' := by
  generalize hvs : occurrences key entries = vs, hvs' : occurrences key entries' = vs' at h
  cases h with
  | missing => rw [optional?, optional?, hvs, hvs']
  | once h =>
    rw [optional?_of_once read hvs, optional?_of_once read hvs', nullable?_congr hread hnull h]
  | repeated => rw [optional?_of_repeated read hvs, optional?_of_repeated read hvs']

end Congruence

/-! ### Items of a list -/

theorem item?_eq_elim (read : Json → Option α) (items : List Json) (index : Nat) :
    item? read items index = items[index]?.elim (some none) (nullable? read) := by
  rw [item?]
  rcases items[index]? with _ | v
  · rfl
  · cases v <;> rfl

theorem elim_getElem?_replace {f : α → β} (missing : β) {before after : List α} {v v' : α}
    (index : Nat) (h : index = before.length → f v = f v') :
    (before ++ v :: after)[index]?.elim missing f =
      (before ++ v' :: after)[index]?.elim missing f := by
  rcases Nat.lt_trichotomy index before.length with hlt | heq | hgt
  · rw [List.getElem?_append_left hlt, List.getElem?_append_left hlt]
  · have hle : before.length ≤ index := Nat.le_of_eq heq.symm
    rw [List.getElem?_append_right hle, List.getElem?_append_right hle, heq, Nat.sub_self]
    exact h heq
  · have hle : before.length ≤ index := Nat.le_of_lt hgt
    obtain ⟨offset, hoffset⟩ : ∃ offset, index - before.length = offset + 1 :=
      ⟨index - before.length - 1, by omega⟩
    rw [List.getElem?_append_right hle, List.getElem?_append_right hle, hoffset,
      List.getElem?_cons_succ, List.getElem?_cons_succ]

theorem item?_replace {R : Json → Json → Prop} {read : Json → Option α} {before after : List Json}
    {v v' : Json} (hread : ∀ v v', R v v' → read v = read v')
    (hnull : ∀ v v', R v v' → (v = .null ↔ v' = .null)) (index : Nat)
    (h : index = before.length → R v v') :
    item? read (before ++ v :: after) index = item? read (before ++ v' :: after) index := by
  rw [item?_eq_elim, item?_eq_elim]
  exact elim_getElem?_replace _ index fun hindex => nullable?_congr hread hnull (h hindex)

end NamedTree.Json
