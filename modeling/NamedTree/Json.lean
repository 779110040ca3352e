/-! # JSON values

A value keeps what its text says: the entries of an object stand in the order of the text, repeated
keys included, and whole numbers are told apart from doubles. A whole number lies between the
least signed and the greatest unsigned 64-bit integer; `Json.Integer` carries that bound. -/

namespace NamedTree

/-- A whole number of a JSON text. -/
structure Json.Integer where
  val : Int
  lower : -0x8000000000000000 ≤ val
  upper : val < 0x10000000000000000
deriving DecidableEq

/-- A JSON value. -/
inductive Json where
  | null
  | bool (value : Bool)
  | int (value : Json.Integer)
  | float (value : Float)
  | str (value : String)
  | arr (items : List Json)
  | obj (entries : List (String × Json))

/-- Induction on values: what holds of the items of a list or of the values of an object may be used
for the list or the object. -/
@[elab_as_elim, induction_eliminator]
theorem Json.induction {motive : Json → Prop} (null : motive .null) (bool : ∀ b, motive (.bool b))
    (int : ∀ n, motive (.int n)) (float : ∀ x, motive (.float x)) (str : ∀ s, motive (.str s))
    (arr : ∀ items, (∀ item ∈ items, motive item) → motive (.arr items))
    (obj : ∀ entries, (∀ entry ∈ entries, motive entry.2) → motive (.obj entries)) :
    ∀ v, motive v
  | .null => null
  | .bool b => bool b
  | .int n => int n
  | .float x => float x
  | .str s => str s
  | .arr items => arr items fun item _ => induction null bool int float str arr obj item
  | .obj entries => obj entries fun entry _ => induction null bool int float str arr obj entry.2
decreasing_by
  · have := List.sizeOf_lt_of_mem ‹_ ∈ items›
    simp only [Json.arr.sizeOf_spec]
    omega
  · have := List.sizeOf_lt_of_mem ‹_ ∈ entries›
    cases entry
    simp only [Json.obj.sizeOf_spec, Prod.mk.sizeOf_spec] at *
    omega

namespace Json.Integer

/-- The whole number with the given value, if it is in bounds. -/
def ofInt? (n : Int) : Option Integer :=
  if h : -0x8000000000000000 ≤ n ∧ n < 0x10000000000000000 then some ⟨n, h.1, h.2⟩ else none

/-- A signed 64-bit integer. -/
def ofInt64 (n : Int64) : Integer :=
  ⟨n.toInt, n.le_toInt, by have := n.toInt_lt; omega⟩

/-- An unsigned 64-bit integer. -/
def ofUInt64 (n : UInt64) : Integer :=
  ⟨n.toNat, by omega, by have := n.toNat_lt; omega⟩

/-- The value as a signed 64-bit integer, if it is one. -/
def toInt64? (n : Integer) : Option Int64 :=
  if n.val < 0x8000000000000000 then some (Int64.ofInt n.val) else none

/-- The value as an unsigned 64-bit integer, if it is one. -/
def toUInt64? (n : Integer) : Option UInt64 :=
  if 0 ≤ n.val then some (UInt64.ofNat n.val.toNat) else none

end Json.Integer

namespace Json

/-- A signed 64-bit integer as a value. -/
def ofInt64 (n : Int64) : Json := .int (.ofInt64 n)

/-- An unsigned 64-bit integer as a value. -/
def ofUInt64 (n : UInt64) : Json := .int (.ofUInt64 n)

/-- A missing value is null. -/
def ofOption (f : α → Json) : Option α → Json
  | none => .null
  | some a => f a

/-- A double as a value; what is not finite has no JSON form and becomes null. -/
def ofFloat (x : Float) : Json := if x.isFinite then .float x else .null

/-- The values that an object's entries give to a key, in order. -/
def occurrences (key : String) (entries : List (String × α)) : List α :=
  (entries.filter (·.1 = key)).map (·.2)

@[simp] theorem occurrences_nil (key : String) :
    occurrences key ([] : List (String × α)) = [] := rfl

@[simp] theorem occurrences_cons (key : String) (entry : String × α) (entries : List (String × α)) :
    occurrences key (entry :: entries) =
      if entry.1 = key then entry.2 :: occurrences key entries else occurrences key entries := by
  unfold occurrences
  split <;> rename_i h <;> simp [h]

@[simp] theorem occurrences_append (key : String) (before after : List (String × α)) :
    occurrences key (before ++ after) = occurrences key before ++ occurrences key after := by
  simp [occurrences]

end Json

end NamedTree
