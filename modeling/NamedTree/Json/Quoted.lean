import NamedTree.Json.Fault

/-! # Strings of JSON texts

`readString` reads a string after its opening quotation mark, `skipString` passes over one. Both
insist on the form of escapes; reading also insists that the surrogates of an escape come in pairs. -/

namespace NamedTree.Json

/-- The number of a hexadecimal digit of either case. -/
def hexValue? (c : Char) : Option Nat :=
  if c.isDigit then some (c.toNat - '0'.toNat)
  else if 'a' ≤ c ∧ c ≤ 'f' then some (c.toNat - 'a'.toNat + 10)
  else if 'A' ≤ c ∧ c ≤ 'F' then some (c.toNat - 'A'.toNat + 10)
  else none

/-- Four hexadecimal digits; the text must have at least four more bytes. -/
def readHex (cs : List Char) : Except Fault (Nat × List Char) :=
  match cs with
  | a :: b :: c :: d :: rest =>
    match hexValue? a, hexValue? b, hexValue? c, hexValue? d with
    | some a, some b, some c, some d => .ok (((a * 16 + b) * 16 + c) * 16 + d, rest)
    | _, _, _, _ => .error ⟨.invalidEscape, cs, 4⟩
  | _ => if Text.byteLength cs < 4 then .error ⟨.eofString, [], 0⟩ else .error ⟨.invalidEscape, cs, 4⟩

/-- The first half of a surrogate pair. -/
def isHighSurrogate (n : Nat) : Bool := 0xD800 ≤ n && n ≤ 0xDBFF

/-- The second half of a surrogate pair. -/
def isLowSurrogate (n : Nat) : Bool := 0xDC00 ≤ n && n ≤ 0xDFFF

/-- The second half of a surrogate pair whose first half is `high`. -/
def readLowSurrogate (high : Nat) : List Char → Except Fault (Char × List Char)
  | [] => .error ⟨.eofString, [], 0⟩
  | '\\' :: [] => .error ⟨.eofString, [], 0⟩
  | '\\' :: 'u' :: cs => do
    let (low, rest) ← readHex cs
    if isLowSurrogate low then
      return (Char.ofNat (0x10000 + (high - 0xD800) * 0x400 + (low - 0xDC00)), rest)
    else .error ⟨.loneSurrogate, rest, 0⟩
  | '\\' :: cs => .error ⟨.unexpectedEndOfHexEscape, cs, 1⟩
  | cs => .error ⟨.unexpectedEndOfHexEscape, cs, 1⟩

/-- The character given by its code point, after the letter `u`. -/
def readCodePoint (cs : List Char) : Except Fault (Char × List Char) := do
  let (n, rest) ← readHex cs
  if isLowSurrogate n then .error ⟨.loneSurrogate, rest, 0⟩
  else if isHighSurrogate n then readLowSurrogate n rest
  else return (Char.ofNat n, rest)

/-- The characters with an escape of one letter. -/
def shortEscape? (c : Char) : Option Char :=
  if c = '"' ∨ c = '\\' ∨ c = '/' then some c
  else if c = 'b' then some '\x08'
  else if c = 'f' then some '\x0C'
  else if c = 'n' then some '\n'
  else if c = 'r' then some '\r'
  else if c = 't' then some '\t'
  else none

/-- The character that an escape stands for, after the reverse solidus. -/
def readEscape : List Char → Except Fault (Char × List Char)
  | [] => .error ⟨.eofString, [], 0⟩
  | c :: cs =>
    if c = 'u' then readCodePoint cs
    else
      match shortEscape? c with
      | some x => .ok (x, cs)
      | none => .error ⟨.invalidEscape, c :: cs, 1⟩

/-- Passes over an escape, after the reverse solidus. -/
def skipEscape : List Char → Except Fault (List Char)
  | [] => .error ⟨.eofString, [], 0⟩
  | c :: cs =>
    if c = 'u' then (readHex cs).map (·.2)
    else if (shortEscape? c).isSome then .ok cs
    else .error ⟨.invalidEscape, c :: cs, 1⟩

theorem length_of_readHex {cs rest : List Char} {n : Nat} (h : readHex cs = .ok (n, rest)) :
    rest.length < cs.length := by
  unfold readHex at h
  split at h
  · split at h
    · cases h; simp; omega
    · cases h
  · split at h <;> cases h

theorem length_of_readLowSurrogate {cs rest : List Char} {n : Nat} {c : Char}
    (h : readLowSurrogate n cs = .ok (c, rest)) : rest.length < cs.length := by
  unfold readLowSurrogate at h
  split at h <;> try cases h
  rename_i cs
  cases hx : readHex cs with
  | error e => rw [hx] at h; cases h
  | ok p =>
    have := length_of_readHex hx
    simp only [hx, bind, Except.bind] at h
    split at h
    · simp only [pure, Except.pure, Except.ok.injEq, Prod.mk.injEq] at h
      obtain ⟨-, rfl⟩ := h
      simp; omega
    · cases h

theorem length_of_readEscape {cs rest : List Char} {c : Char}
    (h : readEscape cs = .ok (c, rest)) : rest.length < cs.length := by
  unfold readEscape at h
  split at h
  · cases h
  · rename_i a cs
    split at h
    · unfold readCodePoint at h
      cases hx : readHex cs with
      | error e => rw [hx] at h; cases h
      | ok p =>
        have hlt := length_of_readHex hx
        simp only [hx, bind, Except.bind] at h
        split at h
        · cases h
        · split at h
          · have := length_of_readLowSurrogate h; simp; omega
          · simp only [pure, Except.pure, Except.ok.injEq, Prod.mk.injEq] at h
            obtain ⟨-, rfl⟩ := h
            simp; omega
    · split at h <;> cases h
      simp

theorem length_of_skipEscape {cs rest : List Char} (h : skipEscape cs = .ok rest) :
    rest.length < cs.length := by
  unfold skipEscape at h
  split at h
  · cases h
  · rename_i a cs
    split at h
    · cases hx : readHex cs with
      | error e => rw [hx] at h; cases h
      | ok p =>
        have hlt := length_of_readHex hx
        rw [hx] at h
        cases h
        simp; omega
    · split at h <;> cases h
      simp

/-- The characters up to the closing quotation mark, after those in `acc`, which is reversed. -/
def readChars (acc : List Char) (cs : List Char) : Except Fault (List Char × List Char) :=
  match cs with
  | [] => .error ⟨.eofString, [], 0⟩
  | c :: rest =>
    if c = '"' then .ok (acc.reverse, rest)
    else if c = '\\' then
      match _ : readEscape rest with
      | .ok (x, rest') => readChars (x :: acc) rest'
      | .error fault => .error fault
    else if c.toNat < 0x20 then .error ⟨.controlCharacter, cs, 1⟩
    else readChars (c :: acc) rest
termination_by cs.length
decreasing_by
  · have := length_of_readEscape ‹_›; simp; omega
  · simp

/-- The string that begins after its opening quotation mark. -/
def readString (cs : List Char) : Except Fault (String × List Char) :=
  (readChars [] cs).map fun (chars, rest) => (String.ofList chars, rest)

/-- Passes over a string, after its opening quotation mark. -/
def skipString (cs : List Char) : Except Fault (List Char) :=
  match cs with
  | [] => .error ⟨.eofString, [], 0⟩
  | c :: rest =>
    if c = '"' then .ok rest
    else if c = '\\' then
      match _ : skipEscape rest with
      | .ok rest' => skipString rest'
      | .error fault => .error fault
    else if c.toNat < 0x20 then .error ⟨.controlCharacter, cs, 0⟩
    else skipString rest
termination_by cs.length
decreasing_by
  · have := length_of_skipEscape ‹_›; simp; omega
  · simp

end NamedTree.Json
