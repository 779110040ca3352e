import NamedTree.Command.Run
import NamedTree.Proofs.Discovery.Targets

/-! # Writing many files

A batch writes one file after the other, and makes the directories above each first. What a single
write does is read off the tree before it: the directories that it makes (`FileTree.Makes`), and
whether the file can be written then (`FileTree.Admits`). When no target stands on the way to
another one (`FileTree.Apart`), a write makes the same directories and has the same success,
whatever was written before (`Filled.reach_eq`, `Filled.admits_iff`). So the tree that results is
determined by the set of writes (`FileTree.Filled`, `Filled.get?_eq`), and not by their order. -/

namespace NamedTree

namespace FileTree

/-- Writing a file at a target makes a directory at a place. -/
def Makes (tree : FileTree) (target : Path) (place : List String) : Prop :=
  isPath target.above = true ∧
    Passes (tree.origin target) (tree.reach (tree.origin target) target.segments.dropLast) place

/-- A file can be written at a target: its path is not too long, nothing blocks the way to it, and no
directory stands in its place or is made there on the way. -/
structure Admits (tree : FileTree) (target : Path) : Prop where
  path : isPath target = true
  reach : tree.reach (tree.origin target) target.segments.dropLast = target.segments.dropLast
  directory : tree.isDirectory (tree.place target) = false
  unmade : ¬ tree.Makes target (tree.place target)

/-- The targets end in names of files, each in another place, and no target stands on the way to
another one. -/
structure Apart (tree : FileTree) (targets : List Path) : Prop where
  shape : ∀ target ∈ targets, ∃ way file, target.segments = way ++ [file] ∧ isEntryName file = true
  distinct : ∀ target ∈ targets, ∀ other ∈ targets, tree.place target = tree.place other →
    target = other
  apart : ∀ target ∈ targets, ∀ other ∈ targets, target ≠ other → ∀ ancestor ∈ target.ancestors,
    tree.place ancestor ≠ tree.place other

/-- The second tree is the first one after some writes: the files are there that could be written,
the directories on the way to all of them have been made, and all else is as before. -/
structure Filled (tree : FileTree) (writes : List (Path × ByteArray)) (tree' : FileTree) :
    Prop where
  closed : tree'.Closed
  grows : Grows tree tree'
  resolve : ∀ write ∈ writes, tree.Admits write.1 →
    tree'.resolve? write.1 = some (tree.place write.1)
  content : ∀ write ∈ writes, tree.Admits write.1 →
    tree'.get? (tree.place write.1) = some (.file write.2)
  directory : ∀ write ∈ writes, ∀ place, tree.Makes write.1 place → tree'.isDirectory place = true
  other : ∀ place, (∀ write ∈ writes, (tree.Admits write.1 → tree.place write.1 ≠ place) ∧
    ¬ tree.Makes write.1 place) → tree'.get? place = tree.get? place

theorem Makes.exists_ancestor {tree : FileTree} {target : Path} {way : List String} {file : String}
    (hsegments : target.segments = way ++ [file]) {place : List String}
    (h : tree.Makes target place) : ∃ ancestor ∈ target.ancestors, tree.place ancestor = place := by
  obtain ⟨-, before, hbefore, rfl⟩ := h
  rw [exists_ancestor_iff tree hsegments]
  refine ⟨before, hbefore.trans ?_, rfl⟩
  rw [hsegments, List.dropLast_concat]
  exact reach_prefix tree _ way

/-- No file stands where a directory is made. -/
theorem Makes.isFile {tree : FileTree} (hworking : tree.isDirectory tree.working = true)
    {target : Path} {place : List String} (h : tree.Makes target place) :
    tree.isFile place = false :=
  isFile_of_passes_reach (isFile_of_isDirectory (isDirectory_origin hworking target)) h.2

/-- No write makes a directory in the place of a target that admits a file. -/
theorem Apart.not_makes {tree : FileTree} {targets : List Path} (h : Apart tree targets)
    {target other : Path} (htarget : target ∈ targets) (hother : other ∈ targets)
    (hadmits : tree.Admits target) : ¬ tree.Makes other (tree.place target) := by
  intro hmakes
  by_cases heq : other = target
  · rw [heq] at hmakes
    exact hadmits.unmade hmakes
  · obtain ⟨way, file, hsegments, -⟩ := h.shape other hother
    obtain ⟨ancestor, hancestor, hplace⟩ := hmakes.exists_ancestor hsegments
    exact h.apart other hother target htarget heq ancestor hancestor hplace

/-! ### Directories above a target -/

theorem makeDirectories_fillers (tree : FileTree) (place : List String) {fillers : List String}
    (hfillers : ∀ filler ∈ fillers, Path.isFiller filler = true) :
    tree.makeDirectories place fillers = (tree, true) := by
  induction fillers with
  | nil => rfl
  | cons filler fillers ih =>
    rw [makeDirectories, if_pos (hfillers filler (List.mem_cons_self ..))]
    exact ih fun other hother => hfillers other (List.mem_cons_of_mem _ hother)

theorem makeDirectories_append_fillers (tree : FileTree) (place segments : List String)
    {fillers : List String} (hfillers : ∀ filler ∈ fillers, Path.isFiller filler = true) :
    tree.makeDirectories place (segments ++ fillers) = tree.makeDirectories place segments := by
  induction segments generalizing tree place with
  | nil => rw [List.nil_append, makeDirectories_fillers tree place hfillers]; rfl
  | cons segment segments ih =>
    rw [List.cons_append, makeDirectories, makeDirectories]
    simp only [ih]

/-- The fillers at the end of a path make no directories. -/
theorem makeDirectories_trimEnd (tree : FileTree) (place : List String) (path : Path) :
    tree.makeDirectories place path.trimEnd.segments = tree.makeDirectories place path.segments := by
  obtain ⟨fillers, hfillers, hsegments⟩ := Path.exists_eq_dropFillers_append path.segments
  have hdrop : tree.makeDirectories place path.segments =
      tree.makeDirectories place (Path.dropFillers path.segments) := by
    conv_lhs => rw [hsegments]
    exact makeDirectories_append_fillers tree _ _ hfillers
  rw [hdrop]
  simp only [Path.trimEnd]
  split_ifs with hempty
  · rw [Bool.and_eq_true, List.isEmpty_iff] at hempty
    rw [hempty.1]
    exact makeDirectories_fillers tree _ (by simp [Path.isFiller])
  · rfl

theorem createDirectories_above (tree : FileTree) (target : Path) :
    tree.createDirectories target.above =
      if isPath target.above then
        tree.makeDirectories (tree.origin target) target.segments.dropLast
      else (tree, false) := by
  rw [createDirectories, ← makeDirectories_trimEnd tree _ { target with
    segments := target.segments.dropLast }]
  rfl

/-! ### Writing one file -/

instance (start segments place : List String) : Decidable (Passes start segments place) :=
  decidable_of_iff (place ∈ segments.inits.map (follow start)) (by simp [Passes])

instance (tree : FileTree) (target : Path) (place : List String) :
    Decidable (tree.Makes target place) :=
  inferInstanceAs (Decidable (_ ∧ Passes ..))

instance (tree : FileTree) (target : Path) : Decidable (tree.Admits target) :=
  decidable_of_iff
    (isPath target = true ∧
      tree.reach (tree.origin target) target.segments.dropLast = target.segments.dropLast ∧
      tree.isDirectory (tree.place target) = false ∧ ¬ tree.Makes target (tree.place target))
    ⟨fun h => ⟨h.1, h.2.1, h.2.2.1, h.2.2.2⟩, fun h => ⟨h.path, h.reach, h.directory, h.unmade⟩⟩

/-- The failure of a write at a target, if it fails. -/
def obstacle? (tree : FileTree) (target : Path) : Option Failure :=
  if tree.Admits target then none
  else if isPath target.above ∧
      tree.reach (tree.origin target) target.segments.dropLast = target.segments.dropLast then
    some (.write target)
  else some (.write target.above)

section Write
variable {tree made : FileTree} {target : Path} (hclosed : made.Closed) (hgrows : Grows tree made)
  (hmade : ∀ place, tree.Makes target place → made.isDirectory place = true)
  (hsame : ∀ place, ¬ tree.Makes target place → made.get? place = tree.get? place)
include hclosed hgrows hmade hsame

/-- A write that fails has made directories. -/
theorem filled_of_not_admits (h : ¬ tree.Admits target) (content : ByteArray) :
    Filled tree [(target, content)] made where
  closed := hclosed
  grows := hgrows
  resolve write hwrite hadmits := by
    rw [List.mem_singleton.mp hwrite] at hadmits
    exact absurd hadmits h
  content write hwrite hadmits := by
    rw [List.mem_singleton.mp hwrite] at hadmits
    exact absurd hadmits h
  directory write hwrite := by
    rw [List.mem_singleton.mp hwrite]
    exact hmade
  other place hplace := hsame place (hplace _ (List.mem_singleton_self _)).2

/-- A write that succeeds has made directories and put the file in its place. -/
theorem filled_of_admits (h : tree.Admits target)
    (hdirectory : made.isDirectory (tree.place target) = false)
    (hparent : made.isDirectory (tree.place target).dropLast = true)
    (hresolve : made.resolve? target = some (tree.place target)) (content : ByteArray) :
    Filled tree [(target, content)] (made.put (tree.place target) (.file content)) := by
  have hne := ne_nil_of_isDirectory_eq_false hdirectory
  have hput := grows_put_file made hne hdirectory content
  refine ⟨hclosed.put hne hparent hput, hgrows.trans hput, ?_, ?_, ?_, fun place hplace => ?_⟩
  · intro write hwrite _
    rw [List.mem_singleton.mp hwrite]
    exact resolve?_of_grows hput hresolve
  · intro write hwrite _
    rw [List.mem_singleton.mp hwrite, get?_put made hne, if_pos rfl]
  · intro write hwrite place hplace
    rw [List.mem_singleton.mp hwrite] at hplace
    exact hput.directory place (hmade place hplace)
  · obtain ⟨htarget, hunmade⟩ := hplace _ (List.mem_singleton_self _)
    rw [get?_put made hne, if_neg (htarget h).symm]
    exact hsame place hunmade

end Write

/-- A path with a file name at its end leads into the directory before that. -/
theorem place_concat (tree : FileTree) {target : Path} {way : List String} {file : String}
    (hsegments : target.segments = way ++ [file]) (hfile : isEntryName file = true) :
    tree.place target = follow (tree.origin target) way ++ [file] := by
  rw [place, hsegments, follow_append, follow_cons, follow_nil, stepTo_of_isEntryName hfile]

theorem resolve?_concat {tree : FileTree} {target : Path} (hpath : isPath target = true)
    {way : List String} {file : String} (hsegments : target.segments = way ++ [file])
    (hfile : isEntryName file = true)
    (hwalk : tree.walk (tree.origin target) way = some (follow (tree.origin target) way))
    (hparent : tree.isDirectory (follow (tree.origin target) way) = true) :
    tree.resolve? target = some (tree.place target) := by
  rw [resolve?_eq_some_iff, hsegments, walk_append, hwalk, Option.bind_some,
    place_concat tree hsegments hfile,
    walk_cons_of_isDirectory hparent (Path.isName_of_isEntryName hfile), walk_nil,
    stepTo_of_isEntryName hfile]
  exact ⟨⟨by simp [Path.isEmpty, hsegments], hpath⟩, rfl⟩

section Made
variable {tree made : FileTree} {target : Path} (hgrows : Grows tree made)
  (hmade : ∀ place, tree.Makes target place → made.isDirectory place = true)
  (hsame : ∀ place, ¬ tree.Makes target place → made.get? place = tree.get? place)
include hgrows hmade hsame

/-- When the directories are made, a directory stands in the place of a target that is not too long
exactly if it admits no file. -/
theorem isDirectory_made_iff (hpath : isPath target = true)
    (hreach : tree.reach (tree.origin target) target.segments.dropLast = target.segments.dropLast) :
    made.isDirectory (tree.place target) = true ↔ ¬ tree.Admits target := by
  constructor
  · intro hdirectory hadmits
    rw [isDirectory, hsame _ hadmits.unmade, ← isDirectory, hadmits.directory] at hdirectory
    cases hdirectory
  · intro hadmits
    by_cases hmakes : tree.Makes target (tree.place target)
    · exact hmade _ hmakes
    · apply hgrows.directory
      by_contra hno
      exact hadmits ⟨hpath, hreach, by simpa using hno, hmakes⟩

end Made

/-- **Writing a file below a directory** fails exactly at an obstacle, and its effect on the tree is
the one that was foreseen. -/
theorem exists_writeBelow {tree : FileTree} (hclosed : tree.Closed)
    (hworking : tree.isDirectory tree.working = true) {target : Path} {way : List String}
    {file : String} (hsegments : target.segments = way ++ [file]) (hfile : isEntryName file = true)
    (text : String) :
    ∃ tree', Command.writeBelow tree target text = (tree', tree.obstacle? target) ∧
      Filled tree [(target, text.toUTF8)] tree' := by
  have hstart := isDirectory_origin hworking target
  have hway : target.segments.dropLast = way := by rw [hsegments, List.dropLast_concat]
  rw [Command.writeBelow, Path.parent?_eq_above hsegments (Path.isFiller_of_isEntryName hfile)]
  simp only [createDirectories_above]
  by_cases habove : isPath target.above = true
  case neg =>
    -- Nothing is made on a path that is too long.
    have hadmits : ¬ tree.Admits target := fun h => habove (Path.isPath_above h.path)
    refine ⟨tree, ?_, filled_of_not_admits hclosed (Grows.refl tree)
      (fun place hmakes => absurd hmakes.1 habove) (fun _ _ => rfl) hadmits _⟩
    rw [if_neg habove, obstacle?, if_neg hadmits, if_neg fun h => habove h.1]
  obtain ⟨made, hmake, hclosed', hgrows, hpassed, hkept, hwalk⟩ :=
    exists_makeDirectories hclosed hstart target.segments.dropLast
  have hmade : ∀ place, tree.Makes target place → made.isDirectory place = true :=
    fun place hmakes => hpassed place hmakes.2
  have hsame : ∀ place, ¬ tree.Makes target place → made.get? place = tree.get? place :=
    fun place hmakes => hkept place fun hpasses => hmakes ⟨habove, hpasses⟩
  rw [if_pos habove, hmake]
  by_cases hreach : tree.reach (tree.origin target) target.segments.dropLast =
      target.segments.dropLast
  case neg =>
    -- The way is blocked, and no file is written.
    have hadmits : ¬ tree.Admits target := fun h => hreach h.reach
    refine ⟨made, ?_, filled_of_not_admits hclosed' hgrows hmade hsame hadmits _⟩
    simp only [decide_eq_false hreach]
    rw [obstacle?, if_neg hadmits, if_neg fun h => hreach h.2]
  -- The directories are there, and the target resolves to its place.
  rw [hreach, hway] at hwalk
  have hparent : made.isDirectory (follow (tree.origin target) way) = true := by
    apply hpassed
    rw [hreach, hway]
    exact ⟨way, List.prefix_refl way, rfl⟩
  have horigin : made.origin target = tree.origin target := by
    rw [origin, origin, hgrows.working]
  have hresolve (hpath : isPath target = true) :
      made.resolve? target = some (tree.place target) := by
    rw [← horigin] at hwalk hparent
    rw [← hgrows.place_eq]
    exact resolve?_concat hpath hsegments hfile hwalk hparent
  have hdirectory (hpath : isPath target = true) :=
    isDirectory_made_iff hgrows hmade hsame hpath hreach
  simp only [decide_eq_true hreach]
  by_cases hadmits : tree.Admits target
  · have hfree : made.isDirectory (tree.place target) = false := by
      rw [← Bool.not_eq_true, hdirectory hadmits.path]
      exact not_not_intro hadmits
    refine ⟨made.put (tree.place target) (.file text.toUTF8), ?_, ?_⟩
    · rw [write?_of_writable ⟨_, hresolve hadmits.path, hfree⟩, hgrows.place_eq, obstacle?,
        if_pos hadmits]
    · refine filled_of_admits hclosed' hgrows hmade hsame hadmits hfree ?_
        (hresolve hadmits.path) _
      rwa [place_concat tree hsegments hfile, List.dropLast_concat]
  · have hrefused : made.write? target text.toUTF8 = none := by
      by_cases hpath : isPath target = true
      · rw [write?, hresolve hpath]
        simp only [(hdirectory hpath).mpr hadmits, if_true]
      · rw [write?, resolve?, if_pos (by simp [hpath])]
    refine ⟨made, ?_, filled_of_not_admits hclosed' hgrows hmade hsame hadmits _⟩
    rw [hrefused, obstacle?, if_neg hadmits, if_pos ⟨habove, hreach⟩]

/-! ### Writing one file after the other -/

theorem Filled.refl {tree : FileTree} (h : tree.Closed) : Filled tree [] tree :=
  ⟨h, Grows.refl tree, by simp, by simp, by simp, fun _ _ => rfl⟩

namespace Filled
variable {tree tree' : FileTree} {writes : List (Path × ByteArray)} (h : Filled tree writes tree')
include h

/-- What stands at a place after the writes: a file that was written, a directory that was made, or
what stood there before. -/
theorem get?_cases (place : List String) :
    (∃ write ∈ writes, tree.Admits write.1 ∧ tree.place write.1 = place ∧
        tree'.get? place = some (.file write.2)) ∨
      (∃ write ∈ writes, tree.Makes write.1 place ∧ tree'.get? place = some .directory) ∨
      tree'.get? place = tree.get? place := by
  by_cases hwritten : ∃ write ∈ writes, tree.Admits write.1 ∧ tree.place write.1 = place
  · obtain ⟨write, hwrite, hadmits, rfl⟩ := hwritten
    exact Or.inl ⟨write, hwrite, hadmits, rfl, h.content write hwrite hadmits⟩
  by_cases hmade : ∃ write ∈ writes, tree.Makes write.1 place
  · obtain ⟨write, hwrite, hmakes⟩ := hmade
    exact Or.inr (Or.inl ⟨write, hwrite, hmakes,
      (isDirectory_iff _ _).mp (h.directory write hwrite place hmakes)⟩)
  · refine Or.inr (Or.inr (h.other place fun write hwrite => ⟨fun hadmits heq => ?_, ?_⟩))
    · exact hwritten ⟨write, hwrite, hadmits, heq⟩
    · exact fun hmakes => hmade ⟨write, hwrite, hmakes⟩

/-- The files after the writes are those that were written and the ones from before. -/
theorem get?_eq_file_iff (hworking : tree.isDirectory tree.working = true) {place : List String}
    (hplace : ∀ write ∈ writes, tree.Admits write.1 → tree.place write.1 ≠ place)
    (content : ByteArray) :
    tree'.get? place = some (.file content) ↔ tree.get? place = some (.file content) := by
  rcases h.get?_cases place with
    ⟨write, hwrite, hadmits, heq, -⟩ | ⟨write, hwrite, hmakes, hget⟩ | hsame
  · exact absurd heq (hplace write hwrite hadmits)
  · have hfree := hmakes.isFile hworking
    rw [hget]
    refine ⟨nofun, fun hfile => ?_⟩
    rw [(tree.isFile_iff place).mpr ⟨content, hfile⟩] at hfree
    cases hfree
  · rw [hsame]

section Next
variable (hworking : tree.isDirectory tree.working = true) {targets : List Path}
  (hapart : Apart tree targets) (hwrites : ∀ write ∈ writes, write.1 ∈ targets) {target : Path}
  (htarget : target ∈ targets)
include hworking hapart hwrites htarget

/-- Earlier writes block no way to a target and clear none. -/
theorem reach_eq : tree'.reach (tree'.origin target) target.segments.dropLast =
    tree.reach (tree.origin target) target.segments.dropLast := by
  obtain ⟨way, file, hsegments, -⟩ := hapart.shape target htarget
  rw [origin, h.grows.working, ← origin]
  apply reach_congr
  intro place hpasses
  rcases h.get?_cases place with
    ⟨write, hwrite, hadmits, rfl, -⟩ | ⟨write, hwrite, hmakes, hget⟩ | hsame
  · -- The target of an earlier write is not on the way, not even to itself.
    exfalso
    by_cases heq : write.1 = target
    · rw [heq] at hadmits hpasses
      refine hadmits.unmade ⟨Path.isPath_above hadmits.path, ?_⟩
      rwa [hadmits.reach]
    · rw [hsegments, List.dropLast_concat] at hpasses
      obtain ⟨ancestor, hancestor, hplace⟩ := (exists_ancestor_iff tree hsegments _).mpr hpasses
      exact hapart.apart target htarget _ (hwrites write hwrite) (Ne.symm heq) ancestor hancestor
        hplace
  · rw [hmakes.isFile hworking, isFile, hget]
  · rw [isFile, isFile, hsame]

theorem makes_iff (place : List String) : tree'.Makes target place ↔ tree.Makes target place := by
  rw [Makes, Makes, h.reach_eq hworking hapart hwrites htarget, origin, h.grows.working, ← origin]

/-- A target admits a file after the writes if it did before. -/
theorem admits_iff : tree'.Admits target ↔ tree.Admits target := by
  have hreach := h.reach_eq hworking hapart hwrites htarget
  have hmakes := h.makes_iff hworking hapart hwrites htarget
  constructor
  · intro hadmits
    have hunmade := hadmits.unmade
    rw [h.grows.place_eq, hmakes] at hunmade
    refine ⟨hadmits.path, hreach ▸ hadmits.reach, ?_, hunmade⟩
    by_contra hdirectory
    have hkept := h.grows.directory (tree.place target) (by simpa using hdirectory)
    rw [← h.grows.place_eq, hadmits.directory] at hkept
    cases hkept
  · intro hadmits
    refine ⟨hadmits.path, hreach.trans hadmits.reach, ?_,
      by rw [h.grows.place_eq, hmakes]; exact hadmits.unmade⟩
    rw [h.grows.place_eq, isDirectory]
    rcases h.get?_cases (tree.place target) with
      ⟨write, -, -, -, hget⟩ | ⟨write, hwrite, hmade, -⟩ | hsame
    · rw [hget]
    · exact absurd hmade (hapart.not_makes htarget (hwrites write hwrite) hadmits)
    · rw [hsame]
      exact hadmits.directory

theorem obstacle?_eq : tree'.obstacle? target = tree.obstacle? target := by
  rw [obstacle?, obstacle?, h.reach_eq hworking hapart hwrites htarget]
  simp only [h.admits_iff hworking hapart hwrites htarget]

/-- One more write has the effect that it would have had alone. -/
theorem append {tree'' : FileTree} {content : ByteArray}
    (h' : Filled tree' [(target, content)] tree'')
    (hsame : ∀ write ∈ writes, write.1 = target → write.2 = content) :
    Filled tree (writes ++ [(target, content)]) tree'' := by
  have hself := List.mem_singleton_self (target, content)
  have hadmits := h.admits_iff hworking hapart hwrites htarget
  have hmakes := h.makes_iff hworking hapart hwrites htarget
  have hresolve := h'.resolve _ hself
  have hcontent := h'.content _ hself
  have hdirectory := h'.directory _ hself
  simp only [h.grows.place_eq, hadmits, hmakes] at hresolve hcontent hdirectory
  refine ⟨h'.closed, h.grows.trans h'.grows, ?_, ?_, ?_, fun place hplace => ?_⟩
  · refine List.forall_mem_append.mpr ⟨fun write hwrite hwritten => ?_, by simpa using hresolve⟩
    exact resolve?_of_grows h'.grows (h.resolve write hwrite hwritten)
  · refine List.forall_mem_append.mpr ⟨fun write hwrite hwritten => ?_, by simpa using hcontent⟩
    by_cases heq : write.1 = target
    · rw [heq] at hwritten ⊢
      rw [hcontent hwritten, hsame write hwrite heq]
    · rw [← h.content write hwrite hwritten]
      apply h'.other
      simp only [List.mem_singleton, forall_eq, h.grows.place_eq, hmakes]
      refine ⟨fun _ hplace => heq ?_, hapart.not_makes (hwrites write hwrite) htarget hwritten⟩
      exact hapart.distinct _ (hwrites write hwrite) _ htarget hplace.symm
  · refine List.forall_mem_append.mpr
      ⟨fun write hwrite place hmade => ?_, by simpa using hdirectory⟩
    exact h'.grows.directory _ (h.directory write hwrite place hmade)
  · rw [List.forall_mem_append] at hplace
    rw [h'.other place, h.other place hplace.1]
    simpa [h.grows.place_eq, hadmits, hmakes] using hplace.2

end Next

/-- **The writes determine the tree.** -/
theorem get?_eq {tree₁ : FileTree} {writes₁ : List (Path × ByteArray)}
    (h₁ : Filled tree writes₁ tree₁) (hwrites : ∀ write, write ∈ writes ↔ write ∈ writes₁)
    (place : List String) : tree'.get? place = tree₁.get? place := by
  rcases h.get?_cases place with
    ⟨write, hwrite, hadmits, rfl, hget⟩ | ⟨write, hwrite, hmakes, hget⟩ | hsame
  · rw [hget, h₁.content write ((hwrites write).mp hwrite) hadmits]
  · have hmade := h₁.directory write ((hwrites write).mp hwrite) place hmakes
    rw [hget, (isDirectory_iff _ _).mp hmade]
  rcases h₁.get?_cases place with
    ⟨write, hwrite, hadmits, rfl, hget⟩ | ⟨write, hwrite, hmakes, hget⟩ | hsame₁
  · rw [hget, h.content write ((hwrites write).mpr hwrite) hadmits]
  · have hmade := h.directory write ((hwrites write).mpr hwrite) place hmakes
    rw [hget, (isDirectory_iff _ _).mp hmade]
  · rw [hsame, hsame₁]

end Filled

end FileTree

end NamedTree
