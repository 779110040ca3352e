import NamedTree.FileTree
import Mathlib.Data.List.Basic
import Mathlib.Data.List.Infix
import Mathlib.Data.List.Nodup

/-! # Places in file trees

A path names a place by its segments alone, whatever the tree holds (`FileTree.place`). If a path
can be resolved at all, it leads there (`walk_eq_follow`), and it still does in a tree where every
directory is one still (`resolve?_of_grows`).

A tree is *closed* when everything in it stands in a directory. In a closed tree making directories
and writing a file have simple descriptions. Directories are made as far as no file is in the way
(`FileTree.reach`): every place up to there becomes a directory, and all else stays as it was
(`exists_makeDirectories`). A file comes to stand at the place of its path
(`write?_of_writable`). -/

namespace NamedTree

/-- The paths above a path, one for each shorter beginning of its segments. -/
def Path.ancestors (path : Path) : List Path :=
  (List.range path.segments.length).map fun n => { path with segments := path.segments.take n }

namespace FileTree

/-- The place that a segment leads to from a place. -/
def stepTo (place : List String) (segment : String) : List String :=
  if Path.isFiller segment then place
  else if segment = ".." then place.dropLast
  else place ++ [segment]

/-- The place that segments lead to from a place. -/
def follow (place : List String) (segments : List String) : List String :=
  segments.foldl stepTo place

/-- The place that a path names, whatever stands on the way. -/
def place (tree : FileTree) (path : Path) : List String :=
  follow (tree.origin path) path.segments

/-- Segments pass a place when a beginning of them leads there. -/
def Passes (start segments place : List String) : Prop :=
  ∃ before, before <+: segments ∧ follow start before = place

/-- Whether a file stands at a place. -/
def isFile (tree : FileTree) (place : List String) : Bool :=
  match tree.get? place with
  | some (.file _) => true
  | _ => false

/-- The segments up to the first one that is no name or leads to a file. -/
def reach (tree : FileTree) (start : List String) : List String → List String
  | [] => []
  | segment :: segments =>
    if isName segment && !tree.isFile (stepTo start segment) then
      segment :: tree.reach (stepTo start segment) segments
    else []

/-- Everything stands in a directory. -/
def Closed (tree : FileTree) : Prop :=
  ∀ place, (tree.get? place).isSome → tree.isDirectory place.dropLast = true

/-- A tree with the same working directory in which every directory is one still. -/
structure Grows (tree tree' : FileTree) : Prop where
  working : tree'.working = tree.working
  directory : ∀ place, tree.isDirectory place = true → tree'.isDirectory place = true

theorem Grows.refl (tree : FileTree) : Grows tree tree := ⟨rfl, fun _ h => h⟩

theorem Grows.trans {tree₁ tree₂ tree₃ : FileTree} (h : Grows tree₁ tree₂)
    (h' : Grows tree₂ tree₃) : Grows tree₁ tree₃ :=
  ⟨h'.working.trans h.working, fun place hplace => h'.directory place (h.directory place hplace)⟩

/-! ### What stands at a place -/

theorem isDirectory_iff (tree : FileTree) (place : List String) :
    tree.isDirectory place = true ↔ tree.get? place = some .directory := by
  unfold isDirectory
  split <;> simp_all

theorem isFile_iff (tree : FileTree) (place : List String) :
    tree.isFile place = true ↔ ∃ content, tree.get? place = some (.file content) := by
  unfold isFile
  split <;> simp_all

theorem isFile_of_isDirectory {tree : FileTree} {place : List String}
    (h : tree.isDirectory place = true) : tree.isFile place = false := by
  rw [isFile, (tree.isDirectory_iff place).mp h]

@[simp] theorem get?_nil (tree : FileTree) : tree.get? [] = some .directory := rfl

theorem lookup_filter_ne {entries : List (List String × Entry)} {place other : List String}
    (h : other ≠ place) :
    (entries.filter (·.1 ≠ place)).lookup other = entries.lookup other := by
  induction entries with
  | nil => rfl
  | cons entry entries ih =>
    by_cases hentry : entry.1 = place
    · have hother : (other == entry.1) = false := by simpa [hentry] using h
      rw [List.filter_cons_of_neg (by simpa using hentry), List.lookup_cons, hother, ih]
    · rw [List.filter_cons_of_pos (by simpa using hentry), List.lookup_cons, List.lookup_cons, ih]

/-- What stands at a place after an entry was put somewhere. -/
theorem get?_put (tree : FileTree) {place : List String} (hplace : place ≠ []) (entry : Entry)
    (other : List String) :
    (tree.put place entry).get? other = if other = place then some entry else tree.get? other := by
  by_cases hnil : other = []
  · rw [hnil, get?_nil, get?_nil, if_neg hplace.symm]
  · have hempty : other.isEmpty = false := by simpa using hnil
    simp only [get?, put, hempty, Bool.false_eq_true, if_false]
    by_cases hother : other = place
    · simp [hother]
    · have hbeq : (other == place) = false := by simpa using hother
      rw [if_neg hother, List.lookup_cons, hbeq]
      exact lookup_filter_ne hother

/-- Putting a directory where nothing but a directory stood keeps all directories. -/
theorem grows_put_directory (tree : FileTree) {place : List String} (hplace : place ≠ []) :
    Grows tree (tree.put place .directory) := by
  refine ⟨rfl, fun other hother => ?_⟩
  rw [isDirectory_iff] at hother ⊢
  rw [get?_put tree hplace]
  split_ifs
  · rfl
  · exact hother

/-- Putting a file where no directory stands keeps all directories. -/
theorem grows_put_file (tree : FileTree) {place : List String} (hplace : place ≠ [])
    (hdirectory : tree.isDirectory place = false) (content : ByteArray) :
    Grows tree (tree.put place (.file content)) := by
  refine ⟨rfl, fun other hother => ?_⟩
  have hne : other ≠ place := by
    rintro rfl
    rw [hdirectory] at hother
    cases hother
  rw [isDirectory_iff] at hother ⊢
  rw [get?_put tree hplace, if_neg hne, hother]

theorem Closed.put {tree : FileTree} (h : tree.Closed) {place : List String} {entry : Entry}
    (hplace : place ≠ []) (hparent : tree.isDirectory place.dropLast = true)
    (hgrows : Grows tree (tree.put place entry)) : (tree.put place entry).Closed := by
  intro other hother
  apply hgrows.directory
  rw [get?_put tree hplace] at hother
  split_ifs at hother with heq
  · rwa [heq]
  · exact h other hother

theorem Closed.isDirectory_dropLast {tree : FileTree} (h : tree.Closed) {place : List String}
    (hplace : tree.isDirectory place = true) : tree.isDirectory place.dropLast = true := by
  apply h
  rw [(tree.isDirectory_iff place).mp hplace]
  rfl

/-! ### Following segments -/

@[simp] theorem follow_nil (start : List String) : follow start [] = start := rfl

@[simp] theorem follow_cons (start : List String) (segment : String) (segments : List String) :
    follow start (segment :: segments) = follow (stepTo start segment) segments := rfl

theorem follow_append (start before after : List String) :
    follow start (before ++ after) = follow (follow start before) after :=
  List.foldl_append ..

theorem passes_start (start segments : List String) : Passes start segments start :=
  ⟨[], List.nil_prefix, rfl⟩

theorem passes_nil_iff {start place : List String} : Passes start [] place ↔ start = place := by
  constructor
  · rintro ⟨before, hbefore, rfl⟩
    rw [List.prefix_nil.mp hbefore, follow_nil]
  · rintro rfl
    exact passes_start start []

theorem passes_cons_iff {start : List String} {segment : String} {segments place : List String} :
    Passes start (segment :: segments) place ↔
      start = place ∨ Passes (stepTo start segment) segments place := by
  constructor
  · rintro ⟨before, hbefore, rfl⟩
    rcases List.prefix_cons_iff.mp hbefore with rfl | ⟨rest, rfl, hrest⟩
    · exact Or.inl rfl
    · exact Or.inr ⟨rest, hrest, rfl⟩
  · rintro (rfl | ⟨before, hbefore, rfl⟩)
    · exact passes_start start _
    · exact ⟨segment :: before, (List.prefix_cons_inj segment).mpr hbefore, rfl⟩

/-- A path passes the places of the paths above it. -/
theorem exists_ancestor_iff (tree : FileTree) {path : Path} {way : List String} {last : String}
    (hpath : path.segments = way ++ [last]) (place : List String) :
    (∃ ancestor ∈ path.ancestors, tree.place ancestor = place) ↔
      Passes (tree.origin path) way place := by
  simp only [Path.ancestors, List.mem_map, List.mem_range, hpath, List.length_append,
    List.length_singleton]
  constructor
  · rintro ⟨_, ⟨n, hn, rfl⟩, rfl⟩
    refine ⟨way.take n, List.take_prefix n way, ?_⟩
    rw [FileTree.place, List.take_append_of_le_length (by omega)]
    rfl
  · rintro ⟨before, hbefore, rfl⟩
    refine ⟨_, ⟨before.length, Nat.lt_succ_of_le hbefore.length_le, rfl⟩, ?_⟩
    rw [FileTree.place, List.take_append_of_le_length hbefore.length_le,
      ← List.prefix_iff_eq_take.mp hbefore]
    rfl

/-! ### Resolving paths -/

theorem isDirectory_origin {tree : FileTree} (hworking : tree.isDirectory tree.working = true)
    (path : Path) : tree.isDirectory (tree.origin path) = true := by
  unfold origin
  split_ifs
  · rfl
  · exact hworking

theorem walk_nil (tree : FileTree) (start : List String) : tree.walk start [] = some start := by
  rw [walk]

/-- One segment of a walk. -/
theorem walk_cons_eq_some {tree : FileTree} {start : List String} {segment : String}
    {segments place : List String} (h : tree.walk start (segment :: segments) = some place) :
    tree.isDirectory start = true ∧ isName segment = true ∧
      tree.walk (stepTo start segment) segments = some place := by
  have hfiller : Path.isFiller segment = true → isName segment = true := by
    intro hfiller
    simp only [Path.isFiller, Bool.or_eq_true, decide_eq_true_eq] at hfiller
    rcases hfiller with rfl | rfl <;> decide
  rw [walk] at h
  unfold stepTo
  by_cases hdirectory : tree.isDirectory start = true
  · rw [if_neg (by simp [hdirectory])] at h
    split_ifs at h ⊢ with hfill hparent hname
    · exact ⟨hdirectory, hfiller hfill, h⟩
    · exact ⟨hdirectory, by rw [hparent]; decide, h⟩
    · exact ⟨hdirectory, hname, h⟩
  · rw [if_pos (by simp [hdirectory])] at h
    cases h

theorem walk_cons_of_isDirectory {tree : FileTree} {start : List String}
    (hdirectory : tree.isDirectory start = true) {segment : String} (hname : isName segment = true)
    (segments : List String) :
    tree.walk start (segment :: segments) = tree.walk (stepTo start segment) segments := by
  rw [walk, if_neg (by simp [hdirectory])]
  unfold stepTo
  split_ifs
  · rfl
  · rfl
  · rfl

/-- A walk leads to the place that the segments name. -/
theorem walk_eq_follow {tree : FileTree} {start segments place : List String}
    (h : tree.walk start segments = some place) : follow start segments = place := by
  induction segments generalizing start with
  | nil => rw [walk_nil] at h; exact Option.some.inj h
  | cons segment segments ih => exact ih (walk_cons_eq_some h).2.2

theorem walk_append (tree : FileTree) (start before after : List String) :
    tree.walk start (before ++ after) =
      (tree.walk start before).bind fun place => tree.walk place after := by
  induction before generalizing start with
  | nil => rw [List.nil_append, walk_nil]; rfl
  | cons segment before ih =>
    rw [List.cons_append, walk, walk]
    split_ifs
    · rfl
    · exact ih _
    · exact ih _
    · exact ih _
    · rfl

theorem walk_of_grows {tree tree' : FileTree} (hgrows : Grows tree tree')
    {start segments place : List String} (h : tree.walk start segments = some place) :
    tree'.walk start segments = some place := by
  induction segments generalizing start with
  | nil => rw [walk_nil] at h ⊢; exact h
  | cons segment segments ih =>
    obtain ⟨hdirectory, hname, hwalk⟩ := walk_cons_eq_some h
    rw [walk_cons_of_isDirectory (hgrows.directory start hdirectory) hname]
    exact ih hwalk

theorem Grows.place_eq {tree tree' : FileTree} (h : Grows tree tree') (path : Path) :
    tree'.place path = tree.place path := by
  rw [place, place, origin, origin, h.working]

theorem resolve?_eq_some_iff {tree : FileTree} {path : Path} {place : List String} :
    tree.resolve? path = some place ↔ (path.isEmpty = false ∧ isPath path = true) ∧
      tree.walk (tree.origin path) path.segments = some place := by
  rw [resolve?]
  cases path.isEmpty <;> cases isPath path <;> simp

theorem resolve?_eq_place {tree : FileTree} {path : Path} {place : List String}
    (h : tree.resolve? path = some place) : tree.place path = place :=
  walk_eq_follow (resolve?_eq_some_iff.mp h).2

theorem walk_origin_of_grows {tree tree' : FileTree} (hgrows : Grows tree tree') {path : Path}
    {place : List String} (h : tree.walk (tree.origin path) path.segments = some place) :
    tree'.walk (tree'.origin path) path.segments = some place := by
  rw [origin, hgrows.working]
  exact walk_of_grows hgrows h

/-- A path leads to the same place in a tree that has grown. -/
theorem resolve?_of_grows {tree tree' : FileTree} (hgrows : Grows tree tree') {path : Path}
    {place : List String} (h : tree.resolve? path = some place) :
    tree'.resolve? path = some place := by
  rw [resolve?_eq_some_iff] at h ⊢
  exact ⟨h.1, walk_origin_of_grows hgrows h.2⟩

/-- A file that stands where it stood is read as before. -/
theorem read?_of_grows {tree tree' : FileTree} (hgrows : Grows tree tree') {path : Path}
    {place : List String} (hwalk : tree.walk (tree.origin path) path.segments = some place)
    (hget : tree'.get? place = tree.get? place) : tree'.read? path = tree.read? path := by
  rw [read?, read?, resolve?, resolve?, walk_origin_of_grows hgrows hwalk, hwalk]
  split_ifs
  · rfl
  · simp only [Option.bind_some, hget]

/-! ### Writing files -/

/-- A file can be written at a path that leads to a place where no directory stands. -/
def Writable (tree : FileTree) (path : Path) : Prop :=
  ∃ place, tree.resolve? path = some place ∧ tree.isDirectory place = false

theorem write?_of_writable {tree : FileTree} {path : Path} (h : tree.Writable path)
    (content : ByteArray) :
    tree.write? path content = some (tree.put (tree.place path) (.file content)) := by
  obtain ⟨place, hplace, hdirectory⟩ := h
  rw [write?, hplace, resolve?_eq_place hplace]
  simp [hdirectory]

theorem ne_nil_of_isDirectory_eq_false {tree : FileTree} {place : List String}
    (h : tree.isDirectory place = false) : place ≠ [] := by
  rintro rfl
  cases h

/-- What was written is read back. -/
theorem read?_write? {tree tree' : FileTree} {path : Path} (h : tree.Writable path)
    {content : ByteArray} (hwrite : tree.write? path content = some tree') :
    tree'.read? path = some content := by
  rw [write?_of_writable h] at hwrite
  obtain ⟨place, hplace, hdirectory⟩ := h
  have hne := ne_nil_of_isDirectory_eq_false hdirectory
  rw [resolve?_eq_place hplace] at hwrite
  cases hwrite
  have hgrows := grows_put_file tree hne hdirectory content
  rw [read?, resolve?_of_grows hgrows hplace, Option.bind_some, get?_put tree hne, if_pos rfl]

/-! ### Making directories -/

theorem reach_cons_of_free {tree : FileTree} {start : List String} {segment : String}
    (hname : isName segment = true) (hfree : tree.isFile (stepTo start segment) = false)
    (segments : List String) :
    tree.reach start (segment :: segments) =
      segment :: tree.reach (stepTo start segment) segments := by
  rw [reach, hname, hfree]
  rfl

/-- How far segments reach depends only on where files stand on the way. -/
theorem reach_congr {tree tree' : FileTree} {start segments : List String}
    (h : ∀ place, Passes start segments place → tree'.isFile place = tree.isFile place) :
    tree'.reach start segments = tree.reach start segments := by
  induction segments generalizing start with
  | nil => rfl
  | cons segment segments ih =>
    rw [reach, reach, h _ (passes_cons_iff.mpr (Or.inr (passes_start _ _))),
      ih fun place hplace => h place (passes_cons_iff.mpr (Or.inr hplace))]

theorem reach_eq_self {tree : FileTree} {start segments : List String}
    (hnames : ∀ segment ∈ segments, isName segment = true)
    (hfree : ∀ place, Passes start segments place → tree.isFile place = false) :
    tree.reach start segments = segments := by
  induction segments generalizing start with
  | nil => rfl
  | cons segment segments ih =>
    rw [reach_cons_of_free (hnames segment (List.mem_cons_self ..))
      (hfree _ (passes_cons_iff.mpr (Or.inr (passes_start _ _)))),
      ih (fun other hother => hnames other (List.mem_cons_of_mem _ hother))
        fun place hplace => hfree place (passes_cons_iff.mpr (Or.inr hplace))]

theorem reach_prefix (tree : FileTree) (start segments : List String) :
    tree.reach start segments <+: segments := by
  induction segments generalizing start with
  | nil => exact List.prefix_refl []
  | cons segment segments ih =>
    rw [reach]
    split_ifs
    · exact (List.prefix_cons_inj segment).mpr (ih _)
    · exact List.nil_prefix

theorem isFile_of_passes_reach {tree : FileTree} {start segments place : List String}
    (hstart : tree.isFile start = false) (h : Passes start (tree.reach start segments) place) :
    tree.isFile place = false := by
  induction segments generalizing start with
  | nil => rwa [← passes_nil_iff.mp h]
  | cons segment segments ih =>
    rw [reach] at h
    split_ifs at h with hfree
    · rw [Bool.and_eq_true, Bool.not_eq_true'] at hfree
      rcases passes_cons_iff.mp h with rfl | h
      · exact hstart
      · exact ih hfree.2 h
    · rwa [← passes_nil_iff.mp h]

/-- One segment that is a name and leads to no file: the place that it leads to is a directory
afterwards, and nothing else has changed. -/
theorem exists_makeDirectories_cons {tree : FileTree} (hclosed : tree.Closed) {start : List String}
    (hstart : tree.isDirectory start = true) {segment : String} (hname : isName segment = true)
    (hfree : tree.isFile (stepTo start segment) = false) (segments : List String) :
    ∃ tree', tree.makeDirectories start (segment :: segments) =
        tree'.makeDirectories (stepTo start segment) segments ∧
      tree'.Closed ∧ Grows tree tree' ∧ tree'.isDirectory (stepTo start segment) = true ∧
      ∀ place, place ≠ stepTo start segment → tree'.get? place = tree.get? place := by
  have hparent := hclosed.isDirectory_dropLast hstart
  rw [makeDirectories]
  unfold stepTo at hfree ⊢
  split_ifs at hfree ⊢ with hfiller hdots hrefused
  · exact ⟨tree, rfl, hclosed, Grows.refl tree, hstart, fun _ _ => rfl⟩
  · exact ⟨tree, rfl, hclosed, Grows.refl tree, hparent, fun _ _ => rfl⟩
  · simp [hname] at hrefused
  · cases hget : tree.get? (start ++ [segment]) with
    | none =>
      have hne : start ++ [segment] ≠ [] := by simp
      have hgrows := grows_put_directory tree hne
      refine ⟨tree.put (start ++ [segment]) .directory, rfl, ?_, hgrows, ?_, ?_⟩
      · exact hclosed.put hne (by rwa [List.dropLast_concat]) hgrows
      · rw [isDirectory_iff, get?_put tree hne, if_pos rfl]
      · intro place hplace
        rw [get?_put tree hne, if_neg hplace]
    | some entry =>
      cases entry with
      | file content =>
        rw [(tree.isFile_iff _).mpr ⟨content, hget⟩] at hfree
        cases hfree
      | directory =>
        exact ⟨tree, rfl, hclosed, Grows.refl tree, (tree.isDirectory_iff _).mpr hget,
          fun _ _ => rfl⟩

/-- A segment that is no name or leads to a file ends the making of directories. -/
theorem makeDirectories_cons_of_blocked {tree : FileTree} (hclosed : tree.Closed)
    {start : List String} (hstart : tree.isDirectory start = true) {segment : String}
    (hblocked : ¬ (isName segment && !tree.isFile (stepTo start segment)) = true)
    (segments : List String) :
    tree.makeDirectories start (segment :: segments) = (tree, false) := by
  have hparent := hclosed.isDirectory_dropLast hstart
  rw [makeDirectories]
  unfold stepTo at hblocked
  split_ifs at hblocked ⊢ with hfiller hdots hrefused
  · rw [isFile_of_isDirectory hstart] at hblocked
    simp only [Path.isFiller, Bool.or_eq_true, decide_eq_true_eq] at hfiller
    rcases hfiller with rfl | rfl <;> exact absurd (by decide) hblocked
  · rw [isFile_of_isDirectory hparent, hdots] at hblocked
    exact absurd (by decide) hblocked
  · rfl
  · have hname : isName segment = true := by simpa using hrefused
    rw [hname, Bool.true_and, Bool.not_eq_true', Bool.not_eq_false] at hblocked
    obtain ⟨content, hcontent⟩ := (tree.isFile_iff _).mp hblocked
    simp only [hcontent]

/-- **Making directories.** All places as far as the segments reach become directories, and all else
stays as it was. The end is reached if no segment is blocked. -/
theorem exists_makeDirectories {tree : FileTree} (hclosed : tree.Closed) {start : List String}
    (hstart : tree.isDirectory start = true) (segments : List String) :
    ∃ tree', tree.makeDirectories start segments =
        (tree', decide (tree.reach start segments = segments)) ∧ tree'.Closed ∧ Grows tree tree' ∧
      (∀ place, Passes start (tree.reach start segments) place → tree'.isDirectory place = true) ∧
      (∀ place, ¬ Passes start (tree.reach start segments) place →
        tree'.get? place = tree.get? place) ∧
      tree'.walk start (tree.reach start segments) =
        some (follow start (tree.reach start segments)) := by
  induction segments generalizing tree start with
  | nil =>
    refine ⟨tree, by rw [makeDirectories, reach]; rfl, hclosed, Grows.refl tree, ?_, fun _ _ => rfl,
      walk_nil tree start⟩
    intro place hpasses
    rwa [← passes_nil_iff.mp hpasses]
  | cons segment segments ih =>
    by_cases hfree : (isName segment && !tree.isFile (stepTo start segment)) = true
    · rw [Bool.and_eq_true, Bool.not_eq_true'] at hfree
      obtain ⟨hname, hfree⟩ := hfree
      obtain ⟨tree₁, hmake, hclosed₁, hgrows₁, hstart₁, hsame₁⟩ :=
        exists_makeDirectories_cons hclosed hstart hname hfree segments
      -- The new directory blocks nothing, so the other segments reach as far as before.
      have hreach : tree₁.reach (stepTo start segment) segments =
          tree.reach (stepTo start segment) segments := by
        apply reach_congr
        intro place _
        by_cases hplace : place = stepTo start segment
        · rw [hplace, isFile_of_isDirectory hstart₁, hfree]
        · rw [isFile, isFile, hsame₁ place hplace]
      obtain ⟨tree', hmake', hclosed', hgrows', hmade, hsame, hwalk⟩ := ih hclosed₁ hstart₁
      rw [hreach] at hmake' hmade hsame hwalk
      have hgrows := hgrows₁.trans hgrows'
      rw [reach_cons_of_free hname hfree]
      refine ⟨tree', ?_, hclosed', hgrows, ?_, ?_, ?_⟩
      · rw [hmake, hmake']
        simp
      · intro place hpasses
        rcases passes_cons_iff.mp hpasses with rfl | hpasses
        · exact hgrows.directory _ hstart
        · exact hmade place hpasses
      · intro place hpasses
        rw [passes_cons_iff, not_or] at hpasses
        have hplace : place ≠ stepTo start segment :=
          fun h => hpasses.2 (h ▸ passes_start _ _)
        rw [hsame place hpasses.2, hsame₁ place hplace]
      · rw [walk_cons_of_isDirectory (hgrows.directory _ hstart) hname]
        exact hwalk
    · have hreach : tree.reach start (segment :: segments) = [] := by rw [reach, if_neg hfree]
      rw [hreach]
      refine ⟨tree, ?_, hclosed, Grows.refl tree, ?_, fun _ _ => rfl, walk_nil tree start⟩
      · rw [makeDirectories_cons_of_blocked hclosed hstart hfree]
        rfl
      · intro place hpasses
        rwa [← passes_nil_iff.mp hpasses]

end FileTree

end NamedTree
