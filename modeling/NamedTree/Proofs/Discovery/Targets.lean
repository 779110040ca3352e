import NamedTree.Proofs.FileTree.Paths
import NamedTree.Proofs.FileTree.Places
import NamedTree.Render

/-! # Documents and their output paths

A file tree is *well-formed* when it could be on a disk: no two entries at one place, everything in
a directory, and names that entries can have (`FileTree.WellFormed`). In such a tree a discovered
document lies below the root under directories `dirs` and the name `stem ++ ".ast.json"`
(`Discovery.Located`). Its path leads to a file, and its output path is the output directory with
`dirs` and the stem with the new extension below it. So two documents with the same target are the
same document (`Discovery.eq_of_place_outputPath_eq`). -/

namespace NamedTree

/-- A file tree that could be on a disk. -/
structure FileTree.WellFormed (tree : FileTree) : Prop where
  distinct : (tree.entries.map (·.1)).Nodup
  root : ∀ entry ∈ tree.entries, entry.1 = [] → entry.2 = .directory
  parents : ∀ entry ∈ tree.entries, tree.isDirectory entry.1.dropLast = true
  names : ∀ entry ∈ tree.entries, ∀ name ∈ entry.1, isEntryName name = true
  working : tree.isDirectory tree.working = true

namespace FileTree

/-! ### Well-formed trees -/

instance (entry : Entry) : Decidable (entry = .directory) :=
  match entry with
  | .directory => isTrue rfl
  | .file _ => isFalse nofun

instance (tree : FileTree) : Decidable tree.WellFormed :=
  decidable_of_iff
    ((tree.entries.map (·.1)).Nodup ∧
      (∀ entry ∈ tree.entries, entry.1 = [] → entry.2 = .directory) ∧
      (∀ entry ∈ tree.entries, tree.isDirectory entry.1.dropLast = true) ∧
      (∀ entry ∈ tree.entries, ∀ name ∈ entry.1, isEntryName name = true) ∧
      tree.isDirectory tree.working = true)
    ⟨fun h => ⟨h.1, h.2.1, h.2.2.1, h.2.2.2.1, h.2.2.2.2⟩,
      fun h => ⟨h.distinct, h.root, h.parents, h.names, h.working⟩⟩

theorem lookup_eq_some_of_mem {entries : List (List String × Entry)}
    (hdistinct : (entries.map (·.1)).Nodup) {place : List String} {entry : Entry}
    (h : (place, entry) ∈ entries) : entries.lookup place = some entry := by
  induction entries with
  | nil => cases h
  | cons first entries ih =>
    rw [List.map_cons, List.nodup_cons] at hdistinct
    rw [List.lookup_cons]
    rcases List.mem_cons.mp h with rfl | h
    · simp
    · have hne : (place == first.1) = false := by
        rw [beq_eq_false_iff_ne]
        rintro rfl
        exact hdistinct.1 (List.mem_map.mpr ⟨_, h, rfl⟩)
      rw [hne]
      exact ih hdistinct.2 h

theorem mem_of_lookup_eq_some {entries : List (List String × Entry)} {place : List String}
    {entry : Entry} (h : entries.lookup place = some entry) : (place, entry) ∈ entries := by
  induction entries with
  | nil => cases h
  | cons first entries ih =>
    rw [List.lookup_cons] at h
    split at h
    · rename_i hfirst
      rw [beq_iff_eq] at hfirst
      rw [hfirst, ← Option.some.inj h]
      exact List.mem_cons_self ..
    · exact List.mem_cons_of_mem _ (ih h)

namespace WellFormed
variable {tree : FileTree} (h : tree.WellFormed)
include h

theorem get?_of_mem {place : List String} {entry : Entry} (hmem : (place, entry) ∈ tree.entries) :
    tree.get? place = some entry := by
  cases place with
  | nil => rw [get?_nil, show entry = .directory from h.root _ hmem rfl]
  | cons name names => exact lookup_eq_some_of_mem h.distinct hmem

theorem closed : tree.Closed := by
  intro place hplace
  cases place with
  | nil => rfl
  | cons name names =>
    obtain ⟨entry, hentry⟩ := Option.isSome_iff_exists.mp hplace
    exact h.parents _ (mem_of_lookup_eq_some hentry)

theorem isEntryName_of_file {place : List String} {content : ByteArray}
    (hfile : tree.get? place = some (.file content)) :
    ∀ name ∈ place, isEntryName name = true := by
  cases place with
  | nil => cases hfile
  | cons name names => exact h.names _ (mem_of_lookup_eq_some hfile)

end WellFormed

/-! ### Walking along names -/

theorem stepTo_of_isEntryName {name : String} (h : isEntryName name = true) (start : List String) :
    stepTo start name = start ++ [name] := by
  rw [stepTo, Path.isFiller_of_isEntryName h, if_neg Bool.false_ne_true,
    if_neg (Path.ne_dots_of_isEntryName h)]

theorem follow_names {names : List String} (h : ∀ name ∈ names, isEntryName name = true)
    (start : List String) : follow start names = start ++ names := by
  induction names generalizing start with
  | nil => rw [follow_nil, List.append_nil]
  | cons name names ih =>
    rw [follow_cons, stepTo_of_isEntryName (h name (List.mem_cons_self ..)),
      ih fun other hother => h other (List.mem_cons_of_mem _ hother), List.append_assoc]
    rfl

/-- In a closed tree all places above something are directories. -/
theorem Closed.isDirectory_of_append {tree : FileTree} (hclosed : tree.Closed)
    {place names : List String} (hne : names ≠ []) (h : (tree.get? (place ++ names)).isSome) :
    tree.isDirectory place = true := by
  induction names using List.reverseRecOn with
  | nil => exact absurd rfl hne
  | append_singleton names name ih =>
    have hparent := hclosed _ h
    rw [← List.append_assoc, List.dropLast_concat] at hparent
    by_cases hnames : names = []
    · rwa [hnames, List.append_nil] at hparent
    · apply ih hnames
      rw [(tree.isDirectory_iff _).mp hparent]
      rfl

theorem Closed.walk_names {tree : FileTree} (hclosed : tree.Closed) {place names : List String}
    (hnames : ∀ name ∈ names, isEntryName name = true)
    (h : (tree.get? (place ++ names)).isSome) : tree.walk place names = some (place ++ names) := by
  induction names generalizing place with
  | nil => rw [walk_nil, List.append_nil]
  | cons name names ih =>
    have hname := hnames name (List.mem_cons_self ..)
    have hplace : place ++ name :: names = place ++ [name] ++ names := by simp
    rw [walk_cons_of_isDirectory (hclosed.isDirectory_of_append (List.cons_ne_nil _ _) h)
      (Path.isName_of_isEntryName hname), stepTo_of_isEntryName hname, hplace]
    rw [hplace] at h
    exact ih (fun other hother => hnames other (List.mem_cons_of_mem _ hother)) h

/-- A slash at the end of a path leads nowhere else. -/
theorem walk_openEnd {tree : FileTree} {path : Path} {start place : List String}
    (h : tree.walk start path.segments = some place) :
    tree.walk start path.openEnd = some place := by
  unfold Path.openEnd
  split_ifs with hlast
  · obtain ⟨way, hway⟩ := List.getLast?_eq_some_iff.mp hlast
    rw [hway, walk_append] at h
    obtain ⟨last, hwalk, hstep⟩ := Option.bind_eq_some_iff.mp h
    have hsame := (walk_cons_eq_some hstep).2.2
    rw [walk_nil] at hsame
    rw [hway, List.dropLast_concat, hwalk, ← hsame]
    rfl
  · exact h

theorem follow_openEnd (start : List String) (path : Path) :
    follow start path.openEnd = follow start path.segments := by
  unfold Path.openEnd
  split_ifs with hlast
  · obtain ⟨way, hway⟩ := List.getLast?_eq_some_iff.mp hlast
    rw [hway, List.dropLast_concat, follow_append]
    rfl
  · rfl

/-- A path that leads to a file ends in the name of the file. -/
theorem exists_segments_of_file {tree : FileTree} (hwf : tree.WellFormed) {path : Path}
    {place : List String} (hwalk : tree.walk (tree.origin path) path.segments = some place)
    {content : ByteArray} (hfile : tree.get? place = some (.file content)) :
    ∃ way name, path.segments = way ++ [name] ∧ isEntryName name = true := by
  have hdirectory : tree.isDirectory place ≠ true := by
    rw [Ne, isDirectory_iff, hfile]
    exact fun h => by cases h
  rcases List.eq_nil_or_concat path.segments with hsegments | ⟨way, last, hsegments⟩
  · rw [hsegments, walk_nil] at hwalk
    cases hwalk
    exact absurd (isDirectory_origin hwf.working path) hdirectory
  · rw [List.concat_eq_append] at hsegments
    rw [hsegments, walk_append] at hwalk
    obtain ⟨above, -, hstep⟩ := Option.bind_eq_some_iff.mp hwalk
    obtain ⟨habove, -, hplace⟩ := walk_cons_eq_some hstep
    rw [walk_nil] at hplace
    refine ⟨way, last, hsegments, ?_⟩
    -- A filler or a step up would have led to a directory.
    unfold stepTo at hplace
    split_ifs at hplace with hfiller hdots
    · cases hplace
      exact absurd habove hdirectory
    · cases hplace
      exact absurd (hwf.closed.isDirectory_dropLast habove) hdirectory
    · cases hplace
      exact hwf.isEntryName_of_file hfile last (by simp)

end FileTree

/-! ### Documents below a root -/

namespace Discovery

open FileTree (isEntryName)

theorem eq_append_of_stem? {name stem : String} (h : stem? name = some stem) :
    name = stem ++ documentSuffix := by
  simp only [stem?] at h
  split_ifs at h with hsuffix
  obtain ⟨before, hbefore⟩ := List.isSuffixOf_iff_suffix.mp hsuffix
  rw [← hbefore, List.length_append, Nat.add_sub_cancel, List.take_left,
    Option.some_inj] at h
  rw [← String.toList_inj, ← h, String.toList_append, String.toList_ofList, hbefore]

/-- A path to a document ends in a stem and the document suffix. -/
theorem exists_stem {path : Path} {name : String} (hfile : path.fileName? = some name)
    (h : isDocument path = true) :
    ∃ stem, stem ≠ "" ∧ name = stem ++ documentSuffix ∧ outputStem path = stem := by
  rw [isDocument, hfile, Option.bind_some] at h
  cases hstem : stem? name with
  | none => rw [hstem] at h; cases h
  | some stem =>
    rw [hstem] at h
    refine ⟨stem, by simpa using h, eq_append_of_stem? hstem, ?_⟩
    rw [outputStem, hfile, Option.getD_some, hstem, Option.getD_some]

/-- The name of an output file is one that an entry can have. -/
theorem isEntryName_output {stem : String} (h : isEntryName (stem ++ documentSuffix) = true)
    (hne : stem ≠ "") (format : Format) :
    isEntryName (stem ++ "." ++ format.extension) = true := by
  have hextension : format.extension.utf8ByteSize = 4 ∧ format.extension.length = 4 ∧
      '\x00' ∉ format.extension.toList ∧ '/' ∉ format.extension.toList := by
    cases format <;> decide
  obtain ⟨hsize, hlength, hnul, hslash⟩ := hextension
  have hsuffix : documentSuffix.utf8ByteSize = 9 := by decide
  have hlong : 5 < (stem ++ "." ++ format.extension).length := by
    have hpos : 0 < stem.length := Nat.pos_of_ne_zero (by simpa using hne)
    have hdot : ".".length = 1 := rfl
    rw [String.length_append, String.length_append, hlength, hdot]
    omega
  have hshort : ∀ text : String, text.length ≤ 5 → stem ++ "." ++ format.extension ≠ text :=
    fun text htext heq => by rw [heq] at hlong; omega
  simp only [isEntryName, FileTree.isName, Path.isFiller, Bool.and_eq_true, Bool.not_eq_true',
    decide_eq_true_eq, Bool.or_eq_false_iff, decide_eq_false_iff_not, bne_iff_ne,
    List.contains_eq_mem, String.utf8ByteSize_append, String.toList_append, List.mem_append,
    not_or] at h ⊢
  refine ⟨⟨⟨⟨?_, ⟨h.1.1.1.2.1, by decide⟩, hnul⟩, hshort "" (by decide), hshort "." (by decide)⟩,
    hshort ".." (by decide)⟩, ⟨h.2.1, by decide⟩, hslash⟩
  have hdot : ".".utf8ByteSize = 1 := rfl
  have hstem := h.1.1.1.1
  omega

/-- Documents that are found in the order of their paths. -/
theorem discover_of_pairwise {tree : FileTree} {root : Path} {documents : List Path}
    (h : (filesUnder? tree root).map (·.filter isDocument) = some documents)
    (hsorted : documents.Pairwise fun path path' => Path.le path path' = true) :
    discover tree root = .ok documents := by
  obtain ⟨paths, hpaths, rfl⟩ := Option.map_eq_some_iff.mp h
  rw [discover, hpaths]
  exact congrArg Except.ok (List.mergeSort_of_pairwise hsorted)

/-- A document of a tree below a root, under directories and a stem. -/
structure Located (tree : FileTree) (root document : Path) (dirs : List String) (stem : String) :
    Prop where
  isEntryName_dirs : ∀ dir ∈ dirs, isEntryName dir = true
  isEntryName_stem : isEntryName (stem ++ documentSuffix) = true
  stem_ne : stem ≠ ""
  walk : tree.walk (tree.origin document) document.segments = some (tree.place document)
  file : ∃ content, tree.get? (tree.place document) = some (.file content)
  output : ∀ (outDir : Path) (format : Format),
    outputPath root document outDir format.extension =
      ⟨outDir.rooted, outDir.openEnd ++ dirs ++ [stem ++ "." ++ format.extension]⟩

theorem ofText_output {stem : String} (h : isEntryName (stem ++ documentSuffix) = true)
    (hne : stem ≠ "") (format : Format) :
    Path.ofText (stem ++ "." ++ format.extension) = ⟨false, [stem ++ "." ++ format.extension]⟩ := by
  have hname := isEntryName_output h hne format
  apply Path.ofText_of_not_mem (Path.ne_empty_of_isEntryName hname)
  simp only [isEntryName, Bool.and_eq_true, Bool.not_eq_true', List.contains_eq_mem,
    decide_eq_false_iff_not] at hname
  exact hname.2

theorem exists_file_of_mem_filesBelow {tree : FileTree} {place names : List String}
    (h : names ∈ tree.filesBelow place) :
    ∃ content, (place ++ names, FileTree.Entry.file content) ∈ tree.entries := by
  obtain ⟨⟨other, entry⟩, hmem, hnames⟩ := List.mem_filterMap.mp h
  cases entry with
  | directory => cases hnames
  | file content =>
    simp only at hnames
    split_ifs at hnames with hbegins
    obtain ⟨rest, rfl⟩ := List.isPrefixOf_iff_prefix.mp hbegins
    rw [List.drop_left] at hnames
    rw [← Option.some.inj hnames]
    exact ⟨content, hmem⟩

/-- A file below a directory whose name is that of a document. -/
theorem located_of_mem_filesBelow {tree : FileTree} (hwf : tree.WellFormed) {root : Path}
    (hproper : root.isProper = true) {place : List String}
    (hwalk : tree.walk (tree.origin root) root.segments = some place)
    (hdirectory : tree.get? place = some .directory)
    {names : List String} (hnames : names ∈ tree.filesBelow place)
    (hdocument : isDocument (root.join ⟨false, names⟩) = true) :
    ∃ dirs stem, ⟨root.rooted, root.openEnd ++ (dirs ++ [stem ++ documentSuffix])⟩ =
        root.join ⟨false, names⟩ ∧
      Located tree root (root.join ⟨false, names⟩) dirs stem := by
  obtain ⟨content, hmem⟩ := exists_file_of_mem_filesBelow hnames
  have hget := hwf.get?_of_mem hmem
  have hentries : ∀ name ∈ names, isEntryName name = true :=
    fun name hname => hwf.names _ hmem name (List.mem_append_right place hname)
  have hne : names ≠ [] := by
    rintro rfl
    rw [List.append_nil, hdirectory] at hget
    cases hget
  obtain ⟨dirs, name, rfl⟩ := (List.eq_nil_or_concat names).resolve_left hne
  rw [List.concat_eq_append] at *
  have hjoin := Path.join_names root hne
  have hsegments :
      (root.join ⟨false, dirs ++ [name]⟩).segments = root.openEnd ++ dirs ++ [name] := by
    rw [hjoin, List.append_assoc]
  have hname := hentries name (by simp)
  have hdirs : ∀ dir ∈ dirs, isEntryName dir = true :=
    fun dir hdir => hentries dir (List.mem_append_left _ hdir)
  obtain ⟨stem, hstem, rfl, hout⟩ := exists_stem (Path.fileName?_concat hsegments hname) hdocument
  have hplace : tree.walk (tree.origin (root.join ⟨false, dirs ++ [stem ++ documentSuffix]⟩))
      (root.join ⟨false, dirs ++ [stem ++ documentSuffix]⟩).segments =
        some (place ++ (dirs ++ [stem ++ documentSuffix])) := by
    have hroot := FileTree.walk_openEnd hwalk
    rw [FileTree.origin] at hroot ⊢
    rw [hjoin, FileTree.walk_append, hroot, Option.bind_some,
      hwf.closed.walk_names hentries (by rw [hget]; rfl)]
  have hthere : tree.place (root.join ⟨false, dirs ++ [stem ++ documentSuffix]⟩) =
      place ++ (dirs ++ [stem ++ documentSuffix]) :=
    FileTree.walk_eq_follow hplace
  refine ⟨dirs, stem, hjoin.symm, hdirs, hname, hstem, by rw [hthere, hplace],
    ⟨content, by rw [hthere, hget]⟩, fun outDir format => ?_⟩
  have hrelative : (root.join ⟨false, dirs ++ [stem ++ documentSuffix]⟩).relativeTo? root =
      some ⟨false, dirs ++ [stem ++ documentSuffix]⟩ := by
    rw [hjoin]
    exact Path.relativeTo?_openEnd_append hproper hentries
  simp only [outputPath, hrelative, Option.getD_some, Path.parent?_names hdirs hname, hout,
    ofText_output hname hstem]
  exact Path.join_join outDir (fun dir hdir => Path.ne_empty_of_isEntryName (hdirs dir hdir)) _

/-- A root that is a document itself. -/
theorem located_self {tree : FileTree} (hwf : tree.WellFormed) {root : Path}
    (hproper : root.isProper = true) {place : List String}
    (hwalk : tree.walk (tree.origin root) root.segments = some place) {content : ByteArray}
    (hfile : tree.get? place = some (.file content)) (hdocument : isDocument root = true) :
    ∃ stem, Located tree root root [] stem := by
  obtain ⟨way, name, hsegments, hname⟩ := FileTree.exists_segments_of_file hwf hwalk hfile
  obtain ⟨stem, hne, rfl, hstem⟩ := exists_stem (Path.fileName?_concat hsegments hname) hdocument
  obtain rfl : tree.place root = place := FileTree.walk_eq_follow hwalk
  refine ⟨stem, by simp, hname, hne, hwalk, ⟨content, hfile⟩, fun outDir format => ?_⟩
  have hopen : root.openEnd = root.segments :=
    Path.openEnd_concat root hsegments (Path.ne_empty_of_isEntryName hname)
  have hrelative : root.relativeTo? root = some ⟨false, []⟩ := by
    have hnone : ∀ name ∈ ([] : List String), isEntryName name = true := by simp
    have h := Path.relativeTo?_openEnd_append hproper hnone
    rwa [List.append_nil, hopen] at h
  have hparent : (⟨false, []⟩ : Path).parent? = none := rfl
  simp only [outputPath, hrelative, Option.getD_some, hparent, hstem, ofText_output hname hne]
  rw [Path.join_names _ (List.cons_ne_nil _ _), List.append_nil]

/-- **Discovered documents** lie below the root, and each is determined by its directories and
stem. -/
theorem exists_located {tree : FileTree} (hwf : tree.WellFormed) {root : Path}
    (hproper : root.isProper = true) {documents : List Path}
    (h : discover tree root = .ok documents) :
    ∃ pathOf : List String → String → Path, ∀ document ∈ documents, ∃ dirs stem,
      pathOf dirs stem = document ∧ Located tree root document dirs stem := by
  rw [discover, filesUnder?] at h
  cases hresolve : tree.resolve? root with
  | none => rw [hresolve] at h; cases h
  | some place =>
    rw [hresolve] at h
    simp only at h
    have hwalk := (FileTree.resolve?_eq_some_iff.mp hresolve).2
    cases hget : tree.get? place with
    | none => rw [hget] at h; cases h
    | some entry =>
      rw [hget] at h
      cases entry with
      | file content =>
        cases h
        refine ⟨fun _ _ => root, fun document hdocument => ?_⟩
        rw [List.mem_mergeSort, List.mem_filter, List.mem_singleton] at hdocument
        obtain ⟨rfl, hdocument⟩ := hdocument
        obtain ⟨stem, hlocated⟩ := located_self hwf hproper hwalk hget hdocument
        exact ⟨[], stem, rfl, hlocated⟩
      | directory =>
        simp only at h
        split_ifs at h
        cases h
        refine ⟨fun dirs stem => ⟨root.rooted, root.openEnd ++ (dirs ++ [stem ++ documentSuffix])⟩,
          fun document hdocument => ?_⟩
        rw [List.mem_mergeSort, List.mem_filter, List.mem_map] at hdocument
        obtain ⟨⟨names, hnames, rfl⟩, hdocument⟩ := hdocument
        exact located_of_mem_filesBelow hwf hproper hwalk hget hnames hdocument

/-- The place of an output file. -/
theorem Located.place_outputPath {tree : FileTree} {root document : Path} {dirs : List String}
    {stem : String} (h : Located tree root document dirs stem) (outDir : Path) (format : Format) :
    tree.place (outputPath root document outDir format.extension) =
      tree.place outDir ++ dirs ++ [stem ++ "." ++ format.extension] := by
  have hfile := isEntryName_output h.isEntryName_stem h.stem_ne format
  rw [h.output, FileTree.place, FileTree.follow_append, FileTree.follow_append,
    FileTree.follow_openEnd, FileTree.follow_names h.isEntryName_dirs,
    FileTree.follow_names (by simpa using hfile)]
  rfl

/-- **Documents with the same target are the same document.** -/
theorem eq_of_place_outputPath_eq {tree : FileTree} (hwf : tree.WellFormed) {root : Path}
    (hproper : root.isProper = true) {documents : List Path}
    (h : discover tree root = .ok documents) (outDir : Path) (format : Format)
    {document document' : Path} (hdocument : document ∈ documents)
    (hdocument' : document' ∈ documents)
    (heq : tree.place (outputPath root document outDir format.extension) =
      tree.place (outputPath root document' outDir format.extension)) : document = document' := by
  obtain ⟨pathOf, hlocated⟩ := exists_located hwf hproper h
  obtain ⟨dirs, stem, rfl, hd⟩ := hlocated document hdocument
  obtain ⟨dirs', stem', rfl, hd'⟩ := hlocated document' hdocument'
  rw [hd.place_outputPath, hd'.place_outputPath] at heq
  obtain ⟨hdirs, hname⟩ := List.append_inj' heq rfl
  rw [List.append_cancel_left hdirs]
  have hstem : stem ++ "." ++ format.extension = stem' ++ "." ++ format.extension :=
    (List.cons.inj hname).1
  rw [String.append_left_inj, String.append_left_inj] at hstem
  rw [hstem]

end Discovery

end NamedTree
