import NamedTree.Discovery
import Mathlib.Data.List.TakeWhile
import Mathlib.Tactic.SplitIfs

/-! # Paths to what lies below a directory

The entries of a directory have names that stand for themselves in a path (`FileTree.isEntryName`):
no filler, no step up, no slash. A path with such names joined to it leads below it, and
`Path.relativeTo?` takes the names off again (`relativeTo?_openEnd_append`), however the path itself
is written.

A path that was read from a text is *proper*: it does not start with a slash unless it starts at the
root (`isProper_ofText`). A path that is short enough is so with all its beginnings, the path of the
directory above it among them (`isPath_above`). -/

namespace NamedTree

/-- A name that an entry of a directory can have. -/
def FileTree.isEntryName (name : String) : Bool :=
  isName name && !Path.isFiller name && name != ".." && !name.toList.contains '/'

namespace Path

/-- Whether a path without a root starts with some text. -/
def isProper (path : Path) : Bool := path.rooted || path.segments.head? != some ""

/-- The segments of a path to which names can be joined: a slash at the end is left out. -/
def openEnd (path : Path) : List String :=
  if path.segments.getLast? = some "" then path.segments.dropLast else path.segments

section Names
variable {name : String} (h : FileTree.isEntryName name = true)
include h

theorem isName_of_isEntryName : FileTree.isName name = true := by
  simp only [FileTree.isEntryName, Bool.and_eq_true] at h
  exact h.1.1.1

theorem isFiller_of_isEntryName : isFiller name = false := by
  simp only [FileTree.isEntryName, Bool.and_eq_true, Bool.not_eq_true'] at h
  exact h.1.1.2

theorem ne_dots_of_isEntryName : name ≠ ".." := by
  simp only [FileTree.isEntryName, Bool.and_eq_true, bne_iff_ne] at h
  exact h.1.2

theorem ne_empty_of_isEntryName : name ≠ "" := by
  rintro rfl
  cases isFiller_of_isEntryName h

end Names

/-! ### Joining names -/

theorem openEnd_concat (path : Path) {way : List String} {last : String}
    (hpath : path.segments = way ++ [last]) (hlast : last ≠ "") : path.openEnd = path.segments := by
  rw [openEnd, hpath, List.getLast?_concat, if_neg (by simpa using hlast)]

theorem mem_of_mem_openEnd {path : Path} {segment : String} (h : segment ∈ path.openEnd) :
    segment ∈ path.segments := by
  unfold openEnd at h
  split_ifs at h
  · exact (List.dropLast_sublist _).mem h
  · exact h

/-- Joining keeps the root of a path and goes on after its open end. -/
theorem join_relative (base : Path) (names : List String) :
    base.join ⟨false, names⟩ = ⟨base.rooted, if base.segments.isEmpty then names
      else base.openEnd ++ if names.isEmpty then [""] else names⟩ := by
  unfold join openEnd
  simp only [Bool.false_eq_true, if_false]
  split_ifs <;> rfl

theorem join_names (base : Path) {names : List String} (h : names ≠ []) :
    base.join ⟨false, names⟩ = ⟨base.rooted, base.openEnd ++ names⟩ := by
  rw [join_relative, if_neg (show ¬ names.isEmpty = true by simpa using h)]
  split_ifs with hempty
  · rw [openEnd, List.isEmpty_iff.mp hempty]
    rfl
  · rfl

/-- Joining nothing leaves the open end as it is. -/
theorem openEnd_join_nil (base : Path) : (base.join ⟨false, []⟩).openEnd = base.openEnd := by
  rw [join_relative, List.isEmpty_nil, if_pos rfl]
  split_ifs with hempty
  · rw [openEnd, openEnd, List.isEmpty_iff.mp hempty]
  · rw [openEnd, List.getLast?_concat, if_pos rfl, List.dropLast_concat]

/-- Directories and then a name can be joined one after the other. -/
theorem join_join (base : Path) {dirs : List String} (hdirs : ∀ dir ∈ dirs, dir ≠ "")
    (name : String) :
    (base.join ⟨false, dirs⟩).join ⟨false, [name]⟩ =
      ⟨base.rooted, base.openEnd ++ dirs ++ [name]⟩ := by
  rw [join_names _ (List.cons_ne_nil name [])]
  rcases List.eq_nil_or_concat dirs with rfl | ⟨way, last, rfl⟩
  · rw [openEnd_join_nil, join_relative, List.append_nil]
  · have hlast : last ≠ "" := hdirs last (by simp)
    have hopen := openEnd_concat ⟨base.rooted, base.openEnd ++ way.concat last⟩
      (by simp : base.openEnd ++ way.concat last = (base.openEnd ++ way) ++ [last]) hlast
    rw [join_names _ (by simp), hopen]

/-! ### The ends of paths -/

theorem exists_eq_dropFillers_append (segments : List String) :
    ∃ fillers, (∀ filler ∈ fillers, isFiller filler = true) ∧
      segments = dropFillers segments ++ fillers := by
  refine ⟨(segments.reverse.takeWhile isFiller).reverse, fun filler hfiller => ?_, ?_⟩
  · exact List.mem_takeWhile_imp (List.mem_reverse.mp hfiller)
  · rw [dropFillers, ← List.reverse_append, List.takeWhile_append_dropWhile,
      List.reverse_reverse]

theorem dropFillers_concat (way : List String) {last : String} (h : isFiller last = false) :
    dropFillers (way ++ [last]) = way ++ [last] := by
  simp [dropFillers, h]

theorem trimEnd_concat {path : Path} {way : List String} {last : String}
    (hpath : path.segments = way ++ [last]) (hlast : isFiller last = false) :
    path.trimEnd = path := by
  obtain ⟨rooted, segments⟩ := path
  subst hpath
  simp [trimEnd, dropFillers_concat way hlast]

theorem dropFillers_isPrefix (segments : List String) : dropFillers segments <+: segments := by
  obtain ⟨fillers, -, hsegments⟩ := exists_eq_dropFillers_append segments
  exact ⟨fillers, hsegments.symm⟩

theorem trimEnd_isPrefix (path : Path) : path.trimEnd.segments <+: path.segments := by
  simp only [trimEnd]
  split_ifs with hdot
  · simp only [startsAtDot, Bool.and_eq_true, decide_eq_true_eq] at hdot
    obtain ⟨rest, hrest⟩ := List.head?_eq_some_iff.mp hdot.2.2
    exact ⟨rest, hrest.symm⟩
  · exact dropFillers_isPrefix path.segments

theorem fileName?_concat {path : Path} {way : List String} {last : String}
    (hpath : path.segments = way ++ [last]) (hlast : FileTree.isEntryName last = true) :
    path.fileName? = some last := by
  have hfiller := isFiller_of_isEntryName hlast
  simp [fileName?, trimEnd_concat hpath hfiller, hpath, hfiller, ne_dots_of_isEntryName hlast]

theorem parent?_concat {path : Path} {way : List String} {last : String}
    (hpath : path.segments = way ++ [last]) (hlast : isFiller last = false) :
    path.parent? = some ({ path with segments := way } : Path).trimEnd := by
  simp [parent?, trimEnd_concat hpath hlast, hpath]

/-- The path of the directory above the last segment. -/
def above (path : Path) : Path := ({ path with segments := path.segments.dropLast } : Path).trimEnd

theorem parent?_eq_above {path : Path} {way : List String} {last : String}
    (hpath : path.segments = way ++ [last]) (hlast : isFiller last = false) :
    path.parent? = some path.above := by
  rw [parent?_concat hpath hlast, above, hpath, List.dropLast_concat]

/-- The parent of a path of names is the path of all names but the last. -/
theorem parent?_names {dirs : List String} {name : String}
    (hdirs : ∀ dir ∈ dirs, FileTree.isEntryName dir = true)
    (hname : FileTree.isEntryName name = true) :
    (⟨false, dirs ++ [name]⟩ : Path).parent? = some ⟨false, dirs⟩ := by
  rw [parent?_concat rfl (isFiller_of_isEntryName hname)]
  rcases List.eq_nil_or_concat dirs with rfl | ⟨way, last, rfl⟩
  · rfl
  · have hlast := hdirs last (by simp)
    have hsegments : (⟨false, way.concat last⟩ : Path).segments = way ++ [last] :=
      List.concat_eq_append
    rw [trimEnd_concat hsegments (isFiller_of_isEntryName hlast)]

/-! ### The length of paths -/

/-- The text of a path begins with the text of every beginning of the path. -/
theorem exists_toText_append {path start : Path} (hrooted : start.rooted = path.rooted)
    (h : start.segments <+: path.segments) : ∃ rest, path.toText = start.toText ++ rest := by
  obtain ⟨after, hafter⟩ := h
  rw [toText, toText, hrooted, ← hafter]
  by_cases hstart : start.segments = []
  · exact ⟨"/".intercalate after, by rw [hstart, List.nil_append, String.intercalate_nil,
      String.append_empty]⟩
  · by_cases hnil : after = []
    · exact ⟨"", by rw [hnil, List.append_nil, String.append_empty]⟩
    · refine ⟨"/" ++ "/".intercalate after, ?_⟩
      rw [String.intercalate_append_of_ne_nil hstart hnil, String.append_assoc, String.append_assoc]

/-- A path is within the limit with every path that it is a beginning of. -/
theorem isPath_of_isPrefix {path start : Path} (hrooted : start.rooted = path.rooted)
    (hbegins : start.segments <+: path.segments) (h : FileTree.isPath path = true) :
    FileTree.isPath start = true := by
  obtain ⟨rest, hrest⟩ := exists_toText_append hrooted hbegins
  simp only [FileTree.isPath, hrest, String.utf8ByteSize_append, String.toList_append,
    List.contains_eq_mem, List.mem_append, Bool.and_eq_true, Bool.not_eq_true', decide_eq_true_eq,
    decide_eq_false_iff_not, not_or] at h ⊢
  exact ⟨Nat.le_trans (Nat.le_add_right _ _) h.1, h.2.1⟩

theorem isPath_above {path : Path} (h : FileTree.isPath path = true) :
    FileTree.isPath path.above = true := by
  have hbegins : path.above.segments <+: path.segments :=
    (trimEnd_isPrefix _).trans (List.dropLast_prefix path.segments)
  have hrooted : path.above.rooted = path.rooted := rfl
  exact isPath_of_isPrefix hrooted hbegins h

/-! ### Names below a path -/

/-- A filler has no component. -/
theorem component?_eq_none_iff (segment : String) :
    component? segment = none ↔ isFiller segment = true := by
  unfold component?
  split_ifs with hfiller <;> simp [hfiller]

theorem exists_component? {segment : String} (h : isFiller segment = false) :
    ∃ component, component? segment = some component := by
  rw [← Option.ne_none_iff_exists', ne_eq, component?_eq_none_iff, h]
  exact Bool.false_ne_true

theorem filterMap_component?_openEnd (path : Path) :
    path.openEnd.filterMap component? = path.segments.filterMap component? := by
  unfold openEnd
  split_ifs with hlast
  · obtain ⟨way, hway⟩ := List.getLast?_eq_some_iff.mp hlast
    have hfiller : component? "" = none := (component?_eq_none_iff "").mpr rfl
    rw [hway, List.dropLast_concat, List.filterMap_append]
    simp [hfiller]
  · rfl

/-- After as many components as the first segments have, only fillers are left of these. -/
theorem exists_dropComponents_append (before after : List String) :
    ∃ fillers, (∀ filler ∈ fillers, isFiller filler = true) ∧
      dropComponents (before.filterMap component?).length (before ++ after) = fillers ++ after := by
  induction before with
  | nil => exact ⟨[], by simp, by rw [List.filterMap_nil, List.length_nil, dropComponents]⟩
  | cons segment before ih =>
    obtain ⟨fillers, hfillers, hdrop⟩ := ih
    by_cases hfiller : isFiller segment = true
    · rw [List.filterMap_cons_none ((component?_eq_none_iff segment).mpr hfiller), List.cons_append]
      cases hcount : (before.filterMap component?).length with
      | zero =>
        -- Nothing is dropped, so the fillers stay at the front.
        rw [hcount, dropComponents] at hdrop
        refine ⟨segment :: fillers, ?_, by rw [dropComponents, hdrop, List.cons_append]⟩
        exact List.forall_mem_cons.mpr ⟨hfiller, hfillers⟩
      | succ count =>
        rw [hcount] at hdrop
        exact ⟨fillers, hfillers, by rw [dropComponents, if_pos hfiller, hdrop]⟩
    · obtain ⟨component, hcomponent⟩ := exists_component? (Bool.eq_false_iff.mpr hfiller)
      refine ⟨fillers, hfillers, ?_⟩
      rw [List.filterMap_cons_some hcomponent, List.length_cons, List.cons_append, dropComponents,
        if_neg hfiller, hdrop]

theorem dropWhile_fillers_append {fillers : List String}
    (hfillers : ∀ filler ∈ fillers, isFiller filler = true) {names : List String}
    (hnames : ∀ name ∈ names, FileTree.isEntryName name = true) :
    (fillers ++ names).dropWhile isFiller = names := by
  rw [List.dropWhile_append_of_pos hfillers]
  cases names with
  | nil => rfl
  | cons name names =>
    exact List.dropWhile_cons_of_neg
      (by simp [isFiller_of_isEntryName (hnames name (List.mem_cons_self ..))])

theorem dropFillers_names {names : List String}
    (hnames : ∀ name ∈ names, FileTree.isEntryName name = true) : dropFillers names = names := by
  rcases List.eq_nil_or_concat names with rfl | ⟨way, last, rfl⟩
  · rfl
  · rw [List.concat_eq_append]
    exact dropFillers_concat way (isFiller_of_isEntryName (hnames last (by simp)))

/-- What is left after the components of a path that has names joined to it. -/
theorem dropFillers_dropComponents {before names : List String}
    (hnames : ∀ name ∈ names, FileTree.isEntryName name = true) :
    dropFillers ((dropComponents (before.filterMap component?).length
      (before ++ names)).dropWhile isFiller) = names := by
  obtain ⟨fillers, hfillers, hdrop⟩ := exists_dropComponents_append before names
  rw [hdrop, dropWhile_fillers_append hfillers hnames, dropFillers_names hnames]

/-- The first segment of a proper path without a root is not taken away. -/
theorem head?_openEnd {path : Path} (hproper : path.isProper = true)
    (hrooted : path.rooted = false) : path.openEnd.head? = path.segments.head? := by
  unfold openEnd
  split_ifs with hlast
  · obtain ⟨way, hway⟩ := List.getLast?_eq_some_iff.mp hlast
    cases way with
    | nil =>
      rw [isProper, hrooted, hway] at hproper
      cases hproper
    | cons segment way => rw [hway, List.dropLast_concat]; rfl
  · rfl

theorem head?_ne_dot {names : List String}
    (hnames : ∀ name ∈ names, FileTree.isEntryName name = true) : names.head? ≠ some "." := by
  intro hdot
  cases isFiller_of_isEntryName (hnames "." (List.mem_of_head? hdot))

section Join
variable {base : Path} (hproper : base.isProper = true) {segments : List String}
  (hdot : segments.head? ≠ some ".")
include hproper hdot

theorem startsAtDot_join :
    (⟨base.rooted, base.openEnd ++ segments⟩ : Path).startsAtDot = base.startsAtDot := by
  unfold startsAtDot
  cases hrooted : base.rooted with
  | true => rfl
  | false =>
    have hhead := head?_openEnd hproper hrooted
    cases hsegments : base.segments.head? with
    | none => simp [List.head?_append, hhead, hsegments, hdot]
    | some segment => simp [List.head?_append, hhead, hsegments]

theorem components_join :
    (⟨base.rooted, base.openEnd ++ segments⟩ : Path).components =
      base.components ++ segments.filterMap component? := by
  rw [components, components, startsAtDot_join hproper hdot, List.filterMap_append,
    filterMap_component?_openEnd, List.append_assoc]

end Join

/-- Only the empty path is proper, without a root or a dot in front, and without components. -/
theorem segments_eq_nil {path : Path} (hproper : path.isProper = true)
    (hrooted : path.rooted = false) (hdot : path.startsAtDot = false)
    (hcomponents : path.segments.filterMap component? = []) : path.segments = [] := by
  cases hsegments : path.segments with
  | nil => rfl
  | cons segment segments =>
    have hfiller : isFiller segment = true := by
      rw [← component?_eq_none_iff]
      exact List.filterMap_eq_nil_iff.mp hcomponents segment (by simp [hsegments])
    simp only [isFiller, Bool.or_eq_true, decide_eq_true_eq] at hfiller
    rcases hfiller with rfl | rfl
    · simp [isProper, hrooted, hsegments] at hproper
    · simp [startsAtDot, hrooted, hsegments] at hdot

/-- **Names that were joined to a path are what is left below it.** -/
theorem relativeTo?_openEnd_append {base : Path} (hproper : base.isProper = true)
    {names : List String} (hnames : ∀ name ∈ names, FileTree.isEntryName name = true) :
    (⟨base.rooted, base.openEnd ++ names⟩ : Path).relativeTo? base = some ⟨false, names⟩ := by
  have hbegins : base.components.isPrefixOf (base.components ++ names.filterMap component?) =
      true := by
    simp
  have hfirst := head?_ne_dot hnames
  rw [relativeTo?, components_join hproper hfirst]
  simp only [hbegins, Bool.not_true, Bool.false_eq_true, if_false, startsAtDot_join hproper hfirst]
  cases hrooted : base.rooted with
  | true =>
    have hcount : base.components.length - 1 = (base.openEnd.filterMap component?).length := by
      rw [filterMap_component?_openEnd]
      simp [components, hrooted]
    have hpos : base.components.length ≠ 0 := by simp [components, hrooted]
    simp only [if_neg hpos, if_true, hcount, dropFillers_dropComponents hnames]
  | false =>
    cases hdot : base.startsAtDot with
    | true =>
      -- The dot in front is a filler, so the components are those of the segments after it.
      obtain ⟨rest, hrest⟩ : ∃ rest, base.openEnd = "." :: rest := by
        have hhead := head?_openEnd hproper hrooted
        have hfirst : base.segments.head? = some "." := by simpa [startsAtDot, hrooted] using hdot
        exact List.head?_eq_some_iff.mp (hhead.trans hfirst)
      have hcount : base.components.length - 1 = (rest.filterMap component?).length := by
        have hfilter := filterMap_component?_openEnd base
        rw [hrest, List.filterMap_cons_none ((component?_eq_none_iff ".").mpr rfl)] at hfilter
        simp [components, hrooted, hdot, ← hfilter]
      have hpos : base.components.length ≠ 0 := by simp [components, hrooted, hdot]
      simp only [if_neg hpos, Bool.false_eq_true, if_false, if_true, hcount, hrest,
        List.cons_append, List.tail_cons, dropFillers_dropComponents hnames]
    | false =>
      have hcount : base.components.length = (base.openEnd.filterMap component?).length := by
        rw [filterMap_component?_openEnd]
        simp [components, hrooted, hdot]
      by_cases hzero : base.components.length = 0
      · have hsegments : base.segments = [] := by
          apply segments_eq_nil hproper hrooted hdot
          rw [← filterMap_component?_openEnd, ← List.length_eq_zero_iff, ← hcount, hzero]
        have hopen : base.openEnd = [] := by rw [openEnd, hsegments]; rfl
        rw [if_pos hzero, hopen, List.nil_append]
        rcases List.eq_nil_or_concat names with rfl | ⟨way, last, rfl⟩
        · rfl
        · have hlast := isFiller_of_isEntryName (hnames last (by simp))
          have hconcat : (⟨false, way.concat last⟩ : Path).segments = way ++ [last] :=
            List.concat_eq_append
          rw [trimEnd_concat hconcat hlast]
      · rw [if_neg hzero]
        simp only [Bool.false_eq_true, if_false, hcount, dropFillers_dropComponents hnames]

/-! ### Paths from texts -/

theorem isProper_ofText (text : String) : (ofText text).isProper = true := by
  unfold ofText
  split
  · rfl
  · rfl
  · rfl
  · rename_i hnil _ hslash
    cases hcs : text.toList with
    | nil => exact absurd hcs hnil
    | cons c cs' =>
      have hc : (c == '/') = false := by
        rw [beq_eq_false_iff_ne]
        rintro rfl
        exact hslash cs' hcs
      obtain ⟨first, rest, hsplit⟩ := List.exists_cons_of_ne_nil (List.splitOn_ne_nil '/' cs')
      rw [List.splitOn_cons_eq_if_modifyHead, hc, hsplit]
      simp [isProper]

/-- Names without slashes that are joined by slashes are the segments of their path. -/
theorem ofText_intercalate {first : String} {others : List String} (hne : first ≠ "")
    (hslash : ∀ name ∈ first :: others, '/' ∉ name.toList) :
    ofText ("/".intercalate (first :: others)) = ⟨false, first :: others⟩ := by
  obtain ⟨c, cs, hfirst⟩ := List.exists_cons_of_ne_nil fun h => hne (String.toList_eq_nil_iff.mp h)
  have hc : c ≠ '/' := by
    rintro rfl
    exact hslash first (List.mem_cons_self ..) (by simp [hfirst])
  have hsplit : ("/".intercalate (first :: others)).toList.splitOn '/' =
      (first :: others).map String.toList := by
    rw [String.toList_intercalate]
    exact List.splitOn_intercalate '/' (by simpa using hslash) (by simp)
  obtain ⟨rest, hrest⟩ : ∃ rest, ("/".intercalate (first :: others)).toList = c :: rest := by
    cases others with
    | nil => exact ⟨cs, by rw [String.intercalate_singleton, hfirst]⟩
    | cons other others =>
      rw [String.intercalate_cons_cons, String.toList_append, String.toList_append, hfirst]
      exact ⟨_, rfl⟩
  unfold ofText
  split
  · rename_i htext
    rw [hrest] at htext
    cases htext
  · rename_i htext
    rw [hrest] at htext
    exact absurd (List.cons.inj htext).1 hc
  · rename_i htext
    rw [hrest] at htext
    exact absurd (List.cons.inj htext).1 hc
  · rw [hsplit, List.map_map]
    simp

/-- A text without a slash is a path of one segment. -/
theorem ofText_of_not_mem {text : String} (hne : text ≠ "") (hslash : '/' ∉ text.toList) :
    ofText text = ⟨false, [text]⟩ := by
  have hpath := ofText_intercalate hne (List.forall_mem_singleton.mpr hslash)
  rwa [String.intercalate_singleton] at hpath

end Path

end NamedTree
