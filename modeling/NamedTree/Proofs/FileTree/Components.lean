import NamedTree.Proofs.FileTree.Paths
import Mathlib.Data.List.Infix

/-! # What the operations on paths mean

A path means its list of components, and the operations on paths are operations on that list,
however the path is spelled. Leaving the fillers at the end out changes nothing
(`components_trimEnd`); the name of a file is the last component and its parent has the others
(`fileName?_of_components`, `exists_parent?`); what is left below a base are the components after
those of the base (`exists_relativeTo?`); and joining appends (`IsPlain.components_join`).

The first segment is an exception in all of this, because a dot there is a component. A path that
starts with neither a dot nor a slash is *plain*; its components are those of its segments alone. -/

namespace NamedTree.Path

/-- The component that a path has besides those of its segments: the root, or a dot in front. -/
def lead (path : Path) : List Component :=
  if path.rooted then [.root] else if path.startsAtDot then [.current] else []

/-- A path that starts with a step of its own, not at the root and not with a filler. -/
structure IsPlain (path : Path) : Prop where
  rooted : path.rooted = false
  head : ∀ segment ∈ path.segments.head?, isFiller segment = false

/-! ### The components of segments -/

theorem filterMap_component?_fillers {fillers : List String}
    (h : ∀ filler ∈ fillers, isFiller filler = true) : fillers.filterMap component? = [] :=
  List.filterMap_eq_nil_iff.mpr fun filler hfiller =>
    (component?_eq_none_iff filler).mpr (h filler hfiller)

theorem filterMap_component?_dropFillers (segments : List String) :
    (dropFillers segments).filterMap component? = segments.filterMap component? := by
  obtain ⟨fillers, hfillers, hsegments⟩ := exists_eq_dropFillers_append segments
  conv_rhs => rw [hsegments, List.filterMap_append, filterMap_component?_fillers hfillers,
    List.append_nil]

theorem filterMap_component?_dropWhile (segments : List String) :
    (segments.dropWhile isFiller).filterMap component? = segments.filterMap component? := by
  have hfillers : ∀ filler ∈ segments.takeWhile isFiller, isFiller filler = true :=
    fun filler hfiller => List.mem_takeWhile_imp hfiller
  conv_rhs => rw [← List.takeWhile_append_dropWhile (p := isFiller) (l := segments),
    List.filterMap_append, filterMap_component?_fillers hfillers, List.nil_append]

theorem filterMap_component?_dropComponents (n : ℕ) (segments : List String) :
    (dropComponents n segments).filterMap component? =
      (segments.filterMap component?).drop n := by
  fun_induction dropComponents n segments with
  | case1 segments => rw [List.drop_zero]
  | case2 n => rfl
  | case3 n segment segments hfiller ih =>
    rw [ih, List.filterMap_cons_none ((component?_eq_none_iff segment).mpr hfiller)]
  | case4 n segment segments hfiller ih =>
    obtain ⟨component, hcomponent⟩ := exists_component? (Bool.eq_false_iff.mpr hfiller)
    rw [ih, List.filterMap_cons_some hcomponent, List.drop_succ_cons]

theorem component?_eq_name {segment name : String} (h : component? segment = some (.name name)) :
    segment = name ∧ isFiller segment = false ∧ segment ≠ ".." := by
  unfold component? at h
  split_ifs at h with hfiller hdots
  · cases h
  · exact ⟨Component.name.inj (Option.some.inj h), by simpa using hfiller, hdots⟩

/-- Two segments with one component are the same. -/
theorem component?_inj {segment segment' : String} {component : Component}
    (h : component? segment = some component) (h' : component? segment' = some component) :
    segment = segment' := by
  unfold component? at h h'
  split_ifs at h h' with _ hdots _ hdots'
  · rw [hdots, hdots']
  · cases h
    cases h'
  · cases h
    cases h'
  · cases h
    cases h'
    rfl

theorem components_eq (path : Path) :
    path.components = path.lead ++ path.segments.filterMap component? := rfl

theorem lead_congr {path path' : Path} (hrooted : path.rooted = path'.rooted)
    (hdot : path.startsAtDot = path'.startsAtDot) : path.lead = path'.lead := by
  rw [lead, lead, hrooted, hdot]

/-- The first segment decides what a path has in front. -/
theorem lead_of_head?_eq {rooted : Bool} {segments segments' : List String}
    (h : segments.head? = segments'.head?) :
    (⟨rooted, segments⟩ : Path).lead = (⟨rooted, segments'⟩ : Path).lead :=
  lead_congr rfl (by rw [startsAtDot, startsAtDot, h])

theorem name_notMem_lead (path : Path) (name : String) : .name name ∉ path.lead := by
  unfold lead
  split_ifs <;> simp

/-! ### The ends of paths -/

theorem head?_of_isPrefix {as bs : List String} (h : as <+: bs) (hne : as ≠ []) :
    as.head? = bs.head? := by
  obtain ⟨rest, rfl⟩ := h
  obtain ⟨a, as, rfl⟩ := List.exists_cons_of_ne_nil hne
  rfl

theorem isFiller_of_dropFillers_eq {segments way : List String} {last : String}
    (h : dropFillers segments = way ++ [last]) : isFiller last = false := by
  have hreverse : segments.reverse.dropWhile isFiller = last :: way.reverse := by
    rw [← List.reverse_reverse (segments.reverse.dropWhile isFiller), ← dropFillers, h,
      List.reverse_append]
    rfl
  have hhead := List.head?_dropWhile_not isFiller segments.reverse
  rwa [hreverse] at hhead

theorem components_trimEnd (path : Path) : path.trimEnd.components = path.components := by
  have hkept := filterMap_component?_dropFillers path.segments
  by_cases hempty : dropFillers path.segments = []
  · -- Nothing but fillers: the dot in front is put back, and it has no component of its own.
    rw [hempty, List.filterMap_nil] at hkept
    cases hdot : path.startsAtDot with
    | true =>
      have htrim : path.trimEnd = ⟨path.rooted, ["."]⟩ := by simp [trimEnd, hempty, hdot]
      have hrooted : path.rooted = false := by
        rw [startsAtDot, Bool.and_eq_true, Bool.not_eq_true'] at hdot
        exact hdot.1
      have hlead : (⟨path.rooted, ["."]⟩ : Path).lead = path.lead :=
        lead_congr rfl (by rw [hdot, startsAtDot, hrooted]; rfl)
      rw [htrim, components_eq, components_eq, hlead, ← hkept]
      rfl
    | false =>
      have htrim : path.trimEnd = ⟨path.rooted, []⟩ := by simp [trimEnd, hempty, hdot]
      have hlead : (⟨path.rooted, []⟩ : Path).lead = path.lead :=
        lead_congr rfl (by rw [hdot, startsAtDot]; simp)
      rw [htrim, components_eq, components_eq, hlead, ← hkept]
      rfl
  · have hhead := head?_of_isPrefix (dropFillers_isPrefix path.segments) hempty
    have htrim : path.trimEnd = ⟨path.rooted, dropFillers path.segments⟩ := by
      simp [trimEnd, hempty]
    rw [htrim, components_eq, components_eq, lead_of_head?_eq hhead, hkept]

/-- A path whose last component is a name ends in this name, and in fillers. -/
theorem exists_trimEnd_eq {path : Path} {init : List Component} {name : String}
    (h : path.components = init ++ [.name name]) :
    ∃ way, path.trimEnd = ⟨path.rooted, way ++ [name]⟩ ∧ way <+: path.segments ∧
      (⟨path.rooted, way⟩ : Path).components = init ∧ isFiller name = false ∧ name ≠ ".." := by
  rw [components_eq, ← filterMap_component?_dropFillers] at h
  have hbegins := dropFillers_isPrefix path.segments
  rcases List.eq_nil_or_concat (dropFillers path.segments) with hnil | ⟨way, last, hlast⟩
  · rw [hnil, List.filterMap_nil, List.append_nil] at h
    exact absurd (by simp [h]) (path.name_notMem_lead name)
  · rw [List.concat_eq_append] at hlast
    obtain ⟨component, hcomponent⟩ := exists_component? (isFiller_of_dropFillers_eq hlast)
    rw [hlast, List.filterMap_append, List.filterMap_cons_some hcomponent, List.filterMap_nil,
      ← List.append_assoc] at h
    obtain ⟨hinit, hname⟩ := List.append_inj' h rfl
    rw [List.singleton_inj] at hname
    subst hname
    obtain ⟨rfl, hplain, hdots⟩ := component?_eq_name hcomponent
    refine ⟨way, by simp [trimEnd, hlast], ?_, ?_, hplain, hdots⟩
    · exact (List.prefix_append way _).trans (hlast ▸ hbegins)
    · rw [hlast] at hbegins
      have hlead : (⟨path.rooted, way⟩ : Path).lead = path.lead := by
        cases way with
        | nil =>
          have hhead : path.segments.head? = some last :=
            (head?_of_isPrefix hbegins (by simp)).symm
          have hdot : last ≠ "." := by
            rintro rfl
            cases hplain
          exact lead_congr rfl (by simp [startsAtDot, hhead, hdot])
        | cons segment way =>
          exact lead_of_head?_eq (head?_of_isPrefix hbegins (by simp) : some segment = _)
      rw [components_eq, ← hinit, hlead]

theorem fileName?_of_components {path : Path} {init : List Component} {name : String}
    (h : path.components = init ++ [.name name]) : path.fileName? = some name := by
  obtain ⟨way, htrim, -, -, hfiller, hdots⟩ := exists_trimEnd_eq h
  rw [fileName?, htrim]
  simp [hfiller, hdots]

theorem IsPlain.of_isPrefix {path : Path} (h : path.IsPlain) {segments : List String}
    (hbegins : segments <+: path.segments) : (⟨false, segments⟩ : Path).IsPlain := by
  refine ⟨rfl, fun segment hsegment => h.head segment ?_⟩
  rw [← head?_of_isPrefix hbegins]
  · exact hsegment
  · rintro rfl
    cases hsegment

theorem IsPlain.startsAtDot {path : Path} (h : path.IsPlain) : path.startsAtDot = false := by
  have hdot : path.segments.head? ≠ some "." := fun hdot => Bool.noConfusion (h.head "." hdot)
  simp [Path.startsAtDot, hdot]

theorem IsPlain.components {path : Path} (h : path.IsPlain) :
    path.components = path.segments.filterMap component? := by
  rw [Path.components, h.startsAtDot, h.rooted]
  rfl

theorem IsPlain.trimEnd {path : Path} (h : path.IsPlain) : path.trimEnd.IsPlain := by
  have htrim : path.trimEnd = ⟨false, dropFillers path.segments⟩ := by
    simp [Path.trimEnd, h.startsAtDot, h.rooted]
  rw [htrim]
  exact h.of_isPrefix (dropFillers_isPrefix path.segments)

theorem exists_parent? {path : Path} {init : List Component} {name : String}
    (h : path.components = init ++ [.name name]) :
    ∃ parent, path.parent? = some parent ∧ parent.components = init ∧
      (path.IsPlain → parent.IsPlain) := by
  obtain ⟨way, htrim, hway, hinit, -, -⟩ := exists_trimEnd_eq h
  refine ⟨(⟨path.rooted, way⟩ : Path).trimEnd, ?_, (components_trimEnd _).trans hinit, fun hplain => ?_⟩
  · simp [parent?, htrim]
  · rw [hplain.rooted]
    exact (hplain.of_isPrefix hway).trimEnd

/-! ### Below a base -/

theorem isPlain_of_components {path : Path} (hproper : path.isProper = true) {names : List String}
    (h : path.components = names.map .name) : path.IsPlain := by
  have hlead : path.lead = [] := by
    rw [List.eq_nil_iff_forall_not_mem]
    intro component hcomponent
    have hmem : component ∈ names.map Component.name := by
      rw [← h, components_eq]
      exact List.mem_append_left _ hcomponent
    obtain ⟨name, -, rfl⟩ := List.mem_map.mp hmem
    exact path.name_notMem_lead name hcomponent
  unfold lead at hlead
  split_ifs at hlead with hrooted hdot
  simp only [Bool.not_eq_true] at hrooted
  refine ⟨hrooted, fun segment hsegment => ?_⟩
  have hsome : path.segments.head? = some segment := hsegment
  simp only [isProper, startsAtDot, hrooted, hsome] at hproper hdot
  simpa [isFiller] using And.intro hproper hdot

/-- What is left of a path after some of its components. -/
theorem exists_segments {path base : Path} (hne : base.components.length ≠ 0)
    (hbegins : base.components.isPrefixOf path.components = true) :
    ∃ segments : List String,
      path.relativeTo? base = some ⟨false, dropFillers (segments.dropWhile isFiller)⟩ ∧
      segments.filterMap component? = path.components.drop base.components.length := by
  obtain ⟨n, hn⟩ := Nat.exists_eq_succ_of_ne_zero hne
  simp only [relativeTo?, hbegins, hn]
  cases hrooted : path.rooted with
  | true =>
    refine ⟨dropComponents n path.segments, by simp, ?_⟩
    rw [filterMap_component?_dropComponents, components, hrooted]
    rfl
  | false =>
    cases hdot : path.startsAtDot with
    | true =>
      -- The dot in front has a component here, and none among the segments.
      obtain ⟨rest, hrest⟩ : ∃ rest, path.segments = "." :: rest := by
        have hfirst : path.segments.head? = some "." := by simpa [startsAtDot, hrooted] using hdot
        exact List.head?_eq_some_iff.mp hfirst
      refine ⟨dropComponents n rest, by simp [hrest], ?_⟩
      rw [filterMap_component?_dropComponents, components, hrooted, hdot, hrest]
      rfl
    | false =>
      refine ⟨dropComponents (n + 1) path.segments, by simp, ?_⟩
      rw [filterMap_component?_dropComponents, components, hrooted, hdot]
      rfl

/-- **What is left below a base** are the components after those of the base. -/
theorem exists_relativeTo? {path base : Path} (hproper : path.isProper = true) {names : List String}
    (h : path.components = base.components ++ names.map .name) :
    ∃ rest, path.relativeTo? base = some rest ∧ rest.IsPlain ∧
      rest.components = names.map .name := by
  have hbegins : base.components.isPrefixOf path.components = true := by simp [h]
  by_cases hcount : base.components.length = 0
  · rw [List.length_eq_zero_iff.mp hcount, List.nil_append] at h
    refine ⟨path.trimEnd, by simp [relativeTo?, hbegins, hcount], ?_, ?_⟩
    · exact (isPlain_of_components hproper h).trimEnd
    · rw [components_trimEnd, h]
  · obtain ⟨segments, hrelative, hsegments⟩ := exists_segments hcount hbegins
    have hhead : ∀ segment ∈ (segments.dropWhile isFiller).head?, isFiller segment = false := by
      intro segment hsegment
      have hnot := List.head?_dropWhile_not isFiller segments
      rwa [show (segments.dropWhile isFiller).head? = some segment from hsegment] at hnot
    have hdropped : (⟨false, segments.dropWhile isFiller⟩ : Path).IsPlain := ⟨rfl, hhead⟩
    have hplain := hdropped.of_isPrefix (dropFillers_isPrefix (segments.dropWhile isFiller))
    refine ⟨_, hrelative, hplain, ?_⟩
    rw [hplain.components, filterMap_component?_dropFillers, filterMap_component?_dropWhile,
      hsegments, h, List.drop_left]

/-- A plain path is joined after the open end of the base, possibly with a slash in between. -/
theorem IsPlain.exists_join {path : Path} (h : path.IsPlain) (base : Path) :
    ∃ segments, base.join path = ⟨base.rooted, base.openEnd ++ segments⟩ ∧
      segments.head? ≠ some "." ∧
      segments.filterMap component? = path.segments.filterMap component? := by
  obtain ⟨rooted, names⟩ := path
  obtain rfl : rooted = false := h.rooted
  have hdot : names.head? ≠ some "." := fun hdot => Bool.noConfusion (h.head "." hdot)
  rw [join_relative]
  split_ifs with hempty hnames
  · exact ⟨names, by simp [openEnd, List.isEmpty_iff.mp hempty], hdot, rfl⟩
  · exact ⟨[""], rfl, by simp, by simp [List.isEmpty_iff.mp hnames, component?, isFiller]⟩
  · exact ⟨names, rfl, hdot, rfl⟩

/-- **Joining appends the components.** -/
theorem IsPlain.components_join {path : Path} (h : path.IsPlain) {base : Path}
    (hproper : base.isProper = true) :
    (base.join path).components = base.components ++ path.components := by
  obtain ⟨segments, hjoin, hdot, hsegments⟩ := h.exists_join base
  rw [hjoin, Path.components_join hproper hdot, hsegments, h.components]

theorem IsPlain.isProper_join {path : Path} (h : path.IsPlain) {base : Path}
    (hproper : base.isProper = true) : (base.join path).isProper = true := by
  obtain ⟨rooted, names⟩ := path
  obtain rfl : rooted = false := h.rooted
  rw [join_relative, isProper]
  cases hrooted : base.rooted with
  | true => rfl
  | false =>
    have hopen := head?_openEnd hproper hrooted
    have hfirst : base.segments.head? ≠ some "" := by simpa [isProper, hrooted] using hproper
    have hname : names.head? ≠ some "" := fun hname => Bool.noConfusion (h.head "" hname)
    cases hsegments : base.segments with
    | nil => simpa using hname
    | cons segment segments =>
      rw [hsegments] at hopen hfirst
      simpa [List.head?_append, hopen] using hfirst

/-! ### Paths from texts -/

theorem notMem_of_mem_splitOn {cs part : List Char} {c : Char} (h : part ∈ cs.splitOn c) :
    c ∉ part := by
  induction cs generalizing part with
  | nil =>
    obtain rfl : part = [] := by simpa using h
    exact List.not_mem_nil
  | cons d cs ih =>
    rw [List.splitOn_cons_eq_if_modifyHead] at h
    split_ifs at h with hd
    · rcases List.mem_cons.mp h with rfl | h
      · exact List.not_mem_nil
      · exact ih h
    · obtain ⟨first, others, hsplit⟩ := List.exists_cons_of_ne_nil (List.splitOn_ne_nil c cs)
      rw [hsplit] at h ih
      rcases List.mem_cons.mp h with rfl | h
      · have hne : c ≠ d := fun heq => hd (by simp [heq])
        simpa [hne] using ih (List.mem_cons_self ..)
      · exact ih (List.mem_cons_of_mem _ h)

theorem splitOn_append {as : List Char} {c : Char} (h : c ∉ as) (bs : List Char) :
    (as ++ bs).splitOn c = (bs.splitOn c).modifyHead (as ++ ·) := by
  induction as with
  | nil => cases hsplit : bs.splitOn c <;> simp [hsplit]
  | cons a as ih =>
    rw [List.mem_cons, not_or] at h
    have hne : ¬ (a == c) = true := by simpa using Ne.symm h.1
    rw [List.cons_append, List.splitOn_cons_eq_if_modifyHead, if_neg hne, ih h.2,
      List.modifyHead_modifyHead]
    rfl

theorem ofText_eq {text : String} {c : Char} {cs : List Char} (htext : text.toList = c :: cs)
    (hc : c ≠ '/') : ofText text = ⟨false, ((c :: cs).splitOn '/').map String.ofList⟩ := by
  unfold ofText
  rw [htext]
  split
  · rename_i h
    cases h
  · rename_i h
    exact absurd (List.cons.inj h).1 hc
  · rename_i h
    exact absurd (List.cons.inj h).1 hc
  · rfl

theorem slash_notMem_of_mem_segments {text segment : String}
    (h : segment ∈ (ofText text).segments) : '/' ∉ segment.toList := by
  unfold ofText at h
  split at h
  · cases h
  · cases h
  · obtain ⟨part, hpart, rfl⟩ := List.mem_map.mp h
    simpa using notMem_of_mem_splitOn hpart
  · obtain ⟨part, hpart, rfl⟩ := List.mem_map.mp h
    simpa using notMem_of_mem_splitOn hpart

/-- A name in the components of a path is one of its segments. -/
theorem mem_segments_of_mem_components {path : Path} {name : String}
    (h : .name name ∈ path.components) : name ∈ path.segments := by
  rw [components_eq, List.mem_append] at h
  rcases h with h | h
  · exact absurd h (path.name_notMem_lead name)
  · obtain ⟨segment, hsegment, hcomponent⟩ := List.mem_filterMap.mp h
    obtain ⟨rfl, -, -⟩ := component?_eq_name hcomponent
    exact hsegment

end NamedTree.Path
