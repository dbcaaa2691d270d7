import VirtualFs.Proofs.Host.Parents

namespace VirtualFs.Host

open VirtualFs.Path (IsDownward IsSegment pieces separator)

/-- Names that a path may be made of where it matches the components of a pattern. A component is
one for a name by its test, which `"."` and `".."` only pass where the component starts with a dot.
`**` stands for any number of names, and an empty component maybe for none. -/
inductive Fits (patterns : Glob.Library) : List String → List String → Prop
  | done : Fits patterns [] []
  | skip {components names : List String} (fits : Fits patterns components names) :
      Fits patterns ("" :: components) names
  | name {component name : String} {components names : List String} {test : Bool → String → Bool}
      (compiled : patterns.compile component = .ok test) (accepted : test false name = true)
      (single : separator ∉ name.toList)
      (dots : name = "." ∨ name = ".." → component.toList.head? = some '.')
      (fits : Fits patterns components names) :
      Fits patterns (component :: components) (name :: names)
  | stop {components names : List String} (fits : Fits patterns components names) :
      Fits patterns ("**" :: components) names
  | down {name : String} {components names : List String} (downward : IsDownward name)
      (fits : Fits patterns ("**" :: components) names) :
      Fits patterns ("**" :: components) (name :: names)

/-- What is documented of libraries that answer for a sound disk. A search from the root finds paths
whose names fit the components of its pattern. An absolute path is made of the names that lead to
its node, so a path that is made of names like that stays as it is, and every directory has one. -/
structure Libraries.Lawful (libraries : Libraries) : Prop where
  patterns : libraries.patterns.Lawful
  found : ∀ {disk : Disk} {body : String} {paths : List String}, disk.Sound →
    libraries.search disk ("/" ++ body) = .ok paths → ∀ path ∈ paths,
      ∃ names, Fits libraries.patterns (pieces body) names ∧ path = names.foldl below "/"
  canonical_eq : ∀ {disk : Disk} {path full : String}, disk.Sound → Beneath "/" path →
    libraries.canonical disk path = .ok full → full = path
  exists_canonical : ∀ {disk : Disk} {path : String}, disk.Sound →
    disk.Attached (disk.start path) → disk.isDirAt path = true →
      ∃ full, libraries.canonical disk path = .ok full ∧ Beneath "/" full ∧
        ∃ inode, disk.locate path = .ok inode ∧ disk.Leads Disk.root (components full) inode

namespace Fits

variable {patterns : Glob.Library} {components front rest names : List String}

/-- The pattern of a directory fits the names that lead there and no others. -/
theorem of_escape (hlawful : patterns.Lawful) (hfront : ∀ s ∈ front, IsSegment s)
    (hfits : Fits patterns (front.map patterns.escape ++ rest) names) :
    ∃ back, names = front ++ back ∧ Fits patterns rest back := by
  induction front generalizing names with
  | nil => exact ⟨names, rfl, hfits⟩
  | cons s front ih =>
    obtain ⟨hs, hrest⟩ := List.forall_mem_cons.mp hfront
    rw [List.map_cons, List.cons_append] at hfits
    generalize hcomponent : patterns.escape s = component at hfits
    cases hfits with
    | skip => exact absurd (hlawful.escape_eq_empty_iff.mp hcomponent) hs.1
    | name compiled accepted _ _ fits =>
      subst hcomponent
      obtain rfl := (hlawful.matches_iff compiled).mp accepted
      obtain ⟨back, rfl, hback⟩ := ih hrest fits
      exact ⟨back, rfl, hback⟩
    | stop => exact absurd hcomponent hlawful.escape_ne_recursive
    | down => exact absurd hcomponent hlawful.escape_ne_recursive

/-- Where no component goes up, no name does. -/
theorem inward (hfits : Fits patterns components names)
    (hdown : ∀ component ∈ components, patterns.goesUp component = false) :
    ∀ s ∈ names, separator ∉ s.toList ∧ s ≠ ".." := by
  induction hfits with
  | done => exact List.forall_mem_nil _
  | skip _ ih | stop _ ih => exact ih (List.forall_mem_cons.mp hdown).2
  | @name component name _ _ test compiled accepted single dots _ ih =>
    obtain ⟨hcomponent, hrest⟩ := List.forall_mem_cons.mp hdown
    refine List.forall_mem_cons.mpr ⟨⟨single, ?_⟩, ih hrest⟩
    rintro rfl
    simp [Glob.Library.goesUp, dots (.inr rfl), compiled, accepted] at hcomponent
  | down downward _ ih => exact List.forall_mem_cons.mpr ⟨⟨downward.1.2, downward.2.2⟩, ih hdown⟩

end Fits

/-- The path is that of the base with components after it, none of which goes up. -/
def Trails (base path : String) : Prop :=
  ∃ names : List String, (∀ s ∈ names, separator ∉ s.toList ∧ s ≠ "..") ∧
    path = names.foldl below base

variable {base view path : String} {names : List String}

theorem Beneath.trails (hview : Beneath base view) (htrails : Trails view path) :
    Trails base path := by
  obtain ⟨front, hfront, rfl⟩ := hview
  obtain ⟨back, hback, rfl⟩ := htrails
  refine ⟨front ++ back, List.forall_mem_append.mpr ⟨fun s hs => ?_, hback⟩, by
    rw [List.foldl_append]⟩
  exact ⟨(hfront s hs).1.2, (hfront s hs).2.2⟩

/-- Paths that never go up from the base lead to nothing outside. -/
theorem Disk.Since.not_outside_of_trails {old new : Disk} {i : Nat}
    (hsince : Disk.Since base old new) (htrails : Trails base path)
    (hlocate : new.locate path = .ok i) : ¬old.Outside base i := by
  obtain ⟨habsolute, hbase, -⟩ := hsince.rooted.components
  obtain ⟨names, hnames, rfl⟩ := htrails
  have hfollow := Disk.follow_of_locate hlocate
  rw [Disk.start, if_pos (isAbsolute_foldl_below habsolute names),
    components_foldl_below_of_separator fun s hs => (hnames s hs).1, Disk.follow_append] at hfollow
  obtain ⟨top, htop, hfollow⟩ := hfollow
  have hdown : ".." ∉ names.filter (· != "") := fun hup =>
    (hnames ".." (List.mem_filter.mp hup).1).2 rfl
  exact hsince.not_outside (Disk.leads_append.mpr
    ⟨top, Disk.leads_of_follow hbase htop, Disk.leads_filter_of_follow hdown hfollow⟩)

/-- The pieces of joined names are the names, or one empty piece. -/
theorem pieces_joinAll_names (hnames : ∀ s ∈ names, IsSegment s) :
    pieces (Path.joinAll names) = if names = [] then [""] else names := by
  split
  · next hnil =>
    rw [hnil]
    decide
  · next hne => exact Path.pieces_joinAll hne fun s hs => (hnames s hs).2

/-- The pattern of a directory, with components after it, is one from the root. -/
theorem escape_append_slash {patterns : Glob.Library} (hlawful : patterns.Lawful)
    (hnames : ∀ s ∈ names, IsSegment s) (rest : String) :
    patterns.escape (names.foldl below "/") ++ "/" ++ rest =
      "/" ++ (Path.joinAll (names.map patterns.escape) ++ "/" ++ rest) := by
  have hescaped := hlawful.isSegment_of_mem_map_escape hnames
  rw [escape_foldl_below hlawful, hlawful.escape_separator, ← absolute_eq_foldl hescaped, absolute]
  simp only [String.append_assoc]

/-- What a search below a directory finds lies below, unless a component after the pattern of the
directory goes up. -/
theorem Libraries.Lawful.trails_of_search {libraries : Libraries} {disk : Disk} {rest : String}
    {paths : List String} (hlawful : libraries.Lawful) (hsound : disk.Sound)
    (hview : Beneath "/" view)
    (hrest : ∀ component ∈ pieces rest, libraries.patterns.goesUp component = false)
    (hsearch : libraries.search disk (libraries.patterns.escape view ++ "/" ++ rest) = .ok paths)
    (hpath : path ∈ paths) : Trails view path := by
  obtain ⟨heads, hheads, rfl⟩ := hview
  have hsegments : ∀ s ∈ heads, IsSegment s := fun s hs => (hheads s hs).1
  have hescaped := hlawful.patterns.isSegment_of_mem_map_escape hsegments
  rw [escape_append_slash hlawful.patterns hsegments] at hsearch
  obtain ⟨names, hfits, rfl⟩ := hlawful.found hsound hsearch path hpath
  rw [Path.pieces_append_slash, pieces_joinAll_names hescaped] at hfits
  by_cases hroot : heads = []
  · subst hroot
    have hall : ∀ component ∈ "" :: pieces rest, libraries.patterns.goesUp component = false :=
      List.forall_mem_cons.mpr ⟨libraries.patterns.goesUp_empty, hrest⟩
    exact ⟨names, hfits.inward hall, rfl⟩
  · rw [if_neg (by simpa using hroot)] at hfits
    obtain ⟨back, rfl, hback⟩ := hfits.of_escape hlawful.patterns hsegments
    exact ⟨back, hback.inward hrest, by rw [List.foldl_append]⟩

end VirtualFs.Host
