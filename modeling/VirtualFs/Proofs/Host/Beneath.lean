import VirtualFs.Host.Filesystem
import VirtualFs.Proofs.Glob.Library
import VirtualFs.Proofs.Path.Valid

namespace VirtualFs.Host

open VirtualFs.Path (IsDownward IsSegment joinAll segments)

variable {base path name : String} {names : List String}

/-- The path is that of the base with downward names after it, maybe none. -/
def Beneath (base path : String) : Prop :=
  ∃ names : List String, (∀ s ∈ names, IsDownward s) ∧ path = names.foldl below base

theorem Beneath.refl (base : String) : Beneath base base :=
  ⟨[], List.forall_mem_nil _, rfl⟩

theorem Beneath.trans {full : String} (hpath : Beneath base path) (hfull : Beneath path full) :
    Beneath base full := by
  obtain ⟨front, hfront, rfl⟩ := hpath
  obtain ⟨back, hback, rfl⟩ := hfull
  exact ⟨front ++ back, List.forall_mem_append.mpr ⟨hfront, hback⟩, by rw [List.foldl_append]⟩

/-- A path with a name after it is not empty and does not end in a slash. -/
theorem below_open (hname : IsSegment name) :
    ¬(below base name = "" ∨ endsInSlash (below base name) = true) := by
  obtain ⟨hne, hseparator⟩ := hname
  have hcs : name.toList ≠ [] := by simpa using hne
  have hlast : (below base name).toList.getLast? = some (name.toList.getLast hcs) := by
    unfold below
    split
    all_goals
      simp [List.getLast?_append, List.getLast?_cons, List.getLast?_eq_getLast_of_ne_nil hcs]
  rintro (hempty | hslash)
  · rw [hempty] at hlast
    cases hlast
  · simp only [endsInSlash, hlast, beq_iff_eq, Option.some.injEq] at hslash
    exact hseparator (hslash ▸ List.getLast_mem hcs)

/-- Joined names lead where one after the other leads. -/
theorem below_joinAll (hne : names ≠ []) (hnames : ∀ s ∈ names, IsSegment s) :
    below base (joinAll names) = names.foldl below base := by
  induction names generalizing base with
  | nil => exact absurd rfl hne
  | cons name rest ih =>
    obtain ⟨hname, hrest⟩ := List.forall_mem_cons.mp hnames
    by_cases hlast : rest = []
    · rw [hlast, Path.joinAll_singleton, List.foldl_cons, List.foldl_nil]
    · rw [List.foldl_cons, ← ih hlast hrest]
      have hjoin : joinAll (name :: rest) = name ++ "/" ++ joinAll rest := by
        rw [← List.singleton_append, Path.joinAll_append (List.cons_ne_nil _ _) hlast,
          Path.joinAll_singleton]
      conv_rhs => rw [below, if_neg (below_open hname)]
      rw [hjoin]
      unfold below
      split
      all_goals simp only [String.append_assoc]

/-- The path that a filesystem looks for below its base. -/
theorem beneath_of_resolve {fs : Filesystem} {full : String} (hbase : fs.base = some base)
    (hresolve : fs.resolve path = .ok full) : Beneath base full := by
  simp only [Filesystem.resolve, hbase] at hresolve
  split at hresolve
  · cases hresolve
    exact .refl base
  · next hroot =>
    split at hresolve
    · next hvalid =>
      cases hresolve
      obtain ⟨names, hnames, -, hpath⟩ := Path.exists_names_of_valid hvalid
      have hne : names ≠ [] := by
        rintro rfl
        exact hroot (.inr hpath)
      rw [hpath, Path.ofKey_of_ne_nil hne]
      exact ⟨names, hnames, below_joinAll hne fun s hs => (hnames s hs).1⟩
    · cases hresolve

theorem components_append_slash (front back : String) :
    components (front ++ "/" ++ back) = components front ++ components back := by
  rw [components, Path.pieces_append_slash, List.filter_append]
  rfl

theorem exists_of_endsInSlash (hslash : endsInSlash path = true) :
    ∃ front, path = front ++ "/" := by
  rw [endsInSlash, beq_iff_eq] at hslash
  refine ⟨String.ofList path.toList.dropLast, ?_⟩
  rw [← String.toList_inj]
  simpa [Path.separator] using (List.dropLast_append_getLast? Path.separator hslash).symm

theorem components_below (base name : String) :
    components (below base name) = components base ++ components name := by
  have hempty : components "" = [] := by decide
  unfold below
  split
  · next hopen =>
    rcases hopen with rfl | hslash
    · rw [String.empty_append, hempty, List.nil_append]
    · obtain ⟨front, rfl⟩ := exists_of_endsInSlash hslash
      have hfront : components (front ++ "/") = components front := by
        rw [← String.append_empty (s := front ++ "/"), components_append_slash, hempty,
          List.append_nil]
      rw [components_append_slash, hfront]
  · rw [components_append_slash]

theorem components_of_separator (hname : Path.separator ∉ name.toList) :
    components name = [name].filter (· != "") := by
  have hcut := Path.pieces_joinAll (List.cons_ne_nil name []) (List.forall_mem_singleton.mpr hname)
  rw [Path.joinAll_singleton] at hcut
  rw [components, hcut]

theorem components_foldl_below_of_separator (hnames : ∀ s ∈ names, Path.separator ∉ s.toList) :
    components (names.foldl below base) = components base ++ names.filter (· != "") := by
  induction names generalizing base with
  | nil => rw [List.foldl_nil, List.filter_nil, List.append_nil]
  | cons name rest ih =>
    obtain ⟨hname, hrest⟩ := List.forall_mem_cons.mp hnames
    rw [List.foldl_cons, ih hrest, components_below, components_of_separator hname,
      List.append_assoc, ← List.filter_append, List.singleton_append]

theorem components_foldl_below (base : String) (hnames : ∀ s ∈ names, IsSegment s) :
    components (names.foldl below base) = components base ++ names := by
  rw [components_foldl_below_of_separator fun s hs => (hnames s hs).2,
    List.filter_eq_self.mpr fun s hs => by simpa using (hnames s hs).1]

variable {library : Glob.Library}

theorem escape_below (hlawful : library.Lawful) (base name : String) :
    library.escape (below base name) = below (library.escape base) (library.escape name) := by
  have hopen : (library.escape base = "" ∨ endsInSlash (library.escape base) = true) ↔
      (base = "" ∨ endsInSlash base = true) := by
    simp only [endsInSlash, beq_iff_eq, hlawful.escape_eq_empty_iff, hlawful.getLast?_escape]
  unfold below
  by_cases hbase : base = "" ∨ endsInSlash base = true
  · rw [if_pos hbase, if_pos (hopen.mpr hbase), hlawful.escape_append]
  · rw [if_neg hbase, if_neg (fun h => hbase (hopen.mp h)), hlawful.escape_append,
      hlawful.escape_append, hlawful.escape_separator]

theorem escape_foldl_below (hlawful : library.Lawful) (base : String) (names : List String) :
    library.escape (names.foldl below base) =
      (names.map library.escape).foldl below (library.escape base) := by
  induction names generalizing base with
  | nil => rfl
  | cons name rest ih =>
    rw [List.foldl_cons, ih, escape_below hlawful, List.map_cons, List.foldl_cons]

/-- The components of the pattern of a path below the base. -/
theorem components_pattern (hlawful : library.Lawful) {names : List String}
    (hnames : ∀ s ∈ names, IsDownward s) (rest : String) :
    components (library.escape (names.foldl below base) ++ "/" ++ rest) =
      components (library.escape base) ++ (names.map library.escape ++ components rest) := by
  have hescaped := hlawful.isSegment_of_mem_map_escape fun s hs => (hnames s hs).1
  rw [components_append_slash, escape_foldl_below hlawful, components_foldl_below _ hescaped,
    List.append_assoc]

end VirtualFs.Host
