import Mathlib.Data.List.Forall2
import VirtualFs.Host.Search
import VirtualFs.Proofs.Glob.Escape
import VirtualFs.Proofs.Host.Matching

namespace VirtualFs.Host

open Glob (Token)
open VirtualFs.Path (IsDownward IsSegment)

variable {α β ε : Type}

theorem bind_eq_ok_iff {first : Except ε α} {next : α → Except ε β} {result : β} :
    first >>= next = .ok result ↔ ∃ middle, first = .ok middle ∧ next middle = .ok result := by
  cases first <;> simp [bind, Except.bind]

theorem mem_of_flatMapM {f : α → Except ε (List β)} {items : List α} {results : List β}
    (hresults : items.flatMapM f = .ok results) {result : β} (hmem : result ∈ results) :
    ∃ item ∈ items, ∃ found, f item = .ok found ∧ result ∈ found := by
  induction items generalizing results with
  | nil =>
    rw [List.flatMapM_nil] at hresults
    cases hresults
    cases hmem
  | cons item rest ih =>
    rw [List.flatMapM_cons, bind_eq_ok_iff] at hresults
    obtain ⟨found, hfound, hresults⟩ := hresults
    obtain ⟨others, hothers, hresults⟩ := bind_eq_ok_iff.mp hresults
    cases hresults
    rcases List.mem_append.mp hmem with hhere | hlater
    · exact ⟨item, List.mem_cons_self, found, hfound, hhere⟩
    · obtain ⟨other, hother, hothers⟩ := ih hothers hlater
      exact ⟨other, List.mem_cons_of_mem _ hother, hothers⟩

theorem forall₂_of_mapM {f : α → Except ε β} {items : List α} {results : List β}
    (hresults : items.mapM f = .ok results) :
    List.Forall₂ (fun item result => f item = .ok result) items results := by
  induction items generalizing results with
  | nil =>
    rw [List.mapM_nil] at hresults
    cases hresults
    exact .nil
  | cons item rest ih =>
    rw [List.mapM_cons, bind_eq_ok_iff] at hresults
    obtain ⟨result, hresult, hresults⟩ := hresults
    obtain ⟨others, hothers, hresults⟩ := bind_eq_ok_iff.mp hresults
    cases hresults
    exact .cons hresult (ih hothers)

namespace Search

variable {path name : String} {part : List Token} {parts : List (List Token)}
  {whole components names : List String}

theorem isHere_of_isAbsolute (hpath : isAbsolute path = true) : isHere path = false := by
  obtain ⟨rest, rfl⟩ : ∃ rest, path = "/" ++ rest := by
    rw [isAbsolute, beq_iff_eq, List.head?_eq_some_iff] at hpath
    obtain ⟨cs, hcs⟩ := hpath
    refine ⟨String.ofList cs, ?_⟩
    rw [← String.toList_inj, hcs]
    simp [Path.separator]
  simp [isHere, Path.pieces_absolute]

theorem extend_of_isAbsolute (hpath : isAbsolute path = true) (name : String) :
    extend path name = below path name := by
  rw [extend, isHere_of_isAbsolute hpath]
  rfl

/-- The last segment of a path below another. -/
theorem base_below (hname : IsSegment name) : Path.base (below path name) = name := by
  unfold below
  split
  · next hopen =>
    rcases hopen with rfl | hslash
    · rw [String.empty_append, Path.base_segment hname]
    · obtain ⟨front, rfl⟩ := exists_of_endsInSlash hslash
      exact Path.base_append_segment front hname
  · exact Path.base_append_segment path hname

/-- The component is read as a part of a pattern. -/
def IsRead (component : String) (part : List Token) : Prop :=
  Path.separator ∉ component.toList ∧ Glob.parse component = .ok part

/-- A search on its way: the names of its path, with any that fit the components to come, fit the
whole pattern. -/
def Heading (whole : List String) (path : String) (parts : List (List Token)) : Prop :=
  ∃ front components, path = front.foldl below "/" ∧ List.Forall₂ IsRead components parts ∧
    ∀ names, Fits .shell components names → Fits .shell whole (front ++ names)

/-- A candidate that comes of such a search. -/
def Pending (whole : List String) (candidate : Candidate) : Prop :=
  (candidate.parts = [] ∧ Heading whole candidate.path []) ∨
    candidate.parts ≠ [] ∧ ∃ path name, candidate.path = below path name ∧ IsDownward name ∧
      Heading whole path candidate.parts

theorem IsRead.eq_recursive {component : String} (hread : IsRead component part)
    (hrecursive : isRecursive part = true) : component = "**" :=
  Glob.eq_recursive_of_parse hread.2 hread.1 (List.contains_iff_mem.mp hrecursive)

namespace Heading

theorem isAbsolute (hheading : Heading whole path parts) : Host.isAbsolute path = true := by
  obtain ⟨front, _, rfl, -⟩ := hheading
  exact isAbsolute_foldl_below (by decide) front

/-- Where no components are left to come, the names of the path fit the pattern. -/
theorem fits (hheading : Heading whole path []) :
    ∃ names, Fits .shell whole names ∧ path = names.foldl below "/" := by
  obtain ⟨front, components, hpath, hparts, hwhole⟩ := hheading
  cases hparts
  exact ⟨front, by simpa using hwhole [] .done, hpath⟩

/-- The component that is next to come. -/
theorem exists_component (hheading : Heading whole path (part :: parts)) :
    ∃ front component components, path = front.foldl below "/" ∧ IsRead component part ∧
      List.Forall₂ IsRead components parts ∧ ∀ names, Fits .shell (component :: components) names →
        Fits .shell whole (front ++ names) := by
  obtain ⟨front, _, hpath, hparts, hwhole⟩ := hheading
  obtain ⟨component, components, hread, hrest, rfl⟩ := List.forall₂_cons_right_iff.mp hparts
  exact ⟨front, component, components, hpath, hread, hrest, hwhole⟩

/-- A name that the next component stands for leads on. -/
theorem onward (hheading : Heading whole path (part :: parts))
    (hmatches : Glob.matchesText false part name = true) (hsingle : Path.separator ∉ name.toList)
    (hdots : name = "." ∨ name = ".." → part.head? = some (.char '.')) :
    Heading whole (below path name) parts := by
  obtain ⟨front, component, components, rfl, hread, hparts, hwhole⟩ := hheading.exists_component
  have hcompile : Glob.Library.shell.compile component =
      .ok fun literal text => Glob.matchesText literal part text := by
    simp only [Glob.Library.shell, hread.2]
  refine ⟨front ++ [name], components, by simp, hparts, fun names hnames => ?_⟩
  rw [List.append_assoc, List.singleton_append]
  exact hwhole _ (.name hcompile hmatches hsingle
    (fun hname => Glob.head?_of_parse hread.2 (hdots hname)) hnames)

/-- A component without wildcards leads on by the name that it stands for. -/
theorem literal (hheading : Heading whole path (part :: parts))
    (hliteral : Glob.literal? part = some name) : Heading whole (below path name) parts := by
  obtain ⟨-, component, -, -, hread, -⟩ := hheading.exists_component
  obtain ⟨hchars, hmatches⟩ := Glob.of_literal? hread.2 hliteral
  refine hheading.onward hmatches (fun hmem => hread.1 (hchars _ hmem)) fun hdots => ?_
  rw [Glob.eq_map_char_of_literal? hliteral]
  rcases hdots with rfl | rfl <;> rfl

/-- Any name below leads on where the component stands for any number of them. -/
theorem down (hheading : Heading whole path (part :: parts)) (hrecursive : isRecursive part = true)
    (hname : IsDownward name) : Heading whole (below path name) (part :: parts) := by
  obtain ⟨front, component, components, rfl, hread, hparts, hwhole⟩ := hheading.exists_component
  refine ⟨front ++ [name], component :: components, by simp, .cons hread hparts,
    fun names hnames => ?_⟩
  obtain rfl := hread.eq_recursive hrecursive
  rw [List.append_assoc, List.singleton_append]
  exact hwhole _ (.down hname hnames)

/-- Such a component may also stand for no name. -/
theorem stop (hheading : Heading whole path (part :: parts))
    (hrecursive : isRecursive part = true) : Heading whole path parts := by
  obtain ⟨front, component, components, hpath, hread, hparts, hwhole⟩ := hheading.exists_component
  obtain rfl := hread.eq_recursive hrecursive
  exact ⟨front, components, hpath, hparts, fun names hnames => hwhole _ (.stop hnames)⟩

/-- Several such components are as good as one. -/
theorem merge (hheading : Heading whole path (part :: parts))
    (hrecursive : isRecursive part = true) :
    Heading whole path (part :: parts.dropWhile isRecursive) := by
  induction parts with
  | nil => exact hheading
  | cons other rest ih =>
    have hnext := hheading.stop hrecursive
    by_cases hother : isRecursive other = true
    · have hsame : part = other := by
        obtain ⟨-, component, -, -, hread, -⟩ := hheading.exists_component
        obtain ⟨-, component', -, -, hread', -⟩ := hnext.exists_component
        obtain rfl := hread.eq_recursive hrecursive
        obtain rfl := hread'.eq_recursive hother
        exact Except.ok.inj (hread.2.symm.trans hread'.2)
      rw [List.dropWhile_cons_of_pos hother]
      subst hsame
      exact ih hnext
    · rwa [List.dropWhile_cons_of_neg hother]

end Heading

variable {disk : Disk} {candidate : Candidate}

/-- The names in a directory of a sound disk lead down. -/
theorem exists_name_of_members (hsound : disk.Sound) (hpath : isAbsolute path = true)
    {children : List String} (hchildren : members disk path = .ok children) {child : String}
    (hchild : child ∈ children) : ∃ name, child = below path name ∧ IsDownward name := by
  unfold members at hchildren
  cases hlist : disk.list path with
  | error e => rw [hlist] at hchildren; cases hchildren
  | ok listing =>
    rw [hlist] at hchildren
    cases hchildren
    obtain ⟨name, hname, rfl⟩ := List.mem_map.mp hchild
    refine ⟨name, extend_of_isAbsolute hpath name, ?_⟩
    unfold Disk.list at hlist
    split at hlist
    · cases hlist
    · split at hlist
      · next parent found hdir =>
        split at hlist
        · cases hlist
          obtain ⟨⟨_, inode⟩, hentry, rfl⟩ := List.mem_map.mp hname
          exact hsound.name ⟨parent, found, hdir, hentry⟩
        · cases hlist
      · cases hlist

theorem expand_pending (hsound : disk.Sound) {candidates : List Candidate}
    (hheading : Heading whole path parts) (hexpand : expand disk path parts = .ok candidates)
    (hmem : candidate ∈ candidates) : Pending whole candidate := by
  induction parts generalizing path candidates with
  | nil =>
    cases hexpand
    rw [List.mem_singleton.mp hmem]
    exact .inl ⟨rfl, hheading⟩
  | cons part parts ih =>
    have habsolute := hheading.isAbsolute
    unfold expand at hexpand
    cases hliteral : Glob.literal? part with
    | some name =>
      simp only [hliteral, extend_of_isAbsolute habsolute] at hexpand
      split at hexpand
      · exact ih (hheading.literal hliteral) hexpand hmem
      · cases hexpand
        cases hmem
    | none =>
      simp only [hliteral] at hexpand
      split at hexpand
      · obtain ⟨children, hchildren, hexpand⟩ := bind_eq_ok_iff.mp hexpand
        obtain ⟨dotted, hdotted, hexpand⟩ := bind_eq_ok_iff.mp hexpand
        cases hexpand
        rcases List.mem_append.mp hmem with hspecial | hchild
        · obtain ⟨name, hname, found, hfound, hmem⟩ := mem_of_flatMapM hdotted hspecial
          simp only [List.mem_filter, List.mem_cons, List.not_mem_nil, or_false, Bool.and_eq_true,
            beq_iff_eq] at hname
          obtain ⟨hdots, hhead, hmatches⟩ := hname
          have hsingle : Path.separator ∉ name.toList := by rcases hdots with rfl | rfl <;> decide
          exact ih (hheading.onward hmatches hsingle fun _ => hhead) hfound hmem
        · obtain ⟨child, hlisted, rfl⟩ := List.mem_map.mp hchild
          obtain ⟨name, hname, hdownward⟩ :=
            exists_name_of_members hsound habsolute hchildren hlisted
          exact .inr ⟨List.cons_ne_nil _ _, path, name, hname, hdownward, hheading⟩
      · cases hexpand
        cases hmem

section Candidates

variable {directories : Bool} {further : List (List Token) → Except Failure (List String)}
  {top p : String} {results : List String}

theorem eq_of_mem_wanted (hmem : p ∈ wanted disk directories path) : p = path := by
  unfold wanted at hmem
  split at hmem
  · cases hmem
  · exact List.mem_singleton.mp hmem

theorem heading_of_matchName (hname : IsDownward name)
    (hfurther : ∀ {rest results}, Heading whole (below top name) rest →
      further rest = .ok results → p ∈ results → Heading whole p [])
    (hheading : Heading whole top (part :: parts))
    (hresults : matchName disk directories further (below top name) part parts = .ok results)
    (hmem : p ∈ results) : Heading whole p [] := by
  unfold matchName at hresults
  split at hresults
  · next hmatches =>
    rw [base_below hname.1] at hmatches
    have hnext := hheading.onward hmatches hname.1.2 fun hdots =>
      absurd hdots (not_or.mpr hname.2)
    split at hresults
    · cases hresults
      rwa [eq_of_mem_wanted hmem]
    · exact hfurther hnext hresults hmem
  · cases hresults
    cases hmem

theorem heading_of_goDown (hname : IsDownward name)
    (hfurther : ∀ {rest results}, Heading whole (below top name) rest →
      further rest = .ok results → p ∈ results → Heading whole p [])
    (hheading : Heading whole top (part :: parts)) (hrecursive : isRecursive part = true)
    (hresults : goDown disk directories further (below top name) part parts = .ok results)
    (hmem : p ∈ results) : Heading whole p [] := by
  unfold goDown at hresults
  obtain ⟨deeper, hdeeper, hresults⟩ := bind_eq_ok_iff.mp hresults
  have hbelow (hmem : p ∈ deeper) : Heading whole p [] := by
    split at hdeeper
    · exact hfurther (hheading.down hrecursive hname) hdeeper hmem
    · cases hdeeper
      cases hmem
  cases parts with
  | nil =>
    cases hresults
    split at hmem
    · rcases List.mem_cons.mp hmem with rfl | hmem
      · exact (hheading.down hrecursive hname).stop hrecursive
      · exact hbelow hmem
    · cases hmem
  | cons next rest =>
    obtain ⟨matched, hmatched, hresults⟩ := bind_eq_ok_iff.mp hresults
    cases hresults
    rcases List.mem_append.mp hmem with hmem | hmem
    · exact heading_of_matchName hname hfurther (hheading.stop hrecursive) hmatched hmem
    · exact hbelow hmem

end Candidates

/-- All that comes of a candidate fits the pattern. -/
theorem visit_heading (hsound : disk.Sound) (directories : Bool) (fuel : Nat)
    {results : List String} (hpending : Pending whole candidate)
    (hvisit : visit disk directories fuel candidate = .ok results) (hmem : path ∈ results) :
    Heading whole path [] := by
  -- The fuel only bounds the levels; that every candidate is pending carries the induction.
  induction fuel generalizing candidate results with
  | zero =>
    cases hvisit
    cases hmem
  | succ fuel ih =>
    obtain ⟨here, parts⟩ := candidate
    have hfurther {rest : List (List Token)} {results : List String}
        (hheading : Heading whole here rest)
        (hresults : (do (← expand disk here rest).flatMapM (visit disk directories fuel)) =
          Except.ok results) (hmem : path ∈ results) : Heading whole path [] := by
      obtain ⟨candidates, hexpand, hresults⟩ := bind_eq_ok_iff.mp hresults
      obtain ⟨next, hnext, found, hfound, hmem⟩ := mem_of_flatMapM hresults hmem
      exact ih (expand_pending hsound hheading hexpand hnext) hfound hmem
    unfold visit at hvisit
    rcases hpending with ⟨rfl, hheading⟩ | ⟨hparts, top, name, rfl, hname, hheading⟩
    · cases hvisit
      rwa [eq_of_mem_wanted hmem]
    · cases parts with
      | nil => exact absurd rfl hparts
      | cons part parts =>
        dsimp only at hvisit
        split at hvisit
        · next hrecursive =>
          exact heading_of_goDown hname hfurther (hheading.merge hrecursive) hrecursive hvisit hmem
        · exact heading_of_matchName hname hfurther hheading hvisit hmem

/-- An empty component at the end of a pattern asks for no name. -/
theorem fits_concat_empty (hfits : Fits .shell components names) :
    Fits .shell (components ++ [""]) names := by
  induction hfits with
  | done => exact .skip .done
  | skip _ ih => exact .skip ih
  | name compiled accepted single dots _ ih => exact .name compiled accepted single dots ih
  | stop _ ih => exact .stop ih
  | down downward _ ih => exact .down downward ih

theorem cut_subset (cs : List Char) : cut cs ⊆ Text.pieces Path.isSeparator cs := by
  unfold cut
  dsimp only
  split
  · exact List.dropLast_subset _
  · exact List.Subset.refl _

/-- Names that fit the components of a pattern fit its pieces. -/
theorem fits_of_cut {body : String}
    (hfits : Fits .shell ((cut body.toList).map String.ofList) names) :
    Fits .shell (Path.pieces body) names := by
  rw [Path.pieces]
  unfold cut at hfits
  dsimp only at hfits
  split at hfits
  · next hlast =>
    rw [← List.dropLast_append_getLast? _ hlast, List.map_append]
    exact fits_concat_empty hfits
  · exact hfits

/-- A pattern from the root sets a search on its way. -/
theorem heading_of_pattern {body : String} {search : Search}
    (hsearch : ofPattern ("/" ++ body) = .ok search) :
    search.scope = "/" ∧ Heading (Path.pieces body) "/" search.parts := by
  have habsolute : Host.isAbsolute ("/" ++ body) = true := by simp [Host.isAbsolute, Path.separator]
  have hbody : ("/" ++ body).toList.drop 1 = body.toList := by simp
  obtain ⟨_, -, hsearch⟩ := bind_eq_ok_iff.mp hsearch
  simp only [habsolute, if_true, hbody] at hsearch
  obtain ⟨parts, hparts, hsearch⟩ := bind_eq_ok_iff.mp hsearch
  cases hsearch
  refine ⟨rfl, ?_⟩
  dsimp only
  split
  · next hempty =>
    have hpieces : Path.pieces body = [""] := by
      rw [Path.pieces, hempty]
      rfl
    exact ⟨[], [""], rfl, .cons ⟨by decide, rfl⟩ .nil, fun names hnames => by rwa [hpieces]⟩
  · have hsingle : ∀ component ∈ (cut body.toList).map String.ofList,
        Path.separator ∉ component.toList := fun component hcomponent =>
      Path.separator_not_mem_of_mem_pieces (List.map_subset String.ofList (cut_subset _) hcomponent)
    have hread : List.Forall₂ (fun component part => Glob.parse component = .ok part)
        ((cut body.toList).map String.ofList) parts :=
      List.forall₂_map_left_iff.mpr (forall₂_of_mapM hparts)
    exact ⟨[], _, rfl, (List.forall₂_and_left _ _).mpr ⟨hsingle, hread⟩, fun _ hnames =>
      fits_of_cut hnames⟩

end Search

/-- What a search of a sound disk finds fits its pattern. -/
theorem Disk.Sound.fits_of_search {disk : Disk} {body path : String} {paths : List String}
    (hsound : disk.Sound) (hsearch : disk.search ("/" ++ body) = .ok paths) (hpath : path ∈ paths) :
    ∃ names, Fits .shell (Path.pieces body) names ∧ path = names.foldl below "/" := by
  unfold Disk.search at hsearch
  split at hsearch
  · cases hsearch
  · next search hpattern =>
    obtain ⟨hscope, hheading⟩ := Search.heading_of_pattern hpattern
    cases hresults : search.results disk with
    | error e => rw [hresults] at hsearch; cases hsearch
    | ok found =>
      rw [hresults] at hsearch
      cases hsearch
      obtain ⟨candidates, hexpand, hfound⟩ := bind_eq_ok_iff.mp hresults
      obtain ⟨candidate, hcandidate, results, hvisit, hmem⟩ := mem_of_flatMapM hfound hpath
      rw [hscope] at hexpand
      have hpending := Search.expand_pending hsound hheading hexpand hcandidate
      exact (Search.visit_heading hsound _ _ hpending hvisit hmem).fits

/-- The libraries as the shell and the host have them are as documented. -/
theorem standard_lawful : Libraries.standard.Lawful where
  patterns := Glob.shell_lawful
  found hsound hsearch _ hpath := hsound.fits_of_search hsearch hpath
  canonical_eq hsound hpath hcanonical := hsound.canonical_eq hpath hcanonical
  exists_canonical hsound hstart hdir := hsound.exists_canonical hstart hdir

end VirtualFs.Host
