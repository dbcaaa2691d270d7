import VirtualFs.Proofs.Path.Valid

namespace VirtualFs.Path

variable {parent name base path rest : String}

/-- Either of the two texts that name the root. -/
abbrev IsRoot (path : String) : Prop :=
  path = "." ∨ path = ""

/-- The text with a separator at its end. -/
def slashed (path : String) : String :=
  if path.toList.getLast? = some separator then path else path ++ "/"

theorem join_of_isRoot (hparent : IsRoot parent) : join parent name = name :=
  if_pos hparent

theorem join_of_isRoot_name (hparent : ¬ IsRoot parent) (hname : IsRoot name) :
    join parent name = parent := by
  rw [join, if_neg hparent, if_pos hname]

theorem join_of_not_isRoot (hparent : ¬ IsRoot parent) (hname : ¬ IsRoot name) :
    join parent name = slashed parent ++ name := by
  rw [join, if_neg hparent, if_neg hname, slashed]
  split <;> rfl

/-- Only what comes last decides whether a separator is added. -/
theorem slashed_append (front : String) (hname : name ≠ "") :
    slashed (front ++ name) = front ++ slashed name := by
  have hfull : name.toList ≠ [] := mt String.toList_eq_nil_iff.mp hname
  rw [slashed, slashed, String.toList_append, List.getLast?_append_of_ne_nil _ hfull]
  split
  · rfl
  · rw [String.append_assoc]

theorem separator_mem_slashed (path : String) : separator ∈ (slashed path).toList := by
  rw [slashed]
  split
  · next hlast => exact List.mem_of_getLast? hlast
  · rw [String.toList_append]
    exact List.mem_append_right _ (by decide)

/-- Below a directory nothing is spelled as the root. -/
theorem not_isRoot_slashed_append (parent name : String) : ¬ IsRoot (slashed parent ++ name) := by
  have hmem : separator ∈ (slashed parent ++ name).toList := by
    rw [String.toList_append]
    exact List.mem_append_left _ (separator_mem_slashed parent)
  rintro (hdot | hempty)
  · rw [hdot] at hmem
    exact absurd hmem (by decide)
  · rw [hempty] at hmem
    exact absurd hmem (by decide)

/-- A root anywhere drops out. Below it separators are added behind `a` and behind `b`, each by what
stands in front of it alone. -/
theorem join_assoc (a b c : String) : join (join a b) c = join a (join b c) := by
  by_cases ha : IsRoot a
  · rw [join_of_isRoot ha, join_of_isRoot ha]
  by_cases hb : IsRoot b
  · rw [join_of_isRoot_name ha hb, join_of_isRoot hb]
  by_cases hc : IsRoot c
  · rw [join_of_isRoot_name hb hc, join_of_not_isRoot ha hb,
      join_of_isRoot_name (not_isRoot_slashed_append a b) hc]
  · rw [join_of_not_isRoot ha hb, join_of_not_isRoot hb hc,
      join_of_not_isRoot (not_isRoot_slashed_append a b) hc,
      join_of_not_isRoot ha (not_isRoot_slashed_append b c),
      slashed_append _ (fun hempty => hb (.inr hempty)), String.append_assoc]

/-- A path begins with the pieces of another exactly if it is that path or goes on behind it. -/
theorem isPrefix_pieces_iff :
    pieces base <+: pieces path ↔ path = base ∨ ∃ rest, path = base ++ "/" ++ rest := by
  have hne : pieces base ≠ [] := by simp [pieces, Text.pieces_ne_nil]
  constructor
  · rintro ⟨names, hnames⟩
    have hpath := joinAll_pieces path
    rw [← hnames] at hpath
    by_cases hnil : names = []
    · left
      rw [← hpath, hnil, List.append_nil, joinAll_pieces]
    · right
      rw [joinAll_append hne hnil, joinAll_pieces] at hpath
      exact ⟨_, hpath.symm⟩
  · rintro (rfl | ⟨rest, rfl⟩)
    · exact List.prefix_rfl
    · rw [pieces_append_slash]
      exact List.prefix_append ..

/-- A valid path has no empty pieces. -/
theorem segments_of_valid (hvalid : valid path = true) : segments path = pieces path := by
  apply List.filter_eq_self.mpr
  intro s hs
  rcases valid_iff.mp hvalid with rfl | hpieces
  · rw [show pieces "." = ["."] by decide, List.mem_singleton] at hs
    rw [hs]
    decide
  · simpa using (hpieces s hs).1.1

theorem ne_empty_of_valid (hvalid : valid path = true) : path ≠ "" := by
  rintro rfl
  exact absurd hvalid (by decide)

theorem slashed_of_valid (hvalid : valid path = true) : slashed path = path ++ "/" :=
  if_neg (getLast?_of_valid hvalid)

/-- What goes on behind a path is valid only if what it goes on with is, and is not the root's. -/
theorem valid_of_append_slash (hvalid : valid (base ++ "/" ++ rest) = true) :
    valid rest = true ∧ rest ≠ "." := by
  have hdot : base ++ "/" ++ rest ≠ "." := by
    intro heq
    have hmem : separator ∈ (base ++ "/" ++ rest).toList := by simp [separator]
    rw [heq] at hmem
    exact absurd hmem (by decide)
  have hpieces := (valid_iff.mp hvalid).resolve_left hdot
  rw [pieces_append_slash] at hpieces
  have hrest := (List.forall_mem_append.mp hpieces).2
  refine ⟨valid_iff.mpr (.inr hrest), ?_⟩
  rintro rfl
  exact (hrest "." (by decide)).2.1 rfl

theorem join_of_valid (hbase : valid base = true) (hroot : base ≠ ".") (hpath : valid path = true)
    (hdot : path ≠ ".") : join base path = base ++ "/" ++ path := by
  rw [join_of_not_isRoot (not_or.mpr ⟨hroot, ne_empty_of_valid hbase⟩)
    (not_or.mpr ⟨hdot, ne_empty_of_valid hpath⟩), slashed_of_valid hbase]

/-- Away from the root, stripping leaves what goes on behind the base and one separator. -/
theorem stripBase_eq_some_iff (hroot : ¬ IsRoot base) :
    stripBase base path = some rest ↔
      path = base ∧ rest = "." ∨ path = base ++ "/" ++ rest := by
  rw [stripBase, if_neg hroot]
  by_cases hsame : path = base
  · have hlonger : path ≠ base ++ "/" ++ rest := by
      intro heq
      have hlength := congrArg (·.toList.length) (hsame.symm.trans heq)
      simp at hlength
    rw [if_pos hsame, Option.some_inj, or_iff_left hlonger, and_iff_right hsame, eq_comm]
  · have hcut : path = base ++ "/" ++ rest ↔
        Text.dropLead? (base.toList ++ [separator]) path.toList = some rest.toList := by
      rw [Text.dropLead?_eq_some_iff, ← String.toList_inj, String.toList_append,
        String.toList_append]
      rfl
    rw [if_neg hsame, or_iff_right (fun h => hsame h.1), hcut, Option.map_eq_some_iff]
    constructor
    · rintro ⟨cs, hcs, rfl⟩
      rw [hcs, String.toList_ofList]
    · intro hdrop
      exact ⟨_, hdrop, String.ofList_toList⟩

theorem stripBase_eq_none_iff (hroot : ¬ IsRoot base) :
    stripBase base path = none ↔ ¬ pieces base <+: pieces path := by
  rw [isPrefix_pieces_iff, ← not_iff_not, not_not, ← ne_eq, Option.ne_none_iff_exists']
  constructor
  · rintro ⟨rest, hrest⟩
    rcases (stripBase_eq_some_iff hroot).mp hrest with ⟨hsame, -⟩ | hlonger
    · exact .inl hsame
    · exact .inr ⟨rest, hlonger⟩
  · rintro (hsame | ⟨rest, hlonger⟩)
    · exact ⟨".", (stripBase_eq_some_iff hroot).mpr (.inl ⟨hsame, rfl⟩)⟩
    · exact ⟨rest, (stripBase_eq_some_iff hroot).mpr (.inr hlonger)⟩

/-- Stripping undoes joining. -/
theorem stripBase_join (hbase : valid base = true) (hpath : valid path = true) :
    stripBase base (join base path) = some path := by
  by_cases hroot : base = "."
  · rw [hroot, join_of_isRoot (.inl rfl)]
    rfl
  have hbelow : ¬ IsRoot base := not_or.mpr ⟨hroot, ne_empty_of_valid hbase⟩
  rw [stripBase_eq_some_iff hbelow]
  by_cases hdot : path = "."
  · exact .inl ⟨join_of_isRoot_name hbelow (.inl hdot), hdot⟩
  · exact .inr (join_of_valid hbase hroot hpath hdot)

/-- Joining undoes stripping, and what stripping leaves is valid. -/
theorem valid_and_join_of_stripBase (hbase : valid base = true) (hpath : valid path = true)
    (hstrip : stripBase base path = some rest) : valid rest = true ∧ join base rest = path := by
  by_cases hroot : base = "."
  · rw [hroot] at hstrip ⊢
    obtain rfl : path = rest := Option.some_inj.mp hstrip
    exact ⟨hpath, join_of_isRoot (.inl rfl)⟩
  have hbelow : ¬ IsRoot base := not_or.mpr ⟨hroot, ne_empty_of_valid hbase⟩
  rcases (stripBase_eq_some_iff hbelow).mp hstrip with ⟨rfl, rfl⟩ | rfl
  · exact ⟨by decide, join_of_isRoot_name hbelow (.inl rfl)⟩
  · obtain ⟨hrest, hdot⟩ := valid_of_append_slash hpath
    exact ⟨hrest, join_of_valid hbase hroot hrest hdot⟩

/-- Stripping fails where the base is not the root and its segments are not the first ones. -/
theorem stripBase_eq_none_iff_segments (hbase : valid base = true) (hpath : valid path = true) :
    stripBase base path = none ↔ base ≠ "." ∧ ¬ segments base <+: segments path := by
  rw [segments_of_valid hbase, segments_of_valid hpath]
  by_cases hroot : base = "."
  · rw [hroot]
    exact iff_of_false (Option.some_ne_none path) fun h => h.1 rfl
  · rw [stripBase_eq_none_iff (not_or.mpr ⟨hroot, ne_empty_of_valid hbase⟩), and_iff_right hroot]

/-- Joining is associative, and on valid paths stripping a base is its inverse, defined exactly at
and below the base. -/
theorem join_assoc_and_stripBase :
    (∀ a b c : String, join (join a b) c = join a (join b c)) ∧
    ∀ base path : String, valid base = true → valid path = true →
      stripBase base (join base path) = some path ∧
      (∀ rest, stripBase base path = some rest → valid rest = true ∧ join base rest = path) ∧
      (stripBase base path = none ↔ base ≠ "." ∧ ¬ segments base <+: segments path) :=
  ⟨join_assoc, fun _ _ hbase hpath => ⟨stripBase_join hbase hpath,
    fun _ => valid_and_join_of_stripBase hbase hpath, stripBase_eq_none_iff_segments hbase hpath⟩⟩

/-- A name that goes on with other letters is outside, though its text begins alike. -/
theorem join_assoc_and_stripBase_alike :
    join (join "/" "") (join "a/" ".") = "/a/" ∧
      stripBase "a/b" (join "a/b" "c.d/e") = some "c.d/e" ∧
      join "a/b" "c.d/e" = "a/b/c.d/e" ∧ stripBase "a/b" "a/bc/d" = none := by
  obtain ⟨hassoc, hvalid⟩ := join_assoc_and_stripBase
  have hbase : valid "a/b" = true := by decide
  have hstrip : stripBase "a/b" "a/b/c.d/e" = some "c.d/e" := by decide
  refine ⟨?_, (hvalid "a/b" "c.d/e" hbase (by decide)).1,
    ((hvalid "a/b" "a/b/c.d/e" hbase (by decide)).2.1 _ hstrip).2,
    (hvalid "a/b" "a/bc/d" hbase (by decide)).2.2.mpr (by decide)⟩
  rw [hassoc]
  decide

end VirtualFs.Path
