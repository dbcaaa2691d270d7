import VirtualFs.Proofs.Path.Valid

namespace VirtualFs

namespace Path

variable {text : String} {names : List String}

/-- The names spell the text as a strict path. -/
inductive Spells : List String → String → Prop
  | root : Spells ["."] "."
  | joined {names : List String} (hne : names ≠ []) (hnames : ∀ s ∈ names, IsDownward s) :
      Spells names (joinAll names)

theorem Spells.isSegments (hspell : Spells names text) : ∀ s ∈ names, IsSegment s := by
  cases hspell with
  | root => decide
  | joined _ hnames => exact fun s hs => (hnames s hs).1

theorem Spells.joinAll_eq (hspell : Spells names text) : joinAll names = text := by
  cases hspell with
  | root => exact joinAll_singleton "."
  | joined => rfl

/-- Nothing but its segments spells a text. -/
theorem Spells.segments_eq (hspell : Spells names text) : segments text = names := by
  rw [← hspell.joinAll_eq]
  exact segments_joinAll hspell.isSegments

/-- Valid is what can be spelled. -/
theorem valid_iff_exists_spells : valid text = true ↔ ∃ names, Spells names text := by
  rw [valid_iff]
  constructor
  · rintro (rfl | hpieces)
    · exact ⟨["."], .root⟩
    · have hne : pieces text ≠ [] := by simp [pieces, Text.pieces_ne_nil]
      have hspell := Spells.joined hne hpieces
      rw [joinAll_pieces] at hspell
      exact ⟨pieces text, hspell⟩
  · rintro ⟨names, hspell⟩
    cases hspell with
    | root => exact .inl rfl
    | joined hne hnames =>
      right
      rwa [pieces_joinAll hne fun s hs => (hnames s hs).1.2]

/-- The first character of joined names is that of the first name. -/
theorem head?_joinAll {first : String} (rest : List String) (hfirst : first ≠ "") :
    (joinAll (first :: rest)).toList.head? = first.toList.head? := by
  by_cases hrest : rest = []
  · rw [hrest, joinAll_singleton]
  · have hcut : joinAll (first :: rest) = first ++ "/" ++ joinAll rest :=
      (joinAll_append (List.cons_ne_nil first []) hrest).trans (by rw [joinAll_singleton])
    have hfull : first.toList ≠ [] := mt String.toList_eq_nil_iff.mp hfirst
    rw [hcut, String.toList_append, String.toList_append, List.append_assoc,
      List.head?_append_of_ne_nil _ hfull]

/-- The last character of joined names is that of the last name. -/
theorem getLast?_joinAll_concat {last : String} (front : List String) (hlast : last ≠ "") :
    (joinAll (front ++ [last])).toList.getLast? = last.toList.getLast? := by
  by_cases hfront : front = []
  · rw [hfront, List.nil_append, joinAll_singleton]
  · have hfull : last.toList ≠ [] := mt String.toList_eq_nil_iff.mp hlast
    rw [joinAll_append hfront (List.cons_ne_nil last []), joinAll_singleton, String.toList_append,
      List.getLast?_append_of_ne_nil _ hfull]

/-- No blank stands in front of the first name, and none behind the last. -/
structure BareEnds (names : List String) : Prop where
  front : ∀ c ∈ names.head?.bind (·.toList.head?), Text.isBlank c = false
  back : ∀ c ∈ names.getLast?.bind (·.toList.getLast?), Text.isBlank c = false

/-- Joined names have blanks at their ends only where the names have. -/
theorem trim_joinAll_of_bareEnds (hnames : ∀ s ∈ names, s ≠ "") (hbare : BareEnds names) :
    Text.trim (joinAll names) = joinAll names := by
  rw [Text.trim_eq_self_iff]
  constructor
  · intro c hc
    cases names with
    | nil => cases hc
    | cons first rest =>
      rw [head?_joinAll rest (hnames first (List.mem_cons_self ..))] at hc
      exact hbare.front c hc
  · intro c hc
    induction names using List.reverseRecOn with
    | nil => cases hc
    | append_singleton front last _ =>
      rw [getLast?_joinAll_concat front (hnames last (by simp))] at hc
      exact hbare.back c (by simpa using hc)

end Path

namespace PathRules

variable {path : String} {names : List String}

theorem accepts_strict_iff_spells {text : String} :
    strict.accepts text = true ↔ ∃ names, Path.Spells names text := by
  simpa only [strict] using Path.valid_iff_exists_spells

theorem clean_strict_of_spells (hspell : Path.Spells names (Text.trim path)) :
    strict.clean path = .ok (Text.trim path) := by
  have hvalid := Path.valid_iff_exists_spells.mpr ⟨_, hspell⟩
  rw [clean_eq, if_pos (accepts_strict_iff_spells.mpr ⟨_, hspell⟩), Path.cleaned_of_valid hvalid]

theorem split_strict_of_spells (hspell : Path.Spells names (Text.trim path)) :
    strict.split path = .ok names := by
  have hvalid := Path.valid_iff_exists_spells.mpr ⟨_, hspell⟩
  rw [split_eq, if_pos (accepts_strict_iff_spells.mpr ⟨_, hspell⟩), Path.cleaned_of_valid hvalid,
    hspell.segments_eq]

/-- What the strict rules make of a path whose trimmed text is spelled by the names. -/
structure Reads (path : String) (names : List String) : Prop where
  clean : strict.clean path = .ok (Text.trim path)
  clean_again : strict.clean (Text.trim path) = .ok (Text.trim path)
  split : strict.split path = .ok names
  joined : Path.joinAll names = Text.trim path

theorem reads_of_spells (hspell : Path.Spells names (Text.trim path)) : Reads path names where
  clean := clean_strict_of_spells hspell
  clean_again := by
    have hagain : Path.Spells names (Text.trim (Text.trim path)) := by rwa [Text.trim_trim]
    rw [clean_strict_of_spells hagain, Text.trim_trim]
  split := split_strict_of_spells hspell
  joined := hspell.joinAll_eq

/-- The refused path is reported as it was given. -/
structure Refuses (path : String) : Prop where
  clean : strict.clean path = .error (.invalidPath path)
  split : strict.split path = .error (.invalidPath path)

theorem refuses_of_not_spells (hnot : ¬ ∃ names, Path.Spells names (Text.trim path)) :
    Refuses path := by
  have hrefused := mt accepts_strict_iff_spells.mp hnot
  exact ⟨by rw [clean_eq, if_neg hrefused], by rw [split_eq, if_neg hrefused]⟩

/-- The strict rules accept a path exactly if its trimmed text is spelled by names, which are then
its segments, and nothing but trimming is done to it. Names joined are split again, if no blank is
trimmed from their ends. -/
theorem strict_reads_iff_spells :
    (∀ path : String, (∃ cleaned, strict.clean path = .ok cleaned) ↔
      ∃ names, Path.Spells names (Text.trim path)) ∧
    (∀ (path : String) (names : List String),
      Path.Spells names (Text.trim path) → Reads path names) ∧
    (∀ path : String, (¬ ∃ names, Path.Spells names (Text.trim path)) → Refuses path) ∧
    ∀ names : List String, names ≠ [] → (∀ s ∈ names, Path.IsDownward s) → Path.BareEnds names →
      strict.split (Path.joinAll names) = .ok names := by
  refine ⟨fun path => ⟨?_, ?_⟩, fun _ _ => reads_of_spells, fun _ => refuses_of_not_spells,
    fun names hne hnames hbare => ?_⟩
  · rintro ⟨cleaned, hclean⟩
    by_contra hnot
    rw [(refuses_of_not_spells hnot).clean] at hclean
    cases hclean
  · rintro ⟨names, hspells⟩
    exact ⟨_, clean_strict_of_spells hspells⟩
  · have htrim := Path.trim_joinAll_of_bareEnds (fun s hs => (hnames s hs).1.1) hbare
    apply split_strict_of_spells
    rw [htrim]
    exact .joined hne hnames

/-- Blanks inside a path belong to its names, also where a name is dots apart from them. -/
theorem strict_reads_iff_spells_blanks :
    Reads "\t a/.. b/... " ["a", ".. b", "..."] ∧ Refuses " a/../b" ∧
      strict.split (Path.joinAll ["x ", " ..", "z"]) = .ok ["x ", " ..", "z"] := by
  obtain ⟨-, hreads, hrefuses, hsplit⟩ := strict_reads_iff_spells
  have hbare : Path.BareEnds ["x ", " ..", "z"] :=
    ⟨fun c hc => by cases hc; decide, fun c hc => by cases hc; decide⟩
  refine ⟨hreads _ _ ?_, hrefuses _ ?_,
    hsplit _ (List.cons_ne_nil _ _) (by decide +kernel) hbare⟩
  · have htrim : Text.trim "\t a/.. b/... " = Path.joinAll ["a", ".. b", "..."] := by decide +kernel
    rw [htrim]
    exact .joined (List.cons_ne_nil _ _) (by decide +kernel)
  · rw [← Path.valid_iff_exists_spells]
    decide +kernel

end PathRules

end VirtualFs
