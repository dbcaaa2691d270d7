import VirtualFs.Proofs.Path.Valid

namespace VirtualFs

namespace Text

theorem length_trimChars_le (cs : List Char) : (trimChars cs).length ≤ cs.length := by
  have hback := (List.dropWhile_suffix isBlank (l := (cs.dropWhile isBlank).reverse)).length_le
  have hfront := (List.dropWhile_suffix isBlank (l := cs)).length_le
  rw [List.length_reverse] at hback
  rw [trimChars, List.length_reverse]
  omega

/-- Trimmed characters have no blank in front, and neither has what they start with. -/
theorem isBlank_head_of_trim {path : String} {front back : List Char} {c : Char}
    (htrim : (trim path).toList = front ++ back) (hhead : front.head? = some c) :
    isBlank c = false := by
  have hself := (trim_eq_self_iff.mp (trim_trim path)).1
  rw [htrim] at hself
  exact hself c (by rw [List.head?_append, hhead]; rfl)

end Text

namespace Path

variable {path front name : String}

/-- Cleaning keeps a path exactly if neither trimming nor cutting takes anything away. -/
theorem cleaned_eq_self_iff :
    cleaned path = path ↔ Text.trim path = path ∧ path.toList.getLast? ≠ some separator := by
  constructor
  · intro hclean
    by_cases hlast : (Text.trim path).toList.getLast? = some separator
    · have hlength := congrArg (·.toList.length) hclean
      have hpos := List.length_pos_of_mem (List.mem_of_getLast? hlast)
      have htrim := Text.length_trimChars_le path.toList
      simp only [cleaned, dropSlash, if_pos hlast, String.toList_ofList, List.length_dropLast]
        at hlength
      rw [Text.toList_trim] at hlength hpos
      omega
    · have htrim : Text.trim path = path := by rw [← cleaned_eq_trim hlast, hclean]
      exact ⟨htrim, htrim ▸ hlast⟩
  · rintro ⟨htrim, hlast⟩
    rw [cleaned_eq_trim (htrim.symm ▸ hlast), htrim]

/-- A path is its last piece, or that piece behind a separator. -/
theorem eq_or_exists_of_last_piece (hlast : (pieces path).getLast? = some name) :
    path = name ∨ ∃ front, path = front ++ "/" ++ name := by
  have hpieces := (List.dropLast_append_getLast? name hlast).symm
  have hpath := joinAll_pieces path
  by_cases hfront : (pieces path).dropLast = []
  · left
    rw [hpieces, hfront, List.nil_append, joinAll_singleton] at hpath
    exact hpath.symm
  · right
    rw [hpieces, joinAll_append hfront (List.cons_ne_nil _ _), joinAll_singleton] at hpath
    exact ⟨_, hpath.symm⟩

/-- The final segment of a path without a separator at its end is its last piece. -/
theorem getLast?_pieces_eq_base (hne : path ≠ "")
    (hlast : path.toList.getLast? ≠ some separator) :
    (pieces path).getLast? = some (base path) := by
  have hpieces : pieces path ≠ [] := by simp [pieces, Text.pieces_ne_nil]
  obtain ⟨name, hname⟩ := Option.ne_none_iff_exists'.mp (mt List.getLast?_eq_none_iff.mp hpieces)
  have hsep := separator_not_mem_of_mem_pieces (List.mem_of_getLast? hname)
  have hsegment : IsSegment name := by
    refine ⟨?_, hsep⟩
    rintro rfl
    rcases eq_or_exists_of_last_piece hname with hpath | ⟨front, hpath⟩
    · exact hne hpath
    · exact hlast (by simp [hpath, separator])
  rw [hname]
  rcases eq_or_exists_of_last_piece hname with hpath | ⟨front, hpath⟩
  · rw [hpath, base_segment hsegment]
  · rw [hpath, base_append_segment front hsegment]

theorem dir_of_not_mem (hname : separator ∉ name.toList) : dir name = "." := by
  rw [dir, List.dropWhile_eq_nil_iff.mpr (not_isSeparator_of_not_mem hname)]

/-- What is in front of the last separator. -/
theorem dir_append_name (front : String) (hname : separator ∉ name.toList) :
    dir (front ++ "/" ++ name) = if front = "" then "/" else front := by
  have hslash : "/".toList = [separator] := by decide
  have hdrop : (front ++ "/" ++ name).toList.reverse.dropWhile (!isSeparator ·) =
      separator :: front.toList.reverse := by
    rw [String.toList_append, String.toList_append, hslash, List.reverse_append,
      List.dropWhile_append_of_pos (not_isSeparator_of_not_mem hname)]
    simp [isSeparator]
  rw [dir, hdrop]
  by_cases hfront : front = ""
  · subst hfront
    rfl
  · rw [if_neg hfront]
    cases hback : front.toList.reverse with
    | nil => simp [hfront] at hback
    | cons c cs =>
      have hcs : (c :: cs).reverse = front.toList := by rw [← hback, List.reverse_reverse]
      simp only [hcs, String.ofList_toList]

/-- In front of a separator at the end of the trimmed path stands no second separator and no
blank. -/
def EndsCleanly (path : String) : Prop :=
  (Text.trim path).toList.getLast? = some separator →
    ∀ last ∈ (Text.trim path).toList.dropLast.getLast?, last ≠ separator ∧ Text.isBlank last = false

instance (path : String) : Decidable (EndsCleanly path) :=
  let : Decidable (∀ last ∈ (Text.trim path).toList.dropLast.getLast?,
      last ≠ separator ∧ Text.isBlank last = false) := Option.decidableForallMem _
  inferInstanceAs (Decidable (_ → _))

/-- The second cleaning takes nothing more away exactly if the first one left a clean end. -/
theorem cleaned_cleaned_iff : cleaned (cleaned path) = cleaned path ↔ EndsCleanly path := by
  by_cases hlast : (Text.trim path).toList.getLast? = some separator
  · have hclean : (cleaned path).toList = (Text.trim path).toList.dropLast := by
      rw [cleaned, String.toList_ofList, dropSlash, if_pos hlast]
    have hhead : ∀ c, (cleaned path).toList.head? = some c → Text.isBlank c = false := by
      intro c
      rw [hclean]
      exact Text.isBlank_head_of_trim (List.dropLast_append_getLast? separator hlast).symm
    rw [cleaned_eq_self_iff, Text.trim_eq_self_iff, EndsCleanly, ← hclean]
    constructor
    · rintro ⟨⟨-, hblank⟩, hsep⟩ - last hmem
      exact ⟨fun heq => hsep (heq ▸ hmem), hblank last hmem⟩
    · intro hends
      exact ⟨⟨hhead, fun c hc => (hends hlast c hc).2⟩, fun hc => (hends hlast separator hc).1 rfl⟩
  · rw [cleaned_eq_trim hlast]
    exact iff_of_true (cleaned_eq_self_iff.mpr ⟨Text.trim_trim path, hlast⟩) fun h => absurd h hlast

end Path

namespace Entry

/-- The path of the entry is clean, and cut in two by the last separator: behind it is the name, in
front of it the directory. -/
structure Clean (entry : Entry) : Prop where
  ne_empty : entry.path ≠ ""
  noTrailing : entry.path.toList.getLast? ≠ some Path.separator
  clean_path : PathRules.permissive.clean entry.path = .ok entry.path
  name_last : (Path.pieces entry.path).getLast? = some entry.name
  apart : entry.path = entry.name ∧ entry.dir = "." ∨
    ∃ front, entry.path = front ++ "/" ++ entry.name ∧
      entry.dir = if front = "" then "/" else front

variable {path : String} {attrs : Attributes} {rules : PathRules} {entry : Entry}

/-- A path that stays as it is when it is cleaned is enough, if it is not empty. -/
theorem clean_iff : entry.Clean ↔ entry.path ≠ "" ∧ Path.cleaned entry.path = entry.path := by
  constructor
  · intro hclean
    exact ⟨hclean.ne_empty, (PathRules.cleaned_of_clean _ hclean.clean_path).symm⟩
  · rintro ⟨hne, hcleaned⟩
    have hlast := (Path.cleaned_eq_self_iff.mp hcleaned).2
    have hname := Path.getLast?_pieces_eq_base hne hlast
    have hsep := Path.separator_not_mem_of_mem_pieces (List.mem_of_getLast? hname)
    refine ⟨hne, hlast, ?_, hname, ?_⟩
    · rw [PathRules.clean_eq, hcleaned]
      rfl
    · rcases Path.eq_or_exists_of_last_piece hname with hpath | ⟨front, hpath⟩
      · exact .inl ⟨hpath, by rw [dir, hpath, Path.dir_of_not_mem hsep]⟩
      · exact .inr ⟨front, hpath, by rw [dir, hpath, Path.dir_append_name front hsep]⟩

/-- The path of a new entry is the cleaned one, or that of the root. -/
theorem path_eq_of_create (hentry : create path attrs rules = .ok entry) :
    entry.path = if Path.cleaned path = "" then "." else Path.cleaned path := by
  unfold create at hentry
  split at hentry
  · next cleaned hclean =>
    simp only [Except.ok.injEq] at hentry
    rw [← hentry, rules.cleaned_of_clean hclean]
  · cases hentry

theorem clean_iff_cleaned (hentry : create path attrs rules = .ok entry) :
    entry.Clean ↔ Path.cleaned (Path.cleaned path) = Path.cleaned path := by
  rw [clean_iff, path_eq_of_create hentry]
  by_cases hempty : Path.cleaned path = ""
  · rw [if_pos hempty, hempty]
    decide
  · rw [if_neg hempty]
    exact and_iff_right hempty

/-- The strict rules make clean entries only. -/
theorem clean_of_strict (hentry : create path attrs .strict = .ok entry) : entry.Clean := by
  have hvalid : Path.valid (Text.trim path) = true := by
    simpa only [PathRules.strict] using accepts_of_create hentry
  rw [clean_iff_cleaned hentry, Path.cleaned_of_valid hvalid, Path.cleaned_eq_self_iff]
  exact ⟨Text.trim_trim path, Path.getLast?_of_valid hvalid⟩

/-- The path of an entry is clean exactly if no blank and no second separator stands in front of
the separator that was cut off. -/
theorem clean_iff_endsCleanly (hentry : create path attrs rules = .ok entry) :
    entry.Clean ↔ Path.EndsCleanly path := by
  rw [clean_iff_cleaned hentry, Path.cleaned_cleaned_iff]

/-- One separator behind a name is cut off, whatever blanks are around. -/
theorem clean_iff_endsCleanly_slash :
    create " a/b/ " (.createdAt 5 ⟨0⟩ 7) .permissive = .ok ⟨"a/b", .createdAt 5 ⟨0⟩ 7⟩ ∧
      Path.EndsCleanly " a/b/ " ∧ Clean ⟨"a/b", .createdAt 5 ⟨0⟩ 7⟩ := by
  have hentry : create " a/b/ " (.createdAt 5 ⟨0⟩ 7) .permissive =
      .ok ⟨"a/b", .createdAt 5 ⟨0⟩ 7⟩ := by decide +kernel
  have hends : Path.EndsCleanly " a/b/ " := by decide +kernel
  exact ⟨hentry, hends, (clean_iff_endsCleanly hentry).mpr hends⟩

/-- Of two separators one stays: the entry for `"a//"` has the path `"a/"`, which ends in a
separator, is not clean, and has `a` both for its directory and for its name. -/
theorem not_forall_clean :
    ¬ ∀ (path : String) (attrs : Attributes) (rules : PathRules) (entry : Entry),
      create path attrs rules = .ok entry → entry.Clean := by
  intro h
  have hclean := h "a//" (.createdAt 5 ⟨0⟩ 7) .permissive ⟨"a/", .createdAt 5 ⟨0⟩ 7⟩
    (by decide +kernel)
  exact hclean.noTrailing (by decide)

end Entry

end VirtualFs
