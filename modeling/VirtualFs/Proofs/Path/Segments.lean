import Mathlib.Data.List.Basic
import Mathlib.Data.List.TakeWhile
import Mathlib.Tactic.Common
import VirtualFs.Path.Rules

namespace VirtualFs

namespace Text

theorem pieces_eq_splitOnP (isSeparator : Char → Bool) (cs : List Char) :
    pieces isSeparator cs = cs.splitOnP isSeparator := by
  induction cs with
  | nil => rfl
  | cons c cs ih =>
    rw [List.splitOnP_cons_eq_if_modifyHead, ← ih]
    simp only [pieces]
    split
    · rfl
    · cases hpieces : pieces isSeparator cs with
      | nil => exact absurd hpieces (pieces_ne_nil isSeparator cs)
      | cons p ps => rfl

/-- No piece holds a separator. -/
theorem of_mem_pieces {isSeparator : Char → Bool} {cs piece : List Char}
    (hpiece : piece ∈ pieces isSeparator cs) : ∀ c ∈ piece, isSeparator c = false := by
  induction cs generalizing piece with
  | nil =>
    simp only [pieces, List.mem_singleton] at hpiece
    simp [hpiece]
  | cons c cs ih =>
    simp only [pieces] at hpiece
    split at hpiece
    · rcases List.mem_cons.mp hpiece with rfl | hrest
      · simp
      · exact ih hrest
    · next hc =>
      cases hpieces : pieces isSeparator cs with
      | nil => exact absurd hpieces (pieces_ne_nil isSeparator cs)
      | cons p ps =>
        rw [hpieces] at hpiece ih
        rcases List.mem_cons.mp hpiece with rfl | hrest
        · intro x hx
          rcases List.mem_cons.mp hx with rfl | hx
          · simpa using hc
          · exact ih (List.mem_cons_self ..) x hx
        · exact ih (List.mem_cons_of_mem _ hrest)

/-- Trimming keeps a text exactly if neither its first nor its last character is blank. -/
theorem trimChars_eq_self_iff {cs : List Char} :
    trimChars cs = cs ↔ (∀ c, cs.head? = some c → isBlank c = false) ∧
      ∀ c, cs.getLast? = some c → isBlank c = false := by
  constructor
  · intro htrim
    have hlen : cs.length ≤ (cs.dropWhile isBlank).length := by
      have hle := (List.dropWhile_suffix isBlank
        (l := (cs.dropWhile isBlank).reverse)).length_le
      have heq := congrArg List.length htrim
      simp only [trimChars, List.length_reverse] at heq hle
      omega
    have hfront : cs.dropWhile isBlank = cs :=
      (List.dropWhile_suffix isBlank).eq_of_length_le hlen
    have hback : cs.reverse.dropWhile isBlank = cs.reverse := by
      simpa [trimChars, hfront, List.reverse_eq_iff] using htrim
    constructor
    · intro c hhead
      have hfirst := List.head?_dropWhile_not isBlank cs
      rw [hfront, hhead] at hfirst
      simpa using hfirst
    · intro c hlast
      have hfirst := List.head?_dropWhile_not isBlank cs.reverse
      rw [hback, List.head?_reverse, hlast] at hfirst
      simpa using hfirst
  · rintro ⟨hhead, hlast⟩
    have hfront : cs.dropWhile isBlank = cs := by
      cases cs with
      | nil => rfl
      | cons c cs => simp [List.dropWhile, hhead c rfl]
    have hback : cs.reverse.dropWhile isBlank = cs.reverse := by
      cases hcs : cs.reverse with
      | nil => rfl
      | cons c rest =>
        have hc : isBlank c = false := hlast c (by rw [← List.head?_reverse, hcs]; rfl)
        simp [List.dropWhile, hc]
    simp [trimChars, hfront, hback]

theorem trim_eq_self_iff {s : String} :
    trim s = s ↔ (∀ c, s.toList.head? = some c → isBlank c = false) ∧
      ∀ c, s.toList.getLast? = some c → isBlank c = false := by
  rw [← trimChars_eq_self_iff, ← toList_trim, String.toList_inj]

end Text

namespace Path

/-- A text that can be a segment of a path. -/
def IsSegment (s : String) : Prop :=
  s ≠ "" ∧ separator ∉ s.toList

instance (s : String) : Decidable (IsSegment s) :=
  inferInstanceAs (Decidable (s ≠ "" ∧ separator ∉ s.toList))

/-- What holds of the names so far and of the next name holds of all of them. -/
theorem forall_mem_concat {P : String → Prop} {names : List String} {name : String}
    (hnames : ∀ s ∈ names, P s) (hname : P name) : ∀ s ∈ names ++ [name], P s :=
  List.forall_mem_append.mpr ⟨hnames, List.forall_mem_singleton.mpr hname⟩

/-- The segments of a path, `"."` among them. -/
def segments (path : String) : List String :=
  (pieces path).filter (· != "")

theorem pieces_eq_splitOn (path : String) :
    pieces path = (path.toList.splitOn separator).map String.ofList := by
  rw [pieces, Text.pieces_eq_splitOnP]
  rfl

theorem toList_joinAll (segments : List String) :
    (joinAll segments).toList = [separator].intercalate (segments.map String.toList) :=
  String.toList_intercalate

/-- Joining the pieces of a path gives the path back. -/
theorem joinAll_pieces (path : String) : joinAll (pieces path) = path := by
  rw [← String.toList_inj, toList_joinAll, pieces_eq_splitOn, List.map_map]
  have hid : String.toList ∘ String.ofList = id := by
    funext cs
    simp
  rw [hid, List.map_id, List.intercalate_splitOn]

/-- Cutting joined texts gives the texts back, if none of them holds a separator. -/
theorem pieces_joinAll {segments : List String} (hne : segments ≠ [])
    (hsegments : ∀ s ∈ segments, separator ∉ s.toList) : pieces (joinAll segments) = segments := by
  rw [pieces_eq_splitOn, toList_joinAll, List.splitOn_intercalate]
  · rw [List.map_map]
    have hid : String.ofList ∘ String.toList = id := by
      funext s
      simp
    rw [hid, List.map_id]
  · intro cs hcs
    obtain ⟨s, hs, rfl⟩ := List.mem_map.mp hcs
    exact hsegments s hs
  · simpa using hne

theorem separator_not_mem_of_mem_pieces {path s : String} (hs : s ∈ pieces path) :
    separator ∉ s.toList := by
  obtain ⟨cs, hcs, rfl⟩ := List.mem_map.mp hs
  intro hmem
  have hfalse := Text.of_mem_pieces hcs separator (by simpa using hmem)
  simp [isSeparator] at hfalse

theorem pieces_append_separator (front back : List Char) :
    pieces (String.ofList (front ++ separator :: back)) =
      pieces (String.ofList front) ++ pieces (String.ofList back) := by
  simp only [pieces_eq_splitOn, String.toList_ofList, List.splitOn_append_cons_self,
    List.map_append]

theorem pieces_append_slash (front back : String) :
    pieces (front ++ "/" ++ back) = pieces front ++ pieces back := by
  have htext : front ++ "/" ++ back = String.ofList (front.toList ++ separator :: back.toList) := by
    simp [← String.toList_inj, separator]
  rw [htext, pieces_append_separator, String.ofList_toList, String.ofList_toList]

/-- An absolute path has nothing before its first separator. -/
theorem pieces_absolute (path : String) : pieces ("/" ++ path) = "" :: pieces path := by
  have hslash : "/".toList = [separator] := by decide
  rw [pieces, String.toList_append, hslash, List.singleton_append, Text.pieces, if_pos (by decide)]
  rfl

theorem isSegment_of_mem_segments {path s : String} (hs : s ∈ segments path) : IsSegment s := by
  simp only [segments, List.mem_filter, bne_iff_ne, ne_eq] at hs
  exact ⟨hs.2, separator_not_mem_of_mem_pieces hs.1⟩

theorem segments_joinAll {names : List String} (hnames : ∀ s ∈ names, IsSegment s) :
    segments (joinAll names) = names := by
  by_cases hne : names = []
  · subst hne
    decide
  · rw [segments, pieces_joinAll hne fun s hs => (hnames s hs).2, List.filter_eq_self]
    intro s hs
    simpa using (hnames s hs).1

/-- One separator at the end adds only an empty piece. -/
theorem segments_dropSlash (cs : List Char) :
    segments (String.ofList (dropSlash cs)) = segments (String.ofList cs) := by
  unfold dropSlash
  split
  · next hlast =>
    have hcs := (List.dropLast_append_getLast? separator hlast).symm
    conv_rhs => rw [hcs]
    rw [segments, segments, pieces_append_separator, List.filter_append]
    have hempty : (pieces (String.ofList [])).filter (· != "") = [] := by decide
    rw [hempty, List.append_nil]
  · rfl

/-- Joined segments do not end in a separator. -/
theorem getLast?_joinAll {names : List String} (hnames : ∀ s ∈ names, IsSegment s) :
    (joinAll names).toList.getLast? ≠ some separator := by
  intro hlast
  by_cases hne : names = []
  · subst hne
    cases hlast
  · have hcut := pieces_joinAll hne fun s hs => (hnames s hs).2
    have hcs := (List.dropLast_append_getLast? separator hlast).symm
    rw [← String.ofList_toList (s := joinAll names), hcs, pieces_append_separator] at hcut
    have hmem : "" ∈ names := by
      rw [← hcut]
      exact List.mem_append_right _ (by decide)
    exact (hnames "" hmem).1 rfl

theorem dropSlash_joinAll {names : List String} (hnames : ∀ s ∈ names, IsSegment s) :
    dropSlash (joinAll names).toList = (joinAll names).toList :=
  if_neg (getLast?_joinAll hnames)

/-- What ends in a segment does not end in a separator. -/
theorem getLast?_append_segment {name : String} (front : String) (hname : IsSegment name) :
    (front ++ name).toList.getLast? ≠ some separator := by
  have hne : name.toList ≠ [] := fun hnil => hname.1 (String.toList_eq_nil_iff.mp hnil)
  rw [String.toList_append, List.getLast?_append_of_ne_nil _ hne]
  exact fun hlast => hname.2 (List.mem_of_getLast? hlast)

theorem not_isSeparator_of_not_mem {name : String} (hname : separator ∉ name.toList) :
    ∀ c ∈ name.toList.reverse, (!isSeparator c) = true := by
  intro c hc
  have hne : c ≠ separator := by
    rintro rfl
    exact hname (by simpa using hc)
  simpa [isSeparator] using hne

theorem base_segment {name : String} (hname : IsSegment name) : base name = name := by
  have hlast : name.toList.getLast? ≠ some separator :=
    fun hlast => hname.2 (List.mem_of_getLast? hlast)
  have hfull : name.toList ≠ [] := fun hnil => hname.1 (String.toList_eq_nil_iff.mp hnil)
  have hafter : afterSlash name.toList = name.toList := by
    rw [afterSlash, List.takeWhile_eq_self_iff.mpr (not_isSeparator_of_not_mem hname.2),
      List.reverse_reverse]
  rw [base, dropSlash, if_neg hlast]
  simp only [List.isEmpty_iff, hfull, if_false, hafter, String.ofList_toList]

/-- The final segment of what ends in a segment. -/
theorem base_append_segment {name : String} (front : String) (hname : IsSegment name) :
    base (front ++ "/" ++ name) = name := by
  have hslash : "/".toList = [separator] := by decide
  have hafter : afterSlash (front ++ "/" ++ name).toList = name.toList := by
    rw [String.toList_append, String.toList_append, hslash, afterSlash]
    simp only [List.reverse_append, List.reverse_singleton]
    rw [List.takeWhile_append_of_pos (not_isSeparator_of_not_mem hname.2)]
    simp [isSeparator]
  have hfull : (front ++ "/" ++ name).toList ≠ [] := by simp
  rw [base, dropSlash, if_neg (getLast?_append_segment _ hname)]
  simp only [List.isEmpty_iff, hfull, if_false, hafter, String.ofList_toList]

/-- The final segment of joined segments is the last of them. -/
theorem base_joinAll (names : List String) {name : String} (hname : IsSegment name) :
    base (joinAll (names ++ [name])) = name := by
  by_cases hne : names = []
  · subst hne
    have hsingle : joinAll ([] ++ [name]) = name := String.intercalate_singleton
    rw [hsingle, base_segment hname]
  · have hcut : joinAll (names ++ [name]) = joinAll names ++ "/" ++ name := by
      rw [joinAll, String.intercalate_append_of_ne_nil hne (by simp), String.intercalate_singleton]
      rfl
    rw [hcut, base_append_segment _ hname]

/-- No segment starts or ends with a blank. -/
def Tidy (path : String) : Prop :=
  ∀ piece ∈ pieces path, Text.trim piece = piece

instance (path : String) : Decidable (Tidy path) :=
  inferInstanceAs (Decidable (∀ piece ∈ pieces path, Text.trim piece = piece))

theorem isBlank_separator : Text.isBlank separator = false := by decide

/-- The first character of a path is a separator or that of one of its pieces. -/
theorem head?_intercalate {css : List (List Char)} {c : Char}
    (hhead : ([separator].intercalate css).head? = some c) :
    c = separator ∨ ∃ cs ∈ css, cs.head? = some c := by
  cases css with
  | nil => simp at hhead
  | cons cs rest =>
    by_cases hrest : rest = []
    · subst hrest
      exact .inr ⟨cs, List.mem_singleton_self cs, by simpa using hhead⟩
    · rw [List.intercalate_cons_of_ne_nil hrest] at hhead
      cases cs with
      | nil =>
        left
        simpa using hhead.symm
      | cons first cs => exact .inr ⟨first :: cs, List.mem_cons_self .., by simpa using hhead⟩

theorem getLast?_intercalate {css : List (List Char)} {c : Char}
    (hlast : ([separator].intercalate css).getLast? = some c) :
    c = separator ∨ ∃ cs ∈ css, cs.getLast? = some c := by
  induction css with
  | nil => simp at hlast
  | cons cs rest ih =>
    by_cases hrest : rest = []
    · subst hrest
      exact .inr ⟨cs, List.mem_singleton_self cs, by simpa using hlast⟩
    · rw [List.intercalate_cons_of_ne_nil hrest, List.getLast?_append] at hlast
      cases htail : ([separator].intercalate rest).getLast? with
      | none =>
        rw [htail] at hlast
        left
        simpa [List.getLast?_append] using hlast.symm
      | some last =>
        rw [htail] at hlast ih
        rcases ih (by simpa using hlast) with hsep | ⟨cs', hmem, hcs'⟩
        · exact .inl hsep
        · exact .inr ⟨cs', List.mem_cons_of_mem _ hmem, hcs'⟩

/-- A tidy path has no blanks at its ends either. -/
theorem Tidy.trim_eq {path : String} (htidy : Tidy path) : Text.trim path = path := by
  rw [Text.trim_eq_self_iff]
  have hpath : path.toList = [separator].intercalate ((pieces path).map String.toList) := by
    rw [← toList_joinAll, joinAll_pieces]
  have hpiece : ∀ cs ∈ (pieces path).map String.toList,
      (∀ c, cs.head? = some c → Text.isBlank c = false) ∧
        ∀ c, cs.getLast? = some c → Text.isBlank c = false := by
    intro cs hcs
    obtain ⟨piece, hmem, rfl⟩ := List.mem_map.mp hcs
    exact Text.trim_eq_self_iff.mp (htidy piece hmem)
  constructor
  · intro c hhead
    rw [hpath] at hhead
    rcases head?_intercalate hhead with rfl | ⟨cs, hcs, hc⟩
    · exact isBlank_separator
    · exact (hpiece cs hcs).1 c hc
  · intro c hlast
    rw [hpath] at hlast
    rcases getLast?_intercalate hlast with rfl | ⟨cs, hcs, hc⟩
    · exact isBlank_separator
    · exact (hpiece cs hcs).2 c hc

/-- A name that a tidy path gives to a node. -/
def IsTidyName (s : String) : Prop :=
  IsSegment s ∧ Text.trim s = s

instance (s : String) : Decidable (IsTidyName s) :=
  inferInstanceAs (Decidable (IsSegment s ∧ Text.trim s = s))

theorem tidy_joinAll {names : List String} (hnames : ∀ s ∈ names, IsTidyName s) :
    Tidy (joinAll names) := by
  by_cases hne : names = []
  · subst hne
    intro piece hpiece
    have hempty : pieces (joinAll []) = [""] := by decide
    rw [hempty, List.mem_singleton] at hpiece
    subst hpiece
    decide
  · intro piece hpiece
    rw [pieces_joinAll hne fun s hs => (hnames s hs).1.2] at hpiece
    exact (hnames piece hpiece).2

theorem Tidy.isTidyName {path s : String} (htidy : Tidy path) (hs : s ∈ segments path) :
    IsTidyName s :=
  ⟨isSegment_of_mem_segments hs, htidy s (List.mem_filter.mp hs).1⟩

/-- What `PathRules.clean` makes of a path that the rules accept. -/
def cleaned (path : String) : String :=
  String.ofList (dropSlash (Text.trim path).toList)

theorem segments_cleaned (path : String) : segments (cleaned path) = segments (Text.trim path) := by
  rw [cleaned, segments_dropSlash, String.ofList_toList]

theorem Tidy.segments_cleaned {path : String} (htidy : Tidy path) :
    segments (cleaned path) = segments path := by
  rw [Path.segments_cleaned, htidy.trim_eq]

/-- A tidy path stays tidy without the separator at its end. -/
theorem Tidy.cleaned {path : String} (htidy : Tidy path) : Tidy (cleaned path) := by
  rw [Path.cleaned, htidy.trim_eq]
  unfold dropSlash
  split
  · next hlast =>
    have hcs := (List.dropLast_append_getLast? separator hlast).symm
    intro piece hpiece
    apply htidy piece
    rw [← String.ofList_toList (s := path), hcs, pieces_append_separator]
    exact List.mem_append_left _ hpiece
  · rwa [String.ofList_toList]

theorem cleaned_joinAll {names : List String} (hnames : ∀ s ∈ names, IsTidyName s) :
    cleaned (joinAll names) = joinAll names := by
  rw [cleaned, (tidy_joinAll hnames).trim_eq, dropSlash_joinAll fun s hs => (hnames s hs).1,
    String.ofList_toList]

end Path

namespace PathRules

variable (rules : PathRules)

theorem clean_eq (path : String) :
    rules.clean path =
      if rules.accepts (Text.trim path) then .ok (Path.cleaned path)
      else .error (.invalidPath path) := rfl

theorem split_eq (path : String) :
    rules.split path =
      if rules.accepts (Text.trim path) then .ok (Path.segments (Path.cleaned path))
      else .error (.invalidPath path) := by
  unfold split
  rw [clean_eq]
  by_cases haccepts : rules.accepts (Text.trim path)
  · simp only [haccepts, if_true]
    rfl
  · simp only [haccepts, if_false, Bool.false_eq_true]

theorem cleaned_of_clean {path cleaned : String} (hclean : rules.clean path = .ok cleaned) :
    cleaned = Path.cleaned path := by
  rw [clean_eq] at hclean
  split at hclean
  · simpa using hclean.symm
  · simp at hclean

theorem segments_of_split {path : String} {segments : List String}
    (hsplit : rules.split path = .ok segments) :
    segments = Path.segments (Path.cleaned path) := by
  rw [split_eq] at hsplit
  split at hsplit
  · simpa using hsplit.symm
  · simp at hsplit

end PathRules

end VirtualFs
