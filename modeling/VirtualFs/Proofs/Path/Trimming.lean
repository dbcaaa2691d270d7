import Mathlib.Data.List.DropRight
import VirtualFs.Proofs.Path.Segments

namespace VirtualFs

namespace Text

/-- Nothing is left to trim. -/
theorem trimChars_trimChars (cs : List Char) : trimChars (trimChars cs) = trimChars cs := by
  have hprefix : trimChars cs <+: cs.dropWhile isBlank := List.rdropWhile_prefix isBlank _
  rw [trimChars_eq_self_iff]
  constructor
  · intro c hhead
    have hfirst := List.head?_dropWhile_not isBlank cs
    obtain ⟨rest, hrest⟩ := hprefix
    rw [← hrest, List.head?_append, hhead] at hfirst
    simpa using hfirst
  · intro c hlast
    have hfirst := List.head?_dropWhile_not isBlank (cs.dropWhile isBlank).reverse
    rw [trimChars, List.getLast?_reverse] at hlast
    rw [hlast] at hfirst
    simpa using hfirst

theorem trim_trim (s : String) : trim (trim s) = trim s := by
  rw [← String.toList_inj, toList_trim, toList_trim, trimChars_trimChars]

end Text

namespace Path

/-- A piece that is neither empty nor `"."` leads on. -/
def leadsOn (piece : List Char) : Bool :=
  piece != [] && piece != ['.']

/-- How many steps a path leads down. -/
def steps (cs : List Char) : Nat :=
  (Text.pieces isSeparator cs).countP leadsOn

variable {c : Char} {cs : List Char}

theorem isSeparator_of_isBlank (hblank : Text.isBlank c = true) : isSeparator c = false := by
  rw [← Bool.not_eq_true, isSeparator, beq_iff_eq]
  rintro rfl
  rw [isBlank_separator] at hblank
  cases hblank

/-- A piece with a blank in it leads on. -/
theorem leadsOn_of_mem {piece : List Char} (hmem : c ∈ piece) (hblank : Text.isBlank c = true) :
    leadsOn piece = true := by
  have hdot : piece ≠ ['.'] := by
    rintro rfl
    rw [List.mem_singleton.mp hmem] at hblank
    exact absurd hblank (by decide)
  simp [leadsOn, List.ne_nil_of_mem hmem, hdot]

theorem countP_singleton_le (piece : List Char) : [piece].countP leadsOn ≤ 1 :=
  List.countP_le_length

/-- A blank in front of a path takes no step away. -/
theorem steps_le_cons (hblank : Text.isBlank c = true) (cs : List Char) :
    steps cs ≤ steps (c :: cs) := by
  have hseparator := isSeparator_of_isBlank hblank
  unfold steps
  rw [Text.pieces, hseparator]
  cases hpieces : Text.pieces isSeparator cs with
  | nil => exact absurd hpieces (Text.pieces_ne_nil isSeparator cs)
  | cons first rest =>
    have hfirst := leadsOn_of_mem (List.mem_cons_self (l := first)) hblank
    simp only [Bool.false_eq_true, if_false, List.countP_cons, hfirst, if_true]
    split <;> omega

/-- A character behind a path belongs to its last piece. -/
theorem pieces_concat (hseparator : isSeparator c = false) (cs : List Char) :
    ∃ front last, Text.pieces isSeparator cs = front ++ [last] ∧
      Text.pieces isSeparator (cs ++ [c]) = front ++ [last ++ [c]] := by
  induction cs with
  | nil => exact ⟨[], [], rfl, by simp [Text.pieces, hseparator]⟩
  | cons first rest ih =>
    obtain ⟨front, last, hrest, hlonger⟩ := ih
    rw [List.cons_append, Text.pieces, Text.pieces]
    split
    · exact ⟨[] :: front, last, by rw [hrest]; rfl, by rw [hlonger]; rfl⟩
    · rw [hrest, hlonger]
      cases front with
      | nil => exact ⟨[], first :: last, rfl, rfl⟩
      | cons p ps => exact ⟨(first :: p) :: ps, last, rfl, rfl⟩

/-- A blank behind a path takes no step away. -/
theorem steps_le_concat (hblank : Text.isBlank c = true) (cs : List Char) :
    steps cs ≤ steps (cs ++ [c]) := by
  obtain ⟨front, last, hpieces, hlonger⟩ := pieces_concat (isSeparator_of_isBlank hblank) cs
  have hlast : leadsOn (last ++ [c]) = true := leadsOn_of_mem (by simp) hblank
  have hone := countP_singleton_le last
  have hmore : [last ++ [c]].countP leadsOn = 1 := by simp [hlast]
  unfold steps
  rw [hpieces, hlonger, List.countP_append, List.countP_append, hmore]
  omega

theorem steps_dropWhile_le (cs : List Char) : steps (cs.dropWhile Text.isBlank) ≤ steps cs := by
  induction cs with
  | nil => exact Nat.le_refl _
  | cons c rest ih =>
    by_cases hblank : Text.isBlank c = true
    · rw [List.dropWhile_cons_of_pos hblank]
      exact Nat.le_trans ih (steps_le_cons hblank rest)
    · rw [List.dropWhile_cons_of_neg hblank]

theorem steps_rdropWhile_le (cs : List Char) : steps (cs.rdropWhile Text.isBlank) ≤ steps cs := by
  induction cs using List.reverseRecOn with
  | nil => exact Nat.le_refl _
  | append_singleton front c ih =>
    by_cases hblank : Text.isBlank c = true
    · rw [List.rdropWhile_concat_pos _ _ _ hblank]
      exact Nat.le_trans ih (steps_le_concat hblank front)
    · rw [List.rdropWhile_concat_neg _ _ _ hblank]

theorem steps_trimChars_le (cs : List Char) : steps (Text.trimChars cs) ≤ steps cs :=
  Nat.le_trans (steps_rdropWhile_le _) (steps_dropWhile_le cs)

/-- The steps of a path are its segments other than `"."`. -/
theorem length_filter_segments (path : String) :
    ((segments path).filter (· != ".")).length = steps path.toList := by
  rw [segments, List.filter_filter, ← List.countP_eq_length_filter, pieces, List.countP_map, steps]
  refine List.countP_congr fun piece _ => ?_
  have hempty : String.ofList piece = "" ↔ piece = [] := by
    rw [← String.toList_inj, String.toList_ofList]
    rfl
  have hdot : String.ofList piece = "." ↔ piece = ['.'] := by
    rw [← String.toList_inj, String.toList_ofList]
    rfl
  simp [leadsOn, hempty, hdot, and_comm]

/-- Cleaning a path adds no segment that leads on. -/
theorem length_filter_segments_cleaned_le (path : String) :
    ((segments (cleaned path)).filter (· != ".")).length ≤
      ((segments path).filter (· != ".")).length := by
  rw [segments_cleaned, length_filter_segments, length_filter_segments, Text.toList_trim]
  exact steps_trimChars_le path.toList

/-- Without a separator at its end a trimmed path is clean. -/
theorem cleaned_eq_trim {path : String} (hlast : (Text.trim path).toList.getLast? ≠ some separator) :
    cleaned path = Text.trim path := by
  rw [cleaned, dropSlash, if_neg hlast, String.ofList_toList]

/-- A valid path does not end in a separator. -/
theorem getLast?_of_valid {path : String} (hvalid : valid path = true) :
    path.toList.getLast? ≠ some separator := by
  intro hlast
  simp only [valid, Bool.or_eq_true, beq_iff_eq, List.all_eq_true] at hvalid
  rcases hvalid with rfl | hpieces
  · exact absurd hlast (by decide)
  · have hcs := (List.dropLast_append_getLast? separator hlast).symm
    have hempty : "" ∈ pieces path := by
      rw [← String.ofList_toList (s := path), hcs, pieces_append_separator]
      exact List.mem_append_right _ (by decide)
    exact absurd (hpieces "" hempty) (by decide)

end Path

end VirtualFs
