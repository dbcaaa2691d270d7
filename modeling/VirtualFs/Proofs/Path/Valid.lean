import VirtualFs.Proofs.Path.Keys
import VirtualFs.Proofs.Path.Trimming

namespace VirtualFs

namespace Path

/-- A name that leads down by one level. -/
def IsDownward (s : String) : Prop :=
  IsSegment s ∧ s ≠ "." ∧ s ≠ ".."

instance (s : String) : Decidable (IsDownward s) :=
  inferInstanceAs (Decidable (IsSegment s ∧ s ≠ "." ∧ s ≠ ".."))

variable {path name : String} {names key : List String}

theorem validSegment_iff (hsegment : separator ∉ name.toList) :
    validSegment name = true ↔ IsDownward name := by
  simp only [validSegment, Bool.and_eq_true, bne_iff_ne, ne_eq, IsDownward, IsSegment]
  tauto

/-- A valid path is that of the root or has downward pieces only. -/
theorem valid_iff : valid path = true ↔ path = "." ∨ ∀ s ∈ pieces path, IsDownward s := by
  simp only [valid, Bool.or_eq_true, beq_iff_eq, List.all_eq_true]
  refine or_congr_right (forall₂_congr fun s hs => ?_)
  exact validSegment_iff (separator_not_mem_of_mem_pieces hs)

/-- The names that a valid path is joined from. -/
theorem exists_names_of_valid (hvalid : valid path = true) :
    ∃ names, (∀ s ∈ names, IsDownward s) ∧ (names = [] ∨ names = pieces path) ∧
      path = ofKey names := by
  rcases valid_iff.mp hvalid with rfl | hpieces
  · exact ⟨[], List.forall_mem_nil _, .inl rfl, rfl⟩
  · have hne : pieces path ≠ [] := by
      simp [pieces, Text.pieces_ne_nil]
    exact ⟨pieces path, hpieces, .inr rfl, by rw [ofKey_of_ne_nil hne, joinAll_pieces]⟩

/-- A valid tidy path is that of a key which never goes up. -/
theorem Tidy.exists_key (htidy : Tidy path) (hvalid : valid path = true) :
    ∃ key, IsKey key ∧ ".." ∉ key ∧ path = ofKey key := by
  obtain ⟨names, hnames, hpieces, hpath⟩ := exists_names_of_valid hvalid
  refine ⟨names, fun s hs => ?_, fun hup => (hnames ".." hup).2.2 rfl, hpath⟩
  rcases hpieces with rfl | rfl
  · cases hs
  · exact ⟨⟨(hnames s hs).1, htidy s hs⟩, (hnames s hs).2.1⟩

/-- Cleaning does no more to a valid path than trimming. -/
theorem cleaned_of_valid (hvalid : valid (Text.trim path) = true) :
    cleaned path = Text.trim path :=
  cleaned_eq_trim (getLast?_of_valid hvalid)

theorem valid_cleaned (hvalid : valid (Text.trim path) = true) :
    valid (Text.trim (cleaned path)) = true := by
  rwa [cleaned_of_valid hvalid, Text.trim_trim]

theorem valid_ofKey (hkey : IsKey key) (hup : ".." ∉ key) : valid (ofKey key) = true := by
  have haccepts := PathRules.accepts_strict hkey
  have hall : key.all (· != "..") = true := by
    rw [List.all_eq_true]
    intro s hs
    simpa using fun h : s = ".." => hup (h ▸ hs)
  rwa [hall] at haccepts

end Path

namespace PathRules

variable {path : String}

/-- A valid path is cleaned alike by both rules. -/
theorem clean_strict (hvalid : Path.valid (Text.trim path) = true) :
    strict.clean path = permissive.clean path := by
  have haccepts : strict.accepts (Text.trim path) = true := by simpa only [strict] using hvalid
  rw [clean_eq, clean_eq, if_pos haccepts,
    if_pos (show permissive.accepts (Text.trim path) = true from rfl)]

theorem split_strict (hvalid : Path.valid (Text.trim path) = true) :
    strict.split path = permissive.split path := by
  rw [split, split, clean_strict hvalid]

/-- Entries are made alike for valid paths. -/
theorem create_strict (hvalid : Path.valid (Text.trim path) = true) (attrs : Attributes) :
    Entry.create path attrs strict = Entry.create path attrs permissive := by
  rw [Entry.create, Entry.create, clean_strict hvalid]

end PathRules

end VirtualFs
