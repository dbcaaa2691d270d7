import VirtualFs.Glob.Library
import VirtualFs.Proofs.Path.Segments

namespace VirtualFs.Glob.Library

open VirtualFs.Path (IsSegment separator)

/-- What is documented of a library of shell patterns. A text is escaped character by character, by
brackets around those that have a meaning in patterns, which a separator has not; as a pattern it
matches itself and nothing else. `**` matches everything. -/
structure Lawful (library : Library) : Prop where
  escape_append : ∀ s t, library.escape (s ++ t) = library.escape s ++ library.escape t
  escape_separator : library.escape "/" = "/"
  separator_mem : ∀ s, separator ∈ (library.escape s).toList → separator ∈ s.toList
  compile_escape : ∀ s, ∃ test, library.compile (library.escape s) = .ok test ∧
    ∀ text, test false text = true ↔ text = s
  compile_recursive : ∃ test, library.compile "**" = .ok test ∧ ∀ text, test false text = true

/-- A component of a pattern that `".."` matches, itself or by wildcards after the first dot. -/
def goesUp (library : Library) (component : String) : Bool :=
  component.toList.head? == some '.' &&
    match library.compile component with
    | .ok test => test false ".."
    | .error _ => false

namespace Lawful

variable {library : Library} {s t : String} {test : Bool → String → Bool}

/-- The pattern of a text matches that text only. -/
theorem matches_iff (hlawful : library.Lawful)
    (htest : library.compile (library.escape s) = .ok test)
    {text : String} : test false text = true ↔ text = s := by
  obtain ⟨test', htest', hmatches⟩ := hlawful.compile_escape s
  obtain rfl := Except.ok.inj (htest.symm.trans htest')
  exact hmatches text

theorem escape_inj (hlawful : library.Lawful) : library.escape s = library.escape t ↔ s = t := by
  refine ⟨fun hsame => ?_, congrArg library.escape⟩
  obtain ⟨test, htest, hmatches⟩ := hlawful.compile_escape s
  have hself := (hmatches s).mpr rfl
  rw [hsame] at htest
  exact (hlawful.matches_iff htest).mp hself

theorem escape_ne_recursive (hlawful : library.Lawful) : library.escape s ≠ "**" := by
  intro hsame
  obtain ⟨test, htest, hall⟩ := hlawful.compile_recursive
  rw [← hsame] at htest
  have hempty := (hlawful.matches_iff htest).mp (hall "")
  have hdot := (hlawful.matches_iff htest).mp (hall ".")
  exact absurd (hempty.trans hdot.symm) (by decide)

theorem escape_empty (hlawful : library.Lawful) : library.escape "" = "" := by
  have htwice := congrArg String.toList (hlawful.escape_append "" "")
  rw [String.append_empty, String.toList_append, List.self_eq_append_right] at htwice
  rwa [← String.toList_inj]

theorem escape_eq_empty_iff (hlawful : library.Lawful) : library.escape s = "" ↔ s = "" := by
  rw [← hlawful.escape_empty, hlawful.escape_inj, hlawful.escape_empty]

theorem getLast?_escape (hlawful : library.Lawful) (s : String) :
    (library.escape s).toList.getLast? = some separator ↔
      s.toList.getLast? = some separator := by
  rcases List.eq_nil_or_concat' s.toList with hnil | ⟨front, c, hconcat⟩
  · obtain rfl : s = "" := by rwa [← String.toList_inj]
    rw [hlawful.escape_empty]
  · have htext : s = String.ofList front ++ String.ofList [c] := by
      rw [← String.toList_inj, hconcat]
      simp
    have hne : (library.escape (String.ofList [c])).toList ≠ [] := by
      have hone : String.ofList [c] ≠ "" := by simp
      simpa using (not_congr hlawful.escape_eq_empty_iff).mpr hone
    rw [hconcat, htext, hlawful.escape_append, String.toList_append,
      List.getLast?_append_of_ne_nil _ hne,
      List.getLast?_append_of_ne_nil _ (List.cons_ne_nil c []), List.getLast?_singleton, Option.some.injEq]
    constructor
    · intro hlast
      have hmem := hlawful.separator_mem _ (List.mem_of_getLast? hlast)
      simpa [eq_comm] using hmem
    · rintro rfl
      have hself : String.ofList [separator] = "/" := rfl
      rw [hself, hlawful.escape_separator]
      rfl

theorem isSegment_escape (hlawful : library.Lawful) (hs : IsSegment s) :
    IsSegment (library.escape s) :=
  ⟨fun hempty => hs.1 (hlawful.escape_eq_empty_iff.mp hempty),
    fun hmem => hs.2 (hlawful.separator_mem s hmem)⟩

theorem isSegment_of_mem_map_escape (hlawful : library.Lawful) {names : List String}
    (hnames : ∀ s ∈ names, IsSegment s) : ∀ s ∈ names.map library.escape, IsSegment s :=
  List.forall_mem_map.mpr fun s hs => hlawful.isSegment_escape (hnames s hs)

theorem eq_dotDot_of_goesUp_escape (hlawful : library.Lawful)
    (hup : library.goesUp (library.escape s) = true) : s = ".." := by
  obtain ⟨test, htest, hmatches⟩ := hlawful.compile_escape s
  rw [goesUp, htest, Bool.and_eq_true] at hup
  exact ((hmatches "..").mp hup.2).symm

end Lawful

theorem goesUp_empty (library : Library) : library.goesUp "" = false := rfl

end VirtualFs.Glob.Library
