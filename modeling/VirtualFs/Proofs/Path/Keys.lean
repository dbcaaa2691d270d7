import VirtualFs.Entry
import VirtualFs.Proofs.Path.Segments

namespace VirtualFs

namespace Path

/-- Names that lead from a directory to a node somewhere below it. -/
def IsKey (key : List String) : Prop :=
  ∀ s ∈ key, IsTidyName s ∧ s ≠ "."

instance (key : List String) : Decidable (IsKey key) :=
  inferInstanceAs (Decidable (∀ s ∈ key, IsTidyName s ∧ s ≠ "."))

/-- The path that a key makes. -/
def ofKey (key : List String) : String :=
  if key = [] then "." else joinAll key

variable {key front back : List String} {name : String}

@[simp] theorem isKey_nil : IsKey [] := by
  simp [IsKey]

theorem isKey_append : IsKey (front ++ back) ↔ IsKey front ∧ IsKey back := by
  simp only [IsKey, List.forall_mem_append]

theorem isKey_singleton : IsKey [name] ↔ IsTidyName name ∧ name ≠ "." := by
  simp [IsKey]

theorem IsKey.tidyNames (hkey : IsKey key) : ∀ s ∈ key, IsTidyName s :=
  fun s hs => (hkey s hs).1

theorem IsKey.isSegments (hkey : IsKey key) : ∀ s ∈ key, IsSegment s :=
  fun s hs => (hkey s hs).1.1

@[simp] theorem ofKey_nil : ofKey [] = "." := rfl

theorem ofKey_of_ne_nil (hne : key ≠ []) : ofKey key = joinAll key :=
  if_neg hne

theorem joinAll_singleton (name : String) : joinAll [name] = name :=
  String.intercalate_singleton

theorem joinAll_append (hfront : front ≠ []) (hback : back ≠ []) :
    joinAll (front ++ back) = joinAll front ++ "/" ++ joinAll back :=
  String.intercalate_append_of_ne_nil hfront hback

theorem joinAll_ne_empty (hne : key ≠ []) (hsegments : ∀ s ∈ key, IsSegment s) :
    joinAll key ≠ "" := by
  intro hempty
  have hcut := pieces_joinAll hne fun s hs => (hsegments s hs).2
  have hpieces : pieces "" = [""] := by decide
  rw [hempty, hpieces] at hcut
  exact (hsegments "" (by simp [← hcut])).1 rfl

/-- Only the root has the path `"."`. -/
theorem joinAll_ne_dot (hne : key ≠ []) (hkey : IsKey key) : joinAll key ≠ "." := by
  intro hdot
  have hcut := pieces_joinAll hne fun s hs => (hkey.isSegments s hs).2
  have hpieces : pieces "." = ["."] := by decide
  rw [hdot, hpieces] at hcut
  exact (hkey "." (by simp [← hcut])).2 rfl

theorem ofKey_ne_empty (hkey : IsKey key) : ofKey key ≠ "" := by
  by_cases hne : key = []
  · subst hne
    decide
  · rw [ofKey_of_ne_nil hne]
    exact joinAll_ne_empty hne hkey.isSegments

theorem ofKey_injective (hfront : IsKey front) (hback : IsKey back)
    (heq : ofKey front = ofKey back) : front = back := by
  by_cases hf : front = []
  · by_cases hb : back = []
    · rw [hf, hb]
    · rw [hf, ofKey_nil, ofKey_of_ne_nil hb] at heq
      exact absurd heq.symm (joinAll_ne_dot hb hback)
  · by_cases hb : back = []
    · rw [hb, ofKey_nil, ofKey_of_ne_nil hf] at heq
      exact absurd heq (joinAll_ne_dot hf hfront)
    · rw [ofKey_of_ne_nil hf, ofKey_of_ne_nil hb] at heq
      rw [← segments_joinAll hfront.isSegments, heq, segments_joinAll hback.isSegments]

/-- Joining the paths of keys appends the keys. -/
theorem join_ofKey (hfront : IsKey front) (hback : IsKey back) :
    join (ofKey front) (ofKey back) = ofKey (front ++ back) := by
  unfold join
  by_cases hf : front = []
  · simp [hf]
  · have hjoined := ofKey_of_ne_nil hf
    rw [hjoined, if_neg (not_or.mpr ⟨joinAll_ne_dot hf hfront, joinAll_ne_empty hf
      hfront.isSegments⟩)]
    by_cases hb : back = []
    · simp [hb, hjoined]
    · rw [ofKey_of_ne_nil hb, if_neg (not_or.mpr ⟨joinAll_ne_dot hb hback, joinAll_ne_empty hb
        hback.isSegments⟩), if_neg (getLast?_joinAll hfront.isSegments),
        ofKey_of_ne_nil (by simp [hf]), joinAll_append hf hb]

theorem join_ofKey_name (hfront : IsKey front) (hname : IsTidyName name) (hdot : name ≠ ".") :
    join (ofKey front) name = ofKey (front ++ [name]) := by
  have hsingle : ofKey [name] = name := joinAll_singleton name
  rw [← join_ofKey hfront (isKey_singleton.mpr ⟨hname, hdot⟩), hsingle]

theorem trim_ofKey (hkey : IsKey key) : Text.trim (ofKey key) = ofKey key := by
  by_cases hne : key = []
  · subst hne
    decide
  · rw [ofKey_of_ne_nil hne]
    exact (tidy_joinAll hkey.tidyNames).trim_eq

theorem cleaned_ofKey (hkey : IsKey key) : cleaned (ofKey key) = ofKey key := by
  by_cases hne : key = []
  · subst hne
    decide
  · rw [ofKey_of_ne_nil hne]
    exact cleaned_joinAll hkey.tidyNames

/-- The path of what is below a directory, as seen from the directory. -/
theorem stripBase_ofKey (hfront : IsKey front) (hback : IsKey back) :
    stripBase (ofKey front) (ofKey (front ++ back)) = some (ofKey back) := by
  unfold stripBase
  by_cases hf : front = []
  · simp [hf]
  · have hkey : IsKey (front ++ back) := isKey_append.mpr ⟨hfront, hback⟩
    have hne : ¬ (ofKey front = "." ∨ ofKey front = "") := by
      rw [ofKey_of_ne_nil hf]
      exact not_or.mpr ⟨joinAll_ne_dot hf hfront, joinAll_ne_empty hf hfront.isSegments⟩
    rw [if_neg hne]
    by_cases hb : back = []
    · simp [hb]
    · have hdiffers : ofKey (front ++ back) ≠ ofKey front := by
        intro heq
        have hsame := ofKey_injective hkey hfront heq
        exact hb (by simpa using hsame)
      have hcut : (ofKey (front ++ back)).toList =
          ((ofKey front).toList ++ [separator]) ++ (ofKey back).toList := by
        rw [ofKey_of_ne_nil hf, ofKey_of_ne_nil hb, ofKey_of_ne_nil (by simp [hf]),
          joinAll_append hf hb, String.toList_append, String.toList_append]
        rfl
      rw [if_neg hdiffers, Text.dropLead?_eq_some_iff.mpr hcut, Option.map_some,
        String.ofList_toList]

/-- A path lies at or below a directory only if its key goes on from that of the directory. -/
theorem isPrefix_of_stripBase (hfront : IsKey front) (hkey : IsKey key)
    (hinside : (stripBase (ofKey front) (ofKey key)).isSome) : front <+: key := by
  by_cases hf : front = []
  · simp [hf]
  have hne : ¬ (ofKey front = "." ∨ ofKey front = "") := by
    rw [ofKey_of_ne_nil hf]
    exact not_or.mpr ⟨joinAll_ne_dot hf hfront, joinAll_ne_empty hf hfront.isSegments⟩
  unfold stripBase at hinside
  rw [if_neg hne] at hinside
  split at hinside
  · next heq =>
    exact (ofKey_injective hkey hfront heq) ▸ List.prefix_refl _
  · obtain ⟨rest, hrest⟩ := Option.isSome_iff_exists.mp (by simpa using hinside)
    have hcut := Text.dropLead?_eq_some_iff.mp hrest
    rw [List.append_assoc, List.singleton_append] at hcut
    have hk : key ≠ [] := by
      rintro rfl
      have hlength := congrArg List.length hcut
      have hpos : (ofKey front).toList ≠ [] := by simpa using ofKey_ne_empty hfront
      have hposLength := List.length_pos_iff.mpr hpos
      simp only [ofKey_nil, List.length_append, List.length_cons] at hlength
      have hdot : ".".toList.length = 1 := by decide
      omega
    have hpieces := pieces_append_separator (ofKey front).toList rest
    rw [← hcut, String.ofList_toList, String.ofList_toList, ofKey_of_ne_nil hf,
      ofKey_of_ne_nil hk, pieces_joinAll hk fun s hs => (hkey.isSegments s hs).2,
      pieces_joinAll hf fun s hs => (hfront.isSegments s hs).2] at hpieces
    exact ⟨_, hpieces.symm⟩

end Path

/-- An entry made for the path of a key has that path. -/
theorem Entry.path_of_create {key : List String} {attrs : Attributes} {rules : PathRules}
    {entry : Entry} (hkey : Path.IsKey key)
    (hentry : Entry.create (Path.ofKey key) attrs rules = .ok entry) :
    entry.path = Path.ofKey key := by
  unfold create at hentry
  split at hentry
  · next cleaned hclean =>
    simp only [Except.ok.injEq] at hentry
    rw [← hentry, rules.cleaned_of_clean hclean, Path.cleaned_ofKey hkey,
      if_neg (Path.ofKey_ne_empty hkey)]
  · cases hentry

namespace PathRules

/-- A path of names is accepted exactly if both of its parts are. -/
def Segmentwise (rules : PathRules) : Prop :=
  ∀ front back, Path.IsKey front → Path.IsKey back →
    rules.accepts (Path.ofKey (front ++ back)) =
      (rules.accepts (Path.ofKey front) && rules.accepts (Path.ofKey back))

theorem segmentwise_permissive : permissive.Segmentwise :=
  fun _ _ _ _ => rfl

/-- Among the paths of names the strict rules refuse those that go up. -/
theorem accepts_strict {key : List String} (hkey : Path.IsKey key) :
    strict.accepts (Path.ofKey key) = key.all (· != "..") := by
  by_cases hne : key = []
  · subst hne
    decide
  · have hpieces : Path.pieces (Path.joinAll key) = key :=
      Path.pieces_joinAll hne fun s hs => (hkey.isSegments s hs).2
    have hdot : (Path.joinAll key == ".") = false := by
      simpa using Path.joinAll_ne_dot hne hkey
    have hvalid : ∀ s ∈ key, Path.validSegment s = (s != "..") := by
      intro s hs
      obtain ⟨⟨hsegment, _⟩, hname⟩ := hkey s hs
      simp [Path.validSegment, hsegment.1, hname]
    simp only [strict, Path.valid, Path.ofKey_of_ne_nil hne, hpieces, hdot, Bool.false_or]
    rw [Bool.eq_iff_iff, List.all_eq_true, List.all_eq_true]
    exact forall₂_congr fun s hs => by rw [hvalid s hs]

theorem segmentwise_strict : strict.Segmentwise := by
  intro front back hfront hback
  rw [accepts_strict (Path.isKey_append.mpr ⟨hfront, hback⟩), accepts_strict hfront,
    accepts_strict hback, List.all_append]

/-- Either of the two rules that can be chosen by name. -/
theorem segmentwise_of_named {rules : PathRules} (hrules : rules = permissive ∨ rules = strict) :
    rules.Segmentwise := by
  rcases hrules with rfl | rfl
  · exact segmentwise_permissive
  · exact segmentwise_strict

/-- They accept the path of the root. -/
theorem accepts_root_of_named {rules : PathRules} (hrules : rules = permissive ∨ rules = strict) :
    rules.accepts (Path.ofKey []) = true := by
  rcases hrules with rfl | rfl
  · rfl
  · exact accepts_strict Path.isKey_nil

end PathRules

end VirtualFs
