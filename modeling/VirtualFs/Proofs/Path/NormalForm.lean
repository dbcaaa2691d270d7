import VirtualFs.Record
import VirtualFs.Proofs.Path.Segments

namespace VirtualFs

/-- A segment that is put on the stack. -/
def IsPlain (segment : List Char) : Prop :=
  segment ≠ [] ∧ segment ≠ ['.'] ∧ segment ≠ ['.', '.']

/-- Pieces that are empty or `"."` may be left out. -/
theorem foldl_pushSegment_filter {keep : List Char → Bool}
    (hkeep : ∀ piece, keep piece = false → piece = [] ∨ piece = ['.'])
    (pieces stack : List (List Char)) :
    (pieces.filter keep).foldl pushSegment stack = pieces.foldl pushSegment stack := by
  induction pieces generalizing stack with
  | nil => rfl
  | cons piece rest ih =>
    cases hpiece : keep piece with
    | true => rw [List.filter_cons_of_pos hpiece, List.foldl_cons, List.foldl_cons, ih]
    | false =>
      have hskip : pushSegment stack piece = stack := by
        rw [pushSegment, if_pos (hkeep piece hpiece)]
      rw [List.filter_cons_of_neg (by simp [hpiece]), List.foldl_cons, hskip, ih]

/-- Plain segments pile up. -/
theorem foldl_pushSegment_of_plain {pieces : List (List Char)} (stack : List (List Char))
    (hplain : ∀ piece ∈ pieces, IsPlain piece) :
    pieces.foldl pushSegment stack = pieces.reverse ++ stack := by
  induction pieces generalizing stack with
  | nil => rfl
  | cons piece rest ih =>
    obtain ⟨⟨hempty, hdot, hup⟩, hrest⟩ := List.forall_mem_cons.mp hplain
    rw [List.foldl_cons, pushSegment, if_neg (not_or.mpr ⟨hempty, hdot⟩), if_neg hup, ih _ hrest,
      List.reverse_cons, List.append_assoc, List.singleton_append]

/-- What is left was there, and is plain. -/
theorem mem_foldl_pushSegment {pieces stack : List (List Char)} {piece : List Char}
    (hmem : piece ∈ pieces.foldl pushSegment stack) :
    piece ∈ stack ∨ piece ∈ pieces ∧ IsPlain piece := by
  induction pieces generalizing stack with
  | nil => exact .inl hmem
  | cons first rest ih =>
    rcases ih hmem with hmem | ⟨hmem, hplain⟩
    · unfold pushSegment at hmem
      split at hmem
      · exact .inl hmem
      next hskip =>
      split at hmem
      · exact .inl (List.mem_of_mem_drop hmem)
      · next hup =>
        rcases List.mem_cons.mp hmem with rfl | hmem
        · exact .inr ⟨List.mem_cons_self .., (not_or.mp hskip).1, (not_or.mp hskip).2, hup⟩
        · exact .inl hmem
    · exact .inr ⟨List.mem_cons_of_mem _ hmem, hplain⟩

variable {sep : String} {parts : List String} {stack segments : List (List Char)}
  {segment cs : List Char} {c : Char} {absolute : Bool}

/-- The segments of a text, `"."` and `".."` among them. -/
def segmentsAt (sep : String) (cs : List Char) : List (List Char) :=
  (Text.pieces (splitsAt sep) cs).filter (· != [])

/-- No character of the segment splits it. -/
def IsWhole (sep : String) (segment : List Char) : Prop :=
  ∀ c ∈ segment, splitsAt sep c = false

theorem splitsAt_of_mem (hc : c ∈ sep.toList) : splitsAt sep c = true := by
  simp [splitsAt, hc]

theorem mem_segmentsAt : segment ∈ segmentsAt sep cs ↔
    segment ∈ Text.pieces (splitsAt sep) cs ∧ segment ≠ [] := by
  simp [segmentsAt]

theorem isWhole_of_mem_segmentsAt (hmem : segment ∈ segmentsAt sep cs) : IsWhole sep segment :=
  Text.of_mem_pieces (mem_segmentsAt.mp hmem).1

theorem foldl_segmentsAt (sep : String) (cs : List Char) (stack : List (List Char)) :
    (segmentsAt sep cs).foldl pushSegment stack =
      (Text.pieces (splitsAt sep) cs).foldl pushSegment stack :=
  foldl_pushSegment_filter (fun _ hpiece => .inl (by simpa using hpiece)) _ stack

theorem segmentsAt_append_cons (hc : splitsAt sep c = true) (front back : List Char) :
    segmentsAt sep (front ++ c :: back) = segmentsAt sep front ++ segmentsAt sep back := by
  simp only [segmentsAt, Text.pieces_eq_splitOnP, List.splitOnP_append_cons front back hc,
    List.filter_append]

/-- Separators in front of a text hold no segment. -/
theorem segmentsAt_lead {lead : List Char} (hlead : ∀ c ∈ lead, splitsAt sep c = true)
    (cs : List Char) : segmentsAt sep (lead ++ cs) = segmentsAt sep cs := by
  induction lead with
  | nil => rfl
  | cons c lead ih =>
    obtain ⟨hc, hrest⟩ := List.forall_mem_cons.mp hlead
    have hcut := segmentsAt_append_cons hc [] (lead ++ cs)
    rw [List.cons_append, ← List.nil_append (c :: (lead ++ cs)), hcut, ih hrest]
    rfl

/-- A separator cuts a text in two, however many characters it has. -/
theorem segmentsAt_append (hsep : sep ≠ "") (front back : List Char) :
    segmentsAt sep (front ++ sep.toList ++ back) = segmentsAt sep front ++ segmentsAt sep back := by
  have hsplits : ∀ c ∈ sep.toList, splitsAt sep c = true := fun c => splitsAt_of_mem
  cases hcs : sep.toList with
  | nil => exact absurd (String.toList_eq_nil_iff.mp hcs) hsep
  | cons c lead =>
    obtain ⟨hc, hlead⟩ := List.forall_mem_cons.mp (hcs ▸ hsplits)
    rw [List.append_assoc, List.cons_append, segmentsAt_append_cons hc, segmentsAt_lead hlead]

theorem segmentsAt_of_isWhole (hne : segment ≠ []) (hwhole : IsWhole sep segment) :
    segmentsAt sep segment = [segment] := by
  rw [segmentsAt, Text.pieces_eq_splitOnP, List.splitOnP_eq_singleton hwhole,
    List.filter_cons_of_pos (by simpa using hne), List.filter_nil]

/-- Segments joined are read again. -/
theorem segmentsAt_intercalate (hsep : sep ≠ "")
    (hsegments : ∀ s ∈ segments, s ≠ [] ∧ IsWhole sep s) :
    segmentsAt sep (sep.toList.intercalate segments) = segments := by
  induction segments with
  | nil => rfl
  | cons first rest ih =>
    obtain ⟨⟨hne, hwhole⟩, hrest⟩ := List.forall_mem_cons.mp hsegments
    by_cases hnil : rest = []
    · rw [hnil, List.intercalate_singleton, segmentsAt_of_isWhole hne hwhole]
    · rw [List.intercalate_cons_of_ne_nil hnil, segmentsAt_append hsep,
        segmentsAt_of_isWhole hne hwhole, ih hrest, List.singleton_append]

/-- Segments, the last one first, as a path. -/
def written (sep : String) (absolute : Bool) (stack : List (List Char)) : String :=
  let joined := String.intercalate sep (stack.reverse.map String.ofList)
  if absolute then sep ++ joined
  else if joined = "" then "."
  else joined

/-- The first part that is not empty makes the path absolute. -/
def isAbsolute (sep : String) (parts : List String) : Bool :=
  match parts.find? (· != "") with
  | some first => startsAbsolute sep first
  | none => false

/-- What is left of the segments of the parts, the last one first. -/
def remaining (sep : String) (parts : List String) : List (List Char) :=
  (parts.flatMap fun part => segmentsAt sep part.toList).foldl pushSegment []

/-- Segments that are left, and left whole. -/
def IsNormal (sep : String) (stack : List (List Char)) : Prop :=
  ∀ segment ∈ stack, IsPlain segment ∧ IsWhole sep segment

theorem joinClean_eq_written (sep : String) (parts : List String) :
    joinClean sep parts = written sep (isAbsolute sep parts) (remaining sep parts) := by
  have hpieces : remaining sep parts =
      (parts.flatMap fun part => Text.pieces (splitsAt sep) part.toList).foldl pushSegment [] := by
    simp only [remaining, List.foldl_flatMap, foldl_segmentsAt]
  rw [hpieces]
  rfl

theorem isNormal_remaining (sep : String) (parts : List String) :
    IsNormal sep (remaining sep parts) := by
  intro segment hmem
  obtain ⟨hmem, hplain⟩ := (mem_foldl_pushSegment hmem).resolve_left List.not_mem_nil
  obtain ⟨part, -, hpart⟩ := List.mem_flatMap.mp hmem
  exact ⟨hplain, isWhole_of_mem_segmentsAt hpart⟩

/-- The segments joined, as characters. -/
theorem toList_joined (sep : String) (stack : List (List Char)) :
    (String.intercalate sep (stack.reverse.map String.ofList)).toList =
      sep.toList.intercalate stack.reverse := by
  have hid : String.toList ∘ String.ofList = id := by
    funext cs
    simp
  rw [String.toList_intercalate, List.map_map, hid, List.map_id]

@[simp] theorem written_nil (sep : String) : written sep false [] = "." := rfl

/-- An absolute path starts with the separator. -/
theorem toList_written_absolute (sep : String) (stack : List (List Char)) :
    (written sep true stack).toList = sep.toList ++ sep.toList.intercalate stack.reverse := by
  rw [written, if_pos rfl, String.toList_append, toList_joined]

/-- A relative path starts with its first segment. -/
theorem exists_toList_intercalate (hnormal : IsNormal sep stack) (hne : stack ≠ []) :
    ∃ c cs, sep.toList.intercalate stack.reverse = c :: cs ∧ splitsAt sep c = false := by
  cases hfirst : stack.reverse with
  | nil => exact absurd (List.reverse_eq_nil_iff.mp hfirst) hne
  | cons first rest =>
    have hmem : first ∈ stack := by
      rw [← List.mem_reverse, hfirst]
      exact List.mem_cons_self ..
    obtain ⟨⟨hempty, -, -⟩, hwhole⟩ := hnormal first hmem
    cases first with
    | nil => exact absurd rfl hempty
    | cons c cs =>
      have hc := hwhole c (List.mem_cons_self ..)
      by_cases hrest : rest = []
      · exact ⟨c, cs, by rw [hrest, List.intercalate_singleton], hc⟩
      · exact ⟨c, _, by rw [List.intercalate_cons_of_ne_nil hrest]; rfl, hc⟩

theorem toList_written_relative (hnormal : IsNormal sep stack) (hne : stack ≠ []) :
    (written sep false stack).toList = sep.toList.intercalate stack.reverse := by
  obtain ⟨c, cs, hcs, -⟩ := exists_toList_intercalate hnormal hne
  have hfull : String.intercalate sep (stack.reverse.map String.ofList) ≠ "" := by
    intro hempty
    rw [← toList_joined, hempty] at hcs
    cases hcs
  rw [written, if_neg Bool.false_ne_true, if_neg hfull, toList_joined]

/-- A path shows the segments that are left, unless it is relative and there are none. -/
theorem shown_or_nothing (absolute : Bool) (stack : List (List Char)) :
    (absolute = true ∨ stack ≠ []) ∨ absolute = false ∧ stack = [] := by
  by_cases hnil : stack = []
  · exact absolute.eq_false_or_eq_true.imp .inl fun hrelative => ⟨hrelative, hnil⟩
  · exact .inl (.inr hnil)

theorem written_ne_empty (hsep : sep ≠ "") (hnormal : IsNormal sep stack) :
    written sep absolute stack ≠ "" := by
  intro hempty
  have hlist := congrArg String.toList hempty
  cases absolute with
  | true =>
    rw [toList_written_absolute] at hlist
    exact hsep (String.toList_eq_nil_iff.mp (List.append_eq_nil_iff.mp hlist).1)
  | false =>
    by_cases hne : stack = []
    · rw [hne, written_nil] at hempty
      exact absurd hempty (by decide)
    · obtain ⟨c, cs, hcs, -⟩ := exists_toList_intercalate hnormal hne
      rw [toList_written_relative hnormal hne, hcs] at hlist
      cases hlist

/-- Whatever is left is read again, unless nothing is and the path is `"."`. -/
theorem segmentsAt_written (hsep : sep ≠ "") (hnormal : IsNormal sep stack)
    (hshown : absolute = true ∨ stack ≠ []) :
    segmentsAt sep (written sep absolute stack).toList = stack.reverse := by
  have hjoined : segmentsAt sep (sep.toList.intercalate stack.reverse) = stack.reverse :=
    segmentsAt_intercalate hsep fun s hs =>
      have hs := hnormal s (List.mem_reverse.mp hs)
      ⟨hs.1.1, hs.2⟩
  cases absolute with
  | true => rw [toList_written_absolute, segmentsAt_lead fun c => splitsAt_of_mem, hjoined]
  | false => rw [toList_written_relative hnormal (hshown.resolve_left Bool.false_ne_true), hjoined]

/-- The pieces of `"."`, also where it is a separator. -/
theorem mem_pieces_dot (hpiece : segment ∈ Text.pieces (splitsAt sep) ['.']) :
    segment = [] ∨ segment = ['.'] := by
  cases hdot : splitsAt sep '.' with
  | true => exact .inl (by simpa [Text.pieces, hdot] using hpiece)
  | false => exact .inr (by simpa [Text.pieces, hdot] using hpiece)

theorem foldl_segmentsAt_written (hsep : sep ≠ "") (hnormal : IsNormal sep stack) :
    (segmentsAt sep (written sep absolute stack).toList).foldl pushSegment [] = stack := by
  rcases shown_or_nothing absolute stack with hshown | ⟨rfl, rfl⟩
  · have hplain : ∀ s ∈ stack.reverse, IsPlain s := fun s hs =>
      (hnormal s (List.mem_reverse.mp hs)).1
    rw [segmentsAt_written hsep hnormal hshown, foldl_pushSegment_of_plain [] hplain,
      List.reverse_reverse, List.append_nil]
  · -- nothing was left, and no piece of `"."` is put on the stack either
    rw [written_nil, foldl_segmentsAt]
    have hleft : ∀ segment,
        segment ∉ (Text.pieces (splitsAt sep) ".".toList).foldl pushSegment [] := by
      intro segment hmem
      obtain ⟨hpiece, hempty, hdot, -⟩ := (mem_foldl_pushSegment hmem).resolve_left List.not_mem_nil
      exact (mem_pieces_dot hpiece).elim hempty hdot
    exact List.eq_nil_iff_forall_not_mem.mpr hleft

/-- A text that starts with no separator is relative. -/
theorem startsAbsolute_of_cons {text : String} (hsep : sep ≠ "") (htext : text.toList = c :: cs)
    (hc : splitsAt sep c = false) : startsAbsolute sep text = false := by
  simp only [splitsAt, Bool.or_eq_false_iff, beq_eq_false_iff_ne, List.contains_eq_mem,
    decide_eq_false_iff_not] at hc
  cases hlead : sep.toList with
  | nil => exact absurd (String.toList_eq_nil_iff.mp hlead) hsep
  | cons first lead =>
    have hfirst : first ≠ c := by
      rintro rfl
      exact hc.2 (by simp [hlead])
    simp [startsAbsolute, htext, hlead, List.isPrefixOf, hfirst, Ne.symm hc.1]

theorem startsAbsolute_written (hsep : sep ≠ "") (hnormal : IsNormal sep stack)
    (hshown : absolute = true ∨ stack ≠ []) :
    startsAbsolute sep (written sep absolute stack) = absolute := by
  cases absolute with
  | true =>
    have hprefix : sep.toList <+: (written sep true stack).toList := by
      rw [toList_written_absolute]
      exact List.prefix_append ..
    rw [startsAbsolute, List.isPrefixOf_iff_prefix.mpr hprefix, Bool.true_or]
  | false =>
    have hne := hshown.resolve_left Bool.false_ne_true
    obtain ⟨c, cs, hcs, hc⟩ := exists_toList_intercalate hnormal hne
    exact startsAbsolute_of_cons hsep (by rw [toList_written_relative hnormal hne, hcs]) hc

/-- Only a separator makes `"."` absolute. -/
theorem eq_dot_of_startsAbsolute (hsep : sep ≠ "") (hdot : startsAbsolute sep "." = true) :
    sep = "." := by
  have hprefix : sep.toList <+: ['.'] := by
    simpa [startsAbsolute, List.isPrefixOf] using hdot
  have hne : sep.toList ≠ [] := mt String.toList_eq_nil_iff.mp hsep
  obtain ⟨rest, hlead, hrest⟩ := (List.prefix_cons_iff.mp hprefix).resolve_left hne
  rw [← String.toList_inj, hlead, List.prefix_nil.mp hrest]
  rfl

/-- Written again, a path comes out as it is. Where nothing is left of a relative path, its `"."`
may be a separator, and is then the absolute path of nothing. -/
theorem written_startsAbsolute (absolute : Bool) (hsep : sep ≠ "") (hnormal : IsNormal sep stack) :
    written sep (startsAbsolute sep (written sep absolute stack)) stack =
      written sep absolute stack := by
  rcases shown_or_nothing absolute stack with hshown | ⟨rfl, rfl⟩
  · rw [startsAbsolute_written hsep hnormal hshown]
  · rw [written_nil]
    cases hdot : startsAbsolute sep "." with
    | false => exact written_nil sep
    | true =>
      rw [eq_dot_of_startsAbsolute hsep hdot]
      rfl

/-- The first part decides alone. -/
theorem isAbsolute_cons {first : String} (hne : first ≠ "") (rest : List String) :
    isAbsolute sep (first :: rest) = startsAbsolute sep first := by
  have hfind : (first :: rest).find? (· != "") = some first :=
    List.find?_cons_of_pos (by simpa using hne)
  rw [isAbsolute, hfind]

theorem exists_find?_of_full (hfull : ∃ part ∈ parts, part ≠ "") :
    ∃ first, parts.find? (· != "") = some first := by
  obtain ⟨part, hmem, hne⟩ := hfull
  apply Option.isSome_iff_exists.mp
  exact List.find?_isSome.mpr ⟨part, hmem, by simpa using hne⟩

/-- What comes behind a part that is not empty makes no difference. -/
theorem isAbsolute_append (hfull : ∃ part ∈ parts, part ≠ "") (rest : List String) :
    isAbsolute sep (parts ++ rest) = isAbsolute sep parts := by
  obtain ⟨first, hfirst⟩ := exists_find?_of_full hfull
  rw [isAbsolute, isAbsolute, List.find?_append, hfirst, Option.some_or]

theorem remaining_append (sep : String) (parts rest : List String) :
    remaining sep (parts ++ rest) =
      (rest.flatMap fun part => segmentsAt sep part.toList).foldl pushSegment
        (remaining sep parts) := by
  rw [remaining, remaining, List.flatMap_append, List.foldl_append]

/-- A text that starts with no separator has segments. -/
theorem segmentsAt_ne_nil (hc : splitsAt sep c = false) (cs : List Char) :
    segmentsAt sep (c :: cs) ≠ [] := by
  cases hpieces : Text.pieces (splitsAt sep) cs with
  | nil => exact absurd hpieces (Text.pieces_ne_nil _ cs)
  | cons first rest => simp [segmentsAt, Text.pieces, hc, hpieces]

theorem isPlain_of_isWhole_dot (hne : segment ≠ []) (hwhole : IsWhole "." segment) :
    IsPlain segment := by
  have hdot : '.' ∉ segment := fun hmem => absurd (hwhole '.' hmem) (by decide)
  refine ⟨hne, ?_, ?_⟩
  · rintro rfl
    exact hdot (List.mem_singleton_self _)
  · rintro rfl
    exact hdot (List.mem_cons_self ..)

/-- A part that is neither empty nor absolute starts with a segment. -/
theorem exists_segmentsAt_of_relative {part : String} (hne : part ≠ "")
    (hrelative : startsAbsolute "." part = false) : ∃ s, s ∈ segmentsAt "." part.toList := by
  cases hpart : part.toList with
  | nil => exact absurd (String.toList_eq_nil_iff.mp hpart) hne
  | cons c cs =>
    have hc : splitsAt "." c = false := by
      simp only [startsAbsolute, hpart, Bool.or_eq_false_iff] at hrelative
      have hslash : '/' ≠ c := by simpa [List.isPrefixOf] using hrelative.2
      have hdot : '.' ≠ c := by simpa [List.isPrefixOf] using hrelative.1
      simp [splitsAt, hslash.symm, hdot.symm]
    exact List.exists_mem_of_ne_nil _ (segmentsAt_ne_nil hc cs)

/-- Where `"."` splits, no segment leads up, and something is left of relative parts. -/
theorem remaining_ne_nil (hfull : ∃ part ∈ parts, part ≠ "")
    (hrelative : isAbsolute "." parts = false) : remaining "." parts ≠ [] := by
  obtain ⟨first, hfirst⟩ := exists_find?_of_full hfull
  rw [isAbsolute, hfirst] at hrelative
  have hfirstNe : first ≠ "" := by simpa using List.find?_some hfirst
  obtain ⟨s, hs⟩ := exists_segmentsAt_of_relative hfirstNe hrelative
  -- no segment holds a dot, so none of them takes another one away
  have hplain : ∀ segment ∈ parts.flatMap fun part => segmentsAt "." part.toList,
      IsPlain segment := by
    intro segment hsegment
    obtain ⟨part, -, hpart⟩ := List.mem_flatMap.mp hsegment
    exact isPlain_of_isWhole_dot (mem_segmentsAt.mp hpart).2 (isWhole_of_mem_segmentsAt hpart)
  rw [remaining, foldl_pushSegment_of_plain [] hplain, List.append_nil]
  have hmem : s ∈ parts.flatMap fun part => segmentsAt "." part.toList :=
    List.mem_flatMap.mpr ⟨first, List.mem_of_find?_eq_some hfirst, hs⟩
  exact List.ne_nil_of_mem (List.mem_reverse.mpr hmem)

/-- A joined path is absolute exactly if its parts are. -/
theorem startsAbsolute_joinClean (hsep : sep ≠ "") (hfull : ∃ part ∈ parts, part ≠ "") :
    startsAbsolute sep (joinClean sep parts) = isAbsolute sep parts := by
  rw [joinClean_eq_written]
  rcases shown_or_nothing (isAbsolute sep parts) (remaining sep parts) with
    hshown | ⟨hrelative, hnil⟩
  · exact startsAbsolute_written hsep (isNormal_remaining sep parts) hshown
  · -- `"."` is absolute only as the separator, but then something would be left
    rw [hrelative, hnil, written_nil, ← Bool.not_eq_true]
    intro hdot
    have hsepDot := eq_dot_of_startsAbsolute hsep hdot
    subst hsepDot
    exact remaining_ne_nil hfull hrelative hnil

/-- In front of other parts a joined path leaves what its parts leave. -/
theorem remaining_joinClean_cons (hsep : sep ≠ "") (parts rest : List String) :
    remaining sep (joinClean sep parts :: rest) = remaining sep (parts ++ rest) := by
  rw [remaining_append, remaining, List.flatMap_cons, List.foldl_append, joinClean_eq_written,
    foldl_segmentsAt_written hsep (isNormal_remaining sep parts)]

theorem joinClean_ne_empty (hsep : sep ≠ "") (parts : List String) : joinClean sep parts ≠ "" := by
  rw [joinClean_eq_written]
  exact written_ne_empty hsep (isNormal_remaining sep parts)

/-- A joined path is clean. -/
theorem joinClean_joinClean (hsep : sep ≠ "") (parts : List String) :
    joinClean sep [joinClean sep parts] = joinClean sep parts := by
  have hagain := written_startsAbsolute (isAbsolute sep parts) hsep (isNormal_remaining sep parts)
  rw [joinClean_eq_written sep [_], isAbsolute_cons (joinClean_ne_empty hsep parts),
    remaining_joinClean_cons hsep, List.append_nil, joinClean_eq_written, hagain]

/-- A joined path stands for its parts in front of any others. -/
theorem joinClean_joinClean_cons (hsep : sep ≠ "") (hfull : ∃ part ∈ parts, part ≠ "")
    (rest : List String) :
    joinClean sep (joinClean sep parts :: rest) = joinClean sep (parts ++ rest) := by
  rw [joinClean_eq_written, isAbsolute_cons (joinClean_ne_empty hsep parts),
    startsAbsolute_joinClean hsep hfull, remaining_joinClean_cons hsep, joinClean_eq_written,
    isAbsolute_append hfull]

theorem ne_dots_of_mem_pieces_joinClean (hsep : sep ≠ "")
    (hpiece : segment ∈ Text.pieces (splitsAt sep) (joinClean sep parts).toList) :
    segment ≠ ['.', '.'] ∧ (joinClean sep parts ≠ "." → segment ≠ ['.']) := by
  have hnormal := isNormal_remaining sep parts
  rw [joinClean_eq_written] at hpiece ⊢
  by_cases hempty : segment = []
  · simp [hempty]
  rcases shown_or_nothing (isAbsolute sep parts) (remaining sep parts) with
    hshown | ⟨hrelative, hnil⟩
  · have hmem := mem_segmentsAt.mpr ⟨hpiece, hempty⟩
    rw [segmentsAt_written hsep hnormal hshown, List.mem_reverse] at hmem
    obtain ⟨-, hdot, hup⟩ := (hnormal segment hmem).1
    exact ⟨hup, fun _ => hdot⟩
  · rw [hrelative, hnil, written_nil] at hpiece ⊢
    rw [(mem_pieces_dot hpiece).resolve_left hempty]
    exact ⟨by decide, fun h => absurd rfl h⟩

/-- Joining gives paths without `".."`, and without `"."` but where it is the whole path; a path in
this form stays as it is, and stands for the parts it was joined from in front of a further one. -/
theorem joinClean_normal_and_composes (sep : String) (hsep : sep ≠ "") (parts : List String) :
    (∀ piece ∈ Text.pieces (splitsAt sep) (joinClean sep parts).toList,
      piece ≠ ['.', '.'] ∧ (joinClean sep parts ≠ "." → piece ≠ ['.'])) ∧
    joinClean sep [joinClean sep parts] = joinClean sep parts ∧
    ((∃ part ∈ parts, part ≠ "") →
      ∀ last, joinClean sep [joinClean sep parts, last] = joinClean sep (parts ++ [last])) :=
  ⟨fun _ => ne_dots_of_mem_pieces_joinClean hsep, joinClean_joinClean hsep parts,
    fun hfull last => joinClean_joinClean_cons hsep hfull [last]⟩

/-- A separator of two characters, and one that is `"."` itself. -/
theorem joinClean_normal_and_composes_separators :
    joinClean "::" ["", "/srv:a", "b::../.", "c"] = "::srv::a::c" ∧
      joinClean "::" ["::srv::a::c", "../../x"] =
        joinClean "::" ["", "/srv:a", "b::../.", "c", "../../x"] ∧
      joinClean "." ["", "a..b"] = "a.b" ∧ joinClean "." ["a.b"] = "a.b" ∧
      joinClean "." ["a.b", "..c"] = joinClean "." ["", "a..b", "..c"] := by
  have hsrv : joinClean "::" ["", "/srv:a", "b::../.", "c"] = "::srv::a::c" := by decide +kernel
  have hdotted : joinClean "." ["", "a..b"] = "a.b" := by decide +kernel
  have hfirst := joinClean_normal_and_composes "::" (by decide) ["", "/srv:a", "b::../.", "c"]
  have hsecond := joinClean_normal_and_composes "." (by decide) ["", "a..b"]
  rw [hsrv] at hfirst
  rw [hdotted] at hsecond
  exact ⟨hsrv, hfirst.2.2 ⟨"c", by decide, by decide⟩ _, hdotted, hsecond.2.1,
    hsecond.2.2 ⟨"a..b", by decide, by decide⟩ _⟩

end VirtualFs
