import VirtualFs.Error

namespace VirtualFs.FsError

variable {tags : List (Operation × String)} {e : FsError}

/-- The error under tags, the outermost first. -/
def withTags (tags : List (Operation × String)) (e : FsError) : FsError :=
  tags.foldr (fun (operation, path) source => tagged operation path source) e

/-- A tag as it is written in front of what it is put on. -/
def tagText (tag : Operation × String) : String :=
  tag.1.name ++ " " ++ tag.2 ++ ": "

@[simp] theorem withTags_nil (e : FsError) : withTags [] e = e := rfl

@[simp] theorem withTags_cons (operation : Operation) (path : String) :
    withTags ((operation, path) :: tags) e = tagged operation path (withTags tags e) := rfl

theorem kind_withTags (tags : List (Operation × String)) (e : FsError) :
    (withTags tags e).kind = e.kind := by
  induction tags with
  | nil => rfl
  | cons _ _ ih => exact ih

theorem rootCause_withTags (tags : List (Operation × String)) (e : FsError) :
    (withTags tags e).rootCause = e.rootCause := by
  induction tags with
  | nil => rfl
  | cons _ _ ih => exact ih

theorem message_tagged (operation : Operation) (path : String) (source : FsError) :
    (tagged operation path source).message = tagText (operation, path) ++ source.message := rfl

theorem message_withTags (tags : List (Operation × String)) (e : FsError) :
    (withTags tags e).message = String.join (tags.map tagText) ++ e.message := by
  induction tags with
  | nil => rw [withTags_nil, List.map_nil, String.join_nil, String.empty_append]
  | cons tag rest ih =>
    rw [withTags_cons, message_tagged, ih, List.map_cons, String.join_cons, String.append_assoc]

/-- Under tags a byte stream goes by the class of the error. -/
theorem toStream_withTags (hne : tags ≠ []) (e : FsError) :
    (withTags tags e).toStream = ⟨ioKind e.kind, (withTags tags e).message⟩ := by
  rw [← kind_withTags tags e]
  cases tags with
  | nil => exact absurd rfl hne
  | cons => rfl

/-- The classes of host errors that are told apart by the classes of errors, and the one that stands
for all the others. -/
def lastingIoKinds : List IoKind :=
  [.notFound, .alreadyExists, .notADirectory, .isADirectory, .invalidInput, .other]

/-- These classes come back, all others as `IoKind.other`. -/
theorem ioKind_kindOfIo (kind : IoKind) :
    ioKind (kindOfIo kind) = if kind ∈ lastingIoKinds then kind else .other := by
  cases kind <;> rfl

theorem ioKind_kindOfIo_eq_iff {kind : IoKind} :
    ioKind (kindOfIo kind) = kind ↔ kind ∈ lastingIoKinds := by
  rw [ioKind_kindOfIo]
  split
  · next hlasts => exact iff_of_true rfl hlasts
  · next hlasts =>
    refine iff_of_false (fun heq => hlasts ?_) hlasts
    rw [← heq]
    decide

/-- Without a tag only host errors are not reported by the class of the error. -/
theorem kind_toStream (hio : ∀ error, e ≠ io error) : e.toStream.kind = ioKind e.kind := by
  cases e with
  | io error => exact absurd rfl (hio error)
  | _ => rfl

theorem kind_toStream_eq_iff :
    ioKind e.kind = e.toStream.kind ↔ ∀ error, e = io error → error.kind ∈ lastingIoKinds := by
  by_cases hio : ∃ error, e = io error
  · obtain ⟨error, rfl⟩ := hio
    simp only [io.injEq, forall_eq']
    exact ioKind_kindOfIo_eq_iff
  · have hnone : ∀ error, e ≠ io error := not_exists.mp hio
    exact iff_of_true (kind_toStream hnone).symm fun error herror => absurd herror (hnone error)

/-- What is under the tags is still the error `e`. -/
structure StillIs (tags : List (Operation × String)) (e : FsError) : Prop where
  kind : (withTags tags e).kind = e.kind
  rootCause : (withTags tags e).rootCause = e.rootCause
  operation : (withTags tags e).operation? = tags.head?.map Prod.fst
  message : (withTags tags e).message = String.join (tags.map tagText) ++ e.message

theorem stillIs_of_ne_nil (hne : tags ≠ []) (e : FsError) : StillIs tags e where
  kind := kind_withTags tags e
  rootCause := rootCause_withTags tags e
  operation := by
    cases tags with
    | nil => exact absurd rfl hne
    | cons => rfl
  message := message_withTags tags e

/-- Tags change neither the class of an error nor its cause, and are written in front of its text.
A byte stream reports what is tagged by the class of the error and with the whole text. This is the
class that it reported before exactly if the error is no bare host error, or one of a lasting
class. -/
theorem stillIs_and_kind_toStream_iff (hne : tags ≠ []) (e : FsError) :
    StillIs tags e ∧
      (withTags tags e).toStream = ⟨ioKind e.kind, (withTags tags e).message⟩ ∧
      ((withTags tags e).toStream.kind = e.toStream.kind ↔
        ∀ error, e = io error → error.kind ∈ lastingIoKinds) := by
  refine ⟨stillIs_of_ne_nil hne e, toStream_withTags hne e, ?_⟩
  rw [toStream_withTags hne]
  exact kind_toStream_eq_iff

/-- A file that is missing at the host, under two tags, and one that the host refuses, tagged before
already. -/
theorem stillIs_and_kind_toStream_iff_host :
    (withTags [(.readFile, "a"), (.read, "b")] (io ⟨.notFound, "gone"⟩)).toStream =
        ⟨.notFound, "readFile a: read b: I/O error: gone"⟩ ∧
      (withTags [(.sub, "c")] (tagged .open "c" (io ⟨.permissionDenied, "no"⟩))).toStream.kind =
        (tagged .open "c" (io ⟨.permissionDenied, "no"⟩)).toStream.kind := by
  obtain ⟨hstill, hstream, -⟩ := stillIs_and_kind_toStream_iff
    (List.cons_ne_nil (.readFile, "a") [(.read, "b")]) (io ⟨.notFound, "gone"⟩)
  have htagged := (stillIs_and_kind_toStream_iff (List.cons_ne_nil (.sub, "c") [])
    (tagged .open "c" (io ⟨.permissionDenied, "no"⟩))).2.2
  refine ⟨?_, htagged.mpr fun error herror => by cases herror⟩
  rw [hstream, hstill.message]
  decide

/-- A host that refuses is reported so by a byte stream, but not any more under a tag. -/
theorem not_forall_kind_toStream_withTags :
    ¬ ∀ (tags : List (Operation × String)) (e : FsError), tags ≠ [] →
      StillIs tags e ∧ (withTags tags e).toStream.kind = e.toStream.kind := by
  intro h
  have hsame := (h [(.open, "a")] (io ⟨.permissionDenied, "no"⟩) (List.cons_ne_nil _ _)).2
  exact absurd hsame (by decide)

end VirtualFs.FsError
