import VirtualFs.Entry

namespace VirtualFs

/-- Asks for one modification time after the other. A value that refuses one stays as it is. -/
def askTimes {α : Type} (set : α → Time → Except FsError α) :
    α → List Time → List (Except FsError Unit) × α
  | a, [] => ([], a)
  | a, t :: rest =>
    match set a t with
    | .ok moved => (.ok () :: (askTimes set moved rest).1, (askTimes set moved rest).2)
    | .error e => (.error e :: (askTimes set a rest).1, (askTimes set a rest).2)

/-- The latest of a time and others. -/
def latest (start : Time) (times : List Time) : Time :=
  times.foldl max start

theorem latest_cons (start t : Time) (rest : List Time) :
    latest start (t :: rest) = latest (max start t) rest := rfl

/-- The answer to a modification time, of what was created at `ctime` and last modified at
`mtime`. -/
structure AnswersTime (ctime mtime t : Time) (answer : Except FsError Unit) : Prop where
  ok : answer = .ok () ↔ mtime ≤ t
  before : answer = .error .mtimeBeforeCtime ↔ t < ctime
  back : answer = .error .mtimeRegression ↔ ctime ≤ t ∧ t < mtime

/-- The answers to modification times one after the other. Each counts from the latest of those
before it. -/
structure AnswersTimes (ctime start : Time) (times : List Time)
    (answers : List (Except FsError Unit)) : Prop where
  length : answers.length = times.length
  answer : ∀ k t, times[k]? = some t →
    ∃ answer, answers[k]? = some answer ∧ AnswersTime ctime (latest start (times.take k)) t answer

theorem AnswersTimes.nil (ctime start : Time) : AnswersTimes ctime start [] [] :=
  ⟨rfl, fun _ _ ht => by simp at ht⟩

theorem AnswersTimes.cons {ctime start t : Time} {rest : List Time}
    {answer : Except FsError Unit} {answers : List (Except FsError Unit)}
    (hfirst : AnswersTime ctime start t answer)
    (hrest : AnswersTimes ctime (max start t) rest answers) :
    AnswersTimes ctime start (t :: rest) (answer :: answers) where
  length := by rw [List.length_cons, List.length_cons, hrest.length]
  answer := by
    intro k t' ht'
    cases k with
    | zero =>
      obtain rfl := Option.some.inj ht'
      exact ⟨answer, rfl, hfirst⟩
    | succ k => exact hrest.answer k t' ht'

namespace Attributes

variable {attrs moved : Attributes} {t : Time} {e : FsError}

/-- The modification time is not before the creation time. -/
def Ordered (attrs : Attributes) : Prop :=
  attrs.ctime ≤ attrs.mtime

/-- A time that is not before the last modification is accepted, and is then the latest. -/
theorem setMtime_eq_ok (hset : attrs.setMtime t = .ok moved) :
    moved = { attrs with mtime := max attrs.mtime t } ∧ moved.Ordered ∧
      AnswersTime attrs.ctime attrs.mtime t (.ok ()) := by
  unfold setMtime at hset
  split at hset
  · cases hset
  split at hset
  · cases hset
  next hctime hmtime =>
  obtain rfl := Except.ok.inj hset
  have hmax : max attrs.mtime t = t := Int.max_eq_right (Int.not_lt.mp hmtime)
  refine ⟨by rw [hmax], Int.not_lt.mp hctime, ⟨?_, ?_, ?_⟩⟩
  · simpa using hmtime
  · simpa using hctime
  · simp only [reduceCtorEq, false_iff]
    exact fun hback => hmtime hback.2

/-- A time before the last modification is refused, and the latest is what it was. -/
theorem setMtime_eq_error (hordered : attrs.Ordered) (hset : attrs.setMtime t = .error e) :
    max attrs.mtime t = attrs.mtime ∧ AnswersTime attrs.ctime attrs.mtime t (.error e) := by
  unfold Ordered at hordered
  unfold setMtime at hset
  split at hset
  · next hctime =>
    obtain rfl := Except.error.inj hset
    have hback : t < attrs.mtime := Int.lt_of_lt_of_le hctime hordered
    refine ⟨Int.max_eq_left (Int.le_of_lt hback), ⟨?_, by simpa using hctime, ?_⟩⟩
    · simpa using hback
    · simp only [Except.error.injEq, reduceCtorEq, false_iff]
      exact fun hafter => absurd hctime (Int.not_lt.mpr hafter.1)
  · split at hset
    · next hctime hback =>
      obtain rfl := Except.error.inj hset
      refine ⟨Int.max_eq_left (Int.le_of_lt hback), ⟨?_, ?_, ?_⟩⟩
      · simpa using hback
      · simpa using hctime
      · simpa using ⟨Int.not_lt.mp hctime, hback⟩
    · cases hset

/-- The attributes end up with the latest of all times, and nothing else of them is different. -/
theorem askTimes_setMtime (hordered : attrs.Ordered) (times : List Time) :
    AnswersTimes attrs.ctime attrs.mtime times (askTimes setMtime attrs times).1 ∧
      (askTimes setMtime attrs times).2 = { attrs with mtime := latest attrs.mtime times } := by
  induction times generalizing attrs with
  | nil => exact ⟨.nil _ _, rfl⟩
  | cons t rest ih =>
    unfold askTimes
    cases hset : attrs.setMtime t with
    | ok moved =>
      obtain ⟨rfl, hordered', hanswer⟩ := setMtime_eq_ok hset
      obtain ⟨hrest, hlast⟩ := ih hordered'
      exact ⟨.cons hanswer hrest, hlast⟩
    | error e =>
      obtain ⟨hmax, hanswer⟩ := setMtime_eq_error hordered hset
      obtain ⟨hrest, hlast⟩ := ih hordered
      rw [← hmax] at hrest
      refine ⟨.cons hanswer hrest, ?_⟩
      rw [latest_cons, hmax]
      exact hlast

namespace Draft

variable {draft : Draft} {now : Time}

/-- The creation time that a draft is built with. -/
def builtCtime (draft : Draft) (now : Time) : Time :=
  draft.ctime.getD now

/-- The modification time that a draft is built with. -/
def builtMtime (draft : Draft) (now : Time) : Time :=
  draft.mtime.getD (draft.builtCtime now)

/-- A draft whose times are in order is built with them, any other is refused. -/
theorem build_cases (draft : Draft) (now : Time) :
    draft.builtCtime now ≤ draft.builtMtime now ∧
        (∃ attrs, draft.build now = .ok attrs ∧ attrs.ctime = draft.builtCtime now ∧
          attrs.mtime = draft.builtMtime now) ∨
      draft.builtMtime now < draft.builtCtime now ∧
        draft.build now = .error .mtimeBeforeCtime := by
  by_cases hback : draft.builtMtime now < draft.builtCtime now
  · exact .inr ⟨hback, if_pos hback⟩
  · exact .inl ⟨Int.not_lt.mp hback, _, if_neg hback, rfl, rfl⟩

/-- What is built from a draft, and what becomes of it under modification times. -/
structure KeepsTime (draft : Draft) (now : Time) (times : List Time) : Prop where
  builds : (∃ attrs, draft.build now = .ok attrs) ↔
    draft.builtCtime now ≤ draft.builtMtime now
  refuses : draft.build now = .error .mtimeBeforeCtime ↔
    draft.builtMtime now < draft.builtCtime now
  attributes : ∀ attrs, draft.build now = .ok attrs →
    attrs.ctime = draft.builtCtime now ∧ attrs.mtime = draft.builtMtime now ∧
      AnswersTimes attrs.ctime attrs.mtime times (askTimes setMtime attrs times).1 ∧
      (askTimes setMtime attrs times).2 = { attrs with mtime := latest attrs.mtime times }
  /-- Entries answer as their attributes do. -/
  entries : ∀ entry : Entry, draft.build now = .ok entry.attrs →
    AnswersTimes entry.attrs.ctime entry.attrs.mtime times
        (askTimes Entry.setModTime entry times).1 ∧
      (askTimes Entry.setModTime entry times).2 =
        { entry with attrs := { entry.attrs with mtime := latest entry.attrs.mtime times } }

end Draft

end Attributes

/-- Asking an entry is asking its attributes. -/
theorem Entry.askTimes_setModTime (entry : Entry) (times : List Time) :
    askTimes setModTime entry times =
      ((askTimes Attributes.setMtime entry.attrs times).1,
        { entry with attrs := (askTimes Attributes.setMtime entry.attrs times).2 }) := by
  induction times generalizing entry with
  | nil => rfl
  | cons t rest ih =>
    unfold askTimes
    cases hset : entry.attrs.setMtime t with
    | ok moved => simp only [setModTime, hset, ih]
    | error e => simp only [setModTime, hset, ih]

theorem Attributes.Draft.keepsTime (draft : Draft) (now : Time) (times : List Time) :
    draft.KeepsTime now times := by
  have hbuilt : ∀ attrs, draft.build now = .ok attrs →
      attrs.ctime = draft.builtCtime now ∧ attrs.mtime = draft.builtMtime now ∧
        attrs.Ordered := by
    intro attrs hbuild
    rcases draft.build_cases now with
      ⟨hordered, attrs', hbuild', hctime, hmtime⟩ | ⟨-, hbuild'⟩
    · obtain rfl := Except.ok.inj (hbuild.symm.trans hbuild')
      refine ⟨hctime, hmtime, ?_⟩
      rwa [Ordered, hctime, hmtime]
    · rw [hbuild] at hbuild'
      cases hbuild'
  constructor
  case builds =>
    rcases draft.build_cases now with ⟨hordered, attrs, hbuild, -⟩ | ⟨hback, hbuild⟩
    · exact iff_of_true ⟨attrs, hbuild⟩ hordered
    · exact iff_of_false (by simp [hbuild]) (Int.not_le.mpr hback)
  case refuses =>
    rcases draft.build_cases now with ⟨hordered, attrs, hbuild, -⟩ | ⟨hback, hbuild⟩
    · exact iff_of_false (by simp [hbuild]) (Int.not_lt.mpr hordered)
    · exact iff_of_true hbuild hback
  case attributes =>
    intro attrs hbuild
    obtain ⟨hctime, hmtime, hordered⟩ := hbuilt attrs hbuild
    exact ⟨hctime, hmtime, askTimes_setMtime hordered times⟩
  case entries =>
    intro entry hbuild
    obtain ⟨-, -, hordered⟩ := hbuilt entry.attrs hbuild
    obtain ⟨hanswers, hlast⟩ := askTimes_setMtime hordered times
    rw [Entry.askTimes_setModTime, hlast]
    exact ⟨hanswers, rfl⟩

end VirtualFs
