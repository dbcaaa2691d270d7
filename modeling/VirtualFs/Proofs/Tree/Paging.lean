import VirtualFs.Proofs.Tree.Naming
import VirtualFs.Proofs.Tree.Refusal

namespace VirtualFs.Tree

/-- What a call shows when the names `left` are left, and what it leaves of them. `e` is the error
with which a reading fails that has nothing left. -/
inductive PagerCommand.Shows (e : FsError) :
    PagerCommand → List String → Except FsError Reply → List String → Prop where
  | entry {entry : Entry} {left : List String} :
      Shows e .next (entry.name :: left) (.ok (.maybeEntry (some entry))) left
  | ended : Shows e .next [] (.ok (.maybeEntry none)) []
  /-- A page has as many entries as it was asked for, or all that are left if these are fewer. -/
  | page {n : Int} {left : List String} {entries : List Entry} (hn : 0 < n) (hleft : left ≠ [])
      (hentries : entries.map Entry.name = left.take n.toNat) :
      Shows e (.nextPage n) left (.ok (.page ⟨entries, decide (left.length < n.toNat)⟩))
        (left.drop n.toNat)
  | spent {n : Int} (hn : 0 < n) : Shows e (.nextPage n) [] (.error e) []
  | rest {n : Int} {left : List String} {entries : List Entry} (hn : n ≤ 0)
      (hentries : entries.map Entry.name = left) :
      Shows e (.nextPage n) left (.ok (.page ⟨entries, true⟩)) []

/-- The names of the entries that a call answers. -/
def shownNames : Except FsError Reply → List String
  | .ok (.maybeEntry entry) => (entry.map Entry.name).toList
  | .ok (.page page) => page.entries.map Entry.name
  | _ => []

/-- A call hands out names from the front. -/
theorem PagerCommand.Shows.shownNames_append {e : FsError} {call : PagerCommand}
    {left left' : List String} {answer : Except FsError Reply}
    (hshows : call.Shows e left answer left') : shownNames answer ++ left' = left := by
  cases hshows with
  | entry => rfl
  | ended => rfl
  | page hn hleft hentries => rw [shownNames, hentries, List.take_append_drop]
  | spent => rfl
  | rest hn hentries => rw [shownNames, hentries, List.append_nil]

namespace Pager

variable {pager : Pager} {store store' : Store} {left : List String}

/-- All names to come have entries, and these show the names. -/
def Stocked (pager : Pager) (store : Store) : Prop :=
  ∀ name ∈ pager.names, ∃ entry, pager.entry? store name = some entry ∧ entry.name = name

theorem Stocked.drop (hstocked : pager.Stocked store) (n : Nat) :
    { pager with names := pager.names.drop n }.Stocked store :=
  fun name hmem => hstocked name (List.mem_of_mem_drop hmem)

/-- No operation takes a name or its entry away. -/
theorem Stocked.of_changes {named : String → Prop} (hstocked : pager.Stocked store)
    (hchanges : Store.Changes named store store') : pager.Stocked store' := by
  intro name hmem
  obtain ⟨entry, hentry, hname⟩ := hstocked name hmem
  obtain ⟨node, hfound, rfl⟩ := Option.map_eq_some_iff.mp hentry
  obtain ⟨child, hchild, hnode⟩ := Option.bind_eq_some_iff.mp hfound
  obtain ⟨node', hnode', hlasting⟩ := hchanges.lasts _ _ hnode
  have hchild' : store'.child? pager.dir name = some child := hchanges.preserves
    (P := fun s => s.child? pager.dir name = some child) (fun hstep => hstep.child?_eq_some) hchild
  refine ⟨node'.entry.rebased pager.base, ?_, ?_⟩
  · rw [Pager.entry?, hchild', Option.bind_some, hnode', Option.map_some]
  · have hpath := Entry.path_of_lasting
      (Entry.lasting_rebased (Prod.mk.inj hlasting).2 pager.base)
    rw [← hname, Entry.name, Entry.name, hpath]

/-- From names that have entries, as many are taken as there are up to the limit. -/
theorem take_of_stocked (hstocked : pager.Stocked store) (limit : Nat) :
    ∃ entries, pager.take store limit pager.names = (entries, pager.names.drop limit) ∧
      entries.map Entry.name = pager.names.take limit := by
  suffices htake : ∀ names : List String,
      (∀ name ∈ names, ∃ entry, pager.entry? store name = some entry ∧ entry.name = name) →
      ∃ entries, pager.take store limit names = (entries, names.drop limit) ∧
        entries.map Entry.name = names.take limit from htake pager.names hstocked
  intro names hnames
  induction names generalizing limit with
  | nil => exact ⟨[], by cases limit <;> rfl, by cases limit <;> rfl⟩
  | cons name rest ih =>
    cases limit with
    | zero => exact ⟨[], rfl, rfl⟩
    | succ limit =>
      obtain ⟨entry, hentry, hname⟩ := hnames name List.mem_cons_self
      obtain ⟨entries, htaken, hentries⟩ :=
        ih limit fun name hmem => hnames name (List.mem_cons_of_mem _ hmem)
      refine ⟨entry :: entries, ?_, ?_⟩
      · simp only [take, hentry, htaken, List.drop_succ_cons]
      · rw [List.map_cons, hentries, hname, List.take_succ_cons]

/-- The next entry is that of the first name left. -/
theorem shows_next (hstocked : pager.Stocked store) (e : FsError) :
    PagerCommand.next.Shows e pager.names (.ok (.maybeEntry (pager.next store).1))
      (pager.names.drop 1) ∧
      (pager.next store).2 = { pager with names := pager.names.drop 1 } := by
  obtain ⟨entries, htaken, hentries⟩ := take_of_stocked hstocked 1
  simp only [next, htaken, and_true]
  cases hnames : pager.names with
  | nil =>
    rw [hnames] at hentries
    rw [List.map_eq_nil_iff.mp hentries]
    exact .ended
  | cons name rest =>
    rw [hnames] at hentries
    obtain ⟨entry, more, rfl, rfl, -⟩ := List.map_eq_cons_iff.mp hentries
    exact .entry

/-- A page without a positive size takes all that is left. -/
theorem nextPage_all (hstocked : pager.Stocked store) {n : Int} (hn : n ≤ 0) :
    ∃ entries, pager.nextPage store n = (.ok ⟨entries, true⟩, { pager with names := [] }) ∧
      entries.map Entry.name = pager.names := by
  obtain ⟨entries, htaken, hentries⟩ := take_of_stocked hstocked pager.names.length
  rw [List.take_length] at hentries
  rw [List.drop_length] at htaken
  exact ⟨entries, by simp only [nextPage, if_pos hn, htaken], hentries⟩

/-- A page with a positive size fails when nothing is left, and the pager stays as it is. -/
theorem nextPage_spent {n : Int} (hn : 0 < n) (hnone : pager.names = []) (store : Store) :
    pager.nextPage store n = (.error .endOfDirectory, pager) := by
  have htaken : pager.take store n.toNat [] = ([], []) := by cases n.toNat <;> rfl
  have hsame : { pager with names := [] } = pager := by rw [← hnone]
  simp only [nextPage, if_neg (Int.not_le.mpr hn), hnone, htaken, if_true, hsame]

/-- Otherwise it takes as many as it was asked for, or all that are left if these are fewer. -/
theorem nextPage_some (hstocked : pager.Stocked store) {n : Int} (hn : 0 < n)
    (hsome : pager.names ≠ []) :
    ∃ entries, pager.nextPage store n =
        (.ok ⟨entries, decide (pager.names.length < n.toNat)⟩,
          { pager with names := pager.names.drop n.toNat }) ∧
      entries.map Entry.name = pager.names.take n.toNat := by
  obtain ⟨entries, htaken, hentries⟩ := take_of_stocked hstocked n.toNat
  have hlength : entries.length = min n.toNat pager.names.length := by
    rw [← List.length_take, ← hentries, List.length_map]
  have hleft := List.length_pos_iff.mpr hsome
  have hfull : entries ≠ [] := by
    apply List.length_pos_iff.mp
    omega
  have hcount : entries.length < n.toNat ↔ pager.names.length < n.toNat := by omega
  refine ⟨entries, ?_, hentries⟩
  simp only [nextPage, if_neg (Int.not_le.mpr hn), htaken, if_neg hfull, hcount]

/-- What a page answers, whatever an error is made into. -/
theorem shows_nextPage (hstocked : pager.Stocked store) (n : Int) {e : FsError}
    (answer : Except FsError Page → Except FsError Reply)
    (hok : ∀ page, answer (.ok page) = .ok (.page page))
    (herror : answer (.error .endOfDirectory) = .error e) :
    ∃ k, (PagerCommand.nextPage n).Shows e pager.names (answer (pager.nextPage store n).1)
      (pager.names.drop k) ∧
      (pager.nextPage store n).2 = { pager with names := pager.names.drop k } ∧
      ((∃ cause, answer (pager.nextPage store n).1 = .error cause) →
        (pager.nextPage store n).2 = pager) := by
  by_cases hn : n ≤ 0
  · obtain ⟨entries, hpage, hentries⟩ := nextPage_all hstocked hn
    refine ⟨pager.names.length, ?_⟩
    rw [hpage, hok, List.drop_length]
    refine ⟨.rest hn hentries, rfl, ?_⟩
    rintro ⟨cause, hcause⟩
    cases hcause
  have hpos := Int.not_le.mp hn
  by_cases hnone : pager.names = []
  · refine ⟨0, ?_⟩
    rw [nextPage_spent hpos hnone store, herror, List.drop_zero, hnone]
    exact ⟨.spent hpos, by rw [← hnone], fun _ => rfl⟩
  · obtain ⟨entries, hpage, hentries⟩ := nextPage_some hstocked hpos hnone
    refine ⟨n.toNat, ?_⟩
    rw [hpage, hok]
    refine ⟨.page hpos hnone hentries, rfl, ?_⟩
    rintro ⟨cause, hcause⟩
    cases hcause

end Pager

/-- A handle that has begun to read its directory goes on with its pager. -/
theorem Handle.readDir_of_pager {handle : Handle} {store : Store} {now : Pager} {inode : Nat}
    (hopen : handle.closed = false) (htarget : handle.target = .dir inode)
    (hpager : handle.pager = some now) (n : Int) :
    handle.readDir store n = (FsError.tag .readDir handle.path (now.nextPage store n).1,
      { handle with pager := some (now.nextPage store n).2 }) := by
  simp only [readDir, hopen, Bool.false_eq_true, if_false, htarget, pager?, hpager]

/-- On a directory a handle does nothing but read it, show its entry and close. -/
theorem Handle.perform_of_dir {handle : Handle} {inode : Nat} (hopen : handle.closed = false)
    (htarget : handle.target = .dir inode) (store : Store) (clock : Clock)
    {command : HandleCommand} (hreads : ∀ n, command ≠ .readDir n)
    (hcloses : command.isClose = false) : (handle.perform store clock command).2.1 = handle := by
  have hrefused : ∀ need, need = .reading ∨ need = .writing →
      handle.refusal? need = some (.isADirectory handle.path) := by
    rintro need (rfl | rfl) <;> simp [refusal?, hopen, htarget, Target.isDir]
  cases command with
  | read n => rw [perform_of_refusal (hrefused _ (.inl rfl))]
  | readAt n offset => rfl
  | readToEnd out => rw [perform_of_refusal (hrefused _ (.inl rfl))]
  | seek goal => rw [perform_of_refusal (hrefused _ (.inl rfl))]
  | write data => rw [perform_of_refusal (hrefused _ (.inr rfl))]
  | readFrom source => rw [perform_of_refusal (hrefused _ (.inr rfl))]
  | readDir n => exact absurd rfl (hreads n)
  | stat => rfl
  | close => cases hcloses

/-- Where the calls of a paged reading are made: at a pager, or at a handle that was opened with
`path`. -/
inductive Reading where
  | pager (index : Nat)
  | handle (index : Nat) (path : String)

namespace Reading

/-- The operation as a call of the reading, if it is one. -/
def call? : Reading → Command → Option PagerCommand
  | pager index, .pager i call => if i = index then some call else none
  | handle index _, .handle i (.readDir n) => if i = index then some (.nextPage n) else none
  | _, _ => none

/-- The error of a reading that has nothing left. -/
def spent : Reading → FsError
  | pager _ => .endOfDirectory
  | handle _ path => .tagged .readDir path .endOfDirectory

/-- The operation ends the reading, since it closes its handle. -/
def ends : Reading → Command → Bool
  | pager _, _ => false
  | handle index _, command => command.closes index

/-- The reading has begun and not ended, and is where the pager is. -/
def On (session : Session) (now : Pager) : Reading → Prop
  | pager index => session.pagers[index]? = some now
  | handle index path => ∃ handle, session.handles[index]? = some handle ∧ handle.closed = false ∧
      handle.target = .dir now.dir ∧ handle.path = path ∧ handle.pager = some now

/-- A run with calls of the reading in it. Each of them shows names from the front of those that the
calls before it have left, and one that fails changes nothing. -/
inductive Reads (reading : Reading) :
    List String → Session → List (Clock × Command) → List String → Prop where
  | done {left : List String} {session : Session} : Reads reading left session [] left
  | call {left left' final : List String} {session : Session} {clock : Clock} {command : Command}
      {call : PagerCommand} {rest : List (Clock × Command)}
      (hcall : reading.call? command = some call)
      (hshows : call.Shows reading.spent left (session.step clock command).1 left')
      (hkept : ∀ e, (session.step clock command).1 = .error e →
        (session.step clock command).2 = session)
      (hrest : Reads reading left' (session.step clock command).2 rest final) :
      Reads reading left session ((clock, command) :: rest) final
  | other {left final : List String} {session : Session} {clock : Clock} {command : Command}
      {rest : List (Clock × Command)} (hother : reading.call? command = none)
      (hrest : Reads reading left (session.step clock command).2 rest final) :
      Reads reading left session ((clock, command) :: rest) final

/-- The names that the calls of a run show, one after the other. -/
def collected (reading : Reading) (session : Session) : List (Clock × Command) → List String
  | [] => []
  | (clock, command) :: rest =>
    (if (reading.call? command).isSome then shownNames (session.step clock command).1 else []) ++
      reading.collected (session.step clock command).2 rest

end Reading

namespace Session

variable {session : Session} {index inode : Nat} {now : Pager} {handle : Handle} {path : String}
  {command : Command}

theorem pagers_viewStep (session : Session) (clock : Clock) (view : View) (command : ViewCommand) :
    session.pagers <+: (session.viewStep clock view command).2.pagers := by
  have htaken : ∀ outcome, (session.takeHandle outcome).2.pagers = session.pagers := by
    rintro ⟨e | handle, store⟩ <;> rfl
  cases command with
  | openRead path => exact htaken _ ▸ List.prefix_refl _
  | openFile path flags mode => exact htaken _ ▸ List.prefix_refl _
  | create path => exact htaken _ ▸ List.prefix_refl _
  | dirIter path =>
    simp only [viewStep]
    split
    · exact List.prefix_refl _
    · exact List.prefix_append _ _
  | sub path =>
    simp only [viewStep]
    split <;> exact List.prefix_refl _
  | _ => exact List.prefix_refl _

/-- Pagers move by their own calls only. -/
theorem pagers_step (hget : session.pagers[index]? = some now)
    (hother : (Reading.pager index).call? command = none) (clock : Clock) :
    (session.step clock command).2.pagers[index]? = some now := by
  cases command with
  | view i command =>
    simp only [step]
    split
    · next view _ =>
      obtain ⟨rest, hrest⟩ := session.pagers_viewStep clock view command
      rw [← hrest, List.getElem?_append_left (List.getElem?_eq_some_iff.mp hget).1, hget]
    · exact hget
  | handle i command =>
    cases hhandle : session.handles[i]? with
    | none => simpa only [step, hhandle] using hget
    | some handle =>
      rw [step_handle hhandle]
      exact hget
  | pager i command =>
    have hne : i ≠ index := by
      rintro rfl
      simp [Reading.call?] at hother
    simp only [step]
    split
    · cases command <;> exact (List.getElem?_set_ne hne).trans hget
    · exact hget

/-- A handle on a directory that neither reads it nor closes stays as it is. -/
theorem handles_step (hget : session.handles[index]? = some handle) (hopen : handle.closed = false)
    (htarget : handle.target = .dir inode)
    (hother : (Reading.handle index path).call? command = none)
    (hgoes : command.closes index = false) (clock : Clock) :
    (session.step clock command).2.handles[index]? = some handle := by
  cases command with
  | view i command =>
    simp only [step]
    split
    · next view _ =>
      obtain ⟨rest, hrest⟩ := session.handles_viewStep clock view command
      rw [← hrest, List.getElem?_append_left (List.getElem?_eq_some_iff.mp hget).1, hget]
    · exact hget
  | pager i command =>
    simp only [step]
    split
    · cases command <;> exact hget
    · exact hget
  | handle i command =>
    by_cases hi : i = index
    · subst hi
      have hreads : ∀ n, command ≠ .readDir n := by
        rintro n rfl
        simp [Reading.call?] at hother
      have hcloses : command.isClose = false := by simpa [Command.closes] using hgoes
      rw [step_handle hget, Handle.perform_of_dir hopen htarget _ _ hreads hcloses]
      exact List.getElem?_set_self (List.getElem?_eq_some_iff.mp hget).1
    · cases hhandle : session.handles[i]? with
      | none => simpa only [step, hhandle] using hget
      | some other =>
        rw [step_handle hhandle]
        exact (List.getElem?_set_ne hi).trans hget

end Session

namespace Reading

variable {reading : Reading} {session : Session} {now : Pager} {names left : List String}
  {commands : List (Clock × Command)} {clock : Clock} {command : Command} {call : PagerCommand}

/-- No name is lost, none comes twice and none out of its order. -/
theorem Reads.collected_append (hreads : reading.Reads names session commands left) :
    reading.collected session commands ++ left = names := by
  induction hreads with
  | done => rfl
  | call hcall hshows hkept hrest ih =>
    rw [collected, hcall, Option.isSome_some, if_pos rfl, List.append_assoc, ih]
    exact hshows.shownNames_append
  | other hother hrest ih =>
    rw [collected, hother, Option.isSome_none, if_neg Bool.false_ne_true, List.nil_append, ih]

theorem call?_eq_some (hcall : reading.call? command = some call) :
    (∃ i, reading = .pager i ∧ command = .pager i call) ∨
      ∃ i path n, reading = .handle i path ∧ command = .handle i (.readDir n) ∧
        call = .nextPage n := by
  unfold call? at hcall
  split at hcall
  · split at hcall
    · next hi =>
      obtain rfl := Option.some.inj hcall
      exact .inl ⟨_, rfl, by rw [hi]⟩
    · cases hcall
  · split at hcall
    · next hi =>
      obtain rfl := Option.some.inj hcall
      exact .inr ⟨_, _, _, rfl, by rw [hi], rfl⟩
    · cases hcall
  · cases hcall

/-- A call shows what the pager shows, and moves it. -/
theorem On.step_call (hon : reading.On session now) (hstocked : now.Stocked session.store)
    (hcall : reading.call? command = some call) (clock : Clock) :
    ∃ k, call.Shows reading.spent now.names (session.step clock command).1 (now.names.drop k) ∧
      (∀ e, (session.step clock command).1 = .error e →
        (session.step clock command).2 = session) ∧
      reading.On (session.step clock command).2 { now with names := now.names.drop k } := by
  obtain ⟨i, rfl, rfl⟩ | ⟨i, path, n, rfl, rfl, rfl⟩ := call?_eq_some hcall
  · have hget : session.pagers[i]? = some now := hon
    have hindex := (List.getElem?_eq_some_iff.mp hget).1
    simp only [Session.step, hget]
    cases call with
    | next =>
      obtain ⟨hshows, hlater⟩ := Pager.shows_next hstocked .endOfDirectory
      refine ⟨1, hshows, ?_, ?_⟩
      · intro e he
        cases he
      · rw [← hlater]
        exact List.getElem?_set_self hindex
    | nextPage n =>
      obtain ⟨k, hshows, hlater, hkept⟩ := Pager.shows_nextPage hstocked n
        (fun page => page.map .page) (fun _ => rfl) rfl
      refine ⟨k, hshows, fun e he => ?_, ?_⟩
      · simp only [Session.pagerStep]
        rw [hkept ⟨e, he⟩, ← (List.getElem?_eq_some_iff.mp hget).2, List.set_getElem_self]
      · rw [← hlater]
        exact List.getElem?_set_self hindex
  · obtain ⟨handle, hget, hopen, htarget, rfl, hpager⟩ := hon
    have hindex := (List.getElem?_eq_some_iff.mp hget).1
    obtain ⟨k, hshows, hlater, hkept⟩ := Pager.shows_nextPage hstocked n
      (fun page => (FsError.tag .readDir handle.path page).map .page) (fun _ => rfl) rfl
    rw [Session.step_handle hget]
    simp only [Handle.perform, Handle.readDir_of_pager hopen htarget hpager]
    refine ⟨k, hshows, fun e he => ?_, ?_⟩
    · have hsame : { handle with pager := some (now.nextPage session.store n).2 } = handle := by
        rw [hkept ⟨e, he⟩, ← hpager]
      rw [hsame, Session.handles_set_self hget]
    · rw [hlater]
      exact ⟨_, List.getElem?_set_self hindex, hopen, htarget, rfl, rfl⟩

/-- Any other operation leaves the pager as it is, unless it ends the reading. -/
theorem On.step_other (hon : reading.On session now) (hother : reading.call? command = none)
    (hgoes : reading.ends command = false) (clock : Clock) :
    reading.On (session.step clock command).2 now := by
  cases reading with
  | pager index => exact Session.pagers_step hon hother clock
  | handle index path =>
    obtain ⟨handle, hget, hopen, htarget, rfl, hpager⟩ := hon
    exact ⟨handle, Session.handles_step hget hopen htarget hother hgoes clock, hopen, htarget, rfl,
      hpager⟩

/-- Whatever is done between the calls, a reading hands out the names it has. -/
theorem exists_reads (hrooted : session.Rooted) (hon : reading.On session now)
    (hstocked : now.Stocked session.store) (hgoes : ∀ c ∈ commands, reading.ends c.2 = false) :
    ∃ left, reading.Reads now.names session commands left := by
  induction commands generalizing session now with
  | nil => exact ⟨now.names, .done⟩
  | cons c rest ih =>
    obtain ⟨clock, command⟩ := c
    obtain ⟨hfirst, hlater⟩ := List.forall_mem_cons.mp hgoes
    have hrooted' := hrooted.step clock command
    have hstocked' := hstocked.of_changes (Session.step_changes_segment hrooted clock command)
    cases hcall : reading.call? command with
    | some call =>
      obtain ⟨k, hshows, hkept, hon'⟩ := hon.step_call hstocked hcall clock
      obtain ⟨left, hreads⟩ := ih hrooted' hon' (hstocked'.drop k) hlater
      exact ⟨left, .call hcall hshows hkept hreads⟩
    | none =>
      obtain ⟨left, hreads⟩ := ih hrooted' (hon.step_other hcall hfirst clock) hstocked' hlater
      exact ⟨left, .other hcall hreads⟩

/-- A run of the reading with these names to come. The names that its calls show, and those that
they leave, are these. -/
def Pages (reading : Reading) (names : List String) (session : Session)
    (commands : List (Clock × Command)) : Prop :=
  ∃ left, reading.Reads names session commands left ∧
    reading.collected session commands ++ left = names

theorem pages_of_on (now : Pager) (hrooted : session.Rooted) (hon : reading.On session now)
    (hstocked : now.Stocked session.store) (hgoes : ∀ c ∈ commands, reading.ends c.2 = false) :
    reading.Pages now.names session commands := by
  obtain ⟨left, hreads⟩ := exists_reads hrooted hon hstocked hgoes
  exact ⟨left, hreads, hreads.collected_append⟩

end Reading

/-- A handle is opened without having begun to read. -/
theorem View.pager_of_openNode {view : View} {store opened : Store} {clock : Clock} {path : String}
    {flags : OpenFlags} {mode : FileMode} {handle : Handle}
    (hopen : view.openNode store clock path flags mode = (.ok handle, opened)) :
    handle.closed = false ∧ handle.pager = none := by
  obtain ⟨cleaned, grown, inode, -, -, honNode⟩ := openNode_eq_ok hopen
  have hanew : (Handle.onNode grown inode flags cleaned (view.base grown)).1.closed = false ∧
      (Handle.onNode grown inode flags cleaned (view.base grown)).1.pager = none := by
    unfold Handle.onNode
    split <;> exact ⟨rfl, rfl⟩
  rwa [honNode] at hanew

/-- A reading that starts has the names of the children, and they are shown. -/
theorem Session.ReachableBy.stocked_start {session : Session} {base : String} {dir : Nat}
    (hreach : session.Reachable) (hreaches : session.store.Reaches base dir)
    (htidy : ∀ name ∈ session.store.childNames dir, Text.trim name = name) :
    (Pager.start session.store dir base).Stocked session.store := by
  intro name hmem
  obtain ⟨child, node, hchild, hnode, -, -, hdot⟩ :=
    hreach.shape.exists_node_of_mem_childNames hmem
  have hedge := hchild.trans (congrArg some (hreach.shape.child?_eq hchild hdot))
  refine ⟨node.entry.rebased base, ?_, ?_⟩
  · have hlook : session.store.child? (Pager.start session.store dir base).dir name = some child :=
      hchild
    rw [Pager.entry?, hlook, Option.bind_some, hnode]
    rfl
  · exact hreaches.name_of_child hreach.shape hreach.admitted hreach.continued hedge hnode
      (htidy name hmem)

namespace Session

/-- What paged readings come to, in whichever way they are begun. -/
structure Paged (session : Session) : Prop where
  /-- The names in a directory are in the order of their bytes, each once, without `"."`. -/
  names : ∀ dir, (session.store.childNames dir).Pairwise (fun a b => Text.before a b = true) ∧
    ∀ name, name ∈ session.store.childNames dir ↔
      (session.store.child? dir name).isSome ∧ name ≠ "."
  /-- A pager hands out the names that there were when it was taken. -/
  pager : ∀ v view path clock index taken, session.views[v]? = some view →
    session.step clock (.view v (.dirIter path)) = (.ok (.pager index), taken) →
    ∃ dir, session.store.resolveDir view.root path = .ok dir ∧
      ((∀ name ∈ session.store.childNames dir, Text.trim name = name) → ∀ commands,
        Reading.Pages (.pager index) (session.store.childNames dir) taken commands)
  /-- A handle is opened without a pager. -/
  opened : ∀ v view command path clock index opened, session.views[v]? = some view →
    command.opens? = some path →
    session.step clock (.view v command) = (.ok (.handle index), opened) →
    ∃ handle, opened.handles[index]? = some handle ∧ handle.closed = false ∧ handle.pager = none
  /-- Its first call takes one, and with it the names that there are then. -/
  handle : ∀ index handle dir before clock n rest, session.handles[index]? = some handle →
    handle.closed = false → handle.target = .dir dir → handle.pager = none →
    (∀ c ∈ before, (Reading.handle index handle.path).call? c.2 = none) →
    (∀ c ∈ before ++ rest, c.2.closes index = false) →
    (∀ name ∈ (session.run before).2.store.childNames dir, Text.trim name = name) →
    let begun := (session.run before).2.putHandle index
      { handle with pager := some (.start (session.run before).2.store dir handle.base) }
    (session.run before).2.step clock (.handle index (.readDir n)) =
        begun.step clock (.handle index (.readDir n)) ∧
      Reading.Pages (.handle index handle.path) (begun.store.childNames dir) begun
        ((clock, .handle index (.readDir n)) :: rest)
  /-- All entries at once are those of a pager that is read to its end by one call. -/
  readDir : ∀ v view path clock clock' n, session.views[v]? = some view → n ≤ 0 →
    let taken := session.step clock (.view v (.dirIter path))
    let answer := (session.step clock (.view v (.readDir path))).1
    (∀ entries, answer = .ok (.entries entries) ↔ ∃ index, taken.1 = .ok (.pager index) ∧
      (taken.2.step clock' (.pager index (.nextPage n))).1 = .ok (.page ⟨entries, true⟩)) ∧
    ∀ e, answer = .error e ↔ ∃ cause, taken.1 = .error cause ∧ e = .tagged .readDir path cause

variable {session : Session}

theorem pages_of_dirIter (hreach : session.Reachable) {v : Nat} {view : View} {path : String}
    {clock : Clock} {index : Nat} {taken : Session} (hview : session.views[v]? = some view)
    (hstep : session.step clock (.view v (.dirIter path)) = (.ok (.pager index), taken)) :
    ∃ dir, session.store.resolveDir view.root path = .ok dir ∧
      ((∀ name ∈ session.store.childNames dir, Text.trim name = name) → ∀ commands,
        Reading.Pages (.pager index) (session.store.childNames dir) taken commands) := by
  have hreach' : taken.Reachable := by
    have hnext : (session.step clock (.view v (.dirIter path))).2.Reachable := .step hreach trivial
    rwa [hstep] at hnext
  simp only [step, hview, viewStep, View.dirIter] at hstep
  cases hfound : session.store.resolveDir view.root path with
  | error e =>
    rw [hfound] at hstep
    cases hstep
  | ok dir =>
    rw [hfound] at hstep
    cases hstep
    refine ⟨dir, rfl, fun htidy commands => ?_⟩
    have hreaches : session.store.Reaches (view.base session.store) dir :=
      ⟨view.root, _, hreach.rooted view (List.mem_of_getElem? hview), rfl,
        (Store.resolve_eq_ok_iff_leads.mp (Store.resolveDir_eq_ok_iff.mp hfound).1).2⟩
    apply Reading.pages_of_on (.start session.store dir (view.base session.store))
    · exact hreach'.rooted
    · exact List.getElem?_concat_length ..
    · exact hreach.stocked_start hreaches htidy
    · exact fun _ _ => rfl

/-- A handle on a directory is not touched by what is done elsewhere. -/
theorem handles_run {index inode : Nat} {handle : Handle} {path : String}
    (hget : session.handles[index]? = some handle) (hopen : handle.closed = false)
    (htarget : handle.target = .dir inode) {commands : List (Clock × Command)}
    (hother : ∀ c ∈ commands, (Reading.handle index path).call? c.2 = none)
    (hgoes : ∀ c ∈ commands, c.2.closes index = false) :
    (session.run commands).2.handles[index]? = some handle := by
  induction commands generalizing session with
  | nil => exact hget
  | cons c rest ih =>
    obtain ⟨hfirst, hlater⟩ := List.forall_mem_cons.mp hother
    obtain ⟨hgoesFirst, hgoesLater⟩ := List.forall_mem_cons.mp hgoes
    exact ih (handles_step hget hopen htarget hfirst hgoesFirst c.1) hlater hgoesLater

/-- The first call begins the reading, and is then a call like the later ones. -/
theorem step_readDir_of_begun (hreach : session.Reachable) {index dir : Nat} {handle : Handle}
    (hget : session.handles[index]? = some handle) (hopen : handle.closed = false)
    (htarget : handle.target = .dir dir) (hpager : handle.pager = none) (clock : Clock) (n : Int) :
    session.step clock (.handle index (.readDir n)) =
      (session.putHandle index
        { handle with pager := some (.start session.store dir handle.base) }).step clock
        (.handle index (.readDir n)) := by
  have hindex := (List.getElem?_eq_some_iff.mp hget).1
  have hstands := hreach.aimed.stands hget
  rw [htarget] at hstands
  obtain ⟨d, hdir⟩ := Option.isSome_iff_exists.mp hstands
  rw [step_handle hget, step_handle (List.getElem?_set_self hindex)]
  simp only [putHandle, Handle.perform, Handle.readDir, Handle.pager?, hopen, htarget, hpager, hdir,
    Bool.false_eq_true, if_false, Option.map_some, List.set_set]

theorem pages_of_readDir (hreach : session.Reachable) {index dir : Nat} {handle : Handle}
    (hget : session.handles[index]? = some handle) (hopen : handle.closed = false)
    (htarget : handle.target = .dir dir) (clock : Clock) (n : Int)
    {rest : List (Clock × Command)} (hgoes : ∀ c ∈ rest, c.2.closes index = false)
    (htidy : ∀ name ∈ session.store.childNames dir, Text.trim name = name) :
    Reading.Pages (.handle index handle.path) (session.store.childNames dir)
      (session.putHandle index
        { handle with pager := some (.start session.store dir handle.base) })
      ((clock, .handle index (.readDir n)) :: rest) := by
  have hreaches := hreach.homed handle (List.mem_of_getElem? hget)
  rw [htarget] at hreaches
  have hindex := (List.getElem?_eq_some_iff.mp hget).1
  apply Reading.pages_of_on (.start session.store dir handle.base)
  · exact hreach.rooted
  · exact ⟨_, List.getElem?_set_self hindex, hopen, htarget, rfl, rfl⟩
  · exact hreach.stocked_start hreaches htidy
  · exact List.forall_mem_cons.mpr ⟨Bool.and_false _, hgoes⟩

theorem readDir_eq_nextPage {v : Nat} {view : View} (hview : session.views[v]? = some view)
    (path : String) (clock clock' : Clock) {n : Int} (hn : n ≤ 0) :
    let taken := session.step clock (.view v (.dirIter path))
    let answer := (session.step clock (.view v (.readDir path))).1
    (∀ entries, answer = .ok (.entries entries) ↔ ∃ index, taken.1 = .ok (.pager index) ∧
      (taken.2.step clock' (.pager index (.nextPage n))).1 = .ok (.page ⟨entries, true⟩)) ∧
    ∀ e, answer = .error e ↔ ∃ cause, taken.1 = .error cause ∧ e = .tagged .readDir path cause := by
  have hpage : ∀ (pager : Pager) (store : Store),
      (pager.nextPage store n).1 = (pager.nextPage store (-1)).1 := by
    intro pager store
    simp [Pager.nextPage, hn]
  simp only [step, hview, viewStep, View.readDir]
  cases hiter : view.dirIter session.store path with
  | error cause =>
    refine ⟨fun entries => ⟨?_, ?_⟩, fun e => ⟨?_, ?_⟩⟩
    · intro h
      cases h
    · rintro ⟨index, hindex, -⟩
      cases hindex
    · intro he
      exact ⟨cause, rfl, (Except.error.inj he).symm⟩
    · rintro ⟨cause', hcause, rfl⟩
      obtain rfl := Except.error.inj hcause
      rfl
  | ok pager =>
    have hget : (session.pagers ++ [pager])[session.pagers.length]? = some pager :=
      List.getElem?_concat_length ..
    have hdrained : (pager.nextPage session.store n).1 =
        .ok ⟨pager.names.filterMap (pager.entry? session.store), true⟩ := by
      rw [hpage, pager.nextPage_rest]
    simp only [pager.nextPage_rest]
    refine ⟨fun entries => ⟨?_, ?_⟩, fun e => ⟨?_, ?_⟩⟩
    · intro h
      obtain rfl := Reply.entries.inj (Except.ok.inj h)
      refine ⟨_, rfl, ?_⟩
      simp only [hget, pagerStep, hdrained]
      rfl
    · rintro ⟨index, hindex, hanswer⟩
      obtain rfl := Reply.pager.inj (Except.ok.inj hindex)
      simp only [hget, pagerStep, hdrained] at hanswer
      obtain ⟨rfl, -⟩ := Page.mk.inj (Reply.page.inj (Except.ok.inj hanswer))
      rfl
    · intro h
      cases h
    · rintro ⟨cause, hcause, -⟩
      cases hcause

/-- Whatever page sizes are asked for and whatever is done in between, paged readings hand out the
names that there were when they began. -/
theorem paged_of_reachable (hreach : session.Reachable) : session.Paged where
  names := fun dir =>
    ⟨hreach.shape.sorted_childNames dir, fun _ => session.store.mem_childNames_iff⟩
  pager := fun _ _ _ _ _ _ hview hstep => pages_of_dirIter hreach hview hstep
  opened := by
    intro v view command path clock index opened hview hopens hstep
    simp only [step, hview] at hstep
    obtain ⟨flags, mode, handle, store, hopen, rfl, rfl⟩ := viewStep_opened hopens hstep
    exact ⟨handle, List.getElem?_concat_length .., View.pager_of_openNode hopen⟩
  handle := by
    intro index handle dir before clock n rest hget hopen htarget hpager hother hgoes htidy
    obtain ⟨hgoesBefore, hgoesRest⟩ := List.forall_mem_append.mp hgoes
    have hkept := handles_run hget hopen htarget hother hgoesBefore
    exact ⟨step_readDir_of_begun (hreach.run before) hkept hopen htarget hpager clock n,
      pages_of_readDir (hreach.run before) hkept hopen htarget clock n hgoesRest htidy⟩
  readDir := fun _ _ path clock clock' _ hview hn => readDir_eq_nextPage hview path clock clock' hn

/-- A directory with three files and a handle on it. -/
def shelf : Session :=
  (emptyTree.run [(fun k => k, .view 0 (.mkdir "d" (.dir 0o755))),
    (fun k => k, .view 0 (.create "d/b")), (fun k => k, .view 0 (.create "d/a")),
    (fun k => k, .view 0 (.create "d/c")), (fun k => k, .view 0 (.openRead "d"))]).2

/-- Calls of a pager, the last of them past the end, and a file that comes in between. -/
def browse : List (Clock × Command) :=
  [(fun k => k, .pager 0 (.nextPage 2)), (fun k => k, .view 0 (.create "d/aa")),
    (fun k => k, .pager 0 .next), (fun k => k, .pager 0 (.nextPage 1)),
    (fun k => k, .pager 0 (.nextPage (-1)))]

/-- What comes after the first call of the handle. -/
def browseOn : List (Clock × Command) :=
  [(fun k => k, .view 0 (.create "d/aa")), (fun k => k, .handle 3 (.readDir 5))]

theorem paged_of_reachable_shelf :
    let taken := (shelf.step (fun k => k) (.view 0 (.dirIter "d"))).2
    let later := (shelf.run [(fun k => k, .view 0 (.create "d/z"))]).2
    shelf.Reachable ∧ Reading.Pages (.pager 0) ["a", "b", "c"] taken browse ∧
      (Reading.pager 0).collected taken browse = ["a", "b", "c"] ∧
      ∃ handle, shelf.handles[3]? = some handle ∧
        let begun := later.putHandle 3
          { handle with pager := some (.start later.store 2 handle.base) }
        Reading.Pages (.handle 3 "d") ["a", "b", "c", "z"] begun
          ((fun k => k, .handle 3 (.readDir 3)) :: browseOn) := by
  have hreach : shelf.Reachable := emptyTree_reachable.run _
  have hwhole : shelf.views[0]? = some .whole := by decide +kernel
  have hhandle : shelf.handles[3]? = some (.onDir 2 "d" ".") := by decide +kernel
  have htaken : (shelf.step (fun k => k) (.view 0 (.dirIter "d"))).1 = .ok (.pager 0) := by
    decide +kernel
  have hfound : shelf.store.resolveDir View.whole.root "d" = .ok 2 := by decide +kernel
  have hnames : shelf.store.childNames 2 = ["a", "b", "c"] := by decide +kernel
  have hcollected : (Reading.pager 0).collected
      (shelf.step (fun k => k) (.view 0 (.dirIter "d"))).2 browse = ["a", "b", "c"] := by
    decide +kernel
  have hlater : (shelf.run [(fun k => k, .view 0 (.create "d/z"))]).2.store.childNames 2 =
      ["a", "b", "c", "z"] := by decide +kernel
  -- Nothing more is evaluated of the shelf.
  generalize shelf = session at *
  have hpaged := paged_of_reachable hreach
  obtain ⟨dir, hdir, hpages⟩ := hpaged.pager 0 .whole "d" _ 0 _ hwhole (Prod.ext htaken rfl)
  obtain rfl := Except.ok.inj (hfound.symm.trans hdir)
  refine ⟨hreach, ?_, hcollected, _, hhandle, ?_⟩
  · have hbrowsed := hpages (by rw [hnames]; decide +kernel) browse
    rwa [hnames] at hbrowsed
  · have hbegun := hpaged.handle 3 _ 2 [(fun k => k, .view 0 (.create "d/z"))] (fun k => k) 3
      browseOn hhandle rfl rfl rfl (by simp [Reading.call?])
      (by simp [browseOn, Command.closes, HandleCommand.isClose]) (by rw [hlater]; decide +kernel)
    rw [← hlater]
    exact hbegun.2

end Session

end VirtualFs.Tree
