import VirtualFs.Glob.Match
import VirtualFs.Proofs.Tree.Loosened

namespace VirtualFs.Tree

/-- The path that the rules see before anything else is done. The pattern of a search is none, and
what is never done asks no rule. -/
def ViewCommand.ruledPath? : ViewCommand → Option String
  | openRead path => some path
  | openFile path _ _ => some path
  | create path => some path
  | mkdir path _ => some path
  | mkdirAll path _ => some path
  | writeFile path _ _ => some path
  | content path => some path
  | stat path => some path
  | exists? path => some path
  | readDir path => some path
  | dirIter path => some path
  | sub path => some path
  | _ => none

/-- The path is valid, if there is one. -/
def Command.permitted : Command → Bool
  | view _ command => command.ruledPath?.all fun path => Path.valid (Text.trim path)
  | _ => true

/-- A failure because of the path. `exists?` has no failures, but the lookup that it makes fails. -/
def View.Refuses (view : View) (store : Store) : ViewCommand → Except FsError Reply → Prop
  | .exists? path, answer =>
    answer = .ok (.verdict false) ∧ ∃ e, view.stat store path = .error e ∧ e.kind = .invalidPath
  | _, answer => ∃ e, answer = .error e ∧ e.kind = .invalidPath

namespace Session

variable {policy : PathPolicy} {session : Session} {clock : Clock} {view : View}

/-- The same session on the tree under the permissive rules. -/
def loosened (policy : PathPolicy) (session : Session) : Session :=
  { session with store := session.store.loosened policy }

/-- What was answered, with the session afterwards as it is under the permissive rules. -/
abbrev loosely {α : Type} (policy : PathPolicy) (outcome : α × Session) : α × Session :=
  (outcome.1, outcome.2.loosened policy)

theorem takeHandle_loosened (outcome : Except FsError Handle × Store) :
    (session.loosened policy).takeHandle (Store.loosely policy outcome) =
      loosely policy (session.takeHandle outcome) := by
  rcases outcome with ⟨e | handle, store⟩ <;> rfl

theorem settle_loosened (outcome : Except FsError Unit × Store) :
    (session.loosened policy).settle (Store.loosely policy outcome) =
      loosely policy (session.settle outcome) := rfl

/-- An operation that the strict rules permit comes to the same under both rules. -/
theorem viewStep_loosened (hstrict : session.store.Strict)
    (hroot : (session.store.dir? view.root).isSome) {command : ViewCommand}
    (htidy : ∀ path, command.newPath? = some path → Path.Tidy path)
    (hpermitted : ∀ path, command.ruledPath? = some path → Path.valid (Text.trim path) = true) :
    (session.loosened policy).viewStep clock view command =
      loosely policy (session.viewStep clock view command) := by
  have hstore : (session.loosened policy).store = session.store.loosened policy := rfl
  cases command with
  | openRead path =>
    rw [viewStep, viewStep, hstore, View.openRead_loosened hstrict hroot (hpermitted path rfl)]
    exact takeHandle_loosened _
  | openFile path flags mode =>
    rw [viewStep, viewStep, hstore,
      View.openFile_loosened hstrict hroot (hpermitted path rfl) (htidy path rfl)]
    exact takeHandle_loosened _
  | create path =>
    rw [viewStep, viewStep, hstore,
      View.create_loosened hstrict hroot (hpermitted path rfl) (htidy path rfl)]
    exact takeHandle_loosened _
  | mkdir path mode =>
    rw [viewStep, viewStep, hstore,
      View.mkdir_loosened hstrict hroot (hpermitted path rfl) (htidy path rfl)]
    exact settle_loosened _
  | mkdirAll path mode =>
    rw [viewStep, viewStep, hstore,
      View.mkdirAll_loosened hstrict hroot (hpermitted path rfl) (htidy path rfl)]
    exact settle_loosened _
  | writeFile path data mode =>
    rw [viewStep, viewStep, hstore,
      View.writeFile_loosened hstrict hroot (hpermitted path rfl) (htidy path rfl)]
    exact settle_loosened _
  | content path =>
    rw [viewStep, viewStep, hstore, View.content_loosened hstrict hroot (hpermitted path rfl)]
    rfl
  | stat path =>
    rw [viewStep, viewStep, hstore, View.stat_loosened hstrict (hpermitted path rfl)]
  | exists? path =>
    rw [viewStep, viewStep, hstore, View.exists?, View.stat_loosened hstrict (hpermitted path rfl)]
    rfl
  | readDir path =>
    rw [viewStep, viewStep, hstore, View.readDir_loosened hstrict (hpermitted path rfl)]
  | dirIter path =>
    rw [viewStep, viewStep, hstore, View.dirIter_loosened hstrict (hpermitted path rfl)]
    cases view.dirIter session.store path <;> rfl
  | sub path =>
    rw [viewStep, viewStep, hstore, View.sub_loosened hstrict (hpermitted path rfl)]
    cases view.sub session.store path <;> rfl
  | glob patterns pattern => rw [viewStep, viewStep, hstore, View.glob_loosened]
  | listing => rw [viewStep, viewStep, hstore, View.listing_loosened]
  | close =>
    rw [viewStep, viewStep, hstore, View.close_loosened]
    exact settle_loosened _
  | _ => rfl

/-- At a path that is not valid an operation fails for that under the strict rules, and changes
nothing. -/
theorem viewStep_of_refused (hrules : session.store.rules = .strict) {command : ViewCommand}
    {path : String} (hpath : command.ruledPath? = some path)
    (hinvalid : Path.valid (Text.trim path) = false) :
    view.Refuses session.store command (session.viewStep clock view command).1 ∧
      (session.viewStep clock view command).2 = session := by
  have hrefused : session.store.rules.accepts (Text.trim path) = false := by
    rw [hrules]
    exact hinvalid
  have hclean := PathRules.clean_of_refused hrefused
  have hsplit := PathRules.split_of_refused hrefused
  have hresolve : session.store.resolve view.root path = .error (.invalidPath path) := by
    simp only [Store.resolve, hsplit]
  have hdir : session.store.resolveDir view.root path = .error (.invalidPath path) := by
    simp only [Store.resolveDir, hresolve]
  have hopen : ∀ flags mode, view.openNode session.store clock path flags mode =
      (.error (.invalidPath path), session.store) := by
    intro flags mode
    simp only [View.openNode, hclean]
  have hdot : session.store.rules.endsWithDot path = false := by
    simp only [PathRules.endsWithDot, hclean]
  cases command <;> cases hpath
  case openRead =>
    simp only [viewStep, View.openRead, hopen, takeHandle, FsError.tag]
    exact ⟨⟨_, rfl, rfl⟩, trivial⟩
  case openFile =>
    simp only [viewStep, View.openFile, hopen, takeHandle, FsError.tag]
    exact ⟨⟨_, rfl, rfl⟩, trivial⟩
  case create =>
    simp only [viewStep, View.create, hopen, takeHandle, FsError.tag]
    exact ⟨⟨_, rfl, rfl⟩, trivial⟩
  case mkdir =>
    simp only [viewStep, View.mkdir, Store.mkdir, hdot, hsplit]
    exact ⟨⟨_, rfl, rfl⟩, rfl⟩
  case mkdirAll =>
    simp only [viewStep, View.mkdirAll, Store.mkdirAll, hsplit]
    exact ⟨⟨_, rfl, rfl⟩, rfl⟩
  case writeFile =>
    simp only [viewStep, View.writeFile, hopen]
    exact ⟨⟨_, rfl, rfl⟩, rfl⟩
  case content =>
    simp only [viewStep, View.content, hopen]
    exact ⟨⟨_, rfl, rfl⟩, trivial⟩
  case stat =>
    simp only [viewStep, View.stat, hresolve]
    exact ⟨⟨_, rfl, rfl⟩, trivial⟩
  case exists? =>
    have hstat : view.stat session.store path = .error (.tagged .stat path (.invalidPath path)) := by
      simp only [View.stat, hresolve]
      rfl
    simp only [viewStep, View.exists?, hstat]
    exact ⟨⟨rfl, _, hstat, rfl⟩, trivial⟩
  case readDir =>
    simp only [viewStep, View.readDir, View.dirIter, hdir]
    exact ⟨⟨_, rfl, rfl⟩, trivial⟩
  case dirIter =>
    simp only [viewStep, View.dirIter, hdir]
    exact ⟨⟨_, rfl, rfl⟩, trivial⟩
  case sub =>
    simp only [viewStep, View.sub, hdir]
    exact ⟨⟨_, rfl, rfl⟩, rfl⟩

/-- A command that the strict rules permit comes to the same under both rules. -/
theorem step_loosened (hreach : session.TidilyReachable) (hrules : session.store.rules = .strict)
    {command : Command} (htidy : command.Tidy) (hpermitted : command.permitted = true) :
    (session.loosened policy).step clock command =
      loosely policy (session.step clock command) := by
  have hstore : (session.loosened policy).store = session.store.loosened policy := rfl
  have hviews : (session.loosened policy).views = session.views := rfl
  have hpagers : (session.loosened policy).pagers = session.pagers := rfl
  cases command with
  | view index command =>
    rw [step, step, hviews]
    cases hview : session.views[index]? with
    | none => rfl
    | some view =>
      have hpermitted : ∀ path, command.ruledPath? = some path →
          Path.valid (Text.trim path) = true := by
        intro path hpath
        rwa [Command.permitted, hpath] at hpermitted
      exact viewStep_loosened ⟨hreach.tidyShape, hrules, hreach.accepted⟩
        (hreach.rooted view (List.mem_of_getElem? hview)) htidy hpermitted
  | handle index command =>
    cases hhandle : session.handles[index]? with
    | none =>
      simp only [step, loosened, hhandle]
      rfl
    | some handle =>
      have hloose : (session.loosened policy).handles[index]? = some handle := hhandle
      rw [step_handle hloose, step_handle hhandle, hstore, Handle.perform_loosened]
      rfl
  | pager index command =>
    rw [step, step, hpagers]
    cases session.pagers[index]? with
    | none => rfl
    | some pager =>
      cases command with
      | next => simp only [pagerStep, hstore, Pager.next_loosened]; rfl
      | nextPage n => simp only [pagerStep, hstore, Pager.nextPage_loosened]; rfl

/-- A command that the strict rules do not permit leaves the session as it is. -/
theorem step_of_refused (hrules : session.store.rules = .strict) {command : Command}
    (hrefused : command.permitted = false) : (session.step clock command).2 = session := by
  cases command with
  | view index command =>
    cases hpath : command.ruledPath? with
    | none => simp [Command.permitted, hpath] at hrefused
    | some path =>
      rw [Command.permitted, hpath] at hrefused
      rw [step]
      cases session.views[index]? with
      | none => rfl
      | some view => exact (viewStep_of_refused hrules hpath hrefused).2
  | _ => cases hrefused

/-- A run under the permissive rules of the commands that the strict rules permit answers what the
whole run under the strict rules answers to them, and leads to the same tree. -/
theorem run_loosened (hreach : session.TidilyReachable) (hrules : session.store.rules = .strict)
    {commands : List (Clock × Command)} (htidy : ∀ c ∈ commands, c.2.Tidy) :
    (session.loosened policy).run (commands.filter (·.2.permitted)) =
      ((((session.run commands).1.zip commands).filter (·.2.2.permitted)).map (·.1),
        (session.run commands).2.loosened policy) := by
  induction commands generalizing session with
  | nil => rfl
  | cons c rest ih =>
    obtain ⟨hfirst, hrest⟩ := List.forall_mem_cons.mp htidy
    have hnext : (session.step c.1 c.2).2.TidilyReachable := .step hreach (.inl hfirst)
    have hnextRules : (session.step c.1 c.2).2.store.rules = .strict :=
      (hreach.rooted.rules_run [c]).trans hrules
    have hrun : session.run (c :: rest) =
        ((session.step c.1 c.2).1 :: ((session.step c.1 c.2).2.run rest).1,
          ((session.step c.1 c.2).2.run rest).2) := rfl
    cases hpermitted : c.2.permitted with
    | true =>
      have hloose : (session.loosened policy).run (c :: rest.filter (·.2.permitted)) =
          ((session.step c.1 c.2).1 ::
              (((session.step c.1 c.2).2.loosened policy).run (rest.filter (·.2.permitted))).1,
            (((session.step c.1 c.2).2.loosened policy).run (rest.filter (·.2.permitted))).2) := by
        rw [run, step_loosened hreach hrules hfirst hpermitted]
      simp only [List.filter_cons, hpermitted, if_true, hloose, ih hnext hnextRules hrest, hrun,
        List.zip_cons_cons, List.map_cons]
    | false =>
      have hsame : (session.step c.1 c.2).2 = session := step_of_refused hrules hpermitted
      rw [hsame] at hrun
      simp only [List.filter_cons, hpermitted, Bool.false_eq_true, if_false, ih hreach hrules hrest,
        hrun, List.zip_cons_cons]

/-- A run takes its steps one after the other. -/
theorem run_take_succ {commands : List (Clock × Command)} {k : Nat} {c : Clock × Command}
    (hget : commands[k]? = some c) :
    (session.run commands).1[k]? = some ((session.run (commands.take k)).2.step c.1 c.2).1 ∧
      (session.run (commands.take (k + 1))).2 =
        ((session.run (commands.take k)).2.step c.1 c.2).2 := by
  induction commands generalizing session k with
  | nil => cases hget
  | cons first rest ih =>
    cases k with
    | zero =>
      obtain rfl := Option.some.inj hget
      exact ⟨rfl, rfl⟩
    | succ k =>
      obtain ⟨hanswer, hsession⟩ := @ih (session.step first.1 first.2).2 k hget
      exact ⟨hanswer, hsession⟩

/-- Compared to the run of the permitted commands on `loose`, all that the run on this session has
besides are failures that change nothing. -/
structure OnlyFilters (session loose : Session) (policy : PathPolicy)
    (commands : List (Clock × Command)) : Prop where
  /-- A command at a path that is not valid fails for that. -/
  refused : ∀ (k : Nat) clock index command, commands[k]? = some (clock, .view index command) →
    (Command.view index command).permitted = false →
    ∀ view, (session.run (commands.take k)).2.views[index]? = some view →
    ∃ answer, (session.run commands).1[k]? = some answer ∧
      view.Refuses (session.run (commands.take k)).2.store command answer
  /-- It changes nothing. -/
  unchanged : ∀ (k : Nat) c, commands[k]? = some c → c.2.permitted = false →
    (session.run (commands.take (k + 1))).2 = (session.run (commands.take k)).2
  /-- All other commands are answered alike. -/
  answers : (loose.run (commands.filter (·.2.permitted))).1 =
    (((session.run commands).1.zip commands).filter (·.2.2.permitted)).map (·.1)
  /-- After any part of the run both have the same views, handles and pagers on the same nodes. -/
  same : ∀ k, (loose.run ((commands.take k).filter (·.2.permitted))).2 =
    (session.run (commands.take k)).2.loosened policy

theorem onlyFilters_loosened (hreach : session.TidilyReachable)
    (hrules : session.store.rules = .strict) {commands : List (Clock × Command)}
    (htidy : ∀ c ∈ commands, c.2.Tidy) :
    session.OnlyFilters (session.loosened policy) policy commands where
  refused := by
    intro k clock index command hget hrefused view hview
    have hstrict := (hreach.rooted.rules_run (commands.take k)).trans hrules
    refine ⟨_, (run_take_succ hget).1, ?_⟩
    rw [step, hview]
    cases hpath : command.ruledPath? with
    | none => simp [Command.permitted, hpath] at hrefused
    | some path =>
      rw [Command.permitted, hpath] at hrefused
      exact (viewStep_of_refused hstrict hpath hrefused).1
  unchanged := by
    intro k c hget hrefused
    have hstrict := (hreach.rooted.rules_run (commands.take k)).trans hrules
    exact (run_take_succ hget).2.trans (step_of_refused hstrict hrefused)
  answers := by rw [run_loosened hreach hrules htidy]
  same := by
    intro k
    rw [run_loosened hreach hrules fun c hc => htidy c (List.mem_of_mem_take hc)]

end Session

/-- The strict rules only filter: of two new trees with the same settings, one with the strict rules
and one with the permissive ones, a run leads to the same nodes, and answers the same to all but the
commands at paths that are not valid, which are left out on the second tree. -/
theorem onlyFilters_of_build {config : Config} {policy : PathPolicy} {rules rules' : Option PathRules}
    {now : Time} {strict permissive : Session}
    (hstrict : Session.build config rules now = .ok strict) (hrules : strict.store.rules = .strict)
    (hpermissive : Session.build { config with pathPolicy := policy } rules' now = .ok permissive)
    (hrules' : permissive.store.rules = .permissive) {commands : List (Clock × Command)}
    (htidy : ∀ c ∈ commands, c.2.Tidy) : strict.OnlyFilters permissive policy commands := by
  have hloose : permissive = strict.loosened policy := by
    obtain ⟨-, hnew⟩ := Session.eq_create_of_build hstrict
    obtain ⟨-, hnew'⟩ := Session.eq_create_of_build hpermissive
    rw [hnew'] at hrules' ⊢
    rw [hnew]
    have hgiven : rules'.getD (PathPolicy.rules policy) = .permissive := hrules'
    simp only [hgiven]
    rfl
  rw [hloose]
  exact Session.onlyFilters_loosened (.build hstrict) hrules htidy

/-- Valid paths through the root and a view, other paths in between, and what asks no rule. -/
def filteredRun : List (Clock × Command) :=
  [(fun k => k, .view 0 (.mkdirAll "a/b" ⟨0o755⟩)), (fun k => k, .view 0 (.mkdirAll "a//c" ⟨0o755⟩)),
    (fun k => k, .view 0 (.sub "a")), (fun k => k, .view 1 (.writeFile "../f" [1] ⟨0o644⟩)),
    (fun k => k, .view 1 (.openFile "b/f" (.union .rdwr .create) ⟨0o644⟩)),
    (fun k => k, .view 0 (.exists? "a/./b/f")), (fun k => k, .handle 0 (.write [1, 2])),
    (fun k => k, .view 0 (.stat "a/b/f")), (fun k => k, .view 1 (.rename ".." "/")),
    (fun k => k, .view 0 (.glob .shell "../*"))]

theorem onlyFilters_of_build_filteredRun :
    (∀ c ∈ filteredRun, c.2.Tidy) ∧
      filteredRun.map (·.2.permitted) =
        [true, false, true, false, true, false, true, true, true, true] ∧
      ((Session.create { Config.standard with pathPolicy := .strict } .strict 0).run
        (filteredRun.take 4)).1 =
          [.ok .done, .error (.tagged .mkdirAll "a//c" (.invalidPath "a//c")), .ok (.view 1),
            .error (.tagged .writeFile "../f" (.invalidPath "../f"))] ∧
      (Session.create { Config.standard with pathPolicy := .strict } .strict 0).OnlyFilters
        (Session.create .standard .permissive 0) .permissive filteredRun := by
  have htidy : ∀ c ∈ filteredRun, c.2.Tidy := by decide +kernel
  have hvalid : Config.Valid { Config.standard with pathPolicy := .strict } := Config.standard_valid
  exact ⟨htidy, by decide +kernel, by decide +kernel,
    onlyFilters_of_build (Session.build_eq_ok hvalid none 0) rfl
      (Session.build_eq_ok Config.standard_valid none 0) rfl htidy⟩

end VirtualFs.Tree
