import VirtualFs.Proofs.Path.Segments
import VirtualFs.Proofs.Tree.Run

namespace VirtualFs

namespace PathRules

variable (rules : PathRules)

/-- Whatever the path and the rules are, only segments become names. -/
theorem yields_segment (path : String) : rules.Yields Path.IsSegment path := by
  have hnames : ∀ p, rules.Names Path.IsSegment p := by
    intro p segments hsplit
    constructor
    · intro s hs
      rw [rules.segments_of_split hsplit] at hs
      exact Path.isSegment_of_mem_segments hs
    · intro parents hparents s hs
      rw [rules.segments_of_split hparents] at hs
      exact Path.isSegment_of_mem_segments hs
  exact ⟨hnames path, fun cleaned _ => hnames cleaned⟩

/-- Along a tidy path only tidy names are made. -/
theorem yields_tidyName {path : String} (htidy : Path.Tidy path) :
    rules.Yields Path.IsTidyName path := by
  have hnames : ∀ p, Path.Tidy p → rules.Names Path.IsTidyName p := by
    intro p hp segments hsplit
    rw [rules.segments_of_split hsplit, hp.segments_cleaned]
    have htidyNames : ∀ s ∈ Path.segments p, Path.IsTidyName s := fun s hs => hp.isTidyName hs
    refine ⟨htidyNames, ?_⟩
    intro parents hparents s hs
    have hfront : ∀ s ∈ (Path.segments p).dropLast, Path.IsTidyName s := fun s hs =>
      htidyNames s ((List.dropLast_sublist _).subset hs)
    rw [rules.segments_of_split hparents, Path.cleaned_joinAll hfront] at hs
    exact (Path.tidy_joinAll hfront).isTidyName hs
  refine ⟨hnames path htidy, fun cleaned hclean => ?_⟩
  rw [rules.cleaned_of_clean hclean]
  exact hnames _ htidy.cleaned

end PathRules

namespace Tree

/-- The command makes nodes along tidy paths only. -/
def Command.Tidy : Command → Prop
  | .view _ command => ∀ path, command.newPath? = some path → Path.Tidy path
  | _ => True

instance (command : Command) : Decidable command.Tidy :=
  match command with
  | .view _ command =>
    match hpath : command.newPath? with
    | some path => decidable_of_iff (Path.Tidy path) (by simp [Command.Tidy, hpath])
    | none => .isTrue (by simp [Command.Tidy, hpath])
  | .handle .. => .isTrue trivial
  | .pager .. => .isTrue trivial

theorem Command.yields_segment (command : Command) (rules : PathRules) :
    command.Yields rules Path.IsSegment := by
  cases command with
  | view _ command => exact fun path _ => rules.yields_segment path
  | _ => trivial

theorem Command.Tidy.yields {command : Command} (htidy : command.Tidy) (rules : PathRules) :
    command.Yields rules Path.IsTidyName := by
  cases command with
  | view _ command => exact fun path hpath => rules.yields_tidyName (htidy path hpath)
  | _ => trivial

namespace Session

/-- The step makes nodes along tidy paths only, if it makes any. -/
def TidyStep (session : Session) (clock : Clock) (command : Command) : Prop :=
  command.Tidy ∨ ∀ i, ((session.step clock command).2.store.node? i).isSome →
    (session.store.node? i).isSome

/-- The sessions that lead from a new tree with checked settings by steps that meet `allowed`,
whatever the clock shows. -/
inductive ReachableBy (allowed : Session → Clock → Command → Prop) : Session → Prop where
  | build {config : Config} {rules : Option PathRules} {now : Time} {session : Session}
      (hbuild : Session.build config rules now = .ok session) : ReachableBy allowed session
  | step {session : Session} (hreach : ReachableBy allowed session) {clock : Clock}
      {command : Command} (hallowed : allowed session clock command) :
      ReachableBy allowed (session.step clock command).2

/-- The sessions that any run leads to. -/
abbrev Reachable : Session → Prop :=
  ReachableBy fun _ _ _ => True

/-- The sessions all of whose nodes were made along tidy paths. -/
abbrev TidilyReachable : Session → Prop :=
  ReachableBy TidyStep

variable {session : Session} {allowed : Session → Clock → Command → Prop}

theorem ReachableBy.reachable (hreach : ReachableBy allowed session) : session.Reachable := by
  induction hreach with
  | build hbuild => exact .build hbuild
  | step _ _ ih => exact .step ih trivial

/-- A run goes on from where the last one ended. -/
theorem ReachableBy.run (hreach : session.Reachable) (commands : List (Clock × Command)) :
    (session.run commands).2.Reachable := by
  induction commands generalizing session with
  | nil => exact hreach
  | cons c rest ih => exact ih (.step hreach trivial)

/-- Along tidy paths a run leads from one tree of tidy names to another. -/
theorem ReachableBy.run_of_tidy (hreach : session.TidilyReachable)
    {commands : List (Clock × Command)} (htidy : ∀ c ∈ commands, c.2.Tidy) :
    (session.run commands).2.TidilyReachable := by
  induction commands generalizing session with
  | nil => exact hreach
  | cons c rest ih =>
    obtain ⟨hfirst, hrest⟩ := List.forall_mem_cons.mp htidy
    exact ih (.step hreach (.inl hfirst)) hrest

/-- A new session has a tree with its root alone, and the view of the whole. -/
theorem eq_create_of_build {config : Config} {rules : Option PathRules} {now : Time}
    (hbuild : Session.build config rules now = .ok session) :
    config.Valid ∧ session = create config (rules.getD config.pathPolicy.rules) now := by
  unfold build at hbuild
  split at hbuild
  · simp at hbuild
  · next hvalid =>
    simp only [Except.ok.injEq] at hbuild
    exact ⟨Config.validate_eq_ok_iff.mp hvalid, hbuild.symm⟩

/-- A tree is built from settings that are valid. -/
theorem build_eq_ok {config : Config} (hvalid : config.Valid) (rules : Option PathRules)
    (now : Time) : Session.build config rules now =
      .ok (create config (rules.getD config.pathPolicy.rules) now) := by
  rw [build, Config.validate_eq_ok_iff.mpr hvalid]

theorem Rooted.viewStep (hrooted : session.Rooted) (clock : Clock) {view : View}
    (hview : view ∈ session.views) (command : ViewCommand) :
    (session.viewStep clock view command).2.Rooted := by
  have hchanges : Store.Changes Path.IsSegment session.store
      (session.viewStep clock view command).2.store :=
    viewStep_changes hrooted clock hview fun path _ => session.store.rules.yields_segment path
  cases command with
  | sub path =>
    simp only [Session.viewStep] at hchanges ⊢
    split
    · exact hrooted
    · next sub hsub =>
      intro v hv
      rcases List.mem_append.mp hv with hv | hv
      · exact hrooted v hv
      · rw [List.mem_singleton.mp hv]
        unfold View.sub at hsub
        cases hdir : session.store.resolveDir view.root path with
        | error e => simp [hdir, Except.map] at hsub
        | ok inode =>
          simp only [hdir, Except.map, FsError.tag_ok, Except.ok.injEq] at hsub
          subst hsub
          exact Store.dir?_of_resolveDir hdir
  | openRead path =>
    refine hrooted.of_changes hchanges ?_
    simp only [Session.viewStep, takeHandle]
    split <;> rfl
  | openFile path flags mode =>
    refine hrooted.of_changes hchanges ?_
    simp only [Session.viewStep, takeHandle]
    split <;> rfl
  | create path =>
    refine hrooted.of_changes hchanges ?_
    simp only [Session.viewStep, takeHandle]
    split <;> rfl
  | dirIter path =>
    refine hrooted.of_changes hchanges ?_
    simp only [Session.viewStep]
    split <;> rfl
  | _ => exact hrooted.of_changes hchanges rfl

theorem Rooted.step (hrooted : session.Rooted) (clock : Clock) (command : Command) :
    (session.step clock command).2.Rooted := by
  cases command with
  | view index command =>
    simp only [Session.step]
    split
    · next view hview => exact hrooted.viewStep clock (List.mem_of_getElem? hview) command
    · exact hrooted
  | handle index command =>
    have hchanges : Store.Changes Path.IsSegment session.store
        (session.step clock (.handle index command)).2.store :=
      step_changes hrooted clock trivial
    refine hrooted.of_changes hchanges ?_
    simp only [Session.step]
    split
    · cases command <;> rfl
    · rfl
  | pager index command =>
    have hchanges : Store.Changes Path.IsSegment session.store
        (session.step clock (.pager index command)).2.store :=
      step_changes hrooted clock trivial
    refine hrooted.of_changes hchanges ?_
    simp only [Session.step]
    split
    · cases command <;> rfl
    · rfl

theorem ReachableBy.rooted (hreach : ReachableBy allowed session) : session.Rooted := by
  induction hreach with
  | build hbuild =>
    obtain ⟨_, rfl⟩ := eq_create_of_build hbuild
    intro view hview
    rw [List.mem_singleton.mp hview]
    rfl
  | step _ _ ih => exact ih.step _ _

/-- A step makes nodes under segments, whatever its command is. -/
theorem step_changes_segment (hrooted : session.Rooted) (clock : Clock) (command : Command) :
    Store.Changes Path.IsSegment session.store (session.step clock command).2.store :=
  step_changes hrooted clock (command.yields_segment session.store.rules)

/-- So does a run. -/
theorem Rooted.run_changes (hrooted : session.Rooted) (commands : List (Clock × Command)) :
    Store.Changes Path.IsSegment session.store (session.run commands).2.store := by
  induction commands generalizing session with
  | nil => exact .refl _
  | cons c rest ih =>
    exact (step_changes_segment hrooted c.1 c.2).trans (ih (hrooted.step c.1 c.2))

/-- A run keeps the rules. -/
theorem Rooted.rules_run (hrooted : session.Rooted) (commands : List (Clock × Command)) :
    (session.run commands).2.store.rules = session.store.rules :=
  (hrooted.run_changes commands).rules_eq

/-- What holds of every new store and is kept by every primitive step holds of the store of every
session that the steps lead to. -/
theorem ReachableBy.store_induction {named : String → Prop} {P : Store → Prop}
    (hreach : ReachableBy allowed session)
    (hchanges : ∀ {session clock command}, session.Rooted → allowed session clock command →
      Store.Changes named session.store (session.step clock command).2.store)
    (hstart : ∀ config rules now, config.Valid → P (.create config rules now))
    (hchange : ∀ {s s'}, Store.Change named s s' → P s → P s') : P session.store := by
  induction hreach with
  | build hbuild =>
    obtain ⟨hvalid, rfl⟩ := eq_create_of_build hbuild
    exact hstart _ _ _ hvalid
  | step hreach hallowed ih => exact (hchanges hreach.rooted hallowed).preserves hchange ih

/-- A step along tidy paths makes nodes under tidy names. -/
theorem TidyStep.changes {clock : Clock} {command : Command} (hrooted : session.Rooted)
    (htidy : TidyStep session clock command) :
    Store.Changes Path.IsTidyName session.store (session.step clock command).2.store := by
  rcases htidy with htidy | hnone
  · exact step_changes hrooted clock (htidy.yields session.store.rules)
  · exact (step_changes_segment hrooted clock command).of_no_new hnone

theorem ReachableBy.config_valid (hreach : ReachableBy allowed session) :
    session.store.config.Valid :=
  hreach.store_induction (P := fun s => s.config.Valid)
    (fun hrooted _ => step_changes_segment hrooted _ _) (fun _ _ _ hvalid => hvalid)
    (fun hstep hvalid => by rwa [hstep.config_eq])

end Session

end Tree

end VirtualFs
