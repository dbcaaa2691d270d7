import VirtualFs.Proofs.Tree.FlatViews

namespace VirtualFs

/-- The clocks of a run never go back: not while one operation lasts, and not from one operation to
a later one. -/
structure Clock.Steady (start : Time) (clocks : List Clock) : Prop where
  start : ∀ clock ∈ clocks, ∀ k, start ≤ clock k
  within : ∀ clock ∈ clocks, clock.Monotone
  across : clocks.Pairwise fun earlier later => ∀ k l, k ≤ l → earlier k ≤ later l

namespace Flat

/-- The command of a tree, through the view of the whole. -/
def Command.toTree : Command → Tree.Command
  | .mkdir path mode => .view 0 (.mkdir (Path.joinAll path) mode)
  | .mkdirAll path mode => .view 0 (.mkdirAll (Path.joinAll path) mode)
  | .create path => .view 0 (.create (Path.joinAll path))
  | .writeFile path data mode => .view 0 (.writeFile (Path.joinAll path) data mode)
  | .content path => .view 0 (.content (Path.joinAll path))
  | .stat path => .view 0 (.stat (Path.joinAll path))
  | .exists? path => .view 0 (.exists? (Path.joinAll path))
  | .readDir path => .view 0 (.readDir (Path.joinAll path))

def Command.path : Command → List String
  | .mkdir path _ => path
  | .mkdirAll path _ => path
  | .create path => path
  | .writeFile path _ _ => path
  | .content path => path
  | .stat path => path
  | .exists? path => path
  | .readDir path => path

/-- What is made as a file has a name and no mode of a directory. -/
def Command.FileLike : Command → Prop
  | .create path => path.getLast? ≠ some "."
  | .writeFile path _ mode => path.getLast? ≠ some "." ∧ mode.isDir = false
  | _ => True

instance : (command : Command) → Decidable command.FileLike
  | .create path => inferInstanceAs (Decidable (path.getLast? ≠ some "."))
  | .writeFile path _ mode =>
    inferInstanceAs (Decidable (path.getLast? ≠ some "." ∧ mode.isDir = false))
  | .mkdir .. | .mkdirAll .. | .content _ | .stat _ | .exists? _ | .readDir _ => .isTrue trivial

/-- The path has segments, and all of them are tidy. -/
structure Command.WellFormed (command : Command) : Prop where
  ne_nil : command.path ≠ []
  tidy : ∀ s ∈ command.path, Path.IsTidyName s
  file : command.FileLike

instance (command : Command) : Decidable command.WellFormed :=
  decidable_of_iff
    (command.path ≠ [] ∧ (∀ s ∈ command.path, Path.IsTidyName s) ∧ command.FileLike)
    ⟨fun ⟨h₁, h₂, h₃⟩ => ⟨h₁, h₂, h₃⟩, fun ⟨h₁, h₂, h₃⟩ => ⟨h₁, h₂, h₃⟩⟩

/-- Every proper prefix of a key is a directory. -/
def Map.Closed (map : Map) : Prop :=
  ∀ front back item, back ≠ [] → map.find (front ++ back) = some item → map.find front = some .dir

end Flat

namespace Tree

/-- What a reply says about a flat map. Of a handle it says that there is one. -/
def Reply.answer : Reply → Flat.Answer
  | .handle _ => .opened
  | .verdict found => .verdict found
  | .data bytes => .data bytes
  | .entry found => .summary found.summary
  | .entries found => .summaries (found.map Entry.summary)
  | _ => .done

/-- What the outcome of an operation says about a flat map. Of an error it says the kind. -/
def observe : Except FsError Reply → Except ErrorKind Flat.Answer
  | .ok reply => .ok reply.answer
  | .error e => .error e.kind

variable {session : Session} {clock : Clock} {map : Flat.Map}

namespace Flattens

/-- A file in the map has nothing below it. -/
theorem closed {store : Store} (h : Flattens clock store map) : map.Closed := by
  intro front back item hback hfind
  have hdots : ∀ s ∈ front ++ back, s ≠ "." := by
    obtain ⟨before, after, hmap, -⟩ := List.lookup_eq_some_iff.mp hfind
    exact h.keys _ item (by rw [hmap]; simp)
  have hfront : ∀ s ∈ front, s ≠ "." := fun s hs => hdots s (List.mem_append_left _ hs)
  rw [h.items _ hdots, Store.leads_append] at hfind
  obtain ⟨j, hleads, -⟩ := Option.bind_eq_some_iff.mp hfind
  obtain ⟨i, hi, hrest⟩ := Option.bind_eq_some_iff.mp hleads
  obtain ⟨d, hd⟩ := Option.isSome_iff_exists.mp (Store.dir?_isSome_of_leads hrest hback)
  exact h.find_of_leads hfront hi ((store.dir?_eq_some_iff).mp hd)

/-- One operation on the tree answers as it does on the map, unless it is too large. -/
theorem step (h : Flattens clock session.store map) (hviews : session.views = [.whole])
    (hclock : clock.Monotone) {command : Flat.Command} (hwell : command.WellFormed)
    (hroom : observe (session.step clock command.toTree).1 ≠ .error .tooLarge) :
    observe (session.step clock command.toTree).1 = (map.step command).1 ∧
      (session.step clock command.toTree).2.views = [.whole] ∧
      Flattens clock (session.step clock command.toTree).2.store (map.step command).2 := by
  have hview : session.views[0]? = some .whole := by simp [hviews]
  obtain ⟨hne, htidy, hfile⟩ := hwell
  cases command with
  | mkdir path mode =>
    simp only [Flat.Command.path] at hne htidy
    simp only [Flat.Command.toTree, Session.step, hview, Session.viewStep, Session.settle,
      View.mkdir, Flat.Map.step]
    rcases h.mkdir hclock hne htidy mode with
      ⟨e, hmade, hflat⟩ | ⟨i, store', map', hmade, hflat, h'⟩
    · simp only [View.whole, hmade, hflat]
      exact ⟨rfl, hviews, h⟩
    · simp only [View.whole, hmade, hflat]
      exact ⟨rfl, hviews, h'⟩
  | mkdirAll path mode =>
    simp only [Flat.Command.path] at hne htidy
    simp only [Flat.Command.toTree, Session.step, hview, Session.viewStep, Session.settle,
      View.mkdirAll, Flat.Map.step]
    rcases h.mkdirAll hclock htidy mode with ⟨e, hmade, hflat⟩ | ⟨i, store', map', hmade, hflat, h'⟩
    · simp only [View.whole, hmade, hflat]
      exact ⟨rfl, hviews, h⟩
    · simp only [View.whole, hmade, hflat]
      exact ⟨rfl, hviews, h'⟩
  | create path =>
    simp only [Flat.Command.path] at hne htidy
    simp only [Flat.Command.toTree, Session.step, hview, Session.viewStep, View.create,
      Flat.Map.step]
    have hmode := FileMode.isDir_file session.store.config.fileMode
    rcases h.openNode_anew hclock hne htidy hfile hmode with
      ⟨e, hopen, hflat⟩ | ⟨j, hopen, hflat⟩ | ⟨j, c, base, store', map', hopen, hflat, h', -⟩
    · simp only [hopen, hflat]
      exact ⟨rfl, hviews, h⟩
    · simp only [hopen, hflat]
      exact ⟨rfl, hviews, h⟩
    · simp only [hopen, hflat]
      exact ⟨rfl, hviews, h'⟩
  | writeFile path data mode =>
    simp only [Flat.Command.path] at hne htidy
    simp only [Flat.Command.toTree, Session.step, hview, Session.viewStep, Session.settle]
      at hroom ⊢
    simp only [Flat.Map.step]
    rcases h.writeFile hclock hne htidy hfile.1 hfile.2 data with
      ⟨e, store', hwritten, hkind⟩ | ⟨e, hwritten, hflat⟩ | ⟨store', map', hwritten, hflat, h'⟩
    · rw [hwritten] at hroom
      exact absurd (congrArg Except.error hkind) hroom
    · simp only [hwritten, hflat]
      exact ⟨rfl, hviews, h⟩
    · simp only [hwritten, hflat]
      exact ⟨rfl, hviews, h'⟩
  | content path =>
    simp only [Flat.Command.path] at hne htidy
    simp only [Flat.Command.toTree, Session.step, hview, Session.viewStep, Flat.Map.step]
    rcases h.content htidy with ⟨e, hread, hflat⟩ | ⟨bytes, hread, hflat⟩
    · simp only [hread, hflat]
      exact ⟨rfl, hviews, h⟩
    · simp only [hread, hflat]
      exact ⟨rfl, hviews, h⟩
  | stat path =>
    simp only [Flat.Command.path] at hne htidy
    simp only [Flat.Command.toTree, Session.step, hview, Session.viewStep, Flat.Map.step]
    rcases h.stat htidy with ⟨e, hfound, hflat⟩ | ⟨entry, item, hfound, hflat, hsummary⟩
    · simp only [hfound, hflat]
      exact ⟨rfl, hviews, h⟩
    · simp only [hfound, hflat]
      exact ⟨congrArg (fun s => Except.ok (Flat.Answer.summary s)) hsummary, hviews, h⟩
  | exists? path =>
    simp only [Flat.Command.path] at hne htidy
    simp only [Flat.Command.toTree, Session.step, hview, Session.viewStep, View.exists?,
      Flat.Map.step]
    rcases h.stat htidy with ⟨e, hfound, hflat⟩ | ⟨entry, item, hfound, hflat, hsummary⟩
    · simp only [hfound, hflat]
      exact ⟨rfl, hviews, h⟩
    · simp only [hfound, hflat]
      exact ⟨rfl, hviews, h⟩
  | readDir path =>
    simp only [Flat.Command.path] at hne htidy
    simp only [Flat.Command.toTree, Session.step, hview, Session.viewStep, Flat.Map.step]
    rcases h.readDir htidy with ⟨e, hfound, hflat⟩ | ⟨entries, hfound, hflat⟩
    · simp only [hfound, hflat]
      exact ⟨rfl, hviews, h⟩
    · simp only [hfound, hflat]
      exact ⟨rfl, hviews, h⟩

/-- A clock that goes on from another does not go back behind the tree either. -/
theorem later {store : Store} {clock' : Clock} (h : Flattens clock store map)
    (hlater : ∀ k l, k ≤ l → clock k ≤ clock' l) : Flattens clock' store map :=
  { h with
    timely := fun i node hnode =>
      ⟨(h.timely i node hnode).1.trans (hlater _ _ (Nat.le_refl _)),
        (h.timely i node hnode).2.trans (hlater _ _ (Nat.le_refl _))⟩ }

/-- A new tree is the map that has the root alone. -/
theorem create (config : Config) (now : Time) :
    Flattens (fun _ => now) (Store.create config .permissive now) .root := by
  refine ⟨Store.tidyShape_create config .permissive now, rfl, ?_, ?_, by decide, ?_, ?_⟩
  · intro key hkey
    cases key with
    | nil => rfl
    | cons name rest =>
      have hchild : (Store.create config .permissive now).child? Store.rootInode name = none := by
        have hempty := Directory.child?_empty Store.rootInode
          (.root (.createdAt now (.dir config.dirMode) Store.rootInode)) name
        rw [if_neg (hkey name (by simp))] at hempty
        exact hempty
      rw [Store.leads_cons, hchild]
      rfl
  · intro key item hmem
    obtain rfl := (Prod.mk.inj (List.mem_singleton.mp hmem)).1
    simp
  · intro i c hc
    have hnode := (Store.node?_create ((Store.cell?_eq_some_iff _).mp hc)).2
    cases hnode
  · intro i node hnode
    obtain ⟨-, rfl⟩ := Store.node?_create hnode
    exact ⟨Int.le_refl now, Int.le_refl now⟩

/-- A run on a tree that is a flat map answers as on the map, and what it leaves is the map that is
left. -/
theorem run {commands : List (Clock × Flat.Command)} (h : Flattens clock session.store map)
    (hviews : session.views = [.whole]) (hwell : ∀ c ∈ commands, c.2.WellFormed)
    (hlater : ∀ c ∈ commands, ∀ k l, k ≤ l → clock k ≤ c.1 l)
    (hwithin : ∀ c ∈ commands, c.1.Monotone)
    (hacross : (commands.map (·.1)).Pairwise fun earlier later =>
      ∀ k l, k ≤ l → earlier k ≤ later l)
    (hroom : ∀ answer ∈ (session.run (commands.map fun c => (c.1, c.2.toTree))).1,
      observe answer ≠ .error .tooLarge) :
    (session.run (commands.map fun c => (c.1, c.2.toTree))).1.map observe =
        (map.run (commands.map (·.2))).1 ∧
      ∃ last, Flattens last (session.run (commands.map fun c => (c.1, c.2.toTree))).2.store
        (map.run (commands.map (·.2))).2 := by
  induction commands generalizing session map clock with
  | nil => exact ⟨rfl, clock, h⟩
  | cons c rest ih =>
    obtain ⟨now, command⟩ := c
    have hnow := h.later (hlater _ (List.mem_cons_self ..))
    rw [List.map_cons, List.pairwise_cons] at hacross
    obtain ⟨hanswer, hviews', h'⟩ := hnow.step hviews (hwithin _ (List.mem_cons_self ..))
      (hwell _ (List.mem_cons_self ..)) (hroom _ (List.mem_cons_self ..))
    obtain ⟨hanswers, hlast⟩ := ih h' hviews'
      (fun c hc => hwell c (List.mem_cons_of_mem _ hc))
      (fun c hc => hacross.1 c.1 (List.mem_map_of_mem hc))
      (fun c hc => hwithin c (List.mem_cons_of_mem _ hc)) hacross.2
      (fun answer hmem => hroom answer (List.mem_cons_of_mem _ hmem))
    exact ⟨List.cons_eq_cons.mpr ⟨hanswer, hanswers⟩, hlast⟩

end Flattens

/-- Every run on a new permissive tree, along tidy paths, by a clock that does not go back and
without a write that is too large, answers as the same run on a flat map. In that map every proper
prefix of a key is a directory. -/
theorem run_eq_flat {config : Config} {rules : Option PathRules} {now : Time} {session : Session}
    (hbuild : Session.build config rules now = .ok session)
    (hrules : session.store.rules = .permissive) (commands : List (Clock × Flat.Command))
    (hwell : ∀ c ∈ commands, c.2.WellFormed)
    (hclocks : Clock.Steady now (commands.map (·.1)))
    (hroom : ∀ answer ∈ (session.run (commands.map fun c => (c.1, c.2.toTree))).1,
      observe answer ≠ .error .tooLarge) :
    (session.run (commands.map fun c => (c.1, c.2.toTree))).1.map observe =
        (Flat.Map.root.run (commands.map (·.2))).1 ∧
      (Flat.Map.root.run (commands.map (·.2))).2.Closed := by
  obtain ⟨-, rfl⟩ := Session.eq_create_of_build hbuild
  have hstart : Flattens (fun _ => now)
      (Session.create config (rules.getD config.pathPolicy.rules) now).store .root := by
    have hpermissive : rules.getD config.pathPolicy.rules = .permissive := hrules
    rw [hpermissive]
    exact .create config now
  obtain ⟨hanswers, last, hflat⟩ := hstart.run rfl hwell
    (fun c hc k l _ => hclocks.start c.1 (List.mem_map_of_mem hc) l)
    (fun c hc => hclocks.within c.1 (List.mem_map_of_mem hc)) hclocks.across hroom
  exact ⟨hanswers, hflat.closed⟩

/-- Directories, a file in the way, a name that is taken, and a directory read in order. -/
def mixedRun : List (Clock × Flat.Command) :=
  [(fun k => k, .mkdirAll ["a", ".", "b"] ⟨0⟩), (fun k => k, .writeFile ["a", "f"] [1, 2] ⟨0⟩),
    (fun k => k, .mkdirAll ["a", "f", "c"] ⟨0⟩), (fun k => k, .mkdir ["a", "b"] ⟨0⟩),
    (fun k => k, .create ["x", "g"]), (fun k => k, .stat ["a", "f", "."]),
    (fun k => k, .readDir ["a"])]

theorem run_eq_flat_mixedRun :
    (∀ c ∈ mixedRun, c.2.WellFormed) ∧ Clock.Steady 0 (mixedRun.map (·.1)) ∧
      ((Session.create Config.standard .permissive 0).run
        (mixedRun.map fun c => (c.1, c.2.toTree))).1.map observe =
          (Flat.Map.root.run (mixedRun.map (·.2))).1 ∧
      (Flat.Map.root.run (mixedRun.map (·.2))).1.drop 2 =
        [.error .notADirectory, .error .alreadyExists, .ok .opened, .ok (.summary ⟨"a/f", false, 2⟩),
          .ok (.summaries [⟨"a/b", true, 0⟩, ⟨"a/f", false, 2⟩])] := by
  have hbuild : Session.build Config.standard none 0 =
      .ok (Session.create Config.standard .permissive 0) :=
    Session.build_eq_ok Config.standard_valid none 0
  have hwell : ∀ c ∈ mixedRun, c.2.WellFormed := by decide +kernel
  have hsame : mixedRun.map (·.1) = List.replicate 7 fun k : Nat => (k : Int) := rfl
  have hsteady : Clock.Steady 0 (mixedRun.map (·.1)) := by
    rw [hsame]
    refine ⟨fun clock hclock k => ?_, fun clock hclock k l hle => ?_, ?_⟩
    · rw [List.eq_of_mem_replicate hclock]
      exact Int.natCast_nonneg k
    · rw [List.eq_of_mem_replicate hclock]
      exact Int.ofNat_le.mpr hle
    · exact List.pairwise_replicate.mpr (.inr fun k l hle => Int.ofNat_le.mpr hle)
  exact ⟨hwell, hsteady, (run_eq_flat hbuild rfl mixedRun hwell hsteady (by decide +kernel)).1,
    by decide +kernel⟩

end Tree

end VirtualFs
