import Mathlib.Logic.Relation
import VirtualFs.Proofs.Tree.Nodes
import VirtualFs.Tree.View

namespace VirtualFs.Tree

namespace Store

/-- One primitive step of a store. Every new name meets `named`, which a run may choose by the paths
that it uses. -/
inductive Change (named : String → Prop) : Store → Store → Prop where
  /-- A number is used up by a node whose path the rules refuse. -/
  | reserve (store : Store) : Change named store store.reserve
  | addDir {store : Store} {parent : Nat} {name : String} {now : Time} {mode : FileMode}
      {entry : Entry} (hparent : (store.dir? parent).isSome) (hname : named name)
      (hdot : name ≠ ".") (hfree : store.child? parent name = none)
      (hentry : Entry.create (Path.join (store.pathOf parent) name)
        (.createdAt now mode.asDir store.nextInode) store.rules = .ok entry) :
      Change named store (store.addNode parent name (.dir (.empty store.nextInode entry)))
  | addFile {store : Store} {parent : Nat} {name : String} {now : Time} {mode : FileMode}
      {entry : Entry} (hparent : (store.dir? parent).isSome) (hname : named name)
      (hfree : store.child? parent name = none)
      (hentry : Entry.create (Path.join (store.pathOf parent) name)
        (.createdAt now mode.asFile store.nextInode) store.rules = .ok entry) :
      Change named store
        (store.addNode parent name (.file (.empty entry store.config.initialCapacity)))
  /-- The modification time of a directory moves forward. -/
  | touch {store : Store} {inode : Nat} {d : Directory} {now : Time} {entry : Entry}
      (hdir : store.dir? inode = some d) (hentry : d.entry.setModTime now = .ok entry) :
      Change named store (store.modifyDir inode fun d => { d with entry := entry })
  | truncate {store : Store} {inode : Nat} {c : Cell} (hcell : store.cell? inode = some c) :
      Change named store (store.modifyCell inode Cell.truncate)
  /-- What became of a cell by a write, whether it was refused or not. -/
  | write {store : Store} {inode : Nat} {c : Cell} (hcell : store.cell? inode = some c)
      (now : Time) (offset : Nat) (data : Bytes) :
      Change named store
        (store.modifyCell inode fun _ => (c.writeAt store.config now offset data).2)
  | close (store : Store) : Change named store { store with closed := true }

/-- Any number of primitive steps. -/
def Changes (named : String → Prop) : Store → Store → Prop :=
  Relation.ReflTransGen (Change named)

variable {named : String → Prop} {store store' : Store}

theorem Changes.refl (store : Store) : Changes named store store :=
  Relation.ReflTransGen.refl

theorem Changes.trans {first second third : Store} (h₁ : Changes named first second)
    (h₂ : Changes named second third) : Changes named first third :=
  Relation.ReflTransGen.trans h₁ h₂

theorem Change.changes (h : Change named store store') : Changes named store store' :=
  Relation.ReflTransGen.single h

/-- What every primitive step preserves holds along every sequence of them. -/
theorem Changes.preserves {P : Store → Prop} (h : Changes named store store')
    (hstep : ∀ {s s'}, Change named s s' → P s → P s') (hstart : P store) : P store' := by
  induction h with
  | refl => exact hstart
  | tail _ hlast ih => exact hstep hlast ih

theorem Change.rules_eq (h : Change named store store') : store'.rules = store.rules := by
  cases h with
  | reserve => rfl
  | close => rfl
  | _ => simp [addNode]

theorem Change.config_eq (h : Change named store store') : store'.config = store.config := by
  cases h with
  | reserve => rfl
  | close => rfl
  | _ => simp [addNode]

theorem Changes.rules_eq (h : Changes named store store') : store'.rules = store.rules :=
  h.preserves (P := fun s => s.rules = store.rules) (fun hstep hs => hstep.rules_eq.trans hs) rfl

theorem Changes.config_eq (h : Changes named store store') : store'.config = store.config :=
  h.preserves (P := fun s => s.config = store.config) (fun hstep hs => hstep.config_eq.trans hs) rfl

/-- Directories stay directories. -/
theorem Change.dir?_isSome (h : Change named store store') {i : Nat}
    (hdir : (store.dir? i).isSome) : (store'.dir? i).isSome := by
  have hold : i ≠ store.nextInode := store.ne_nextInode_of_dir? hdir
  cases h with
  | reserve => rwa [dir?_reserve]
  | addDir hparent =>
    rw [store.dir?_addNode hparent, if_neg hold]
    split <;> simpa using hdir
  | addFile hparent =>
    rw [store.dir?_addNode hparent, if_neg hold]
    split <;> simpa using hdir
  | touch =>
    rw [dir?_modifyDir]
    split <;> simpa using hdir
  | truncate => simpa using hdir
  | write => simpa using hdir
  | close => exact hdir

/-- Files stay files. -/
theorem Change.cell?_isSome (h : Change named store store') {i : Nat}
    (hcell : (store.cell? i).isSome) : (store'.cell? i).isSome := by
  have hold : i ≠ store.nextInode :=
    store.ne_nextInode_of_node? (store.node?_isSome_iff.mpr (.inr hcell))
  cases h with
  | reserve => rwa [cell?_reserve]
  | addDir hparent => rwa [store.cell?_addNode hparent, if_neg hold]
  | addFile hparent => rwa [store.cell?_addNode hparent, if_neg hold]
  | touch => simpa using hcell
  | truncate =>
    rw [cell?_modifyCell]
    split <;> simpa using hcell
  | write =>
    rw [cell?_modifyCell]
    split <;> simpa using hcell
  | close => exact hcell

theorem Changes.dir?_isSome (h : Changes named store store') {i : Nat}
    (hdir : (store.dir? i).isSome) : (store'.dir? i).isSome :=
  h.preserves (P := fun s => (s.dir? i).isSome) (fun hstep => hstep.dir?_isSome) hdir

theorem Changes.cell?_isSome (h : Changes named store store') {i : Nat}
    (hcell : (store.cell? i).isSome) : (store'.cell? i).isSome :=
  h.preserves (P := fun s => (s.cell? i).isSome) (fun hstep => hstep.cell?_isSome) hcell

theorem Change.node?_isSome (h : Change named store store') {i : Nat}
    (hnode : (store.node? i).isSome) : (store'.node? i).isSome := by
  rw [node?_isSome_iff] at hnode ⊢
  exact hnode.imp h.dir?_isSome h.cell?_isSome

/-- A sequence of steps that ends without a new node has made none under any name. -/
theorem Changes.of_no_new {named' : String → Prop} (h : Changes named store store')
    (hnone : ∀ i, (store'.node? i).isSome → (store.node? i).isSome) :
    Changes named' store store' := by
  induction h with
  | refl => exact .refl store
  | @tail middle last hfront hlast ih =>
    have hkept : ∀ i, (store.node? i).isSome → (middle.node? i).isSome := fun i hi =>
      Changes.preserves (P := fun s => (s.node? i).isSome) hfront
        (fun hstep => hstep.node?_isSome) hi
    have hfresh : (last.node? middle.nextInode).isSome → False := fun hnew => by
      have hold := hkept _ (hnone _ hnew)
      rw [middle.node?_nextInode] at hold
      cases hold
    refine (ih fun i hi => hnone i (hlast.node?_isSome hi)).trans (Change.changes ?_)
    cases hlast with
    | reserve => exact .reserve middle
    | addDir hparent =>
      refine (hfresh ?_).elim
      rw [middle.node?_addNode hparent, if_pos rfl]
      rfl
    | addFile hparent =>
      refine (hfresh ?_).elim
      rw [middle.node?_addNode hparent, if_pos rfl]
      rfl
    | touch hdir hentry => exact .touch hdir hentry
    | truncate hcell => exact .truncate hcell
    | write hcell now offset data => exact .write hcell now offset data
    | close => exact .close middle

theorem touch_changes (store : Store) (inode : Nat) (now : Time) :
    Changes named store (store.touch inode now).2 := by
  unfold touch
  split
  · exact .refl store
  · next d hdir =>
    split
    · next entry hentry => exact (Change.touch hdir hentry).changes
    · exact .refl store

theorem mkdirIn_changes (store : Store) (clock : Clock) {parent : Nat} {name : String}
    (mode : FileMode) (hparent : (store.dir? parent).isSome) (hname : named name) :
    Changes named store (store.mkdirIn clock parent name mode).2 := by
  unfold mkdirIn
  split
  · exact .refl store
  next hdot =>
  dsimp only
  split
  · exact .refl store
  next hfree =>
  split
  · exact (Change.reserve store).changes
  next entry hentry =>
  have hadded := Change.addDir hparent hname hdot (by simpa using hfree) hentry
  have htouched : Changes named _ _ := touch_changes
    (store.addNode parent name (.dir (.empty store.nextInode entry))) parent
    (clock (store.stage + 1))
  split <;> next heq =>
    rw [heq] at htouched
    exact hadded.changes.trans htouched

/-- A directory that was made is there. -/
theorem dir?_of_mkdirIn {clock : Clock} {parent : Nat} {name : String} {mode : FileMode}
    {inode : Nat} (hparent : (store.dir? parent).isSome)
    (hmade : store.mkdirIn clock parent name mode = (.ok inode, store')) :
    (store'.dir? inode).isSome := by
  unfold mkdirIn at hmade
  split at hmade
  · simp at hmade
  dsimp only at hmade
  split at hmade
  · simp at hmade
  split at hmade
  · simp at hmade
  next entry hentry =>
  have hadded : ((store.addNode parent name (.dir (.empty store.nextInode entry))).dir?
      store.nextInode).isSome := by
    rw [store.dir?_addNode hparent, if_pos rfl]
    rfl
  have htouched : Changes (fun _ => True) _ _ := touch_changes
    (store.addNode parent name (.dir (.empty store.nextInode entry))) parent
    (clock (store.stage + 1))
  split at hmade
  · next heq =>
    simp only [Prod.mk.injEq, Except.ok.injEq] at hmade
    obtain ⟨rfl, rfl⟩ := hmade
    rw [heq] at htouched
    exact htouched.dir?_isSome hadded
  · simp at hmade

theorem mkdirAlong_changes (store : Store) (clock : Clock) {current : Nat} (mode : FileMode)
    {segments : List String} (hcurrent : (store.dir? current).isSome)
    (hnames : ∀ s ∈ segments, named s) :
    Changes named store (store.mkdirAlong clock current mode segments).2 := by
  induction segments generalizing store current with
  | nil => exact .refl store
  | cons segment rest ih =>
    have hrest : ∀ s ∈ rest, named s := fun s hs => hnames s (List.mem_cons_of_mem _ hs)
    unfold mkdirAlong
    split
    · exact ih store hcurrent hrest
    split
    · next child _ =>
      split
      · next hdir => exact ih store (by simp [hdir]) hrest
      · exact .refl store
    · have hmade := store.mkdirIn_changes clock mode hcurrent (hnames segment (by simp))
      split <;> next heq =>
        rw [heq] at hmade
        first
          | exact hmade.trans (ih _ (dir?_of_mkdirIn hcurrent heq) hrest)
          | exact hmade

/-- The directory that was found or made along the segments is there. -/
theorem dir?_of_mkdirAlong {clock : Clock} {current : Nat} {mode : FileMode}
    {segments : List String} {inode : Nat} (hcurrent : (store.dir? current).isSome)
    (hmade : store.mkdirAlong clock current mode segments = (.ok inode, store')) :
    (store'.dir? inode).isSome := by
  induction segments generalizing store current with
  | nil =>
    simp only [mkdirAlong, Prod.mk.injEq, Except.ok.injEq] at hmade
    obtain ⟨rfl, rfl⟩ := hmade
    exact hcurrent
  | cons segment rest ih =>
    unfold mkdirAlong at hmade
    split at hmade
    · exact ih hcurrent hmade
    split at hmade
    · split at hmade
      · next hdir => exact ih (by simp [hdir]) hmade
      · simp at hmade
    · split at hmade
      · next heq => exact ih (dir?_of_mkdirIn hcurrent heq) hmade
      · simp at hmade

theorem mkdirAll_changes (store : Store) (clock : Clock) {root : Nat} {path : String}
    (mode : FileMode) (hroot : (store.dir? root).isSome)
    (hnames : ∀ segments, store.rules.split path = .ok segments → ∀ s ∈ segments, named s) :
    Changes named store (store.mkdirAll clock root path mode).2 := by
  unfold mkdirAll
  split
  · exact .refl store
  · next segments hsplit =>
    exact store.mkdirAlong_changes clock mode hroot (hnames segments hsplit)

theorem dir?_of_mkdirAll {clock : Clock} {root : Nat} {path : String} {mode : FileMode}
    {inode : Nat} (hroot : (store.dir? root).isSome)
    (hmade : store.mkdirAll clock root path mode = (.ok inode, store')) :
    (store'.dir? inode).isSome := by
  unfold mkdirAll at hmade
  split at hmade
  · cases hmade
  · exact dir?_of_mkdirAlong hroot hmade

theorem dir?_of_resolveDir {root : Nat} {path : String} {inode : Nat}
    (hfound : store.resolveDir root path = .ok inode) : (store.dir? inode).isSome := by
  unfold resolveDir at hfound
  split at hfound
  · split at hfound
    · next hdir =>
      simp only [Except.ok.injEq] at hfound
      subst hfound
      simp [hdir]
    · simp at hfound
  · simp at hfound

theorem mkdir_changes (store : Store) (clock : Clock) {root : Nat} {path : String}
    (mode : FileMode) (hroot : (store.dir? root).isSome)
    (hnames : ∀ segments, store.rules.split path = .ok segments → ∀ s ∈ segments, named s) :
    Changes named store (store.mkdir clock root path mode).2 := by
  unfold mkdir
  split
  · exact .refl store
  split
  · exact .refl store
  next segments hsplit =>
  split
  · exact .refl store
  next name hlast =>
  have hname := hnames segments hsplit name (List.mem_of_getLast? hlast)
  dsimp only
  split
  · exact .refl store
  next parent hparent =>
  refine store.mkdirIn_changes clock mode ?_ hname
  split at hparent
  · simp only [Except.ok.injEq] at hparent
    rwa [← hparent]
  · exact dir?_of_resolveDir hparent

theorem findOrCreate_changes (store : Store) (clock : Clock) {parent : Nat} {name : String}
    (mode : FileMode) (hparent : (store.dir? parent).isSome) (hname : named name) :
    Changes named store (store.findOrCreate clock parent name mode).2 := by
  unfold findOrCreate
  split
  · exact .refl store
  next hfree =>
  dsimp only
  split
  · exact (Change.reserve store).changes
  · next entry hentry => exact (Change.addFile hparent hname hfree hentry).changes

end Store

end VirtualFs.Tree
