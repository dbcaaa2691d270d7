import VirtualFs.Proofs.Path.Valid
import VirtualFs.Proofs.Tree.HandleFrame
import VirtualFs.Proofs.Tree.TidyPath
import VirtualFs.Proofs.Tree.TidyShape
import VirtualFs.Proofs.Tree.Visitor

namespace VirtualFs.Tree

namespace Store

/-- The same tree under the permissive rules; `policy` is what its settings say of them. -/
def loosened (policy : PathPolicy) (store : Store) : Store :=
  { store with rules := .permissive, config := { store.config with pathPolicy := policy } }

/-- What was done, as it is seen in the tree under the permissive rules. -/
abbrev loosely {α : Type} (policy : PathPolicy) (outcome : α × Store) : α × Store :=
  (outcome.1, outcome.2.loosened policy)

/-- A tree with the strict rules, which accept all its paths. -/
structure Strict (store : Store) : Prop where
  shape : store.TidyShape
  rules : store.rules = .strict
  accepted : store.Accepted

variable {policy : PathPolicy} {store store' : Store} {clock : Clock} {root parent : Nat}
  {name path : String} {names key : List String} {mode : FileMode}

section

variable (policy store) (i : Nat)

@[simp] theorem node?_loosened : (store.loosened policy).node? i = store.node? i := by
  cases i <;> rfl

@[simp] theorem dir?_loosened : (store.loosened policy).dir? i = store.dir? i := by
  simp only [dir?, node?_loosened]

@[simp] theorem cell?_loosened : (store.loosened policy).cell? i = store.cell? i := by
  simp only [cell?, node?_loosened]

@[simp] theorem pathOf_loosened : (store.loosened policy).pathOf i = store.pathOf i := by
  simp only [pathOf, node?_loosened]

@[simp] theorem child?_loosened (name : String) :
    (store.loosened policy).child? i name = store.child? i name := by
  simp only [child?, dir?_loosened]

@[simp] theorem childNames_loosened : (store.loosened policy).childNames i = store.childNames i := by
  simp only [childNames, dir?_loosened]

@[simp] theorem nextInode_loosened : (store.loosened policy).nextInode = store.nextInode := rfl

@[simp] theorem stage_loosened : (store.loosened policy).stage = store.stage := rfl

@[simp] theorem rules_loosened : (store.loosened policy).rules = .permissive := rfl

@[simp] theorem modify_loosened (change : Node → Node) :
    (store.loosened policy).modify change i = (store.modify change i).loosened policy := by
  cases i <;> rfl

@[simp] theorem modifyDir_loosened (change : Directory → Directory) :
    (store.loosened policy).modifyDir i change = (store.modifyDir i change).loosened policy :=
  modify_loosened policy store i _

@[simp] theorem modifyCell_loosened (change : Cell → Cell) :
    (store.loosened policy).modifyCell i change = (store.modifyCell i change).loosened policy :=
  modify_loosened policy store i _

@[simp] theorem addNode_loosened (name : String) (node : Node) :
    (store.loosened policy).addNode i name node = (store.addNode i name node).loosened policy :=
  modifyDir_loosened policy { store with nodes := store.nodes ++ [some node] } i _

theorem descend_loosened (names : List String) :
    (store.loosened policy).descend i names = store.descend i names := by
  induction names generalizing i with
  | nil => rfl
  | cons name rest ih => simp only [descend, child?_loosened, pathOf_loosened, dir?_loosened, ih]

theorem touch_loosened (now : Time) :
    (store.loosened policy).touch i now = loosely policy (store.touch i now) := by
  unfold touch
  rw [dir?_loosened]
  cases store.dir? i with
  | none => rfl
  | some d =>
    dsimp only
    cases d.entry.setModTime now with
    | error e => rfl
    | ok entry => simp only [modifyDir_loosened]

end

theorem resolve_loosened (hrules : store.rules = .strict)
    (hvalid : Path.valid (Text.trim path) = true) :
    (store.loosened policy).resolve root path = store.resolve root path := by
  simp only [resolve, hrules, PathRules.split_strict hvalid, rules_loosened, descend_loosened]

theorem resolveDir_loosened (hrules : store.rules = .strict)
    (hvalid : Path.valid (Text.trim path) = true) :
    (store.loosened policy).resolveDir root path = store.resolveDir root path := by
  simp only [resolveDir, resolve_loosened hrules hvalid, dir?_loosened, pathOf_loosened]

theorem Change.strict (hstep : Change Path.IsTidyName store store') (hstrict : store.Strict) :
    store'.Strict where
  shape := hstep.tidyShape hstrict.shape
  rules := hstep.rules_eq.trans hstrict.rules
  accepted := hstep.accepted hstrict.shape hstrict.accepted

theorem Changes.strict (hchanges : Changes Path.IsTidyName store store') (hstrict : store.Strict) :
    store'.Strict :=
  hchanges.preserves (fun hstep => hstep.strict) hstrict

/-- The path of a directory is that of a key which never goes up. -/
theorem Strict.exists_key (hstrict : store.Strict) (hparent : (store.dir? parent).isSome) :
    ∃ key, Path.IsKey key ∧ ".." ∉ key ∧ store.pathOf parent = Path.ofKey key := by
  have hnode := store.isSome_node?_of_dir? hparent
  obtain ⟨key, hdots, hleads⟩ := hstrict.shape.reached parent hnode
  obtain ⟨hkey, hpath⟩ := hstrict.shape.pathOf_leads hdots hleads
  refine ⟨key, hkey, ?_, hpath⟩
  by_cases hroot : parent = rootInode
  · subst hroot
    rw [hstrict.shape.rootPath] at hpath
    obtain rfl := Path.ofKey_injective hkey Path.isKey_nil hpath.symm
    exact List.not_mem_nil
  · have haccepted := hstrict.accepted parent hnode hroot
    rw [hstrict.rules, hpath, PathRules.accepts_strict hkey, List.all_eq_true] at haccepted
    intro hup
    simpa using haccepted ".." hup

/-- The whole path of a new node is valid if its name is a downward one. -/
theorem Strict.valid_join (hstrict : store.Strict) (hparent : (store.dir? parent).isSome)
    (hname : Path.IsTidyName name) (hdot : name ≠ ".") (hup : name ≠ "..") :
    Path.valid (Text.trim (Path.join (store.pathOf parent) name)) = true := by
  obtain ⟨key, hkey, hkeyUp, hpath⟩ := hstrict.exists_key hparent
  have hwhole : Path.IsKey (key ++ [name]) :=
    Path.isKey_append.mpr ⟨hkey, Path.isKey_singleton.mpr ⟨hname, hdot⟩⟩
  rw [hpath, Path.join_ofKey_name hkey hname hdot, Path.trim_ofKey hwhole]
  refine Path.valid_ofKey hwhole fun hmem => ?_
  rcases List.mem_append.mp hmem with hmem | hmem
  · exact hkeyUp hmem
  · exact hup (List.mem_singleton.mp hmem).symm

theorem mkdirIn_loosened (hstrict : store.Strict) (hparent : (store.dir? parent).isSome)
    (hname : Path.IsTidyName name) (hup : name ≠ "..") :
    (store.loosened policy).mkdirIn clock parent name mode =
      loosely policy (store.mkdirIn clock parent name mode) := by
  unfold mkdirIn
  by_cases hdot : name = "."
  · simp only [if_pos hdot]
  · simp only [if_neg hdot, child?_loosened, pathOf_loosened, nextInode_loosened, stage_loosened,
      rules_loosened, hstrict.rules,
      PathRules.create_strict (hstrict.valid_join hparent hname hdot hup)]
    split
    · rfl
    cases Entry.create (Path.join (store.pathOf parent) name)
      (.createdAt (clock store.stage) mode.asDir store.nextInode) .permissive with
    | error e => rfl
    | ok entry =>
      simp only [addNode_loosened, touch_loosened]
      rcases (store.addNode parent name (.dir (.empty store.nextInode entry))).touch parent
        (clock (store.stage + 1)) with ⟨e | u, touched⟩ <;> rfl

theorem mkdirAlong_loosened (hstrict : store.Strict) (hparent : (store.dir? parent).isSome)
    (hnames : ∀ s ∈ names, Path.IsTidyName s) (hup : ".." ∉ names) :
    (store.loosened policy).mkdirAlong clock parent mode names =
      loosely policy (store.mkdirAlong clock parent mode names) := by
  induction names generalizing store parent with
  | nil => rfl
  | cons name rest ih =>
    obtain ⟨hname, hrest⟩ := List.forall_mem_cons.mp hnames
    have hnameUp : name ≠ ".." := fun h => hup (h ▸ List.mem_cons_self ..)
    have hrestUp : ".." ∉ rest := fun h => hup (List.mem_cons_of_mem _ h)
    simp only [mkdirAlong, child?_loosened, dir?_loosened, pathOf_loosened]
    split
    · exact ih hstrict hparent hrest hrestUp
    cases store.child? parent name with
    | some child =>
      dsimp only
      cases hchild : store.dir? child.inode with
      | some d => exact ih hstrict (by rw [hchild]; rfl) hrest hrestUp
      | none => rfl
    | none =>
      simp only [mkdirIn_loosened hstrict hparent hname hnameUp]
      have hchanges := store.mkdirIn_changes clock mode hparent hname
      rcases hmade : store.mkdirIn clock parent name mode with ⟨e | inode, grown⟩
      · rfl
      · rw [hmade] at hchanges
        exact ih (hchanges.strict hstrict) (dir?_of_mkdirIn hparent hmade) hrest hrestUp

theorem mkdirAll_loosened (hstrict : store.Strict) (hroot : (store.dir? root).isSome)
    (hkey : Path.IsKey key) (hup : ".." ∉ key) :
    (store.loosened policy).mkdirAll clock root (Path.ofKey key) mode =
      loosely policy (store.mkdirAll clock root (Path.ofKey key) mode) := by
  have haccepts : store.rules.accepts (Path.ofKey key) = true := by
    rw [hstrict.rules]
    exact Path.valid_ofKey hkey hup
  rw [mkdirAll_ofKey hkey haccepts, mkdirAll_ofKey hkey rfl,
    mkdirAlong_loosened hstrict hroot hkey.tidyNames hup]

theorem mkdir_of_endsWithDot (hdot : store.rules.endsWithDot path = true) :
    store.mkdir clock root path mode = (.error (.invalidPath path), store) := by
  rw [mkdir, if_pos hdot]

/-- The parents lead to the same directory. -/
theorem parent_loosened (hrules : store.rules = .strict) (hkey : Path.IsKey key)
    (hup : ".." ∉ key) :
    (if key = [] then .ok root else (store.loosened policy).resolveDir root (Path.joinAll key)) =
      if key = [] then .ok root else store.resolveDir root (Path.joinAll key) := by
  split
  · rfl
  · next hne =>
    rw [← Path.ofKey_of_ne_nil hne]
    exact resolveDir_loosened hrules ((Path.trim_ofKey hkey).symm ▸ Path.valid_ofKey hkey hup)

theorem mkdir_loosened (hstrict : store.Strict) (hroot : (store.dir? root).isSome)
    (hkey : Path.IsKey key) (hup : ".." ∉ key) :
    (store.loosened policy).mkdir clock root (Path.ofKey key) mode =
      loosely policy (store.mkdir clock root (Path.ofKey key) mode) := by
  cases key using List.reverseRecOn with
  | nil =>
    have hdot : store.rules.endsWithDot "." = true := by
      rw [hstrict.rules]
      decide
    have hdotLoose : PathRules.permissive.endsWithDot "." = true := by decide
    rw [Path.ofKey_nil, mkdir_of_endsWithDot hdot, mkdir_of_endsWithDot hdotLoose]
  | append_singleton front name =>
    obtain ⟨hfront, hname⟩ := Path.isKey_append.mp hkey
    obtain ⟨hname, hdot⟩ := Path.isKey_singleton.mp hname
    have hfrontUp : ".." ∉ front := fun h => hup (List.mem_append_left _ h)
    have hnameUp : name ≠ ".." := fun h => hup (by simp [h])
    have hwhole : store.rules.accepts (Path.joinAll (front ++ [name])) = true := by
      rw [hstrict.rules, ← Path.ofKey_of_ne_nil (by simp)]
      exact Path.valid_ofKey hkey hup
    rw [Path.ofKey_of_ne_nil (by simp), mkdir_joinAll hwhole hfront.tidyNames hname hdot,
      mkdir_joinAll rfl hfront.tidyNames hname hdot, parent_loosened hstrict.rules hfront hfrontUp]
    cases hfound : (if front = [] then .ok root
        else store.resolveDir root (Path.joinAll front) : Except FsError Nat) with
    | error e => rfl
    | ok parent =>
      have hparent : (store.dir? parent).isSome := by
        split at hfound
        · obtain rfl := Except.ok.inj hfound
          exact hroot
        · exact dir?_of_resolveDir hfound
      exact mkdirIn_loosened hstrict hparent hname hnameUp

theorem findOrCreate_loosened (hstrict : store.Strict) (hparent : (store.dir? parent).isSome)
    (hname : Path.IsTidyName name) (hdot : name ≠ ".") (hup : name ≠ "..") :
    (store.loosened policy).findOrCreate clock parent name mode =
      loosely policy (store.findOrCreate clock parent name mode) := by
  simp only [findOrCreate, child?_loosened, pathOf_loosened, nextInode_loosened, stage_loosened,
    rules_loosened, hstrict.rules,
    PathRules.create_strict (hstrict.valid_join hparent hname hdot hup)]
  cases store.child? parent name with
  | some child => rfl
  | none =>
    dsimp only
    cases Entry.create (Path.join (store.pathOf parent) name)
      (.createdAt (clock store.stage) mode.asFile store.nextInode) .permissive with
    | error e => rfl
    | ok entry => simp only [addNode_loosened]; rfl

/-- A node is made alike at a path below the root. -/
theorem createAt_loosened (hstrict : store.Strict) (hroot : (store.dir? root).isSome)
    (hkey : Path.IsKey key) (hup : ".." ∉ key) (hne : key ≠ []) :
    (store.loosened policy).createAt clock root (Path.ofKey key) mode =
      loosely policy (store.createAt clock root (Path.ofKey key) mode) := by
  cases hmode : mode.isDir with
  | true =>
    simp only [createAt, hmode, if_true]
    exact mkdirAll_loosened hstrict hroot hkey hup
  | false =>
  cases key using List.reverseRecOn with
  | nil => exact absurd rfl hne
  | append_singleton front name =>
  obtain ⟨hfront, hname⟩ := Path.isKey_append.mp hkey
  obtain ⟨hname, hdot⟩ := Path.isKey_singleton.mp hname
  have hfrontUp : ".." ∉ front := fun h => hup (List.mem_append_left _ h)
  have hnameUp : name ≠ ".." := fun h => hup (by simp [h])
  have hwhole : store.rules.accepts (Path.joinAll (front ++ [name])) = true := by
    rw [hstrict.rules, ← Path.ofKey_of_ne_nil hne]
    exact Path.valid_ofKey hkey hup
  have hparents : front ≠ [] → store.rules.accepts (Path.joinAll front) = true := by
    intro hfrontNe
    rw [hstrict.rules, ← Path.ofKey_of_ne_nil hfrontNe]
    exact Path.valid_ofKey hfront hfrontUp
  rw [Path.ofKey_of_ne_nil hne, createAt_joinAll hwhole hparents hfront.tidyNames hname hmode,
    createAt_joinAll rfl (fun _ => rfl) hfront.tidyNames hname hmode,
    mkdirAlong_loosened hstrict hroot hfront.tidyNames hfrontUp]
  have hchanges := store.mkdirAlong_changes clock mode hroot hfront.tidyNames
  rcases hmade : store.mkdirAlong clock root mode front with ⟨e | inode, grown⟩
  · rfl
  · rw [hmade] at hchanges
    exact findOrCreate_loosened (hchanges.strict hstrict) (dir?_of_mkdirAlong hroot hmade) hname
      hdot hnameUp

end Store

open Store (loosely)

variable {policy : PathPolicy} {store : Store} {clock : Clock} {path : String}

namespace Pager

variable (policy store) (pager : Pager)

theorem start_loosened (dir : Nat) (base : String) :
    Pager.start (store.loosened policy) dir base = .start store dir base := by
  simp only [start, Store.childNames_loosened]

theorem entry?_loosened (name : String) :
    pager.entry? (store.loosened policy) name = pager.entry? store name := by
  unfold entry?
  simp only [Store.child?_loosened, Store.node?_loosened]

theorem take_loosened (limit : Nat) (names : List String) :
    pager.take (store.loosened policy) limit names = pager.take store limit names := by
  fun_induction pager.take store limit names with
  | case1 names => simp only [take]
  | case2 limit hlimit => cases limit <;> simp only [take]
  | case3 limit name names hentry ih => simp only [take, entry?_loosened, hentry, ih]
  | case4 limit name names entry hentry entries rest htaken ih =>
    simp only [take, entry?_loosened, hentry, ih, htaken]

theorem next_loosened : pager.next (store.loosened policy) = pager.next store := by
  simp only [next, take_loosened]

theorem nextPage_loosened (n : Int) :
    pager.nextPage (store.loosened policy) n = pager.nextPage store n := by
  simp only [nextPage, take_loosened]

end Pager

namespace Handle

theorem onNode_loosened (inode : Nat) (flags : OpenFlags) (path base : String) :
    onNode (store.loosened policy) inode flags path base =
      loosely policy (onNode store inode flags path base) := by
  unfold onNode
  rw [Store.dir?_loosened]
  cases store.dir? inode with
  | some d => rfl
  | none =>
    cases htrunc : flags.has .trunc <;>
      simp only [openFile, htrunc, Bool.false_eq_true, if_true, if_false,
        Store.modifyCell_loosened, Store.cell?_loosened]

variable {handle : Handle}

theorem cell?_loosened : handle.cell? (store.loosened policy) = handle.cell? store :=
  store.cell?_loosened policy _

theorem bytesAt_loosened (offset n : Nat) :
    handle.bytesAt (store.loosened policy) offset n = handle.bytesAt store offset n := by
  simp only [bytesAt, cell?_loosened]

theorem size_loosened : handle.size (store.loosened policy) = handle.size store := by
  simp only [size, cell?_loosened]

theorem write_loosened (now : Time) (data : Bytes) :
    handle.write (store.loosened policy) now data =
      ((handle.write store now data).1, loosely policy (handle.write store now data).2) := by
  unfold write
  cases handle.checkWritable with
  | error e => rfl
  | ok u =>
    dsimp only [put]
    rw [cell?_loosened]
    cases handle.cell? store with
    | none => rfl
    | some cell =>
      have hwrite : cell.writeAt (store.loosened policy).config now handle.writeOff data =
          cell.writeAt store.config now handle.writeOff data := rfl
      dsimp only
      rw [hwrite]
      rcases cell.writeAt store.config now handle.writeOff data with ⟨e | n, cell'⟩ <;>
        simp only [Store.modifyCell_loosened]

theorem copyFrom_loosened (source : Source) (total : Nat) :
    (handle.copyFrom (store.loosened policy) clock source total).1 =
      ((handle.copyFrom store clock source total).1.1,
        loosely policy (handle.copyFrom store clock source total).1.2) := by
  fun_induction copyFrom handle store clock source total with
  | case1 handle store clock source total rest hread => simp only [copyFrom_of_end hread]
  | case2 handle store clock source total b bytes rest hread e handle' store' hwrite =>
    simp only [copyFrom_of_data hread, write_loosened, hwrite]
  | case3 handle store clock source total b bytes rest hread n handle' store' hwrite ih =>
    simp only [copyFrom_of_data hread, write_loosened, hwrite, ih]
  | case4 handle store clock source total e rest hread hkind ih =>
    simp only [copyFrom_of_failure hread, if_pos hkind, ih]
  | case5 handle store clock source total e rest hread hkind =>
    simp only [copyFrom_of_failure hread, if_neg hkind]

/-- No operation of a handle looks at the rules. -/
theorem perform_loosened (command : HandleCommand) :
    handle.perform (store.loosened policy) clock command =
      ((handle.perform store clock command).1,
        loosely policy (handle.perform store clock command).2) := by
  cases command with
  | read n => simp only [perform, read, bytesAt_loosened]
  | readAt n offset => simp only [perform, readAt, bytesAt_loosened]
  | readToEnd out => simp only [perform, readToEnd, cell?_loosened]
  | seek goal => simp only [perform, seek, size_loosened]
  | write data => simp only [perform, write_loosened]
  | readFrom source =>
    simp only [perform, readFrom]
    cases handle.checkWritable with
    | error e => rfl
    | ok u => simp only [copyFrom_loosened]
  | readDir n =>
    simp only [perform, readDir, pager?, Store.dir?_loosened, Pager.start_loosened,
      Pager.nextPage_loosened]
  | stat => simp only [perform, stat, Store.node?_loosened]
  | close => rfl

end Handle

namespace View

variable {view : View}

@[simp] theorem base_loosened : view.base (store.loosened policy) = view.base store :=
  store.pathOf_loosened policy _

theorem visitsBelow_loosened (base : String) (depth : Nat) (path : String) (dir : Nat) :
    visitsBelow (store.loosened policy) base depth path dir =
      visitsBelow store base depth path dir := by
  induction depth generalizing path dir with
  | zero => rfl
  | succ depth ih =>
    simp only [visitsBelow, Store.childNames_loosened, Store.child?_loosened,
      Store.node?_loosened, ih]

theorem visits_loosened : view.visits (store.loosened policy) = view.visits store := by
  simp only [visits, Store.node?_loosened, base_loosened, visitsBelow_loosened]
  rfl

theorem collect_loosened (describe : Visit → Option String) :
    view.collect (store.loosened policy) describe = view.collect store describe := by
  rw [collect_eq, collect_eq, visits_loosened]

/-- A node is opened alike at a valid path, which must be tidy if a node may be made there. -/
theorem openNode_loosened (hstrict : store.Strict) (hroot : (store.dir? view.root).isSome)
    (hvalid : Path.valid (Text.trim path) = true) (flags : OpenFlags) (mode : FileMode)
    (htidy : flags.has .create = true → Path.Tidy path) :
    view.openNode (store.loosened policy) clock path flags mode =
      loosely policy (view.openNode store clock path flags mode) := by
  have hcleaned := Path.valid_cleaned hvalid
  have hclean : PathRules.permissive.clean path = .ok (Path.cleaned path) :=
    PathRules.clean_of_accepted rfl
  simp only [openNode, Store.rules_loosened, hstrict.rules, PathRules.clean_strict hvalid, hclean,
    Store.resolve_loosened hstrict.rules hcleaned, base_loosened]
  cases hfound : store.resolve view.root (Path.cleaned path) with
  | ok inode => simp only [Handle.onNode_loosened]
  | error e =>
    dsimp only
    by_cases hmakes : e.kind = .notFound ∧ flags.has .create = true
    · simp only [if_pos hmakes]
      have hagain : Path.valid (Path.cleaned path) = true := by
        rw [Path.cleaned_of_valid hvalid]
        exact hvalid
      obtain ⟨key, hkey, hup, hpath⟩ := (htidy hmakes.2).cleaned.exists_key hagain
      have hne : key ≠ [] := by
        rintro rfl
        rw [hpath, Store.resolve_ofKey hkey (by rw [hstrict.rules]; decide)] at hfound
        cases hfound
      rw [hpath, Store.createAt_loosened hstrict hroot hkey hup hne]
      rcases store.createAt clock view.root (Path.ofKey key) mode with ⟨e | inode, grown⟩
      · rfl
      · simp only [Handle.onNode_loosened, base_loosened]
    · simp only [if_neg hmakes]

theorem openNode_rdonly_loosened (hstrict : store.Strict) (hroot : (store.dir? view.root).isSome)
    (hvalid : Path.valid (Text.trim path) = true) (mode : FileMode) :
    view.openNode (store.loosened policy) clock path .rdonly mode =
      loosely policy (view.openNode store clock path .rdonly mode) :=
  openNode_loosened hstrict hroot hvalid .rdonly mode fun hcreate => by
    rw [OpenFlags.has_create_rdonly] at hcreate
    cases hcreate

theorem openRead_loosened (hstrict : store.Strict) (hroot : (store.dir? view.root).isSome)
    (hvalid : Path.valid (Text.trim path) = true) :
    view.openRead (store.loosened policy) clock path =
      loosely policy (view.openRead store clock path) := by
  simp only [openRead, openNode_rdonly_loosened hstrict hroot hvalid]

theorem openFile_loosened (hstrict : store.Strict) (hroot : (store.dir? view.root).isSome)
    (hvalid : Path.valid (Text.trim path) = true) (htidy : Path.Tidy path) (flags : OpenFlags)
    (mode : FileMode) :
    view.openFile (store.loosened policy) clock path flags mode =
      loosely policy (view.openFile store clock path flags mode) := by
  simp only [openFile, openNode_loosened hstrict hroot hvalid flags mode fun _ => htidy]

theorem create_loosened (hstrict : store.Strict) (hroot : (store.dir? view.root).isSome)
    (hvalid : Path.valid (Text.trim path) = true) (htidy : Path.Tidy path) :
    view.create (store.loosened policy) clock path =
      loosely policy (view.create store clock path) := by
  have hmode : (store.loosened policy).config.fileMode = store.config.fileMode := rfl
  simp only [create, hmode, openNode_loosened hstrict hroot hvalid anew _ fun _ => htidy]

theorem mkdir_loosened (hstrict : store.Strict) (hroot : (store.dir? view.root).isSome)
    (hvalid : Path.valid (Text.trim path) = true) (htidy : Path.Tidy path) (mode : FileMode) :
    view.mkdir (store.loosened policy) clock path mode =
      loosely policy (view.mkdir store clock path mode) := by
  obtain ⟨key, hkey, hup, rfl⟩ := htidy.exists_key (htidy.trim_eq ▸ hvalid)
  simp only [mkdir, Store.mkdir_loosened hstrict hroot hkey hup]

theorem mkdirAll_loosened (hstrict : store.Strict) (hroot : (store.dir? view.root).isSome)
    (hvalid : Path.valid (Text.trim path) = true) (htidy : Path.Tidy path) (mode : FileMode) :
    view.mkdirAll (store.loosened policy) clock path mode =
      loosely policy (view.mkdirAll store clock path mode) := by
  obtain ⟨key, hkey, hup, rfl⟩ := htidy.exists_key (htidy.trim_eq ▸ hvalid)
  simp only [mkdirAll, Store.mkdirAll_loosened hstrict hroot hkey hup]

theorem content_loosened (hstrict : store.Strict) (hroot : (store.dir? view.root).isSome)
    (hvalid : Path.valid (Text.trim path) = true) :
    view.content (store.loosened policy) clock path =
      loosely policy (view.content store clock path) := by
  simp only [content, openNode_rdonly_loosened hstrict hroot hvalid]
  rcases view.openNode store clock path .rdonly ⟨0⟩ with ⟨e | handle, opened⟩
  · rfl
  · simp only [Handle.readToEnd, Handle.cell?_loosened]

theorem writeFile_loosened (hstrict : store.Strict) (hroot : (store.dir? view.root).isSome)
    (hvalid : Path.valid (Text.trim path) = true) (htidy : Path.Tidy path) (data : Bytes)
    (mode : FileMode) :
    view.writeFile (store.loosened policy) clock path data mode =
      loosely policy (view.writeFile store clock path data mode) := by
  simp only [writeFile, openNode_loosened hstrict hroot hvalid anew mode fun _ => htidy]
  rcases view.openNode store clock path anew mode with ⟨e | handle, opened⟩
  · rfl
  · simp only [Handle.write_loosened, Store.stage_loosened]

theorem stat_loosened (hstrict : store.Strict) (hvalid : Path.valid (Text.trim path) = true) :
    view.stat (store.loosened policy) path = view.stat store path := by
  simp only [stat, Store.resolve_loosened hstrict.rules hvalid, Store.node?_loosened, base_loosened]

theorem dirIter_loosened (hstrict : store.Strict) (hvalid : Path.valid (Text.trim path) = true) :
    view.dirIter (store.loosened policy) path = view.dirIter store path := by
  simp only [dirIter, Store.resolveDir_loosened hstrict.rules hvalid, Pager.start_loosened,
    base_loosened]

theorem readDir_loosened (hstrict : store.Strict) (hvalid : Path.valid (Text.trim path) = true) :
    view.readDir (store.loosened policy) path = view.readDir store path := by
  simp only [readDir, dirIter_loosened hstrict hvalid, Pager.nextPage_loosened]

theorem sub_loosened (hstrict : store.Strict) (hvalid : Path.valid (Text.trim path) = true) :
    view.sub (store.loosened policy) path = view.sub store path := by
  simp only [sub, Store.resolveDir_loosened hstrict.rules hvalid]

/-- A pattern is no path, so no rule is asked. -/
theorem glob_loosened (patterns : Glob.Library) (pattern : String) :
    view.glob (store.loosened policy) patterns pattern = view.glob store patterns pattern := by
  simp only [glob, collect_loosened]

theorem listing_loosened : view.listing (store.loosened policy) = view.listing store := by
  simp only [listing, collect_loosened]

theorem close_loosened :
    view.close (store.loosened policy) = loosely policy (view.close store) := by
  have hclosed : (store.loosened policy).closed = store.closed := rfl
  unfold close
  rw [hclosed]
  split
  · rfl
  split <;> rfl

end View

end VirtualFs.Tree
