import VirtualFs.Proofs.Tree.ViewAt

namespace VirtualFs

/-- Both succeed with values that belong together, or both fail with an error of the same kind. -/
def Alike {α β : Type} (related : α → β → Prop) : Except FsError α → Except FsError β → Prop
  | .ok a, .ok b => related a b
  | .error e, .error e' => e.kind = e'.kind
  | _, _ => False

namespace Alike

variable {α β γ δ : Type} {related : α → β → Prop} {related' : γ → δ → Prop}

theorem refl (result : Except FsError α) : Alike Eq result result := by
  cases result <;> rfl

theorem of_eq {result result' : Except FsError α} (heq : result = result') :
    Alike Eq result result' :=
  heq ▸ .refl result

/-- Tags hide no error's kind. -/
theorem tag {result : Except FsError α} {result' : Except FsError β}
    (h : Alike related result result') (operation : Operation) (path path' : String) :
    Alike related (FsError.tag operation path result) (FsError.tag operation path' result') := by
  cases result <;> cases result' <;> exact h

theorem ok_iff {result result' : Except FsError α} (h : Alike Eq result result') (a : α) :
    result = .ok a ↔ result' = .ok a := by
  cases result <;> cases result'
  · simp
  · exact h.elim
  · exact h.elim
  · obtain rfl := h
    rfl

theorem map {result : Except FsError α} {result' : Except FsError β}
    (h : Alike related result result') {f : α → γ} {g : β → δ}
    (hmap : ∀ a b, related a b → related' (f a) (g b)) :
    Alike related' (result.map f) (result'.map g) := by
  cases result <;> cases result' <;> first | exact hmap _ _ h | exact h

end Alike

/-- The entry with its path seen from `base`, none if it lies outside. -/
def Entry.seenFrom? (base : String) (entry : Entry) : Option Entry :=
  (Path.stripBase base entry.path).map fun path => { entry with path := path }

namespace Tree

/-- The handle with its path seen from `base`, as one opened through the view there. -/
def Handle.seenFrom? (base : String) (handle : Handle) : Option Handle :=
  (Path.stripBase base handle.path).map fun path => { handle with path := path, base := base }

namespace Handle

variable {inner outer : Handle} {base : String}

/-- Opening a node under another path and through another view changes nothing else. -/
theorem onNode_seenFrom? {innerPath outerPath outerBase : String}
    (hpath : Path.stripBase base outerPath = some innerPath) (store : Store) (inode : Nat)
    (flags : OpenFlags) :
    (onNode store inode flags outerPath outerBase).1.seenFrom? base =
        some (onNode store inode flags innerPath base).1 ∧
      (onNode store inode flags innerPath base).2 =
        (onNode store inode flags outerPath outerBase).2 := by
  unfold onNode
  split
  · simp [seenFrom?, onDir, hpath]
  · simp [seenFrom?, openFile, hpath]

theorem eq_of_seenFrom? (hseen : outer.seenFrom? base = some inner) :
    inner = { outer with path := inner.path, base := inner.base } := by
  obtain ⟨path, -, rfl⟩ := Option.map_eq_some_iff.mp hseen
  rfl

/-- What a handle is allowed does not depend on its paths, but for the texts of refusals. -/
theorem checkTransfer_alike (hseen : outer.seenFrom? base = some inner) (allowed : Bool)
    (refusal : FsError) :
    Alike Eq (inner.checkTransfer allowed refusal) (outer.checkTransfer allowed refusal) := by
  rw [eq_of_seenFrom? hseen]
  simp only [checkTransfer]
  split
  · rfl
  split
  · rfl
  split <;> rfl

theorem readToEnd_alike (hseen : outer.seenFrom? base = some inner) (store : Store)
    (out : Bytes) :
    Alike Eq (inner.readToEnd store out).1 (outer.readToEnd store out).1 ∧
      (inner.readToEnd store out).2.1 = (outer.readToEnd store out).2.1 := by
  have hcheck := checkTransfer_alike hseen outer.flags.readable .writeOnly
  rw [eq_of_seenFrom? hseen] at hcheck ⊢
  simp only [readToEnd, checkReadable]
  cases hinner : checkTransfer { outer with path := inner.path, base := inner.base }
      outer.flags.readable .writeOnly <;>
    cases houter : outer.checkTransfer outer.flags.readable .writeOnly <;>
    rw [hinner, houter] at hcheck
  · exact ⟨hcheck, rfl⟩
  · exact hcheck.elim
  · exact hcheck.elim
  · exact ⟨rfl, rfl⟩

theorem write_alike (hseen : outer.seenFrom? base = some inner) (store : Store) (now : Time)
    (data : Bytes) :
    Alike Eq (inner.write store now data).1 (outer.write store now data).1 ∧
      (inner.write store now data).2.2 = (outer.write store now data).2.2 := by
  have hcheck := checkTransfer_alike hseen outer.flags.writable .readOnly
  rw [eq_of_seenFrom? hseen] at hcheck ⊢
  simp only [write, checkWritable]
  cases hinner : checkTransfer { outer with path := inner.path, base := inner.base }
      outer.flags.writable .readOnly <;>
    cases houter : outer.checkTransfer outer.flags.writable .readOnly <;>
    rw [hinner, houter] at hcheck
  · exact ⟨hcheck, rfl⟩
  · exact hcheck.elim
  · exact hcheck.elim
  · simp only [put, cell?]
    split
    · exact ⟨rfl, rfl⟩
    · split <;> exact ⟨rfl, rfl⟩

end Handle

namespace View.IsAt

variable {view : View} {store : Store} {dir key : List String}

theorem refused (h : view.IsAt store dir) (hkey : Path.IsKey key)
    (hrefused : ¬ store.rules.accepts (Path.ofKey key) = true) :
    store.rules.accepts (Text.trim (Path.ofKey key)) = false ∧
      store.rules.accepts (Text.trim (Path.ofKey (dir ++ key))) = false := by
  rw [Path.trim_ofKey hkey, Path.trim_ofKey (h.isKey_append hkey), h.accepts_append hkey]
  simpa using hrefused

theorem resolve_alike (h : view.IsAt store dir) (hkey : Path.IsKey key) :
    Alike Eq (store.resolve view.root (Path.ofKey key))
      (store.resolve Store.rootInode (Path.ofKey (dir ++ key))) := by
  by_cases haccepts : store.rules.accepts (Path.ofKey key) = true
  · exact .of_eq (h.store_resolve hkey haccepts).symm
  · obtain ⟨hinner, houter⟩ := h.refused hkey haccepts
    unfold Store.resolve
    rw [PathRules.split_of_refused hinner, PathRules.split_of_refused houter]
    rfl

theorem resolveDir_alike (h : view.IsAt store dir) (hkey : Path.IsKey key) :
    Alike Eq (store.resolveDir view.root (Path.ofKey key))
      (store.resolveDir Store.rootInode (Path.ofKey (dir ++ key))) := by
  have hfound := h.resolve_alike hkey
  unfold Store.resolveDir
  cases hinner : store.resolve view.root (Path.ofKey key) <;>
    cases houter : store.resolve Store.rootInode (Path.ofKey (dir ++ key)) <;>
    rw [hinner, houter] at hfound
  · exact hfound
  · exact hfound.elim
  · exact hfound.elim
  · obtain rfl := hfound
    exact .refl _

/-- What is found is below the directory. -/
theorem leads_of_resolve (h : view.IsAt store dir) (hkey : Path.IsKey key) {inode : Nat}
    (hfound : store.resolve view.root (Path.ofKey key) = .ok inode) :
    store.leads view.root key = some inode := by
  by_cases haccepts : store.rules.accepts (Path.ofKey key) = true
  · rw [Store.resolve_ofKey hkey haccepts] at hfound
    exact Store.descend_eq_ok_iff.mp hfound
  · unfold Store.resolve at hfound
    rw [PathRules.split_of_refused (h.refused hkey haccepts).1] at hfound
    cases hfound

/-- The entry of a node below the directory, as both views show it. -/
theorem rebased_seenFrom? (h : view.IsAt store dir) {inode : Nat} {node : Node}
    (hdots : ∀ s ∈ key, s ≠ ".") (hleads : store.leads view.root key = some inode)
    (hnode : store.node? inode = some node) :
    (node.entry.rebased (View.whole.base store)).seenFrom? (Path.ofKey dir) =
      some (node.entry.rebased (view.base store)) := by
  have hwhole : View.whole.base store = "." := h.shape.rootPath
  have hdirDots : ∀ s ∈ dir, s ≠ "." := fun s hs => (h.key s hs).2
  obtain ⟨hkey, hpath⟩ := h.shape.pathOf_leads (List.forall_mem_append.mpr ⟨hdirDots, hdots⟩)
    ((h.leads_append key).trans hleads)
  have hentry : node.entry.path = Path.ofKey (dir ++ key) :=
    (store.pathOf_of_node? hnode).symm.trans hpath
  have hstrip := Path.stripBase_ofKey h.key (Path.isKey_append.mp hkey).2
  have hroot : Path.stripBase "." (Path.ofKey (dir ++ key)) = some (Path.ofKey (dir ++ key)) := rfl
  rw [hwhole, h.base_eq]
  simp [Entry.rebased, Entry.seenFrom?, hentry, hroot, hstrip]

theorem stat (h : view.IsAt store dir) (hkey : Path.IsKey key) :
    Alike (fun inner outer => outer.seenFrom? (Path.ofKey dir) = some inner)
      (view.stat store (Path.ofKey key)) (View.whole.stat store (Path.ofKey (dir ++ key))) := by
  have hfound := h.resolve_alike hkey
  refine Alike.tag ?_ _ _ _
  have hroot : View.whole.root = Store.rootInode := rfl
  simp only [hroot]
  cases hinner : store.resolve view.root (Path.ofKey key) <;>
    cases houter : store.resolve Store.rootInode (Path.ofKey (dir ++ key)) <;>
    rw [hinner, houter] at hfound
  · exact hfound
  · exact hfound.elim
  · exact hfound.elim
  next inode _ =>
    obtain rfl := hfound
    cases hnode : store.node? inode with
    | none =>
      simp only [hnode]
      rfl
    | some node =>
      simp only [hnode]
      exact h.rebased_seenFrom? (fun s hs => (hkey s hs).2) (h.leads_of_resolve hkey hinner) hnode

theorem sub (h : view.IsAt store dir) (hkey : Path.IsKey key) :
    Alike Eq (view.sub store (Path.ofKey key))
      (View.whole.sub store (Path.ofKey (dir ++ key))) := by
  refine Alike.tag ?_ _ _ _
  exact (h.resolveDir_alike hkey).map fun _ _ heq => by rw [heq]

theorem readDir (h : view.IsAt store dir) (hkey : Path.IsKey key) :
    Alike (fun inner outer => outer.map (Entry.seenFrom? (Path.ofKey dir)) = inner.map some)
      (view.readDir store (Path.ofKey key))
      (View.whole.readDir store (Path.ofKey (dir ++ key))) := by
  have hfound := h.resolveDir_alike hkey
  refine Alike.tag ?_ _ _ _
  have hroot : View.whole.root = Store.rootInode := rfl
  simp only [dirIter, hroot]
  cases hinner : store.resolveDir view.root (Path.ofKey key) <;>
    cases houter : store.resolveDir Store.rootInode (Path.ofKey (dir ++ key)) <;>
    rw [hinner, houter] at hfound
  · exact hfound
  · exact hfound.elim
  · exact hfound.elim
  next inode _ =>
    obtain rfl := hfound
    have hleads := h.leads_of_resolve hkey (Store.resolve_of_resolveDir hinner)
    simp only [Pager.nextPage_rest, Except.map, Alike, Pager.start, List.map_filterMap]
    refine List.filterMap_congr fun name hname => ?_
    have hdots := Path.forall_mem_concat (fun s hs => (hkey s hs).2)
      (store.mem_childNames_iff.mp hname).2
    have hstep := Store.leads_concat_of_leads hleads name
    unfold Pager.entry?
    cases hchild : store.child? inode name with
    | none => rfl
    | some child =>
      rw [hchild] at hstep
      cases hnode : store.node? child.inode with
      | none => simp [hnode]
      | some node =>
        have hseen := h.rebased_seenFrom? hdots hstep hnode
        simpa [hnode] using hseen

theorem mkdir (h : view.IsAt store dir) (hkey : Path.IsKey key) (hne : key ≠ []) (clock : Clock)
    (mode : FileMode) :
    Alike Eq (view.mkdir store clock (Path.ofKey key) mode).1
        (View.whole.mkdir store clock (Path.ofKey (dir ++ key)) mode).1 ∧
      (view.mkdir store clock (Path.ofKey key) mode).2 =
        (View.whole.mkdir store clock (Path.ofKey (dir ++ key)) mode).2 := by
  unfold View.mkdir View.whole
  by_cases haccepts : store.rules.accepts (Path.ofKey key) = true
  · rw [h.store_mkdir hkey hne haccepts]
    exact ⟨Alike.tag (.refl _) _ _ _, rfl⟩
  · obtain ⟨hinner, houter⟩ := h.refused hkey haccepts
    simp only [Store.mkdir, PathRules.endsWithDot, PathRules.clean_of_refused hinner,
      PathRules.clean_of_refused houter, PathRules.split_of_refused hinner,
      PathRules.split_of_refused houter, Bool.false_eq_true, if_false]
    exact ⟨rfl, trivial⟩

theorem mkdirAll (h : view.IsAt store dir) (hkey : Path.IsKey key) (clock : Clock)
    (mode : FileMode) :
    Alike Eq (view.mkdirAll store clock (Path.ofKey key) mode).1
        (View.whole.mkdirAll store clock (Path.ofKey (dir ++ key)) mode).1 ∧
      (view.mkdirAll store clock (Path.ofKey key) mode).2 =
        (View.whole.mkdirAll store clock (Path.ofKey (dir ++ key)) mode).2 := by
  unfold View.mkdirAll View.whole
  by_cases haccepts : store.rules.accepts (Path.ofKey key) = true
  · rw [h.store_mkdirAll hkey haccepts]
    exact ⟨Alike.tag (.refl _) _ _ _, rfl⟩
  · obtain ⟨hinner, houter⟩ := h.refused hkey haccepts
    simp only [Store.mkdirAll, PathRules.split_of_refused hinner, PathRules.split_of_refused houter]
    exact ⟨rfl, trivial⟩

theorem openNode (h : view.IsAt store dir) (hkey : Path.IsKey key) (clock : Clock)
    (flags : OpenFlags) (mode : FileMode) :
    Alike (fun inner outer => outer.seenFrom? (Path.ofKey dir) = some inner)
        (view.openNode store clock (Path.ofKey key) flags mode).1
        (View.whole.openNode store clock (Path.ofKey (dir ++ key)) flags mode).1 ∧
      (view.openNode store clock (Path.ofKey key) flags mode).2 =
        (View.whole.openNode store clock (Path.ofKey (dir ++ key)) flags mode).2 := by
  by_cases haccepts : store.rules.accepts (Path.ofKey key) = true
  swap
  · obtain ⟨hinner, houter⟩ := h.refused hkey haccepts
    simp only [View.openNode, PathRules.clean_of_refused hinner, PathRules.clean_of_refused houter]
    exact ⟨rfl, trivial⟩
  have hclean := PathRules.clean_ofKey hkey haccepts
  have hwholeClean := PathRules.clean_ofKey (h.isKey_append hkey)
    ((h.accepts_append hkey).trans haccepts)
  have hresolve : store.resolve View.whole.root (Path.ofKey (dir ++ key)) = _ :=
    h.store_resolve hkey haccepts
  have hstrip := Path.stripBase_ofKey h.key hkey
  cases hfound : store.resolve view.root (Path.ofKey key) with
  | ok inode =>
    rw [hfound] at hresolve
    rw [View.openNode_of_found hclean hfound,
      View.openNode_of_found hwholeClean hresolve, h.base_eq]
    exact Handle.onNode_seenFrom? hstrip store inode flags
  | error e =>
    rw [hfound] at hresolve
    by_cases hmake : e.kind = .notFound ∧ flags.has .create = true
    swap
    · rw [View.openNode_of_missing hclean hfound hmake,
        View.openNode_of_missing hwholeClean hresolve hmake]
      exact ⟨rfl, rfl⟩
    obtain ⟨hkind, hcreate⟩ := hmake
    have hne : key ≠ [] := by
      rintro rfl
      rw [Store.resolve_ofKey hkey haccepts] at hfound
      cases hfound
    have hcreated : store.createAt clock View.whole.root (Path.ofKey (dir ++ key)) mode = _ :=
      h.store_createAt hkey hne haccepts
    have hchanges : Store.Changes (fun _ => True) store
        (store.createAt clock view.root (Path.ofKey key) mode).2 :=
      store.createAt_changes clock mode h.isDir
        fun _ _ => ⟨fun _ _ => trivial, fun _ _ _ _ => trivial⟩
    rcases hmade : store.createAt clock view.root (Path.ofKey key) mode with ⟨e' | inode, grown⟩
    · rw [hmade] at hcreated
      rw [View.openNode_of_refused hclean hfound hkind hcreate hmade,
        View.openNode_of_refused hwholeClean hresolve hkind hcreate hcreated]
      exact ⟨rfl, rfl⟩
    · rw [hmade] at hcreated hchanges
      -- The path of the directory is still the same when the handle takes it.
      have hbase : view.base grown = Path.ofKey dir :=
        (hchanges.pathOf_eq (store.isSome_node?_of_dir? h.isDir)).trans h.base_eq
      rw [View.openNode_of_made hclean hfound hkind hcreate hmade,
        View.openNode_of_made hwholeClean hresolve hkind hcreate hcreated,
        hbase]
      exact Handle.onNode_seenFrom? hstrip grown inode flags

theorem content (h : view.IsAt store dir) (hkey : Path.IsKey key) (clock : Clock) :
    Alike Eq (view.content store clock (Path.ofKey key)).1
        (View.whole.content store clock (Path.ofKey (dir ++ key))).1 ∧
      (view.content store clock (Path.ofKey key)).2 =
        (View.whole.content store clock (Path.ofKey (dir ++ key))).2 := by
  obtain ⟨hopened, hstore⟩ := h.openNode hkey clock .rdonly ⟨0⟩
  unfold View.content
  rcases hinner : view.openNode store clock (Path.ofKey key) .rdonly ⟨0⟩ with ⟨e | inner, grown⟩ <;>
    rcases houter : View.whole.openNode store clock (Path.ofKey (dir ++ key)) .rdonly ⟨0⟩ with
      ⟨e' | outer, grown'⟩ <;>
    rw [hinner, houter] at hopened hstore
  · exact ⟨hopened, hstore⟩
  · exact hopened.elim
  · exact hopened.elim
  · obtain rfl : grown = grown' := hstore
    obtain ⟨hread, hdata⟩ := Handle.readToEnd_alike hopened grown []
    exact ⟨(hread.map fun _ _ _ => hdata).tag _ _ _, rfl⟩

theorem writeFile (h : view.IsAt store dir) (hkey : Path.IsKey key) (clock : Clock) (data : Bytes)
    (mode : FileMode) :
    Alike Eq (view.writeFile store clock (Path.ofKey key) data mode).1
        (View.whole.writeFile store clock (Path.ofKey (dir ++ key)) data mode).1 ∧
      (view.writeFile store clock (Path.ofKey key) data mode).2 =
        (View.whole.writeFile store clock (Path.ofKey (dir ++ key)) data mode).2 := by
  obtain ⟨hopened, hstore⟩ := h.openNode hkey clock View.anew mode
  unfold View.writeFile
  rcases hinner : view.openNode store clock (Path.ofKey key) View.anew mode with
      ⟨e | inner, grown⟩ <;>
    rcases houter : View.whole.openNode store clock (Path.ofKey (dir ++ key)) View.anew mode with
      ⟨e' | outer, grown'⟩ <;>
    rw [hinner, houter] at hopened hstore
  · exact ⟨hopened, hstore⟩
  · exact hopened.elim
  · exact hopened.elim
  · obtain rfl : grown = grown' := hstore
    obtain ⟨hwritten, hstore'⟩ := Handle.write_alike hopened grown (clock grown.stage) data
    exact ⟨(hwritten.map fun _ _ _ => rfl).tag _ _ _, hstore'⟩

end View.IsAt

end Tree

end VirtualFs
