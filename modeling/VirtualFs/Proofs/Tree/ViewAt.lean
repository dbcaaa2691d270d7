import VirtualFs.Proofs.Tree.TidyShape
import VirtualFs.Proofs.Tree.TidyPath
import VirtualFs.Tree.Session

namespace VirtualFs.Tree

namespace View

/-- The view is that of the directory to which the names lead. -/
structure IsAt (view : View) (store : Store) (dir : List String) : Prop where
  shape : store.TidyShape
  segmentwise : store.rules.Segmentwise
  key : Path.IsKey dir
  accepts : store.rules.accepts (Path.ofKey dir) = true
  leads : store.leads Store.rootInode dir = some view.root
  isDir : (store.dir? view.root).isSome

namespace IsAt

variable {view : View} {store : Store} {dir key : List String} {clock : Clock} {mode : FileMode}

theorem base_eq (h : view.IsAt store dir) : view.base store = Path.ofKey dir :=
  (h.shape.pathOf_leads (fun s hs => (h.key s hs).2) h.leads).2

theorem isKey_append (h : view.IsAt store dir) (hkey : Path.IsKey key) :
    Path.IsKey (dir ++ key) :=
  Path.isKey_append.mpr ⟨h.key, hkey⟩

/-- The rules see the directory's own path as good, so the rest decides. -/
theorem accepts_append (h : view.IsAt store dir) (hkey : Path.IsKey key) :
    store.rules.accepts (Path.ofKey (dir ++ key)) = store.rules.accepts (Path.ofKey key) := by
  rw [h.segmentwise dir key h.key hkey, h.accepts, Bool.true_and]

/-- With a path its front is accepted. -/
theorem accepts_front (h : view.IsAt store dir) {front back : List String}
    (hkey : Path.IsKey (front ++ back))
    (haccepts : store.rules.accepts (Path.ofKey (front ++ back)) = true) :
    store.rules.accepts (Path.ofKey front) = true := by
  obtain ⟨hfront, hback⟩ := Path.isKey_append.mp hkey
  rw [h.segmentwise front back hfront hback, Bool.and_eq_true] at haccepts
  exact haccepts.1

/-- What names lead to from the directory is what they lead to behind its own. -/
theorem leads_append (h : view.IsAt store dir) (key : List String) :
    store.leads Store.rootInode (dir ++ key) = store.leads view.root key := by
  rw [Store.leads_append, h.leads, Option.bind_some]

theorem store_resolve (h : view.IsAt store dir) (hkey : Path.IsKey key)
    (haccepts : store.rules.accepts (Path.ofKey key) = true) :
    store.resolve Store.rootInode (Path.ofKey (dir ++ key)) =
      store.resolve view.root (Path.ofKey key) := by
  rw [Store.resolve_ofKey hkey haccepts,
    Store.resolve_ofKey (h.isKey_append hkey) (by rw [h.accepts_append hkey, haccepts]),
    Store.descend_append h.leads h.isDir]

theorem store_resolveDir (h : view.IsAt store dir) (hkey : Path.IsKey key)
    (haccepts : store.rules.accepts (Path.ofKey key) = true) :
    store.resolveDir Store.rootInode (Path.ofKey (dir ++ key)) =
      store.resolveDir view.root (Path.ofKey key) := by
  unfold Store.resolveDir
  rw [h.store_resolve hkey haccepts]

/-- The path of the root finds the directory itself. -/
theorem resolveDir_nil (h : view.IsAt store dir)
    (haccepts : store.rules.accepts (Path.ofKey []) = true) :
    store.resolveDir view.root (Path.ofKey []) = .ok view.root := by
  obtain ⟨d, hd⟩ := Option.isSome_iff_exists.mp h.isDir
  unfold Store.resolveDir
  rw [Store.resolve_ofKey Path.isKey_nil haccepts]
  simp only [Store.descend, hd]

theorem store_mkdirAll (h : view.IsAt store dir) (hkey : Path.IsKey key)
    (haccepts : store.rules.accepts (Path.ofKey key) = true) :
    store.mkdirAll clock Store.rootInode (Path.ofKey (dir ++ key)) mode =
      store.mkdirAll clock view.root (Path.ofKey key) mode := by
  rw [Store.mkdirAll_ofKey hkey haccepts,
    Store.mkdirAll_ofKey (h.isKey_append hkey) (by rw [h.accepts_append hkey, haccepts]),
    Store.mkdirAlong_append (fun s hs => (h.key s hs).2) h.leads h.isDir]

theorem store_createAt (h : view.IsAt store dir) (hkey : Path.IsKey key) (hne : key ≠ [])
    (haccepts : store.rules.accepts (Path.ofKey key) = true) :
    store.createAt clock Store.rootInode (Path.ofKey (dir ++ key)) mode =
      store.createAt clock view.root (Path.ofKey key) mode := by
  cases hmode : mode.isDir with
  | true =>
    unfold Store.createAt
    rw [if_pos hmode, if_pos hmode, h.store_mkdirAll hkey haccepts]
  | false =>
    obtain ⟨front, name, rfl⟩ : ∃ front name, key = front ++ [name] :=
      ⟨_, _, (List.dropLast_append_getLast hne).symm⟩
    have hwhole := h.isKey_append hkey
    have hwholeAccepts := (h.accepts_append hkey).trans haccepts
    rw [← List.append_assoc] at hwhole hwholeAccepts ⊢
    obtain ⟨hfront, hname⟩ := Path.isKey_append.mp hkey
    obtain ⟨hwholeFront, -⟩ := Path.isKey_append.mp hwhole
    have hparents : ∀ {front : List String}, Path.IsKey (front ++ [name]) →
        store.rules.accepts (Path.ofKey (front ++ [name])) = true → front ≠ [] →
        store.rules.accepts (Path.joinAll front) = true := by
      intro front hkey haccepts hfront
      rw [← Path.ofKey_of_ne_nil hfront]
      exact h.accepts_front hkey haccepts
    have hinner := hparents hkey haccepts
    have houter := hparents hwhole hwholeAccepts
    rw [Path.ofKey_of_ne_nil (by simp)] at haccepts hwholeAccepts ⊢
    rw [Path.ofKey_of_ne_nil (by simp), Store.createAt_joinAll haccepts hinner hfront.tidyNames
      (Path.isKey_singleton.mp hname).1 hmode, Store.createAt_joinAll hwholeAccepts houter
      hwholeFront.tidyNames (Path.isKey_singleton.mp hname).1 hmode,
      Store.mkdirAlong_append (fun s hs => (h.key s hs).2) h.leads h.isDir]

/-- Making one directory needs a name to make it under. -/
theorem store_mkdir (h : view.IsAt store dir) (hkey : Path.IsKey key) (hne : key ≠ [])
    (haccepts : store.rules.accepts (Path.ofKey key) = true) :
    store.mkdir clock Store.rootInode (Path.ofKey (dir ++ key)) mode =
      store.mkdir clock view.root (Path.ofKey key) mode := by
  obtain ⟨front, name, rfl⟩ : ∃ front name, key = front ++ [name] :=
    ⟨_, _, (List.dropLast_append_getLast hne).symm⟩
  have hwholeAccepts := (h.accepts_append hkey).trans haccepts
  obtain ⟨hfront, hlast⟩ := Path.isKey_append.mp hkey
  obtain ⟨hname, hdot⟩ := Path.isKey_singleton.mp hlast
  have hfrontAccepts := h.accepts_front hkey haccepts
  -- The directory itself is the parent when there is only a name, and its path finds it too.
  have hparent : (if front = [] then Except.ok view.root
      else store.resolveDir view.root (Path.joinAll front)) =
      store.resolveDir view.root (Path.ofKey front) := by
    split
    · next hnil =>
      subst hnil
      exact (h.resolveDir_nil hfrontAccepts).symm
    · next hsome => rw [Path.ofKey_of_ne_nil hsome]
  have hwholeParent : (if dir ++ front = [] then Except.ok Store.rootInode
      else store.resolveDir Store.rootInode (Path.joinAll (dir ++ front))) =
      store.resolveDir view.root (Path.ofKey front) := by
    rw [← h.store_resolveDir hfront hfrontAccepts]
    split
    · next hnil =>
      obtain ⟨rfl, rfl⟩ := List.append_eq_nil_iff.mp hnil
      rw [h.store_resolveDir hfront hfrontAccepts, h.resolveDir_nil hfrontAccepts]
      exact congrArg Except.ok (Option.some.inj h.leads)
    · next hsome => rw [Path.ofKey_of_ne_nil hsome]
  rw [← List.append_assoc] at hwholeAccepts ⊢
  rw [Path.ofKey_of_ne_nil (by simp)] at haccepts hwholeAccepts
  rw [Path.ofKey_of_ne_nil (by simp), Path.ofKey_of_ne_nil (by simp),
    Store.mkdir_joinAll haccepts hfront.tidyNames hname hdot, hparent,
    Store.mkdir_joinAll hwholeAccepts (h.isKey_append hfront).tidyNames hname hdot, hwholeParent]

end IsAt

end View

end VirtualFs.Tree
