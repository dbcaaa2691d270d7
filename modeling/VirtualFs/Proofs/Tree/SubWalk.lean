import Mathlib.Data.List.Basic
import VirtualFs.Proofs.Tree.SeenFrom
import VirtualFs.Tree.Walk

namespace VirtualFs.Tree

/-- The visit as a walk from `base` shows it, none if it lies outside. -/
def Visit.seenFrom? (base : String) (visit : Visit) : Option Visit :=
  (Path.stripBase base visit.1).bind fun path =>
    (visit.2.seenFrom? base).map fun entry => (path, entry)

/-- A node that a walk meets, with the names that lead to it. -/
abbrev Met := List String × Node

/-- What is met below a directory, seen from where the directory has a name. -/
def Met.under (name : String) (met : Met) : Met :=
  (name :: met.1, met.2)

/-- What is met, seen from where the names `front` lead, none if it is not there or below. -/
def Met.behind? (front : List String) (met : Met) : Option Met :=
  (met.1.dropPrefix? front).map fun key => (key, met.2)

namespace Store

/-- The nodes below a directory in the order of a walk. -/
def below (store : Store) : Nat → Nat → List Met
  | 0, _ => []
  | depth + 1, dir =>
    (store.childNames dir).flatMap fun name =>
      match store.child? dir name with
      | none => []
      | some child =>
        match store.node? child.inode with
        | none => []
        | some node =>
          (([], node) :: if node.isDir then below store depth child.inode else []).map
            (Met.under name)

/-- A node and the nodes below it in the order of a walk. -/
def atOrBelow (store : Store) (depth inode : Nat) (node : Node) : List Met :=
  ([], node) :: if node.isDir then store.below depth inode else []

variable {store : Store} {dir depth : Nat} {key : List String} {node : Node}

/-- What is met below a directory is what its names lead to. -/
theorem leads_of_mem_below (hmem : (key, node) ∈ store.below depth dir) :
    (∀ s ∈ key, s ≠ ".") ∧ ∃ inode, store.leads dir key = some inode ∧
      store.node? inode = some node := by
  induction depth generalizing dir key with
  | zero => cases hmem
  | succ depth ih =>
    rw [below, List.mem_flatMap] at hmem
    obtain ⟨name, hname, hmem⟩ := hmem
    have hdot := (store.mem_childNames_iff.mp hname).2
    cases hchild : store.child? dir name with
    | none => simp [hchild] at hmem
    | some child =>
      cases hnode : store.node? child.inode with
      | none => simp [hchild, hnode] at hmem
      | some first =>
        simp only [hchild, hnode, List.mem_map] at hmem
        obtain ⟨⟨rest, last⟩, hrest, heq⟩ := hmem
        obtain ⟨rfl, rfl⟩ := Prod.mk.inj heq
        rw [leads_cons, hchild, Option.bind_some]
        rcases List.mem_cons.mp hrest with heq | hrest
        · obtain ⟨rfl, rfl⟩ := Prod.mk.inj heq
          exact ⟨by simpa using hdot, child.inode, rfl, hnode⟩
        · split at hrest
          · obtain ⟨hdots, inode, hleads, hlast⟩ := ih hrest
            exact ⟨List.forall_mem_cons.mpr ⟨hdot, hdots⟩, inode, hleads, hlast⟩
          · cases hrest

/-- What is met at or below a node is what its names lead to. -/
theorem leads_of_mem_atOrBelow {first : Node} (hfirst : store.node? dir = some first)
    (hmem : (key, node) ∈ store.atOrBelow depth dir first) :
    (∀ s ∈ key, s ≠ ".") ∧ ∃ inode, store.leads dir key = some inode ∧
      store.node? inode = some node := by
  rcases List.mem_cons.mp hmem with heq | hbelow
  · obtain ⟨rfl, rfl⟩ := Prod.mk.inj heq
    exact ⟨List.forall_mem_nil _, dir, rfl, hfirst⟩
  · split at hbelow
    · exact leads_of_mem_below hbelow
    · cases hbelow

/-- There is nothing below the last number. -/
theorem below_of_length_le (hshape : store.Shape) (hlast : store.nodes.length ≤ dir) :
    store.below depth dir = [] := by
  cases depth with
  | zero => rfl
  | succ depth =>
    refine List.flatMap_eq_nil_iff.mpr fun name hname => ?_
    obtain ⟨child, node, -, -, hlt, hle, -⟩ := hshape.exists_node_of_mem_childNames hname
    omega

/-- A bound on the levels that the tree does not reach changes nothing. -/
theorem below_eq_below (hshape : store.Shape) {depth' : Nat}
    (hdepth : store.nodes.length ≤ dir + depth) (hdepth' : store.nodes.length ≤ dir + depth') :
    store.below depth dir = store.below depth' dir := by
  induction depth generalizing dir depth' with
  | zero =>
    have hlast : store.nodes.length ≤ dir := hdepth
    rw [below_of_length_le hshape hlast, below_of_length_le hshape hlast]
  | succ depth ih =>
    cases depth' with
    | zero =>
      have hlast : store.nodes.length ≤ dir := hdepth'
      rw [below_of_length_le hshape hlast, below_of_length_le hshape hlast]
    | succ depth' =>
      refine List.flatMap_congr fun name hname => ?_
      obtain ⟨child, node, hchild, hnode, hlt, -⟩ := hshape.exists_node_of_mem_childNames hname
      have hsame : store.below depth child.inode = store.below depth' child.inode :=
        ih (by omega) (by omega)
      simp only [hchild, hnode, hsame]

/-- What one element alone has something of is what that element has. -/
theorem flatMap_eq_of_forall_ne {α β : Type} {l : List α} {f : α → List β} {a : α}
    (hnodup : l.Nodup) (hmem : a ∈ l) (hothers : ∀ b ∈ l, b ≠ a → f b = []) :
    l.flatMap f = f a := by
  obtain ⟨front, back, rfl⟩ := List.append_of_mem hmem
  obtain ⟨-, hback, hapart⟩ := List.nodup_append.mp hnodup
  have hfront : front.flatMap f = [] := List.flatMap_eq_nil_iff.mpr fun b hb =>
    hothers b (List.mem_append_left _ hb) (hapart b hb a (List.mem_cons_self ..))
  have hrest : back.flatMap f = [] := List.flatMap_eq_nil_iff.mpr fun b hb =>
    hothers b (List.mem_append_right _ (List.mem_cons_of_mem _ hb)) fun heq =>
      (List.nodup_cons.mp hback).1 (heq ▸ hb)
  rw [List.flatMap_append, List.flatMap_cons, hfront, hrest, List.nil_append, List.append_nil]

/-- Of what is met below a directory, only what is met at or below one child goes on from the name
of the child. -/
theorem filterMap_below_cons (hshape : store.Shape) {name : String} {rest : List String}
    {child : Child} (hdot : name ≠ ".") (hchild : store.child? dir name = some child)
    (hnode : store.node? child.inode = some node) :
    (store.below (depth + 1) dir).filterMap (Met.behind? (name :: rest)) =
      (store.atOrBelow depth child.inode node).filterMap (Met.behind? rest) := by
  have hmem : name ∈ store.childNames dir :=
    store.mem_childNames_iff.mpr ⟨by rw [hchild]; rfl, hdot⟩
  rw [below, List.filterMap_flatMap, flatMap_eq_of_forall_ne (hshape.nodup_childNames dir) hmem]
  · simp only [hchild, hnode, List.filterMap_map, atOrBelow]
    refine List.filterMap_congr fun met _ => ?_
    simp [Met.behind?, Met.under, List.dropPrefix?]
  · intro other _ hne
    split
    · rfl
    split
    · rfl
    rw [List.filterMap_map]
    refine List.filterMap_eq_nil_iff.mpr fun met _ => ?_
    simp [Met.behind?, Met.under, List.dropPrefix?, hne]

/-- Of what is met at or below a node, only what is met at or below another goes on from the names
that lead there. -/
theorem filterMap_atOrBelow (hshape : store.Shape) {front : List String} {inode : Nat}
    {node' : Node} (hdepth : store.nodes.length ≤ dir + depth) (hdots : ∀ s ∈ front, s ≠ ".")
    (hnode : store.node? dir = some node) (hleads : store.leads dir front = some inode)
    (hnode' : store.node? inode = some node') :
    (store.atOrBelow depth dir node).filterMap (Met.behind? front) =
      store.atOrBelow depth inode node' := by
  induction front generalizing dir node with
  | nil =>
    obtain rfl := Option.some.inj hleads
    obtain rfl := Option.some.inj (hnode.symm.trans hnode')
    have hall : Met.behind? [] = some := by
      funext met
      simp [Met.behind?]
    rw [hall, List.filterMap_some]
  | cons name rest ih =>
    obtain ⟨hdot, hrest⟩ := List.forall_mem_cons.mp hdots
    rw [leads_cons] at hleads
    obtain ⟨child, hchild, hleads⟩ := Option.bind_eq_some_iff.mp hleads
    have hmem : name ∈ store.childNames dir :=
      store.mem_childNames_iff.mpr ⟨by rw [hchild]; rfl, hdot⟩
    obtain ⟨child', first, hchild', hfirst, hlt, hle, -⟩ :=
      hshape.exists_node_of_mem_childNames hmem
    obtain rfl := Option.some.inj (hchild.symm.trans hchild')
    have hdir : node.isDir = true := by
      obtain ⟨d, hd⟩ := Option.isSome_iff_exists.mp (dir?_isSome_of_child? hchild)
      obtain rfl := Option.some.inj (hnode.symm.trans ((store.dir?_eq_some_iff).mp hd))
      rfl
    have hself : Met.behind? (name :: rest) ([], node) = none := rfl
    obtain ⟨depth, rfl⟩ : ∃ n, depth = n + 1 := ⟨depth - 1, by omega⟩
    have hsame : store.below depth child.inode = store.below (depth + 1) child.inode :=
      below_eq_below hshape (by omega) (by omega)
    rw [atOrBelow, List.filterMap_cons_none hself, if_pos hdir,
      filterMap_below_cons hshape hdot hchild hfirst, atOrBelow, hsame]
    exact ih (by omega) hrest hfirst hleads

end Store

namespace View

variable {view : View} {store : Store} {dir : List String}

section

variable {m : Type → Type} [Monad m] [LawfulMonad m]

theorem forM_flatMap {α β : Type} (l : List α) (f : α → List β) (action : β → m Unit) :
    forM (l.flatMap f) action = forM l fun a => forM (f a) action := by
  induction l with
  | nil => rfl
  | cons a l ih => rw [List.flatMap_cons, List.forM_append, List.forM_cons, ih]

theorem forM_filterMap {α β : Type} (l : List α) (f : α → Option β) (action : β → m Unit) :
    forM (l.filterMap f) action = forM l fun a => (f a).elim (pure ()) action := by
  induction l with
  | nil => rfl
  | cons a l ih =>
    rw [List.filterMap_cons, List.forM_cons, ← ih]
    cases f a with
    | none => rw [Option.elim_none, pure_bind]
    | some b => rw [Option.elim_some, List.forM_cons]

theorem walkBelow_eq (store : Store) (base : String) (visit : Visit → m Unit) (depth : Nat)
    (path : String) (dir : Nat) :
    walkBelow store base visit depth path dir =
      forM (visitsBelow store base depth path dir) visit := by
  induction depth generalizing path dir with
  | zero => rfl
  | succ depth ih =>
    rw [walkBelow, visitsBelow, forM_flatMap]
    congr 1
    funext name
    split
    · rfl
    · split
      · rfl
      · rw [List.forM_cons]
        split <;> simp [ih]

/-- A walk shows the visits in their order. -/
theorem walk_eq (view : View) (store : Store) (visit : Visit → m Unit) :
    view.walk store visit = forM (view.visits store) visit := by
  unfold walk visits
  cases store.node? view.root with
  | none => rfl
  | some node => simp only [List.forM_cons, walkBelow_eq]

end

theorem run_keep (describe : Visit → Option String) (visits : List Visit) (found : List String) :
    ((forM visits (keep describe)).run found).2 = found ++ visits.filterMap describe := by
  induction visits generalizing found with
  | nil => exact (List.append_nil found).symm
  | cons shown rest ih =>
    rw [List.forM_cons]
    refine (ih (found ++ (describe shown).toList)).trans ?_
    cases hshown : describe shown <;> simp [hshown]

/-- What is collected is what there is to say of each visit. -/
theorem collect_eq (view : View) (store : Store) (describe : Visit → Option String) :
    view.collect store describe = (view.visits store).filterMap describe := by
  unfold collect
  rw [walk_eq, run_keep, List.nil_append]

/-- A walk shows what is met, with the names joined. -/
theorem visitsBelow_eq (hshape : store.TidyShape) (base : String) {front : List String}
    (hfront : Path.IsKey front) (depth inode : Nat) :
    visitsBelow store base depth (Path.ofKey front) inode =
      (store.below depth inode).map fun met =>
        (Path.ofKey (front ++ met.1), met.2.entry.rebased base) := by
  induction depth generalizing front inode with
  | zero => rfl
  | succ depth ih =>
    rw [visitsBelow, Store.below, List.map_flatMap]
    refine List.flatMap_congr fun name hname => ?_
    obtain ⟨child, node, hchild, hnode, -, -, hdot⟩ := hshape.exists_node_of_mem_childNames hname
    have htidy := hshape.isTidyName_of_mem_childNames hname
    have hnext : Path.IsKey (front ++ [name]) :=
      Path.isKey_append.mpr ⟨hfront, Path.isKey_singleton.mpr ⟨htidy, hdot⟩⟩
    have hbelow := ih hnext child.inode
    simp only [hchild, hnode, Path.join_ofKey_name hfront htidy hdot, hbelow]
    cases node <;> simp [Met.under, Node.isDir]

/-- A walk shows what is met at and below the root of the view. -/
theorem visits_eq (hshape : store.TidyShape) {node : Node}
    (hnode : store.node? view.root = some node) (hdir : node.isDir = true) :
    view.visits store = (store.atOrBelow store.nodes.length view.root node).map
      fun met => (Path.ofKey met.1, met.2.entry.rebased (view.base store)) := by
  have hbelow := visitsBelow_eq hshape (view.base store) Path.isKey_nil
    store.nodes.length view.root
  rw [Path.ofKey_nil] at hbelow
  unfold visits
  simp only [Store.atOrBelow, hnode, hbelow, if_pos hdir, List.map_cons, Path.ofKey_nil,
    List.nil_append]

/-- A walk of the view of a directory is the part at and below it of a walk of the whole. -/
theorem IsAt.visits_eq (h : view.IsAt store dir) :
    view.visits store =
      (View.whole.visits store).filterMap (Visit.seenFrom? (Path.ofKey dir)) := by
  obtain ⟨d, hd⟩ := Option.isSome_iff_exists.mp h.isDir
  obtain ⟨top, htop⟩ := Option.isSome_iff_exists.mp h.shape.root
  have hnode := (store.dir?_eq_some_iff).mp hd
  have hroot : store.node? View.whole.root = some (.dir top) := (store.dir?_eq_some_iff).mp htop
  have hdirDots : ∀ s ∈ dir, s ≠ "." := fun s hs => (h.key s hs).2
  have hbounded : store.nodes.length ≤ View.whole.root + store.nodes.length := by omega
  rw [View.visits_eq h.shape hnode rfl, View.visits_eq h.shape hroot rfl,
    ← Store.filterMap_atOrBelow h.shape.toShape hbounded hdirDots hroot h.leads hnode,
    List.map_filterMap, List.filterMap_map]
  refine List.filterMap_congr fun ⟨key, node⟩ hmet => ?_
  obtain ⟨hdots, inode, hleads, hinode⟩ : (∀ s ∈ key, s ≠ ".") ∧
      ∃ inode, store.leads Store.rootInode key = some inode ∧ store.node? inode = some node :=
    Store.leads_of_mem_atOrBelow hroot hmet
  have hkey := (h.shape.pathOf_leads hdots hleads).1
  simp only [Function.comp_apply, Met.behind?, Visit.seenFrom?, Option.map_map]
  cases hbehind : key.dropPrefix? dir with
  | some rest =>
    obtain ⟨front, rfl, hfront⟩ := List.dropPrefix?_eq_some_iff.mp hbehind
    obtain rfl := eq_of_beq hfront
    obtain ⟨-, hrestDots⟩ := List.forall_mem_append.mp hdots
    rw [h.leads_append] at hleads
    rw [Path.stripBase_ofKey h.key (Path.isKey_append.mp hkey).2, Option.bind_some,
      h.rebased_seenFrom? hrestDots hleads hinode]
    rfl
  | none =>
    have houtside : Path.stripBase (Path.ofKey dir) (Path.ofKey key) = none := by
      by_contra hinside
      obtain ⟨rest, rfl⟩ :=
        Path.isPrefix_of_stripBase h.key hkey (Option.isSome_iff_ne_none.mpr hinside)
      rw [List.dropPrefix?_append_of_beq rest (by simp)] at hbehind
      cases hbehind
    rw [houtside]
    rfl

/-- A walk of the view of a directory shows what a walk of the whole shows at and below it, to any
visitor. -/
theorem IsAt.walk_eq {m : Type → Type} [Monad m] [LawfulMonad m] (h : view.IsAt store dir)
    (visit : Visit → m Unit) : view.walk store visit =
      View.whole.walk store fun shown =>
        (shown.seenFrom? (Path.ofKey dir)).elim (pure ()) visit := by
  rw [View.walk_eq, View.walk_eq, h.visits_eq, forM_filterMap]

end View

end VirtualFs.Tree
