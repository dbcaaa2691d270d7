import VirtualFs.Proofs.Tree.Nodes
import VirtualFs.Tree.Resolve

namespace VirtualFs.Tree.Store

/-- The node that the names lead to from a directory. -/
def leads (store : Store) (dir : Nat) : List String → Option Nat
  | [] => some dir
  | name :: rest => (store.child? dir name).bind fun child => store.leads child.inode rest

/-- A proper part of the names leads to something that is no directory. -/
def Blocked (store : Store) (dir : Nat) (names : List String) : Prop :=
  ∃ front rest inode, names = front ++ rest ∧ rest ≠ [] ∧
    store.leads dir front = some inode ∧ store.dir? inode = none

variable {store store' : Store} {dir inode root : Nat} {names front back : List String}

@[simp] theorem leads_nil : store.leads dir [] = some dir := rfl

theorem leads_cons (name : String) (rest : List String) :
    store.leads dir (name :: rest) =
      (store.child? dir name).bind fun child => store.leads child.inode rest := rfl

theorem leads_append :
    store.leads dir (front ++ back) =
      (store.leads dir front).bind fun inode => store.leads inode back := by
  induction front generalizing dir with
  | nil => rfl
  | cons name rest ih =>
    rw [List.cons_append, leads_cons, leads_cons]
    cases store.child? dir name with
    | none => rfl
    | some child => exact ih

/-- The last name leads on from a directory. -/
theorem leads_concat (name : String) :
    store.leads dir (front ++ [name]) =
      (store.leads dir front).bind fun parent => (store.child? parent name).map Child.inode := by
  rw [leads_append]
  congr
  funext parent
  rw [leads_cons]
  cases store.child? parent name <;> rfl

theorem leads_concat_of_leads {parent : Nat} (hleads : store.leads dir front = some parent)
    (name : String) :
    store.leads dir (front ++ [name]) = (store.child? parent name).map Child.inode := by
  rw [leads_concat, hleads, Option.bind_some]

/-- Only directories have children. -/
theorem dir?_isSome_of_child? {name : String} {child : Child}
    (hchild : store.child? dir name = some child) : (store.dir? dir).isSome := by
  unfold child? at hchild
  cases hdir : store.dir? dir with
  | none => simp [hdir] at hchild
  | some d => rfl

/-- What leads on from a node leads on from a directory. -/
theorem dir?_isSome_of_leads (hleads : store.leads dir names = some inode) (hne : names ≠ []) :
    (store.dir? dir).isSome := by
  cases names with
  | nil => exact absurd rfl hne
  | cons name rest =>
    rw [leads_cons] at hleads
    obtain ⟨child, hchild, _⟩ := Option.bind_eq_some_iff.mp hleads
    exact dir?_isSome_of_child? hchild

/-- Stores with the same directories lead to the same nodes. -/
theorem leads_congr (hdirs : ∀ i, store'.dir? i = store.dir? i) :
    store'.leads dir names = store.leads dir names := by
  induction names generalizing dir with
  | nil => rfl
  | cons name rest ih =>
    have hchild : store'.child? dir name = store.child? dir name := by
      simp only [child?, hdirs]
    rw [leads_cons, leads_cons, hchild]
    congr
    funext child
    exact ih

/-- New children take no way from those that were there. -/
theorem leads_mono (hchildren : ∀ i name child, store.child? i name = some child →
    store'.child? i name = some child) (hleads : store.leads dir names = some inode) :
    store'.leads dir names = some inode := by
  induction names generalizing dir with
  | nil => exact hleads
  | cons name rest ih =>
    rw [leads_cons] at hleads ⊢
    obtain ⟨child, hchild, hrest⟩ := Option.bind_eq_some_iff.mp hleads
    rw [hchildren dir name child hchild]
    exact ih hrest

/-- The descent arrives exactly where the names lead. -/
theorem descend_eq_ok_iff : store.descend dir names = .ok inode ↔
    store.leads dir names = some inode := by
  induction names generalizing dir with
  | nil => simp [descend]
  | cons name rest ih =>
    rw [leads_cons]
    unfold descend
    cases hchild : store.child? dir name with
    | none => simp
    | some child =>
      simp only [Option.bind_some]
      by_cases hrest : rest = []
      · subst hrest
        simp
      · rw [if_neg hrest]
        cases hdir : store.dir? child.inode with
        | some d => exact ih
        | none =>
          constructor
          · intro h
            cases h
          · intro hleads
            have hsome := dir?_isSome_of_leads hleads hrest
            simp [hdir] at hsome

theorem not_blocked_nil : ¬ store.Blocked dir [] := by
  rintro ⟨front, rest, inode, hnames, hrest, _⟩
  exact hrest (List.append_eq_nil_iff.mp hnames.symm).2

/-- Behind a child the way is blocked if it is from the child on. -/
theorem blocked_cons_of_child? {name : String} {child : Child} {rest : List String}
    (hchild : store.child? dir name = some child) :
    store.Blocked dir (name :: rest) ↔ store.Blocked child.inode rest := by
  constructor
  · rintro ⟨front, back, inode, hnames, hback, hleads, hnone⟩
    cases front with
    | nil =>
      have hdir := dir?_isSome_of_child? hchild
      simp only [leads_nil, Option.some.injEq] at hleads
      simp [hleads, hnone] at hdir
    | cons first front =>
      simp only [List.cons_append, List.cons.injEq] at hnames
      obtain ⟨rfl, rfl⟩ := hnames
      rw [leads_cons, hchild] at hleads
      exact ⟨front, back, inode, rfl, hback, hleads, hnone⟩
  · rintro ⟨front, back, inode, rfl, hback, hleads, hnone⟩
    refine ⟨name :: front, back, inode, rfl, hback, ?_, hnone⟩
    rw [leads_cons, hchild]
    exact hleads

/-- A name that is missing in a directory does not block the way. -/
theorem not_blocked_of_child?_eq_none {name : String} {rest : List String}
    (hdir : (store.dir? dir).isSome) (hchild : store.child? dir name = none) :
    ¬ store.Blocked dir (name :: rest) := by
  rintro ⟨front, back, inode, hnames, hback, hleads, hnone⟩
  cases front with
  | nil =>
    simp only [leads_nil, Option.some.injEq] at hleads
    simp [hleads, hnone] at hdir
  | cons first front =>
    simp only [List.cons_append, List.cons.injEq] at hnames
    obtain ⟨rfl, _⟩ := hnames
    rw [leads_cons, hchild] at hleads
    cases hleads

/-- A descent that fails met a file in the way, or else found something missing. -/
theorem kind_of_descend {e : FsError} (hdir : (store.dir? dir).isSome)
    (hfail : store.descend dir names = .error e) :
    store.Blocked dir names ∧ e.kind = .notADirectory ∨
      ¬ store.Blocked dir names ∧ e.kind = .notFound := by
  induction names generalizing dir with
  | nil => cases hfail
  | cons name rest ih =>
    unfold descend at hfail
    cases hchild : store.child? dir name with
    | none =>
      rw [hchild] at hfail
      simp only [Except.error.injEq] at hfail
      subst hfail
      exact .inr ⟨not_blocked_of_child?_eq_none hdir hchild, rfl⟩
    | some child =>
      rw [hchild] at hfail
      simp only at hfail
      rw [blocked_cons_of_child? hchild]
      by_cases hrest : rest = []
      · rw [if_pos hrest] at hfail
        cases hfail
      · rw [if_neg hrest] at hfail
        cases hinner : store.dir? child.inode with
        | some d =>
          rw [hinner] at hfail
          exact ih (by simp [hinner]) hfail
        | none =>
          rw [hinner] at hfail
          simp only [Except.error.injEq] at hfail
          subst hfail
          exact .inl ⟨⟨[], rest, child.inode, rfl, hrest, rfl, hinner⟩, rfl⟩

/-- From a directory on the way the descent goes on as if it had started there. -/
theorem descend_append (hleads : store.leads dir front = some inode)
    (hinode : (store.dir? inode).isSome) :
    store.descend dir (front ++ back) = store.descend inode back := by
  induction front generalizing dir with
  | nil =>
    simp only [leads_nil, Option.some.injEq] at hleads
    rw [List.nil_append, hleads]
  | cons name rest ih =>
    rw [leads_cons] at hleads
    obtain ⟨child, hchild, hrest⟩ := Option.bind_eq_some_iff.mp hleads
    rw [List.cons_append, descend, hchild]
    simp only
    have hchildDir : (store.dir? child.inode).isSome := by
      cases rest with
      | nil =>
        simp only [leads_nil, Option.some.injEq] at hrest
        rwa [hrest]
      | cons first more => exact dir?_isSome_of_leads hrest (by simp)
    by_cases hend : rest ++ back = []
    · obtain ⟨rfl, rfl⟩ := List.append_eq_nil_iff.mp hend
      simp only [leads_nil, Option.some.injEq] at hrest
      rw [if_pos hend, hrest]
      rfl
    · rw [if_neg hend]
      obtain ⟨d, hd⟩ := Option.isSome_iff_exists.mp hchildDir
      rw [hd]
      exact ih hrest

theorem resolve_eq_ok_iff {path : String} : store.resolve root path = .ok inode ↔
    ∃ segments, store.rules.split path = .ok segments ∧
      store.leads root (moving segments) = some inode := by
  unfold resolve
  split
  · next segments hsplit =>
    rw [descend_eq_ok_iff]
    simp [hsplit]
  · next hsplit => simp [hsplit]

theorem resolve_of_resolveDir {path : String} (hfound : store.resolveDir root path = .ok inode) :
    store.resolve root path = .ok inode := by
  unfold resolveDir at hfound
  split at hfound
  · next heq =>
    split at hfound
    · rw [heq, hfound]
    · cases hfound
  · cases hfound

/-- Stores with the same directories and rules find the same nodes. -/
theorem resolve_congr {path : String} (hdirs : ∀ i, store'.dir? i = store.dir? i)
    (hrules : store'.rules = store.rules) (hfound : store.resolve root path = .ok inode) :
    store'.resolve root path = .ok inode := by
  rw [resolve_eq_ok_iff] at hfound ⊢
  obtain ⟨segments, hsplit, hleads⟩ := hfound
  exact ⟨segments, by rwa [hrules], by rwa [leads_congr hdirs]⟩

end VirtualFs.Tree.Store
