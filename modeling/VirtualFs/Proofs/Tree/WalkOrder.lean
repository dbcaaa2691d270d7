import Mathlib.Data.List.Lex
import VirtualFs.Proofs.Tree.Lookups
import VirtualFs.Proofs.Tree.SubView

namespace VirtualFs

/-- The order of a walk. Names are ordered by their bytes, and what names lead to comes before what
longer names lead to from there. -/
def Path.Precedes : List String → List String → Prop :=
  List.Lex fun a b => Text.before a b = true

theorem Path.precedes_irrefl (key : List String) : ¬ Path.Precedes key key :=
  List.lex_irrefl (fun name => by simp) key

namespace Tree

namespace Store

variable {store : Store} {dir depth inode : Nat} {key : List String} {node : Node}

theorem way_ofKey (hkey : Path.IsKey key) : way (Path.ofKey key) = key := by
  by_cases hnil : key = []
  · subst hnil
    decide
  · rw [Path.ofKey_of_ne_nil hnil, way_joinAll hkey.tidyNames, moving, List.filter_eq_self]
    intro s hs
    simpa using (hkey s hs).2

/-- What is met at and below the child of this name, seen from the child. -/
def behind (store : Store) (depth dir : Nat) (name : String) : List Met :=
  match store.child? dir name with
  | none => []
  | some child =>
    match store.node? child.inode with
    | none => []
    | some node => store.atOrBelow depth child.inode node

theorem below_succ (depth dir : Nat) : store.below (depth + 1) dir =
    (store.childNames dir).flatMap fun name =>
      (store.behind depth dir name).map (Met.under name) := by
  refine List.flatMap_congr fun name _ => ?_
  cases hchild : store.child? dir name with
  | none => simp only [behind, hchild, List.map_nil]
  | some child =>
    cases hnode : store.node? child.inode with
    | none => simp only [behind, hchild, hnode, List.map_nil]
    | some node => simp only [behind, hchild, hnode, atOrBelow]

theorem ne_nil_of_mem_below {met : Met} (hmet : met ∈ store.below depth dir) : met.1 ≠ [] := by
  cases depth with
  | zero => cases hmet
  | succ depth =>
    rw [below_succ, List.mem_flatMap] at hmet
    obtain ⟨name, -, hmet⟩ := hmet
    obtain ⟨inner, -, rfl⟩ := List.mem_map.mp hmet
    exact List.cons_ne_nil _ _

/-- A node comes before the nodes below it. -/
theorem atOrBelow_ascending_of_below {first : Node}
    (hbelow : (store.below depth dir).Pairwise fun met met' => Path.Precedes met.1 met'.1) :
    (store.atOrBelow depth dir first).Pairwise fun met met' => Path.Precedes met.1 met'.1 := by
  unfold atOrBelow
  split
  · refine List.pairwise_cons.mpr ⟨fun met hmet => ?_, hbelow⟩
    obtain ⟨name, rest, hkey⟩ := List.exists_cons_of_ne_nil (ne_nil_of_mem_below hmet)
    rw [hkey]
    exact .nil
  · exact List.pairwise_singleton _ _

/-- The nodes below a directory are met in the order of a walk. -/
theorem below_ascending (hshape : store.Shape) (depth dir : Nat) :
    (store.below depth dir).Pairwise fun met met' => Path.Precedes met.1 met'.1 := by
  induction depth generalizing dir with
  | zero => exact .nil
  | succ depth ih =>
    rw [below_succ, List.pairwise_flatMap]
    -- Behind one child all ways start with its name, and behind two the names of both decide.
    constructor
    · intro name _
      rw [List.pairwise_map]
      refine List.Pairwise.imp (fun hprecedes => List.Lex.cons hprecedes) ?_
      unfold behind
      split
      · exact .nil
      · split
        · exact .nil
        · exact atOrBelow_ascending_of_below (ih _)
    · refine (hshape.sorted_childNames dir).imp fun hbefore met hmet met' hmet' => ?_
      obtain ⟨inner, -, rfl⟩ := List.mem_map.mp hmet
      obtain ⟨inner', -, rfl⟩ := List.mem_map.mp hmet'
      exact .rel hbefore

/-- Whatever names lead to from a directory is met below it. -/
theorem mem_below_of_leads (hshape : store.Shape) (hdepth : store.nodes.length ≤ dir + depth)
    (hdots : ∀ s ∈ key, s ≠ ".") (hne : key ≠ []) (hleads : store.leads dir key = some inode)
    (hnode : store.node? inode = some node) : (key, node) ∈ store.below depth dir := by
  induction key generalizing dir depth with
  | nil => exact absurd rfl hne
  | cons name rest ih =>
    obtain ⟨hdot, hrestDots⟩ := List.forall_mem_cons.mp hdots
    rw [leads_cons] at hleads
    obtain ⟨child, hchild, hrest⟩ := Option.bind_eq_some_iff.mp hleads
    have hname : name ∈ store.childNames dir :=
      store.mem_childNames_iff.mpr ⟨by rw [hchild]; rfl, hdot⟩
    obtain ⟨child', first, hchild', hfirst, hlt, hle, -⟩ :=
      hshape.exists_node_of_mem_childNames hname
    obtain rfl := Option.some.inj (hchild.symm.trans hchild')
    -- The child is younger than its directory, so there are levels enough left for what is below.
    obtain ⟨depth, rfl⟩ : ∃ n, depth = n + 1 := ⟨depth - 1, by omega⟩
    rw [below_succ, List.mem_flatMap]
    refine ⟨name, hname, List.mem_map.mpr ⟨(rest, node), ?_, rfl⟩⟩
    simp only [behind, hchild, hfirst]
    by_cases hnil : rest = []
    · subst hnil
      obtain rfl := Option.some.inj hrest
      obtain rfl := Option.some.inj (hfirst.symm.trans hnode)
      exact List.mem_cons_self
    · obtain ⟨d, hd⟩ := Option.isSome_iff_exists.mp (dir?_isSome_of_leads hrest hnil)
      have hisDir : first.isDir = true := by
        obtain rfl := Option.some.inj (hfirst.symm.trans ((store.dir?_eq_some_iff).mp hd))
        rfl
      rw [atOrBelow, if_pos hisDir]
      exact List.mem_cons_of_mem _ (ih (by omega) hrestDots hnil hrest)

/-- What is met at and below a directory is exactly what names lead to. -/
theorem mem_atOrBelow_iff (hshape : store.Shape) (hdepth : store.nodes.length ≤ dir + depth)
    {d : Directory} (hdir : store.dir? dir = some d) :
    (key, node) ∈ store.atOrBelow depth dir (.dir d) ↔ (∀ s ∈ key, s ≠ ".") ∧
      ∃ inode, store.leads dir key = some inode ∧ store.node? inode = some node := by
  have hself := (store.dir?_eq_some_iff).mp hdir
  refine ⟨leads_of_mem_atOrBelow hself, ?_⟩
  rintro ⟨hdots, inode, hleads, hnode⟩
  by_cases hnil : key = []
  · subst hnil
    obtain rfl := Option.some.inj hleads
    obtain rfl := Option.some.inj (hself.symm.trans hnode)
    exact List.mem_cons_self
  · exact List.mem_cons_of_mem _ (mem_below_of_leads hshape hdepth hdots hnil hleads hnode)

end Store

end Tree

end VirtualFs
