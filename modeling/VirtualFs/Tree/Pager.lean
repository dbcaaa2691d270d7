import VirtualFs.Page
import VirtualFs.Tree.Store

namespace VirtualFs.Tree

/-- A reading of a directory: the names still to come, which were taken when it started. Entry paths
are relative to `base`. -/
structure Pager where
  dir : Nat
  base : String
  names : List String
  deriving Repr, DecidableEq

namespace Pager

/-- Starts to read a directory. -/
def start (store : Store) (dir : Nat) (base : String) : Pager :=
  ⟨dir, base, store.childNames dir⟩

/-- The entry under a name now, as seen from the base. -/
def entry? (pager : Pager) (store : Store) (name : String) : Option Entry :=
  ((store.child? pager.dir name).bind fun child => store.node? child.inode).map
    fun node => node.entry.rebased pager.base

/-- Up to `limit` entries from the front of `names`, and the names after them. Names without a
node are passed over. -/
def take (pager : Pager) (store : Store) : Nat → List String → List Entry × List String
  | 0, names => ([], names)
  | _, [] => ([], [])
  | limit + 1, name :: names =>
    match pager.entry? store name with
    | none => pager.take store (limit + 1) names
    | some entry =>
      let (entries, rest) := pager.take store limit names
      (entry :: entries, rest)

/-- The next entry. -/
def next (pager : Pager) (store : Store) : Option Entry × Pager :=
  let (entries, rest) := pager.take store 1 pager.names
  (entries.head?, { pager with names := rest })

/-- The next `n` entries, or all that are left when `n` is not positive. A positive `n` fails when
nothing is left. -/
def nextPage (pager : Pager) (store : Store) (n : Int) : Except FsError Page × Pager :=
  if n ≤ 0 then
    let (entries, rest) := pager.take store pager.names.length pager.names
    (.ok ⟨entries, true⟩, { pager with names := rest })
  else
    let (entries, rest) := pager.take store n.toNat pager.names
    if entries = [] then (.error .endOfDirectory, { pager with names := rest })
    else (.ok ⟨entries, decide (entries.length < n.toNat)⟩, { pager with names := rest })

/-- A page with room for all names has the entries of all of them. -/
theorem take_of_length_le (pager : Pager) (store : Store) {names : List String} {limit : Nat}
    (hlimit : names.length ≤ limit) :
    pager.take store limit names = (names.filterMap (pager.entry? store), []) := by
  induction names generalizing limit with
  | nil => cases limit <;> rfl
  | cons name rest ih =>
    rw [List.length_cons] at hlimit
    obtain ⟨limit, rfl⟩ : ∃ n, limit = n + 1 := ⟨limit - 1, by omega⟩
    replace hlimit := Nat.le_of_succ_le_succ hlimit
    rw [take, List.filterMap_cons]
    cases hentry : pager.entry? store name with
    | none => exact ih (Nat.le_succ_of_le hlimit)
    | some entry => simp only [ih hlimit]

/-- A page without a positive size has everything that is left. -/
theorem nextPage_rest (pager : Pager) (store : Store) :
    (pager.nextPage store (-1)).1 = .ok ⟨pager.names.filterMap (pager.entry? store), true⟩ := by
  simp [nextPage, take_of_length_le pager store (Nat.le_refl _)]

end Pager

end VirtualFs.Tree
