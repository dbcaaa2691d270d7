import VirtualFs.Proofs.Tree.HandleStep
import VirtualFs.Proofs.Tree.Making

namespace VirtualFs.Tree

namespace Store

variable {store grown : Store} {clock : Clock} {dir parent inode i : Nat} {name path : String}
  {mode : FileMode} {c : Cell}

/-- Making directories leaves all files alone. -/
theorem cell?_mkdirAll (hdir : (store.dir? dir).isSome) (clock : Clock) (path : String)
    (mode : FileMode) (i : Nat) :
    (store.mkdirAll clock dir path mode).2.cell? i = store.cell? i := by
  unfold mkdirAll
  split
  · rfl
  · next segments _ => exact cell?_mkdirAlong hdir clock mode segments i

theorem cell?_mkdir (hdir : (store.dir? dir).isSome) (clock : Clock) (path : String)
    (mode : FileMode) (i : Nat) :
    (store.mkdir clock dir path mode).2.cell? i = store.cell? i := by
  unfold mkdir
  split
  · rfl
  split
  · rfl
  split
  · rfl
  next name _ =>
  dsimp only
  split
  · rfl
  next parent hparent =>
  refine cell?_mkdirIn ?_ clock name mode i
  split at hparent
  · obtain rfl := Except.ok.inj hparent
    exact hdir
  · exact dir?_of_resolveDir hparent

theorem cell?_findOrCreate (hparent : (store.dir? parent).isSome) (clock : Clock) (name : String)
    (mode : FileMode) (hcell : store.cell? i = some c) :
    (store.findOrCreate clock parent name mode).2.cell? i = some c := by
  unfold findOrCreate
  split
  · exact hcell
  dsimp only
  split
  · rwa [cell?_reserve]
  · exact cell?_addNode_of_eq_some hparent hcell

/-- Making a node leaves the files alone that were there. -/
theorem cell?_createAt (hdir : (store.dir? dir).isSome) (clock : Clock) (path : String)
    (mode : FileMode) (hcell : store.cell? i = some c) :
    (store.createAt clock dir path mode).2.cell? i = some c := by
  unfold createAt
  split
  · rwa [cell?_mkdirAll hdir]
  split
  · exact hcell
  next segments _ =>
  split
  · exact hcell
  next name _ =>
  dsimp only
  split
  · next heq =>
    split at heq
    · cases heq
    · have hparents := cell?_mkdirAll hdir clock (Path.joinAll segments.dropLast) mode i
      rw [heq] at hparents
      rwa [hparents]
  · next parent middle heq =>
    split at heq
    · obtain ⟨hparent, rfl⟩ := Prod.mk.inj heq
      obtain rfl := Except.ok.inj hparent
      exact cell?_findOrCreate hdir clock name mode hcell
    · have hparents := cell?_mkdirAll hdir clock (Path.joinAll segments.dropLast) mode i
      rw [heq] at hparents
      exact cell?_findOrCreate (dir?_of_mkdirAll hdir heq) clock name mode (hparents.trans hcell)

end Store

namespace Handle

variable {store : Store} {i : Nat} {c : Cell}

/-- The handle is open on the file `inode` and was opened so as to empty it. -/
def Empties (handle : Handle) (inode : Nat) : Prop :=
  handle.target = .file inode ∧ handle.flags.has .trunc = true

instance (handle : Handle) (inode : Nat) : Decidable (handle.Empties inode) :=
  inferInstanceAs (Decidable (_ ∧ _))

/-- What opening a node makes of a file. -/
theorem cell?_onNode (hcell : store.cell? i = some c) (inode : Nat) (flags : OpenFlags)
    (path base : String) :
    (onNode store inode flags path base).2.cell? i =
      some (if (onNode store inode flags path base).1.Empties i then c.truncate else c) := by
  cases hdir : store.dir? inode with
  | some d =>
    rw [onNode_of_dir hdir]
    simp [Empties, onDir, hcell]
  | none =>
    unfold onNode
    rw [hdir]
    simp only [openFile, Empties, Target.file.injEq]
    cases flags.has .trunc with
    | false => simp [hcell]
    | true =>
      simp only [if_true, Store.cell?_modifyCell, hcell, and_true]
      split <;> rfl

/-- On a file a handle keeps the flags that it was opened with. -/
theorem flags_onNode {inode : Nat} {flags : OpenFlags} {path base : String}
    (htarget : (onNode store inode flags path base).1.target = .file i) :
    (onNode store inode flags path base).1.flags = flags := by
  unfold onNode at htarget ⊢
  split at htarget
  · cases htarget
  · rfl

end Handle

namespace View

variable {view : View} {store opened : Store} {clock : Clock} {path : String} {flags : OpenFlags}
  {mode : FileMode} {handle : Handle} {e : FsError} {i : Nat} {c : Cell}

/-- An open that fails changes no file. -/
theorem cell?_openNode_of_error (hroot : (store.dir? view.root).isSome)
    (hcell : store.cell? i = some c)
    (hopen : view.openNode store clock path flags mode = (.error e, opened)) :
    opened.cell? i = some c := by
  unfold openNode at hopen
  split at hopen
  · rwa [← (Prod.mk.inj hopen).2]
  next cleaned _ =>
  split at hopen
  · cases hopen
  split at hopen
  · have hmade := Store.cell?_createAt hroot clock cleaned mode hcell
    split at hopen
    · next heq =>
      rw [heq] at hmade
      rwa [← (Prod.mk.inj hopen).2]
    · cases hopen
  · rwa [← (Prod.mk.inj hopen).2]

/-- An open that succeeds empties the file if it is told to, and changes no file else. -/
theorem cell?_openNode_of_ok (hroot : (store.dir? view.root).isSome)
    (hcell : store.cell? i = some c)
    (hopen : view.openNode store clock path flags mode = (.ok handle, opened)) :
    opened.cell? i = some (if handle.Empties i then c.truncate else c) := by
  obtain ⟨cleaned, grown, inode, -, hopens, honNode⟩ := openNode_eq_ok hopen
  have hkept : grown.cell? i = some c := by
    cases hopens with
    | found => exact hcell
    | made _ _ _ hmade =>
      have hcell' := Store.cell?_createAt hroot clock cleaned mode hcell
      rwa [hmade] at hcell'
  have hafter := Handle.cell?_onNode hkept inode flags cleaned (view.base grown)
  rwa [honNode] at hafter

theorem flags_of_openNode
    (hopen : view.openNode store clock path flags mode = (.ok handle, opened))
    (htarget : handle.target = .file i) : handle.flags = flags := by
  obtain ⟨cleaned, grown, inode, -, -, honNode⟩ := openNode_eq_ok hopen
  have hkept : (Handle.onNode grown inode flags cleaned (view.base grown)).1.target = .file i →
      (Handle.onNode grown inode flags cleaned (view.base grown)).1.flags = flags :=
    Handle.flags_onNode
  rw [honNode] at hkept
  exact hkept htarget

end View

namespace Session

variable {session : Session} {clock : Clock} {command : Command} {index : Nat} {later : Handle}

/-- The handle that an operation opens. -/
def opened? (session : Session) (clock : Clock) : Command → Option Handle
  | .view index command =>
    (session.views[index]?).bind fun view => view.opened? session.store clock command
  | _ => none

/-- A tag on the outcome of an open does not matter. -/
theorem store_takeHandle_tag (session : Session) (operation : Operation) (path : String)
    (outcome : Except FsError Handle × Store) :
    (session.takeHandle (FsError.tag operation path outcome.1, outcome.2)).2.store = outcome.2 := by
  obtain ⟨e | handle, store⟩ := outcome <;> rfl

/-- After a step a handle is one that there was, open as it was opened, or the one that the step has
opened. -/
theorem exists_handle_or_opened
    (hget : (session.step clock command).2.handles[index]? = some later) :
    (∃ handle, session.handles[index]? = some handle ∧ later.target = handle.target ∧
        later.flags = handle.flags) ∨
      session.opened? clock command = some later := by
  cases hold : session.handles[index]? with
  | some handle =>
    obtain ⟨moved, hmoved, _, _, _, rfl⟩ := movedOn_step hold clock command
    rw [hget] at hmoved
    obtain rfl := Option.some.inj hmoved
    exact .inl ⟨handle, rfl, rfl, rfl⟩
  | none =>
    right
    have hbound := List.getElem?_eq_none_iff.mp hold
    cases command with
    | view i command =>
      cases hview : session.views[i]? with
      | none =>
        simp only [step, hview, hold] at hget
        cases hget
      | some view =>
        obtain ⟨taken, htaken, hopened⟩ := handles_viewStep_eq session clock view command
        simp only [step, hview, htaken] at hget
        rw [List.getElem?_append_right hbound] at hget
        rcases hopened with rfl | ⟨handle, rfl, hopened⟩
        · cases hget
        · obtain rfl := List.mem_singleton.mp (List.mem_of_getElem? hget)
          simp only [opened?, hview, Option.bind_some, hopened]
    | handle i command =>
      cases hother : session.handles[i]? with
      | none =>
        simp only [step, hother, hold] at hget
        cases hget
      | some other =>
        rw [step_handle hother, List.getElem?_eq_none (by simpa using hbound)] at hget
        cases hget
    | pager i command =>
      have hsame : (session.step clock (.pager i command)).2.handles = session.handles := by
        simp only [step]
        split
        · cases command <;> rfl
        · rfl
      rw [hsame, hold] at hget
      cases hget

end Session

end VirtualFs.Tree
