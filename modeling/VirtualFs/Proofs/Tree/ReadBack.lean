import VirtualFs.Proofs.Content.Cell
import VirtualFs.Proofs.Path.Trimming
import VirtualFs.Proofs.Tree.Growth

namespace VirtualFs.Tree

namespace Store

variable {store : Store} {dir inode : Nat} {path name : String}

theorem ne_dot_of_mem_way : ∀ s ∈ way path, s ≠ "." := by
  intro s hs
  simpa using (List.mem_filter.mp hs).2

/-- Cleaning a path once more leads no further. -/
theorem length_way_cleaned_le (path : String) :
    (way (Path.cleaned path)).length ≤ (way path).length :=
  Path.length_filter_segments_cleaned_le (Path.cleaned path)

/-- Nor does joining its parents. -/
theorem length_way_joinAll_parents_le (path : String) :
    (way (Path.joinAll (parents path))).length ≤ (moving (parents path)).length := by
  have hparents : ∀ s ∈ parents path, Path.IsSegment s := fun s hs =>
    Path.isSegment_of_mem_segments (List.dropLast_subset _ hs)
  have hle := Path.length_filter_segments_cleaned_le (Path.joinAll (parents path))
  rwa [Path.segments_joinAll hparents] at hle

theorem way_eq_parents_concat (hlast : (Path.segments (Path.cleaned path)).getLast? = some name)
    (hdot : name ≠ ".") : way path = moving (parents path) ++ [name] := by
  have hsplit := (List.dropLast_append_getLast? name hlast).symm
  rw [way, hsplit]
  simp [moving, parents, hdot]

theorem resolve_eq_ok_iff_leads : store.resolve dir path = .ok inode ↔
    store.rules.accepts (Text.trim path) = true ∧ store.leads dir (way path) = some inode := by
  rw [resolve_eq_ok_iff, PathRules.split_eq]
  by_cases haccepts : store.rules.accepts (Text.trim path) = true
  · simp [haccepts, way]
  · simp [haccepts]

/-- A lookup that does not find anything has looked at a path that the rules accept. -/
theorem accepts_of_notFound {e : FsError} (hmissing : store.resolve dir path = .error e)
    (hkind : e.kind = .notFound) : store.rules.accepts (Text.trim path) = true := by
  by_contra hrefused
  unfold resolve at hmissing
  rw [PathRules.split_of_refused (by simpa using hrefused)] at hmissing
  obtain rfl := Except.error.inj hmissing
  cases hkind

theorem leads_eq_none_of_resolve {e : FsError} (hmissing : store.resolve dir path = .error e)
    (haccepts : store.rules.accepts (Text.trim path) = true) :
    store.leads dir (way path) = none := by
  by_contra hleads
  obtain ⟨inode, hleads⟩ := Option.ne_none_iff_exists'.mp hleads
  rw [resolve_eq_ok_iff_leads.mpr ⟨haccepts, hleads⟩] at hmissing
  cases hmissing

/-- A way that ends in `"."` ends at a directory. -/
theorem Shape.dir?_of_leads_dot {front : List String} (hshape : store.Shape)
    (hleads : store.leads dir (front ++ ["."]) = some inode) : (store.dir? inode).isSome := by
  rw [leads_concat] at hleads
  obtain ⟨parent, -, hlast⟩ := Option.bind_eq_some_iff.mp hleads
  obtain ⟨child, hchild, rfl⟩ := Option.map_eq_some_iff.mp hlast
  have hdir := dir?_isSome_of_child? hchild
  rw [hshape.self parent hdir] at hchild
  obtain rfl := Option.some.inj hchild
  exact hdir

end Store

namespace View

variable {view : View} {store grown store' opened : Store} {clock : Clock} {path : String}
variable {mode : FileMode} {names : List String} {inode n : Nat} {handle : Handle} {data : Bytes}

/-- The node at which a path is opened for writing: it was found there, or the tree has grown
for it. -/
structure FoundOrMade (view : View) (store grown : Store) (path : String) (names : List String)
    (inode : Nat) : Prop where
  accepts : store.rules.accepts (Text.trim path) = true
  accepts_cleaned : store.rules.accepts (Text.trim (Path.cleaned path)) = true
  growth : Store.GrownAlong store grown view.root names
  leads : grown.leads view.root names = some inode
  /-- A new file stands behind its parents as they were joined and taken apart again. -/
  way : (store.leads view.root (Store.way (Path.cleaned path))).isSome ∧
      names = Store.way (Path.cleaned path) ∨
    store.leads view.root (Store.way (Path.cleaned path)) = none ∧ ∃ name, name ≠ "." ∧
      Store.way (Path.cleaned path) = Store.moving (Store.parents (Path.cleaned path)) ++ [name] ∧
      names = Store.way (Path.joinAll (Store.parents (Path.cleaned path))) ++ [name]

theorem FoundOrMade.isSome_node? (h : view.FoundOrMade store grown path names inode)
    (hshape : store.Shape) (hroot : (store.dir? view.root).isSome) :
    (grown.node? inode).isSome := by
  have hrootNode := grown.isSome_node?_of_dir? (h.growth.changes.dir?_isSome hroot)
  exact (h.growth.changes.shape hshape).node?_isSome_of_leads hrootNode h.leads

namespace FoundOrMade

variable (h : view.FoundOrMade store grown path names inode)

include h

theorem ne_dot_of_mem : ∀ s ∈ names, s ≠ "." := by
  rcases h.way with ⟨-, hnames⟩ | ⟨-, name, hdot, -, hnames⟩ <;> rw [hnames]
  · exact Store.ne_dot_of_mem_way
  · exact Path.forall_mem_concat Store.ne_dot_of_mem_way hdot

/-- The file is where the path leads if it was found there, or if its parents stayed as they
were. -/
theorem names_eq_iff : names = Store.way (Path.cleaned path) ↔
    (store.leads view.root (Store.way (Path.cleaned path))).isSome ∨
      Store.way (Path.joinAll (Store.parents (Path.cleaned path))) =
        Store.moving (Store.parents (Path.cleaned path)) := by
  rcases h.way with ⟨hfound, hnames⟩ | ⟨hnone, name, -, hway, hnames⟩ <;> rw [hnames]
  · simp [hfound]
  · rw [hnone, hway]
    simp

/-- Nothing else came to stand where the path leads. -/
theorem names_eq_of_leads (hshape : store.Shape) (hroot : (store.dir? view.root).isSome) {i : Nat}
    (hleads : grown.leads view.root (Store.way (Path.cleaned path)) = some i) :
    names = Store.way (Path.cleaned path) := by
  rcases h.way with ⟨-, heq⟩ | ⟨hnone, name, hdot, hway, hnames⟩
  · exact heq
  rcases h.growth.leads_old_or_prefix hshape (store.isSome_node?_of_dir? hroot)
    h.ne_dot_of_mem Store.ne_dot_of_mem_way hleads with hold | halong
  · rw [hnone] at hold
    cases hold
  -- The names that were made are no more than those of the path.
  have hle := Store.length_way_joinAll_parents_le (Path.cleaned path)
  refine (halong.eq_of_length_le ?_).symm
  rw [hway, hnames, List.length_append, List.length_append]
  omega

/-- Another way of the path, cleaned once less, leads only where it led before. -/
theorem leads_of_way_ne (hshape : store.Shape) (hroot : (store.dir? view.root).isSome) {i : Nat}
    (hnames : names = Store.way (Path.cleaned path))
    (hway : Store.way path ≠ Store.way (Path.cleaned path))
    (hleads : grown.leads view.root (Store.way path) = some i) :
    store.leads view.root (Store.way path) = some i := by
  rcases h.growth.leads_old_or_prefix hshape (store.isSome_node?_of_dir? hroot)
    h.ne_dot_of_mem Store.ne_dot_of_mem_way hleads with hold | halong
  · exact hold
  · rw [hnames] at halong
    exact absurd (halong.eq_of_length_le (Store.length_way_cleaned_le path)) hway

end FoundOrMade

theorem dir?_of_onNode {flags : OpenFlags} {base : String}
    (hfile : (Handle.onNode grown inode flags path base).1.target.isDir = false) :
    grown.dir? inode = none := by
  by_contra hdir
  obtain ⟨d, hd⟩ := Option.ne_none_iff_exists'.mp hdir
  rw [Handle.onNode_of_dir hd] at hfile
  cases hfile

/-- A handle that is not one of a directory has emptied a file. -/
theorem onNode_anew_of_isDir {base : String} (hnode : (grown.node? inode).isSome)
    (hfile : (Handle.onNode grown inode anew path base).1.target.isDir = false) :
    ∃ c, grown.cell? inode = some c ∧ Handle.onNode grown inode anew path base =
      (.anewOn inode path base, grown.modifyCell inode Cell.truncate) := by
  rcases (grown.node?_isSome_iff).mp hnode with hdir | hcell
  · rw [dir?_of_onNode hfile] at hdir
    cases hdir
  · obtain ⟨c, hc⟩ := Option.isSome_iff_exists.mp hcell
    exact ⟨c, hc, Handle.onNode_anew hc path base⟩

/-- A file that was made while nothing was found. -/
theorem foundOrMade_of_createAt (hshape : store.Shape) (hroot : (store.dir? view.root).isSome)
    (haccepts : store.rules.accepts (Text.trim path) = true)
    (haccepts' : store.rules.accepts (Text.trim (Path.cleaned path)) = true)
    (hnone : store.leads view.root (Store.way (Path.cleaned path)) = none)
    (hmade : store.createAt clock view.root (Path.cleaned path) mode = (.ok inode, grown))
    (hfile : grown.dir? inode = none) :
    ∃ names, view.FoundOrMade store grown path names inode := by
  cases hmode : mode.isDir with
  | true =>
    have hdir := Store.dir?_of_createAt hroot hmode hmade
    rw [hfile] at hdir
    cases hdir
  | false =>
    obtain ⟨name, hlast, hgrown, hleads⟩ := Store.createAt_grownAlong hroot hmode hmade
    have hdot : name ≠ "." := by
      rintro rfl
      have hdir := (hgrown.changes.shape hshape).dir?_of_leads_dot hleads
      rw [hfile] at hdir
      cases hdir
    exact ⟨_, haccepts, haccepts', hgrown, hleads,
      .inr ⟨hnone, name, hdot, Store.way_eq_parents_concat hlast hdot, rfl⟩⟩

/-- What opening a file for writing anew comes to when it succeeds. -/
theorem openNode_anew_eq_ok (hshape : store.Shape) (hroot : (store.dir? view.root).isSome)
    (hopen : view.openNode store clock path anew mode = (.ok handle, opened))
    (hfile : handle.target.isDir = false) :
    ∃ grown names inode c, view.FoundOrMade store grown path names inode ∧
      grown.cell? inode = some c ∧ opened = grown.modifyCell inode Cell.truncate ∧
      ∃ base, handle = .anewOn inode (Path.cleaned path) base := by
  have hrootNode := store.isSome_node?_of_dir? hroot
  cases haccepts : store.rules.accepts (Text.trim path) with
  | false =>
    unfold openNode at hopen
    rw [PathRules.clean_of_refused haccepts] at hopen
    cases hopen
  | true =>
  have hclean := PathRules.clean_of_accepted haccepts
  cases hresolve : store.resolve view.root (Path.cleaned path) with
  | ok inode =>
    obtain ⟨haccepts', hleads⟩ := Store.resolve_eq_ok_iff_leads.mp hresolve
    rw [openNode_of_found hclean hresolve] at hopen
    obtain ⟨hhandle, hopened⟩ := Prod.mk.inj hopen
    obtain rfl := Except.ok.inj hhandle
    obtain ⟨c, hcell, hnode⟩ :=
      onNode_anew_of_isDir (hshape.node?_isSome_of_leads hrootNode hleads) hfile
    rw [hnode] at hopened ⊢
    exact ⟨store, _, inode, c, ⟨haccepts, haccepts', .refl _ _ _, hleads,
      .inl ⟨by rw [hleads]; rfl, rfl⟩⟩, hcell, hopened.symm, _, rfl⟩
  | error e =>
    by_cases hkind : e.kind = .notFound
    case neg =>
      rw [openNode_of_missing hclean hresolve fun h => hkind h.1] at hopen
      cases hopen
    have haccepts' := Store.accepts_of_notFound hresolve hkind
    rcases hmade : store.createAt clock view.root (Path.cleaned path) mode with ⟨e' | inode, grown⟩
    · rw [openNode_of_refused hclean hresolve hkind has_create_anew hmade] at hopen
      cases hopen
    · rw [openNode_of_made hclean hresolve hkind has_create_anew hmade] at hopen
      obtain ⟨hhandle, hopened⟩ := Prod.mk.inj hopen
      obtain rfl := Except.ok.inj hhandle
      have hnone := Store.leads_eq_none_of_resolve hresolve haccepts'
      obtain ⟨names, hplace⟩ := foundOrMade_of_createAt hshape hroot haccepts haccepts' hnone hmade
        (dir?_of_onNode hfile)
      obtain ⟨c, hcell, hnode⟩ := onNode_anew_of_isDir (hplace.isSome_node? hshape hroot) hfile
      rw [hnode] at hopened ⊢
      exact ⟨grown, names, inode, c, hplace, hcell, hopened.symm, _, rfl⟩

/-- One file of a store holds the data, and nothing else is different. -/
structure Filled (grown store' : Store) (inode : Nat) (data : Bytes) : Prop where
  rules : store'.rules = grown.rules
  dirs : ∀ i, store'.dir? i = grown.dir? i
  others : ∀ i, i ≠ inode → store'.node? i = grown.node? i
  held : ∃ c, store'.cell? inode = some c ∧ c.active = data ∧ c.entry.size = data.length

theorem isDir_of_write {now : Time} {handle' : Handle}
    (hput : handle.write store now data = (.ok n, handle', store')) :
    handle.target.isDir = false := by
  unfold Handle.write Handle.checkWritable Handle.checkTransfer at hput
  cases hdir : handle.target.isDir with
  | false => rfl
  | true =>
    rw [hdir] at hput
    split at hput
    · cases hput
    next hok =>
    split at hok <;> cases hok

/-- Writing to a file that was opened anew fills it. -/
theorem filled_of_write {now : Time} {c : Cell} {base : String} {handle' : Handle}
    (hcell : grown.cell? inode = some c) (hregular : c.entry.isDir = false)
    (hput : (Handle.anewOn inode path base).write (grown.modifyCell inode Cell.truncate) now data =
      (.ok n, handle', store')) : Filled grown store' inode data := by
  have htruncated : (grown.modifyCell inode Cell.truncate).cell? inode = some c.truncate := by
    rw [Store.cell?_modifyCell, if_pos rfl, hcell]
    rfl
  have hown : (Handle.anewOn inode path base).cell? (grown.modifyCell inode Cell.truncate) =
      some c.truncate := htruncated
  have hoffset : (Handle.anewOn inode path base).writeOff = 0 := rfl
  have hinode : (Handle.anewOn inode path base).target.inode = inode := rfl
  have hempty : c.truncate.entry.isDir = false ∧ c.truncate.entry.size = 0 := by
    rw [Cell.truncate, Cell.setSize_eq hregular]
    exact ⟨hregular, rfl⟩
  simp only [Handle.write, Handle.checkWritable_anewOn, Handle.put, hown, hoffset, hinode] at hput
  rcases hwrite : c.truncate.writeAt (grown.modifyCell inode Cell.truncate).config now 0 data with
    ⟨e | k, written⟩
  · rw [hwrite] at hput
    cases hput
  · rw [hwrite] at hput
    obtain ⟨hactive, hsize⟩ := Cell.writeAt_of_empty rfl hempty.1 hempty.2 hwrite
    obtain ⟨-, hrest⟩ := Prod.mk.inj hput
    obtain ⟨-, rfl⟩ := Prod.mk.inj hrest
    refine ⟨by simp, fun i => by simp, fun i hi => ?_, written, ?_, hactive, hsize⟩
    · rw [Store.node?_modifyCell, Store.node?_modifyCell]
      rcases grown.node? i with _ | (d | c) <;> simp [hi.symm]
    · rw [Store.cell?_modifyCell, if_pos rfl, htruncated]
      rfl

/-- What a write that succeeds comes to. -/
theorem writeFile_eq_ok (hshape : store.Shape) (hroot : (store.dir? view.root).isSome)
    (hwrite : view.writeFile store clock path data mode = (.ok (), store')) :
    ∃ grown names inode, view.FoundOrMade store grown path names inode ∧
      Filled grown store' inode data := by
  unfold writeFile at hwrite
  rcases hopen : view.openNode store clock path anew mode with ⟨e | handle, opened⟩
  · rw [hopen] at hwrite
    cases hwrite
  rw [hopen] at hwrite
  dsimp only at hwrite
  rcases hput : handle.write opened (clock opened.stage) data with ⟨e | n, handle', after⟩
  · rw [hput] at hwrite
    cases hwrite
  rw [hput] at hwrite
  obtain ⟨-, rfl⟩ := Prod.mk.inj hwrite
  obtain ⟨grown, names, inode, c, hplace, hcell, rfl, base, rfl⟩ :=
    openNode_anew_eq_ok hshape hroot hopen (isDir_of_write hput)
  have hregular : c.entry.isDir = false :=
    (hplace.growth.changes.shape hshape).kind inode _ ((grown.cell?_eq_some_iff).mp hcell)
  exact ⟨grown, names, inode, hplace, filled_of_write hcell hregular hput⟩

/-- Only what the rules accept is read. -/
theorem clean_of_content (hread : (view.content store clock path).1 = .ok data) :
    store.rules.clean path = .ok (Path.cleaned path) := by
  refine PathRules.clean_of_accepted ?_
  by_contra hrefused
  unfold content openNode at hread
  rw [PathRules.clean_of_refused (by simpa using hrefused)] at hread
  cases hread

theorem resolve_of_content (hread : (view.content store clock path).1 = .ok data) :
    ∃ inode, store.resolve view.root (Path.cleaned path) = .ok inode := by
  cases hresolve : store.resolve view.root (Path.cleaned path) with
  | ok inode => exact ⟨inode, rfl⟩
  | error e =>
    unfold content at hread
    rw [openNode_of_missing (clean_of_content hread) hresolve
      (by simp [OpenFlags.has_create_rdonly])] at hread
    cases hread

theorem size_rebased (entry : Entry) (base : String) : (entry.rebased base).size = entry.size := by
  unfold Entry.rebased
  split <;> rfl

/-- The size that a lookup shows is that of the node to which the path leads. -/
theorem stat_size_iff : (view.stat store path).map Entry.size = .ok n ↔
    ∃ inode, store.resolve view.root path = .ok inode ∧
      (store.node? inode).map (·.entry.size) = some n := by
  unfold stat
  cases store.resolve view.root path with
  | error e => simp [Except.map, FsError.tag]
  | ok inode =>
    cases hnode : store.node? inode with
    | none => simp [Except.map, FsError.tag, hnode]
    | some node => simp [Except.map, FsError.tag, hnode, size_rebased]

/-- A write at the path is read back, with this length for its size. The file is found where the
path leads, or its parents stay as they are when they are joined and taken apart again. A lookup of
the entry, which cleans the path once less, is led to the same file or to a node of this size. -/
def ReadsBack (view : View) (store : Store) (path : String) (length : Nat) : Prop :=
  ((store.leads view.root (Store.way (Path.cleaned path))).isSome ∨
    Store.way (Path.joinAll (Store.parents (Path.cleaned path))) =
      Store.moving (Store.parents (Path.cleaned path))) ∧
  (Store.way path = Store.way (Path.cleaned path) ∨
    (view.stat store path).map Entry.size = .ok length)

instance (view : View) (store : Store) (path : String) (length : Nat) :
    Decidable (view.ReadsBack store path length) :=
  inferInstanceAs (Decidable ((_ ∨ _) ∧ (_ ∨ _)))

/-- Only blanks at the ends of segments are in the way. -/
theorem readsBack_of_tidy (view : View) (store : Store) (htidy : Path.Tidy path) (length : Nat) :
    view.ReadsBack store path length := by
  have hcleaned := htidy.cleaned
  refine ⟨.inr (Store.way_joinAll fun s hs => ?_), .inl ?_⟩
  · have hmem := List.dropLast_subset _ hs
    rw [hcleaned.segments_cleaned] at hmem
    exact hcleaned.isTidyName hmem
  · rw [Store.way, Store.way, hcleaned.segments_cleaned]

/-- The content of the file is read exactly if the file is where the path leads. -/
theorem FoundOrMade.content_iff (h : view.FoundOrMade store grown path names inode)
    (hfilled : Filled grown store' inode data) (hshape : store.Shape)
    (hroot : (store.dir? view.root).isSome) :
    (view.content store' clock path).1 = .ok data ↔ names = Store.way (Path.cleaned path) := by
  have hrules : store'.rules = store.rules := hfilled.rules.trans h.growth.changes.rules_eq
  constructor
  · intro hread
    obtain ⟨i, hfound⟩ := resolve_of_content hread
    obtain ⟨-, hleads⟩ := Store.resolve_eq_ok_iff_leads.mp hfound
    rw [Store.leads_congr hfilled.dirs] at hleads
    exact h.names_eq_of_leads hshape hroot hleads
  · intro hnames
    obtain ⟨c, hcell, hactive, -⟩ := hfilled.held
    have hclean : store'.rules.clean path = .ok (Path.cleaned path) := by
      rw [hrules]
      exact PathRules.clean_of_accepted h.accepts
    have hfound : store'.resolve view.root (Path.cleaned path) = .ok inode := by
      rw [Store.resolve_eq_ok_iff_leads, hrules, Store.leads_congr hfilled.dirs, ← hnames]
      exact ⟨h.accepts_cleaned, h.leads⟩
    rw [content_of_cell hclean hfound hcell, hactive]

/-- The size of the file is shown if the path leads a lookup to the file as well. -/
theorem FoundOrMade.size_of_way_eq (h : view.FoundOrMade store grown path names inode)
    (hfilled : Filled grown store' inode data) (hnames : names = Store.way path) :
    (view.stat store' path).map Entry.size = .ok data.length := by
  obtain ⟨c, hcell, -, hsize⟩ := hfilled.held
  rw [stat_size_iff]
  refine ⟨inode, ?_, ?_⟩
  · rw [Store.resolve_eq_ok_iff_leads, hfilled.rules, h.growth.changes.rules_eq,
      Store.leads_congr hfilled.dirs, ← hnames]
    exact ⟨h.accepts, h.leads⟩
  · rw [(store'.cell?_eq_some_iff).mp hcell, Option.map_some]
    exact congrArg some hsize

/-- A lookup that is led elsewhere shows what it showed before. -/
theorem FoundOrMade.size_iff_of_way_ne (h : view.FoundOrMade store grown path names inode)
    (hfilled : Filled grown store' inode data) (hshape : store.Shape)
    (hroot : (store.dir? view.root).isSome) (hnames : names = Store.way (Path.cleaned path))
    (hway : Store.way path ≠ Store.way (Path.cleaned path)) :
    (view.stat store' path).map Entry.size = .ok n ↔
      (view.stat store path).map Entry.size = .ok n := by
  have hrootNode := store.isSome_node?_of_dir? hroot
  have hrootNode' := grown.isSome_node?_of_dir? (h.growth.changes.dir?_isSome hroot)
  have hsame : ∀ i, store.leads view.root (Store.way path) = some i →
      (store'.node? i).map (·.entry.size) = (store.node? i).map (·.entry.size) := by
    intro i hleads
    have hother : i ≠ inode := by
      rintro rfl
      have heq := (h.growth.changes.shape hshape).leads_inj_of_node? hrootNode'
        Store.ne_dot_of_mem_way h.ne_dot_of_mem (h.growth.changes.leads_eq_some hleads) h.leads
      exact hway (heq.trans hnames)
    rw [hfilled.others i hother,
      h.growth.size_eq hshape (hshape.node?_isSome_of_leads hrootNode hleads)]
  simp only [stat_size_iff, Store.resolve_eq_ok_iff_leads, hfilled.rules, h.growth.changes.rules_eq,
    Store.leads_congr hfilled.dirs]
  constructor
  · rintro ⟨i, ⟨haccepts, hleads⟩, hsize⟩
    have hold := h.leads_of_way_ne hshape hroot hnames hway hleads
    exact ⟨i, ⟨haccepts, hold⟩, (hsame i hold).symm.trans hsize⟩
  · rintro ⟨i, ⟨haccepts, hleads⟩, hsize⟩
    exact ⟨i, ⟨haccepts, h.growth.changes.leads_eq_some hleads⟩, (hsame i hleads).trans hsize⟩

end View

/-- What a write that succeeds has written at a path is read back through the view, and its length
is the size that a lookup shows, exactly if the path and the tree before have `View.ReadsBack`. -/
theorem content_writeFile_iff {session : Session} (hreach : session.Reachable) {view : View}
    (hview : view ∈ session.views) {clock : Clock} {path : String} {data : Bytes} {mode : FileMode}
    {store' : Store}
    (hwrite : view.writeFile session.store clock path data mode = (.ok (), store'))
    (later : Clock) :
    ((view.content store' later path).1 = .ok data ∧
      (view.stat store' path).map Entry.size = .ok data.length) ↔
      view.ReadsBack session.store path data.length := by
  have hshape := hreach.shape
  have hroot := hreach.rooted view hview
  obtain ⟨grown, names, inode, hplace, hfilled⟩ := View.writeFile_eq_ok hshape hroot hwrite
  rw [hplace.content_iff hfilled hshape hroot, View.ReadsBack, ← hplace.names_eq_iff]
  refine and_congr_right fun hnames => ?_
  by_cases hway : Store.way path = Store.way (Path.cleaned path)
  · simp only [hplace.size_of_way_eq hfilled (hnames.trans hway.symm), hway, true_or]
  · rw [hplace.size_iff_of_way_ne hfilled hshape hroot hnames hway]
    simp only [hway, false_or]

/-- A new tree that accepts every path. -/
def emptyTree : Session :=
  .create .standard .permissive 0

theorem emptyTree_reachable : emptyTree.Reachable :=
  .build (Session.build_eq_ok Config.standard_valid (some .permissive) 0)

theorem content_writeFile_iff_doubledSlash :
    emptyTree.Reachable ∧ View.whole ∈ emptyTree.views ∧ ∃ store',
      View.whole.writeFile emptyTree.store (fun k => k) " a//b/" [1, 2] ⟨0⟩ = (.ok (), store') ∧
        (View.whole.content store' (fun k => k) " a//b/").1 = .ok [1, 2] ∧
        (View.whole.stat store' " a//b/").map Entry.size = .ok 2 := by
  have hview : View.whole ∈ emptyTree.views := List.mem_singleton_self View.whole
  have hwrite : View.whole.writeFile emptyTree.store (fun k => k) " a//b/" [1, 2] ⟨0⟩ =
      (.ok (), (View.whole.writeFile emptyTree.store (fun k => k) " a//b/" [1, 2] ⟨0⟩).2) :=
    Prod.ext (by decide +kernel) rfl
  have hreadsBack : View.whole.ReadsBack emptyTree.store " a//b/" 2 := by decide +kernel
  exact ⟨emptyTree_reachable, hview, _, hwrite,
    (content_writeFile_iff emptyTree_reachable hview hwrite (fun k => k)).mpr hreadsBack⟩

/-- What is written is not always read back: the parent of the file at `"a /b"` is made without the
blank at its end. -/
theorem not_forall_content_writeFile :
    ¬ ∀ (session : Session) (view : View) (clock later : Clock) (path : String) (data : Bytes)
      (mode : FileMode) (store' : Store), session.Reachable →
      (session.store.rules = .permissive ∨ session.store.rules = .strict) →
      view ∈ session.views →
      view.writeFile session.store clock path data mode = (.ok (), store') →
      (view.content store' later path).1 = .ok data ∧
        (view.stat store' path).map Entry.size = .ok data.length := by
  intro h
  have hread := (h emptyTree .whole (fun k => k) (fun k => k) "a /b" [1] ⟨0⟩ _ emptyTree_reachable
    (.inl rfl) (List.mem_singleton_self View.whole) (Prod.ext (by decide +kernel) rfl)).1
  have hlost : (View.whole.content (View.whole.writeFile emptyTree.store (fun k => k) "a /b" [1]
      ⟨0⟩).2 (fun k => k) "a /b").1 ≠ .ok [1] := by decide +kernel
  exact hlost hread

end VirtualFs.Tree
