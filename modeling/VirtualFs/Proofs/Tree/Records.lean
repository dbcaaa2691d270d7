import VirtualFs.Proofs.Path.NormalForm
import VirtualFs.Proofs.Path.Trimming
import VirtualFs.Proofs.Tree.Lasting
import VirtualFs.Proofs.Tree.Lookups
import VirtualFs.Proofs.Tree.Visitor

namespace VirtualFs

/-- What is left of names when every `".."` takes away the name before it. -/
def collapsed (names : List String) : List String :=
  ((names.map String.toList).foldl pushSegment []).reverse.map String.ofList

/-- The separator of the tree splits where paths do. -/
theorem splitsAt_separator : splitsAt Tree.View.separator = Path.isSeparator := by
  funext c
  have hlist : Tree.View.separator.toList = ['/'] := by decide
  simp [splitsAt, hlist, Path.isSeparator, Path.separator]

/-- A piece that does not lead on is not pushed. -/
theorem eq_of_leadsOn_eq_false {piece : List Char} (hleads : Path.leadsOn piece = false) :
    piece = [] ∨ piece = ['.'] := by
  simpa only [Path.leadsOn, Bool.and_eq_false_iff, bne_eq_false_iff_eq] using hleads

variable {names key : List String}

theorem mem_of_mem_collapsed {name : String} (hmem : name ∈ collapsed names) :
    name ∈ names ∧ name ≠ ".." := by
  obtain ⟨piece, hpiece, rfl⟩ := List.mem_map.mp hmem
  rcases mem_foldl_pushSegment (List.mem_reverse.mp hpiece) with hnil | ⟨hpiece, -, -, hup⟩
  · cases hnil
  · obtain ⟨name, hname, rfl⟩ := List.mem_map.mp hpiece
    rw [String.ofList_toList]
    refine ⟨hname, ?_⟩
    rintro rfl
    exact hup (by decide)

/-- Without `".."` all names of a key are left, and with it some are not. -/
theorem collapsed_eq_self_iff (hkey : Path.IsKey key) : collapsed key = key ↔ ".." ∉ key := by
  constructor
  · intro hsame hup
    rw [← hsame] at hup
    exact (mem_of_mem_collapsed hup).2 rfl
  · intro hup
    have hplain : ∀ piece ∈ key.map String.toList, IsPlain piece := by
      intro piece hpiece
      obtain ⟨name, hname, rfl⟩ := List.mem_map.mp hpiece
      obtain ⟨⟨hsegment, -⟩, hdot⟩ := hkey name hname
      have hother : ∀ s : String, name ≠ s → name.toList ≠ s.toList :=
        fun s hne heq => hne (String.toList_inj.mp heq)
      exact ⟨hother "" hsegment.1, hother "." hdot, hother ".." fun h => hup (h ▸ hname)⟩
    rw [collapsed, foldl_pushSegment_of_plain [] hplain, List.append_nil, List.reverse_reverse,
      List.map_map]
    have hid : String.ofList ∘ String.toList = id := by
      funext s
      simp
    rw [hid, List.map_id]

theorem isKey_collapsed (hkey : Path.IsKey key) : Path.IsKey (collapsed key) :=
  fun s hs => hkey s (mem_of_mem_collapsed hs).1

/-- The pieces of a path that lead on are its segments that move. -/
theorem filter_leadsOn_pieces (path : String) :
    (Text.pieces Path.isSeparator path.toList).filter Path.leadsOn =
      (Tree.Store.moving (Path.segments path)).map String.toList := by
  have hid : String.toList ∘ String.ofList = id := by
    funext cs
    simp
  rw [Tree.Store.moving, Path.segments, List.filter_filter, Path.pieces, List.filter_map,
    List.map_map, hid, List.map_id]
  refine List.filter_congr fun piece _ => ?_
  have hempty : String.ofList piece = "" ↔ piece = [] := by
    rw [← String.toList_inj, String.toList_ofList]
    rfl
  have hdot : String.ofList piece = "." ↔ piece = ['.'] := by
    rw [← String.toList_inj, String.toList_ofList]
    rfl
  rw [Bool.eq_iff_iff]
  simp [Path.leadsOn, hempty, hdot, and_comm]

/-- Behind an absolute path all parts are joined to one absolute path of what is left of their
names. -/
theorem joinClean_eq {first : String} {rest : List String} (hne : first ≠ "")
    (habsolute : startsAbsolute Tree.View.separator first = true) :
    joinClean Tree.View.separator (first :: rest) =
      "/" ++ Path.joinAll (collapsed
        ((first :: rest).flatMap fun part => Tree.Store.moving (Path.segments part))) := by
  have hfind : (first :: rest).find? (· != "") = some first :=
    List.find?_cons_of_pos (by simpa using hne)
  have hpieces : ∀ parts : List String,
      ((parts.flatMap fun part => Text.pieces Path.isSeparator part.toList).foldl
        pushSegment []).reverse.map String.ofList =
      collapsed (parts.flatMap fun part => Tree.Store.moving (Path.segments part)) := by
    intro parts
    rw [collapsed, ← foldl_pushSegment_filter fun _ => eq_of_leadsOn_eq_false, List.filter_flatMap,
      List.map_flatMap]
    simp only [filter_leadsOn_pieces]
  simp only [joinClean, hfind, habsolute, if_true, splitsAt_separator, hpieces]
  rfl

namespace Path

theorem segments_absolute (path : String) : segments ("/" ++ path) = segments path := by
  rw [segments, pieces_absolute, List.filter_cons_of_neg (by decide)]
  rfl

end Path

namespace Tree

/-- The root of a view as records write it. -/
theorem View.rootPath_eq {view : View} {store : Store} {dir : List String}
    (hbase : view.base store = Path.ofKey dir) (hdir : Path.IsKey dir) :
    view.rootPath store = "/" ++ Path.joinAll dir := by
  rw [View.rootPath, hbase, Path.join, if_neg (by decide)]
  by_cases hnil : dir = []
  · subst hnil
    rfl
  · rw [Path.ofKey_of_ne_nil hnil, if_neg (not_or.mpr ⟨Path.joinAll_ne_dot hnil hdir,
      Path.joinAll_ne_empty hnil hdir.isSegments⟩), if_pos (by decide)]

namespace Store

variable {key : List String}

theorem moving_eq_self (hkey : Path.IsKey key) : moving key = key :=
  List.filter_eq_self.mpr fun s hs => by simpa using (hkey s hs).2

/-- An absolute path leads along its names. -/
theorem way_absolute (hkey : Path.IsKey key) : way ("/" ++ Path.joinAll key) = key := by
  have htidy : Path.Tidy ("/" ++ Path.joinAll key) := by
    intro piece hpiece
    rw [Path.pieces_absolute] at hpiece
    rcases List.mem_cons.mp hpiece with rfl | hpiece
    · decide
    · exact Path.tidy_joinAll hkey.tidyNames piece hpiece
  rw [way, htidy.segments_cleaned, Path.segments_absolute, Path.segments_joinAll hkey.isSegments,
    moving_eq_self hkey]

end Store

namespace View

variable {view : View} {store : Store} {dir key : List String} {entry : Entry} {path : String}
  {inode : Nat}

/-- The path in the record of an entry that the view has shown. -/
def recordPath (view : View) (store : Store) (entry : Entry) : String :=
  (FileRecord.ofEntry (view.rootPath store) separator entry).path

/-- The path in the whole tree of an entry that the view has shown. -/
def treePath (view : View) (store : Store) (entry : Entry) : String :=
  Path.join (view.base store) entry.path

/-- Below the root of a view, paths are made absolute with what is left of the names on the way. -/
theorem joinClean_ofKey (hdir : Path.IsKey dir) (hkey : Path.IsKey key) :
    joinClean separator ["/" ++ Path.joinAll dir, Path.ofKey key] =
      "/" ++ Path.joinAll (collapsed (dir ++ key)) := by
  have hlist : ("/" ++ Path.joinAll dir).toList = '/' :: (Path.joinAll dir).toList := by
    rw [String.toList_append]
    rfl
  have hne : "/" ++ Path.joinAll dir ≠ "" := by
    intro hempty
    rw [hempty] at hlist
    cases hlist
  have habsolute : startsAbsolute separator ("/" ++ Path.joinAll dir) = true := by
    rw [startsAbsolute, hlist]
    rfl
  have hback : Store.moving (Path.segments (Path.ofKey key)) = key := by
    have hway := Store.way_ofKey hkey
    rwa [Store.way, Path.cleaned_ofKey hkey] at hway
  rw [joinClean_eq hne habsolute]
  simp only [List.flatMap_cons, List.flatMap_nil, List.append_nil, hback, Path.segments_absolute,
    Path.segments_joinAll hdir.isSegments, Store.moving_eq_self hdir]

/-- A record has the absolute path of what is left of the names on the way from the root. -/
theorem IsAt.recordPath_eq (h : view.IsAt store dir) (hkey : Path.IsKey key)
    (hpath : entry.path = Path.ofKey key) :
    view.recordPath store entry = "/" ++ Path.joinAll (collapsed (dir ++ key)) := by
  have hparts : view.recordPath store entry =
      joinClean separator ["/" ++ Path.joinAll dir, Path.ofKey key] := by
    rw [← rootPath_eq h.base_eq h.key, ← hpath]
    rfl
  rw [hparts, joinClean_ofKey h.key hkey]

theorem IsAt.dotDot_mem_treePath_iff (h : view.IsAt store dir) (hkey : Path.IsKey key)
    (hpath : entry.path = Path.ofKey key) :
    ".." ∈ Path.segments (view.treePath store entry) ↔ ".." ∈ dir ++ key := by
  have hwhole := h.isKey_append hkey
  rw [treePath, hpath, h.base_eq, Path.join_ofKey h.key hkey]
  by_cases hnil : dir ++ key = []
  · rw [hnil]
    decide
  · rw [Path.ofKey_of_ne_nil hnil, Path.segments_joinAll hwhole.isSegments]

/-- What a lookup shows comes from a node to which names lead from the directory of the view. -/
theorem IsAt.exists_key_of_stat (h : view.IsAt store dir) (hlabelled : store.Labelled)
    (hstat : view.stat store path = .ok entry) :
    ∃ key, Path.IsKey key ∧ entry.path = Path.ofKey key ∧
      store.leads Store.rootInode (dir ++ key) = some entry.attrs.inode := by
  obtain ⟨inode, node, hfound, hnode, rfl⟩ := stat_eq_ok_iff.mp hstat
  have hleads := (Store.resolve_eq_ok_iff_leads.mp hfound).2
  have hdots : ∀ s ∈ Store.way path, s ≠ "." := fun s hs => by
    simpa using (List.mem_filter.mp hs).2
  refine ⟨Store.way path, (h.pathOf_leads hdots hleads).1, h.path_of_leads hdots hleads hnode, ?_⟩
  rw [h.leads_append, hleads, Entry.attrs_rebased, hlabelled.inode inode node hnode]

/-- From the root a path shows the node to which its names lead. -/
theorem stat_whole_iff (hshape : store.Shape) (hlabelled : store.Labelled)
    (hrules : store.rules = .permissive) :
    (∃ found, whole.stat store path = .ok found ∧ found.attrs.inode = inode) ↔
      store.leads Store.rootInode (Store.way path) = some inode := by
  have haccepts : store.rules.accepts (Text.trim path) = true := by
    rw [hrules]
    rfl
  constructor
  · rintro ⟨found, hstat, rfl⟩
    obtain ⟨i, node, hfound, hnode, rfl⟩ := stat_eq_ok_iff.mp hstat
    rw [Entry.attrs_rebased, hlabelled.inode i node hnode]
    exact (Store.resolve_eq_ok_iff_leads.mp hfound).2
  · intro hleads
    have hsome := hshape.node?_isSome_of_leads (store.isSome_node?_of_dir? hshape.root) hleads
    obtain ⟨node, hnode⟩ := Option.isSome_iff_exists.mp hsome
    refine ⟨_, stat_eq_ok_iff.mpr
      ⟨inode, node, Store.resolve_eq_ok_iff_leads.mpr ⟨haccepts, hleads⟩, hnode, rfl⟩, ?_⟩
    rw [Entry.attrs_rebased, hlabelled.inode inode node hnode]

/-- The path of a record leads from the root to the entry's node exactly if no name on the way to it
is `".."`. -/
theorem IsAt.stat_recordPath_iff (h : view.IsAt store dir) (hlabelled : store.Labelled)
    (hrules : store.rules = .permissive) (hstat : view.stat store path = .ok entry) :
    (∃ found, whole.stat store (view.recordPath store entry) = .ok found ∧
        found.attrs.inode = entry.attrs.inode) ↔
      ".." ∉ Path.segments (view.treePath store entry) := by
  obtain ⟨key, hkey, hpath, hleads⟩ := h.exists_key_of_stat hlabelled hstat
  have hwhole := h.isKey_append hkey
  have hcollapsed := isKey_collapsed hwhole
  have hdots : ∀ {names : List String}, Path.IsKey names → ∀ s ∈ names, s ≠ "." :=
    fun hnames s hs => (hnames s hs).2
  rw [stat_whole_iff h.shape.toShape hlabelled hrules, h.recordPath_eq hkey hpath,
    Store.way_absolute hcollapsed, h.dotDot_mem_treePath_iff hkey hpath,
    ← collapsed_eq_self_iff hwhole]
  constructor
  · intro hother
    exact h.shape.leads_inj (hdots hcollapsed) (hdots hwhole) hother hleads
  · intro hsame
    rw [hsame, hleads]

end View

/-- Under the permissive rules the path of an audit record leads from the root to the node of the
entry, exactly if no name on the way to the node is `".."`. So records of different nodes have
different paths if there is no such name on the way to either. -/
theorem recordPath_leads_back_iff {session : Session} (hreach : session.TidilyReachable)
    (hrules : session.store.rules = .permissive) {view : View} (hview : view ∈ session.views)
    {path : String} {entry : Entry} (hstat : view.stat session.store path = .ok entry) :
    ((∃ found, View.whole.stat session.store (view.recordPath session.store entry) = .ok found ∧
        found.attrs.inode = entry.attrs.inode) ↔
      ".." ∉ Path.segments (view.treePath session.store entry)) ∧
    ∀ other ∈ session.views, ∀ path' entry', other.stat session.store path' = .ok entry' →
      ".." ∉ Path.segments (view.treePath session.store entry) →
      ".." ∉ Path.segments (other.treePath session.store entry') →
      other.recordPath session.store entry' = view.recordPath session.store entry →
      entry'.attrs.inode = entry.attrs.inode := by
  have hiff : ∀ {view : View}, view ∈ session.views → ∀ {path : String} {entry : Entry},
      view.stat session.store path = .ok entry →
      ((∃ found, View.whole.stat session.store (view.recordPath session.store entry) = .ok found ∧
          found.attrs.inode = entry.attrs.inode) ↔
        ".." ∉ Path.segments (view.treePath session.store entry)) := by
    intro view hview path entry hstat
    obtain ⟨dir, hat⟩ := View.exists_isAt hreach (.inl hrules) hview
    exact hat.stat_recordPath_iff hreach.labelled hrules hstat
  refine ⟨hiff hview hstat, fun other hother path' entry' hstat' hplain hplain' hsame => ?_⟩
  obtain ⟨found, hfound, hinode⟩ := (hiff hview hstat).mpr hplain
  obtain ⟨found', hfound', hinode'⟩ := (hiff hother hstat').mpr hplain'
  rw [hsame, hfound] at hfound'
  rw [← hinode, ← hinode', Except.ok.inj hfound']

/-- A directory with a directory `".."` and a directory `"b"` in it, and a view of it. -/
def climbing : Session :=
  (emptyTree.run [(fun k => k, .view 0 (.mkdirAll "a/.." ⟨0o755⟩)),
    (fun k => k, .view 0 (.mkdir "a/b" ⟨0o755⟩)), (fun k => k, .view 0 (.sub "a"))]).2

theorem climbing_reachable : climbing.TidilyReachable :=
  Session.ReachableBy.run_of_tidy
    (.build (Session.build_eq_ok Config.standard_valid (some .permissive) 0)) (by decide +kernel)

/-- The entry of the directory `".."`. -/
def upwardEntry : Entry :=
  ⟨"..", .createdAt 6 (FileMode.asDir ⟨0o755⟩) 3⟩

/-- The entry of the directory `"b"`. -/
def plainEntry : Entry :=
  ⟨"b", .createdAt 8 (FileMode.asDir ⟨0o755⟩) 4⟩

theorem stat_climbing :
    (⟨2, false⟩ : View) ∈ climbing.views ∧
      (⟨2, false⟩ : View).stat climbing.store "b" = .ok plainEntry ∧
      (⟨2, false⟩ : View).stat climbing.store ".." = .ok upwardEntry := by
  decide +kernel

theorem recordPath_leads_back_iff_climbing :
    (⟨2, false⟩ : View).recordPath climbing.store plainEntry = "/a/b" ∧
      (∃ found, View.whole.stat climbing.store "/a/b" = .ok found ∧ found.attrs.inode = 4) ∧
      (⟨2, false⟩ : View).recordPath climbing.store upwardEntry = "/" ∧
      ¬ ∃ found, View.whole.stat climbing.store "/" = .ok found ∧ found.attrs.inode = 3 := by
  obtain ⟨hview, hplain, hupward⟩ := stat_climbing
  have hrules : climbing.store.rules = .permissive :=
    emptyTree_reachable.rooted.rules_run _
  have hplainPath : (⟨2, false⟩ : View).recordPath climbing.store plainEntry = "/a/b" := by
    decide +kernel
  have hupwardPath : (⟨2, false⟩ : View).recordPath climbing.store upwardEntry = "/" := by
    decide +kernel
  have hback := (recordPath_leads_back_iff climbing_reachable hrules hview hplain).1
  have haway := (recordPath_leads_back_iff climbing_reachable hrules hview hupward).1
  rw [hplainPath] at hback
  rw [hupwardPath] at haway
  refine ⟨hplainPath, hback.mpr (by decide +kernel), hupwardPath, fun hfound => ?_⟩
  exact absurd (haway.mp hfound) (by decide +kernel)

/-- The record of a directory `".."` does not name it: its path is that of the directory above the
one that holds it. -/
theorem not_forall_recordPath_leads_back :
    ¬ ∀ (session : Session) (view : View) (path : String) (entry : Entry), session.TidilyReachable →
      session.store.rules = .permissive → view ∈ session.views →
      view.stat session.store path = .ok entry →
      ∃ found, View.whole.stat session.store (view.recordPath session.store entry) = .ok found ∧
        found.attrs.inode = entry.attrs.inode := by
  intro h
  obtain ⟨hview, -, hupward⟩ := stat_climbing
  obtain ⟨found, hfound, hinode⟩ := h climbing ⟨2, false⟩ ".." upwardEntry climbing_reachable
    (emptyTree_reachable.rooted.rules_run _) hview hupward
  have hpath : (⟨2, false⟩ : View).recordPath climbing.store upwardEntry = "/" := by
    decide +kernel
  have hroot : (View.whole.stat climbing.store "/").map (·.attrs.inode) = .ok 1 := by
    decide +kernel
  rw [hpath] at hfound
  rw [hfound] at hroot
  have hone : found.attrs.inode = 1 := Except.ok.inj hroot
  rw [hone] at hinode
  exact absurd hinode (by decide)

end Tree

end VirtualFs
