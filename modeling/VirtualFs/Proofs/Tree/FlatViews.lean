import VirtualFs.Proofs.Content.Cell
import VirtualFs.Proofs.Tree.Flattening
import VirtualFs.Proofs.Tree.TidyPath

namespace VirtualFs

/-- What is known of a node from outside. -/
def Entry.summary (entry : Entry) : Flat.Summary :=
  ⟨entry.path, entry.isDir, entry.size⟩

namespace Tree.Flattens

variable {clock : Clock} {store : Store} {map : Flat.Map} {segments : List String} {i : Nat}

/-- Permissive rules accept every path. -/
theorem accepts (h : Flattens clock store map) (path : String) :
    store.rules.accepts path = true := by
  rw [h.permissive]
  rfl

theorem resolve_joinAll (h : Flattens clock store map)
    (hsegments : ∀ s ∈ segments, Path.IsTidyName s) :
    store.resolve Store.rootInode (Path.joinAll segments) =
      store.descend Store.rootInode (Flat.keyOf segments) :=
  Store.resolve_joinAll (h.accepts _) hsegments

/-- Finding a directory in the tree is finding one in the map. -/
theorem resolveDir_joinAll (h : Flattens clock store map)
    (hsegments : ∀ s ∈ segments, Path.IsTidyName s) :
    (∃ i d, store.resolveDir Store.rootInode (Path.joinAll segments) = .ok i ∧
      store.dir? i = some d ∧ store.leads Store.rootInode (Flat.keyOf segments) = some i ∧
      map.dirAt (Flat.keyOf segments) = .ok ()) ∨
    ∃ e, store.resolveDir Store.rootInode (Path.joinAll segments) = .error e ∧
      map.dirAt (Flat.keyOf segments) = .error e.kind := by
  unfold Store.resolveDir Flat.Map.dirAt
  rw [h.resolve_joinAll hsegments]
  have hkey : ∀ s ∈ Flat.keyOf segments, s ≠ "." := ne_dot_of_mem_keyOf
  rcases h.descend hkey with
    ⟨i, node, hdescend, hnode, hleads, hstat⟩ | ⟨e, hdescend, hstat⟩
  · rw [hdescend, hstat]
    cases node with
    | dir d =>
      have hdir := (store.dir?_eq_some_iff).mpr hnode
      exact .inl ⟨i, d, by simp only [hdir], hdir, hleads, rfl⟩
    | file c =>
      have hnone : store.dir? i = none :=
        store.dir?_eq_none_of_cell? ((store.cell?_eq_some_iff).mpr hnode)
      exact .inr ⟨.notADirectory (store.pathOf i), by simp only [hnone], rfl⟩
  · rw [hdescend, hstat]
    exact .inr ⟨e, rfl, rfl⟩

theorem keyOf_append_singleton {front : List String} {name : String} (hdot : name ≠ ".") :
    Flat.keyOf (front ++ [name]) = Flat.keyOf front ++ [name] := by
  simp [Flat.keyOf, hdot]

/-- Making a directory in the tree is making it in the map. -/
theorem mkdir (h : Flattens clock store map) (hclock : clock.Monotone) (hne : segments ≠ [])
    (hsegments : ∀ s ∈ segments, Path.IsTidyName s) (mode : FileMode) :
    (∃ e, store.mkdir clock Store.rootInode (Path.joinAll segments) mode = (.error e, store) ∧
      map.mkdir segments = (.error e.kind, map)) ∨
    ∃ i store' map', store.mkdir clock Store.rootInode (Path.joinAll segments) mode =
      (.ok i, store') ∧ map.mkdir segments = (.ok (), map') ∧ Flattens clock store' map' := by
  obtain ⟨front, name, rfl⟩ : ∃ front name, segments = front ++ [name] :=
    ⟨_, _, (List.dropLast_append_getLast hne).symm⟩
  have hfront : ∀ s ∈ front, Path.IsTidyName s := fun s hs =>
    hsegments s (List.mem_append_left _ hs)
  have hname : Path.IsTidyName name := hsegments name (by simp)
  unfold Store.mkdir Flat.Map.mkdir
  rw [PathRules.endsWithDot_joinAll (h.accepts _) hfront hname, List.getLast?_concat,
    PathRules.split_joinAll (h.accepts _) hsegments, List.dropLast_concat]
  by_cases hdot : name = "."
  · subst hdot
    exact .inl ⟨.invalidPath (Path.joinAll (front ++ ["."])), rfl, rfl⟩
  simp only [List.getLast?_concat, List.dropLast_concat, beq_iff_eq, hdot, if_false,
    Option.some.injEq]
  -- The root itself is the parent when there is only a name, and looking it up finds it too.
  have hparent : (if front = [] then Except.ok Store.rootInode
      else store.resolveDir Store.rootInode (Path.joinAll front)) =
      store.resolveDir Store.rootInode (Path.joinAll front) := by
    split
    · next hnil =>
      subst hnil
      obtain ⟨d, hd⟩ := Option.isSome_iff_exists.mp h.shape.root
      have hfound := h.resolve_joinAll (List.forall_mem_nil _)
      unfold Store.resolveDir
      rw [hfound]
      simp [Flat.keyOf, Store.descend, hd]
    · rfl
  rw [hparent]
  rcases h.resolveDir_joinAll hfront with ⟨i, d, hfound, hdir, hleads, hat⟩ | ⟨e, hfound, hat⟩
  · rw [hfound, hat, keyOf_append_singleton hdot]
    have hkey : ∀ s ∈ Flat.keyOf front ++ [name], s ≠ "." := by
      rw [← keyOf_append_singleton hdot]
      exact ne_dot_of_mem_keyOf
    have hstep := Store.leads_concat_of_leads hleads name
    cases hchild : store.child? i name with
    | none =>
      rw [hchild] at hstep
      obtain ⟨store', hmade, hflat, -, -⟩ := h.mkdirIn hclock ne_dot_of_mem_keyOf hleads
        (by rw [hdir]; rfl) hname hdot hchild mode
      rw [h.find_of_not_leads hkey hstep]
      exact .inr ⟨_, store', _, hmade, rfl, hflat⟩
    | some child =>
      rw [hchild, Option.map_some] at hstep
      obtain ⟨node, hnode⟩ := h.node?_of_leads hstep
      rw [h.find_of_leads hkey hstep hnode]
      refine .inl ⟨.alreadyExists (Path.join (store.pathOf i) name), ?_, rfl⟩
      unfold Store.mkdirIn
      simp [hdot, hchild]
  · rw [hfound, hat]
    exact .inl ⟨e, rfl, rfl⟩

/-- Making a directory with its parents in the tree is filling up the map. -/
theorem mkdirAll (h : Flattens clock store map) (hclock : clock.Monotone)
    (hsegments : ∀ s ∈ segments, Path.IsTidyName s) (mode : FileMode) :
    (∃ e, store.mkdirAll clock Store.rootInode (Path.joinAll segments) mode = (.error e, store) ∧
      map.mkdirAll (Flat.keyOf segments) = (.error e.kind, map)) ∨
    ∃ i store' map', store.mkdirAll clock Store.rootInode (Path.joinAll segments) mode =
      (.ok i, store') ∧ map.mkdirAll (Flat.keyOf segments) = (.ok (), map') ∧
      Flattens clock store' map' := by
  rw [Store.mkdirAll_joinAll (h.accepts _) hsegments]
  unfold Flat.Map.mkdirAll
  cases hfile : map.fileAlong [] (Flat.keyOf segments) with
  | true =>
    obtain ⟨e, hmade, hkind⟩ :=
      h.mkdirAlong_of_fileAlong (List.forall_mem_nil _) rfl h.shape.root mode hfile
    exact .inl ⟨e, hmade, by rw [hkind]; rfl⟩
  | false =>
    obtain ⟨i, store', hmade, hflat, -, -⟩ :=
      h.mkdirAlong hclock (List.forall_mem_nil _) hsegments rfl h.shape.root mode hfile
    exact .inr ⟨i, store', _, hmade, rfl, hflat⟩

theorem size_truncate {c : Cell} (hregular : c.entry.isDir = false) :
    c.truncate.active.length = c.truncate.entry.size := by
  rw [Cell.truncate, Cell.setSize_eq hregular]
  simp [Cell.active, Entry.size]

/-- Opening a file anew empties it in the tree and in the map. -/
theorem onNode_anew (h : Flattens clock store map) {key : List String} {c : Cell}
    (hkey : ∀ s ∈ key, s ≠ ".") (hleads : store.leads Store.rootInode key = some i)
    (hcell : store.cell? i = some c) (path base : String) :
    ∃ store', Handle.onNode store i View.anew path base = (Handle.anewOn i path base, store') ∧
      Flattens clock store' (map.put key (.file [])) ∧
      store'.leads Store.rootInode key = some i ∧ store'.cell? i = some c.truncate := by
  have hnode := (store.cell?_eq_some_iff).mp hcell
  have hregular : c.entry.isDir = false := h.shape.kind i _ hnode
  have hactive : c.truncate.active = [] := by simp [Cell.truncate, Cell.active]
  obtain ⟨hctime, hmtime⟩ := h.timely i _ hnode
  have htimes : c.truncate.entry.attrs.ctime = c.entry.attrs.ctime ∧
      c.truncate.entry.attrs.mtime = c.entry.attrs.mtime := by
    simp [Cell.truncate, Cell.setSize_eq hregular]
  have hflat := h.modifyCell hkey Cell.truncate hleads hcell
    (by simp [Node.form, Cell.truncate]) (size_truncate hregular) (by rwa [htimes.1])
    (by rwa [htimes.2])
  rw [hactive] at hflat
  have hdirs : (store.modifyCell i Cell.truncate).leads Store.rootInode key = some i := by
    rw [Store.leads_congr fun j => store.dir?_modifyCell Cell.truncate i j]
    exact hleads
  exact ⟨_, Handle.onNode_anew hcell path base, hflat, hdirs,
    by rw [Store.cell?_modifyCell, if_pos rfl, hcell]; rfl⟩

/-- A file that is not found is made in the tree with its parents, and put into the map behind
them. -/
theorem createAt_of_notFound (h : Flattens clock store map) (hclock : clock.Monotone)
    {front : List String} {name : String} (hfront : ∀ s ∈ front, Path.IsTidyName s)
    (hname : Path.IsTidyName name) (hdot : name ≠ ".") {mode : FileMode}
    (hmode : mode.isDir = false)
    (hstat : map.stat (Flat.keyOf (front ++ [name])) = .error .notFound) :
    ∃ j c store', store.createAt clock View.whole.root (Path.joinAll (front ++ [name])) mode =
        (.ok j, store') ∧
      Flattens clock store' ((map.fill [] (Flat.keyOf (front ++ [name])).dropLast).put
        (Flat.keyOf (front ++ [name])) (.file [])) ∧
      store'.leads Store.rootInode (Flat.keyOf (front ++ [name])) = some j ∧
      store'.cell? j = some c := by
  have hkey : ∀ s ∈ Flat.keyOf (front ++ [name]), s ≠ "." := ne_dot_of_mem_keyOf
  rw [keyOf_append_singleton hdot] at hkey hstat ⊢
  rw [List.dropLast_concat]
  unfold Flat.Map.stat at hstat
  rw [List.dropLast_concat] at hstat
  -- Nothing was in the way, so the parents are there or can be made.
  have hopen : map.fileAlong [] (Flat.keyOf front) = false := by
    by_contra hfile
    rw [if_pos (by simpa using hfile)] at hstat
    cases hstat
  obtain ⟨parent, grown, hmade, hflat, hleads, hdir⟩ :=
    h.mkdirAlong hclock (List.forall_mem_nil _) hfront rfl h.shape.root mode hopen
  rw [List.nil_append] at hleads
  have hfree : grown.child? parent name = none := by
    by_contra hchild
    obtain ⟨child, hchild⟩ := Option.ne_none_iff_exists'.mp hchild
    have hnew : grown.leads Store.rootInode (Flat.keyOf front ++ [name]) = some child.inode := by
      rw [Store.leads_concat, hleads, Option.bind_some, hchild]
      rfl
    obtain ⟨node, hnode⟩ := hflat.node?_of_leads hnew
    have hfound := hflat.find_of_leads hkey hnew hnode
    rw [Flat.Map.find_fill_of_length _ (by simp)] at hfound
    rw [hfound] at hstat
    split at hstat <;> cases hstat
  obtain ⟨store', c, hfile, hflat', hleads', hcell, -⟩ := hflat.findOrCreate hclock
    ne_dot_of_mem_keyOf hleads hdir hname hdot hfree mode
  refine ⟨grown.nextInode, c, store', ?_, hflat', hleads', hcell⟩
  rw [Store.createAt_joinAll (h.accepts _) (fun _ => h.accepts _) hfront hname hmode]
  simp only [View.whole, hmade, hfile]

/-- Opening anew in the tree is renewing in the map. -/
theorem openNode_anew (h : Flattens clock store map) (hclock : clock.Monotone)
    (hne : segments ≠ []) (hsegments : ∀ s ∈ segments, Path.IsTidyName s)
    (hlast : segments.getLast? ≠ some ".") {mode : FileMode} (hmode : mode.isDir = false) :
    (∃ e, View.whole.openNode store clock (Path.joinAll segments) View.anew mode =
        (.error e, store) ∧ map.renew (Flat.keyOf segments) = (.error e.kind, map)) ∨
    (∃ j, View.whole.openNode store clock (Path.joinAll segments) View.anew mode =
        (.ok (.onDir j (Path.joinAll segments) (View.whole.base store)), store) ∧
      map.renew (Flat.keyOf segments) = (.ok .dir, map)) ∨
    ∃ j c base store' map', View.whole.openNode store clock (Path.joinAll segments) View.anew mode =
        (.ok (Handle.anewOn j (Path.joinAll segments) base), store') ∧
      map.renew (Flat.keyOf segments) = (.ok (.file []), map') ∧ Flattens clock store' map' ∧
      store'.leads Store.rootInode (Flat.keyOf segments) = some j ∧ store'.cell? j = some c ∧
      c.size = 0 := by
  obtain ⟨front, name, rfl⟩ : ∃ front name, segments = front ++ [name] :=
    ⟨_, _, (List.dropLast_append_getLast hne).symm⟩
  have hdot : name ≠ "." := by simpa using hlast
  have hfront : ∀ s ∈ front, Path.IsTidyName s := fun s hs =>
    hsegments s (List.mem_append_left _ hs)
  have hclean : store.rules.clean (Path.joinAll (front ++ [name])) =
      .ok (Path.joinAll (front ++ [name])) := PathRules.clean_joinAll (h.accepts _) hsegments
  have hresolve := h.resolve_joinAll hsegments
  unfold Flat.Map.renew
  have hkey : ∀ s ∈ Flat.keyOf (front ++ [name]), s ≠ "." := ne_dot_of_mem_keyOf
  rcases h.descend hkey with
    ⟨j, node, hdescend, hnode, hleads, hstat⟩ | ⟨e, hdescend, hstat⟩
  · rw [hstat, View.openNode_of_found hclean (hresolve.trans hdescend)]
    cases node with
    | dir d =>
      right; left
      rw [Handle.onNode_of_dir ((store.dir?_eq_some_iff).mpr hnode)]
      exact ⟨j, rfl, rfl⟩
    | file c =>
      right; right
      obtain ⟨store', hopen, hflat, hleads', hcell⟩ := h.onNode_anew ne_dot_of_mem_keyOf hleads
        ((store.cell?_eq_some_iff).mpr hnode) (Path.joinAll (front ++ [name]))
        (View.whole.base store)
      rw [hopen]
      exact ⟨j, _, _, store', _, rfl, rfl, hflat, hleads', hcell, rfl⟩
  · rw [hstat]
    by_cases hkind : e.kind = .notFound
    · right; right
      rw [hkind] at hstat ⊢
      obtain ⟨j, c, store', hcreated, hflat, hleads, hcell⟩ :=
        h.createAt_of_notFound hclock hfront (hsegments name (by simp)) hdot hmode hstat
      obtain ⟨store'', hnode, hflat', hleads', hcell'⟩ := hflat.onNode_anew ne_dot_of_mem_keyOf
        hleads hcell (Path.joinAll (front ++ [name])) (View.whole.base store')
      rw [View.openNode_of_made hclean (hresolve.trans hdescend) hkind View.has_create_anew
        hcreated, hnode]
      rw [Flat.Map.put_put] at hflat'
      exact ⟨j, _, _, store'', _, rfl, rfl, hflat', hleads', hcell', rfl⟩
    · left
      refine ⟨e, View.openNode_of_missing hclean (hresolve.trans hdescend)
        fun hno => hkind hno.1, ?_⟩
      split <;> simp_all

/-- Writing into an empty file is refused for its length or puts all bytes there. -/
theorem writeAt_empty (config : Config) (now : Time) {c : Cell} (hsize : c.size = 0)
    (hregular : c.entry.isDir = false) (hentry : c.active.length = c.entry.size)
    (hctime : c.entry.attrs.ctime ≤ now) (hmtime : c.entry.attrs.mtime ≤ now) (data : Bytes) :
    (c.writeAt config now 0 data).1 = .error .tooLarge ∨
    (c.writeAt config now 0 data).1 = .ok data.length ∧
      (c.writeAt config now 0 data).2.active = data ∧
      (c.writeAt config now 0 data).2.entry.size = data.length ∧
      (c.writeAt config now 0 data).2.entry.attrs.ctime ≤ now ∧
      (c.writeAt config now 0 data).2.entry.attrs.mtime ≤ now := by
  unfold Cell.writeAt
  by_cases hdata : data = []
  · right
    have hactive : c.active = [] := by simp [Cell.active, hsize]
    rw [if_pos hdata, hdata]
    exact ⟨rfl, hactive, by rw [← hentry, hactive], hctime, hmtime⟩
  rw [if_neg hdata]
  split
  · exact .inl rfl
  split
  · exact .inl rfl
  next roomy hroom =>
  obtain ⟨hroomyEntry, hroomySize⟩ := Cell.makeRoom_keeps hroom
  rw [hsize] at hroomySize
  right
  rw [hroomyEntry, Entry.setModTime_of_le hctime hmtime]
  have hregular' : ({ c.entry with attrs.mtime := now } : Entry).isDir = false := hregular
  have hwritten := Cell.setSize_eq hregular' (max roomy.size (0 + data.length))
  refine ⟨rfl, ?_, ?_, ?_, ?_⟩
  · simp [Cell.patch, Cell.active, hroomySize]
  · simp only [Cell.patch, hwritten, Entry.size]
    omega
  · simp only [Cell.patch, hwritten]
    exact hctime
  · simp only [Cell.patch, hwritten]
    exact Int.le_refl now

/-- Writing a file in the tree is writing it in the map, unless it is too large. -/
theorem writeFile (h : Flattens clock store map) (hclock : clock.Monotone)
    (hne : segments ≠ []) (hsegments : ∀ s ∈ segments, Path.IsTidyName s)
    (hlast : segments.getLast? ≠ some ".") {mode : FileMode} (hmode : mode.isDir = false)
    (data : Bytes) :
    (∃ e store', View.whole.writeFile store clock (Path.joinAll segments) data mode =
        (.error e, store') ∧ e.kind = .tooLarge) ∨
    (∃ e, View.whole.writeFile store clock (Path.joinAll segments) data mode = (.error e, store) ∧
        map.writeFile (Flat.keyOf segments) data = (.error e.kind, map)) ∨
    ∃ store' map', View.whole.writeFile store clock (Path.joinAll segments) data mode =
        (.ok (), store') ∧ map.writeFile (Flat.keyOf segments) data = (.ok (), map') ∧
        Flattens clock store' map' := by
  unfold View.writeFile Flat.Map.writeFile
  rcases h.openNode_anew hclock hne hsegments hlast hmode with
    ⟨e, hopen, hrenew⟩ | ⟨j, hopen, hrenew⟩ |
      ⟨j, c, base, store', map', hopen, hrenew, hflat, hleads, hcell, hsize⟩
  · rw [hopen, hrenew]
    exact .inr (.inl ⟨.tagged .writeFile (Path.joinAll segments) e, rfl, rfl⟩)
  · rw [hopen, hrenew]
    exact .inr (.inl ⟨_, rfl, rfl⟩)
  · rw [hopen, hrenew]
    have hnode := (store'.cell?_eq_some_iff).mp hcell
    obtain ⟨hctime, hmtime⟩ := hflat.timely j _ hnode
    have hown : (Handle.anewOn j (Path.joinAll segments) base).cell? store' = some c := hcell
    simp only [Handle.write, Handle.checkWritable_anewOn, Handle.put, hown]
    rcases writeAt_empty store'.config (clock store'.stage) hsize (hflat.shape.kind j _ hnode)
      (hflat.sizes j c hcell) hctime hmtime data with hlarge | ⟨hok, hactive, hentry, hct, hmt⟩
    · left
      rcases hwrite : c.writeAt store'.config (clock store'.stage) 0 data with ⟨result, written⟩
      rw [hwrite] at hlarge
      obtain rfl : result = .error .tooLarge := hlarge
      have hoffset : (Handle.anewOn j (Path.joinAll segments) base).writeOff = 0 := rfl
      rw [hoffset, hwrite]
      exact ⟨_, _, rfl, rfl⟩
    · right; right
      have hform := Store.form_writeAt store'.config (clock store'.stage) c 0 data
      rcases hwrite : c.writeAt store'.config (clock store'.stage) 0 data with ⟨result, written⟩
      rw [hwrite] at hok hactive hentry hct hmt hform
      obtain rfl : result = .ok data.length := hok
      have hoffset : (Handle.anewOn j (Path.joinAll segments) base).writeOff = 0 := rfl
      rw [hoffset, hwrite]
      have hflat' := hflat.modifyCell ne_dot_of_mem_keyOf (fun _ => written) hleads hcell hform
        (by rw [hactive, hentry]) hct hmt
      rw [hactive] at hflat'
      exact ⟨_, _, rfl, rfl, hflat'⟩

/-- Reading a file in the tree is reading it in the map. -/
theorem content (h : Flattens clock store map) (hsegments : ∀ s ∈ segments, Path.IsTidyName s) :
    (∃ e, View.whole.content store clock (Path.joinAll segments) = (.error e, store) ∧
      map.content (Flat.keyOf segments) = .error e.kind) ∨
    ∃ bytes, View.whole.content store clock (Path.joinAll segments) = (.ok bytes, store) ∧
      map.content (Flat.keyOf segments) = .ok bytes := by
  have hclean : store.rules.clean (Path.joinAll segments) = .ok (Path.joinAll segments) :=
    PathRules.clean_joinAll (h.accepts _) hsegments
  have hresolve := h.resolve_joinAll hsegments
  unfold Flat.Map.content
  have hkey : ∀ s ∈ Flat.keyOf segments, s ≠ "." := ne_dot_of_mem_keyOf
  rcases h.descend hkey with
    ⟨j, node, hdescend, hnode, hleads, hstat⟩ | ⟨e, hdescend, hstat⟩
  · rw [hstat]
    cases node with
    | dir d =>
      unfold View.content
      rw [View.openNode_of_found hclean (hresolve.trans hdescend), Handle.onNode_rdonly,
        Handle.onNode_of_dir ((store.dir?_eq_some_iff).mpr hnode)]
      exact .inl ⟨_, rfl, rfl⟩
    | file c =>
      have hcell := (store.cell?_eq_some_iff).mpr hnode
      exact .inr ⟨c.active, View.content_of_cell hclean (hresolve.trans hdescend) hcell, rfl⟩
  · unfold View.content
    rw [hstat, View.openNode_of_missing hclean (hresolve.trans hdescend)
      (by simp [OpenFlags.has_create_rdonly])]
    exact .inl ⟨_, rfl, rfl⟩

/-- What is known of a node from outside is what is known of its item. -/
theorem summary_of_leads (h : Flattens clock store map) {key : List String} {node : Node}
    (hkey : ∀ s ∈ key, s ≠ ".") (hleads : store.leads Store.rootInode key = some i)
    (hnode : store.node? i = some node) : node.entry.summary = node.item.summary key := by
  have hpath := h.shape.path_of_leads hkey hleads hnode
  have hkind := h.shape.kind i node hnode
  cases node with
  | dir d =>
    have hsize := h.shape.dirSize i d ((store.dir?_eq_some_iff).mpr hnode)
    simp only [Node.entry, Node.isDir] at hpath hkind
    simp only [Entry.summary, Node.entry, Node.item, Flat.Item.summary, hpath, hkind, hsize]
  | file c =>
    have hsize := h.sizes i c ((store.cell?_eq_some_iff).mpr hnode)
    simp only [Node.entry, Node.isDir] at hpath hkind
    simp only [Entry.summary, Node.entry, Node.item, Flat.Item.summary, hpath, hkind, hsize]

/-- Entries seen from the root are as they are. -/
theorem rebased_base (h : Flattens clock store map) (entry : Entry) :
    entry.rebased (View.whole.base store) = entry := by
  have hbase : View.whole.base store = "." := h.shape.rootPath
  rw [hbase]
  rfl

/-- Asking for an entry in the tree is asking for the item in the map. -/
theorem stat (h : Flattens clock store map) (hsegments : ∀ s ∈ segments, Path.IsTidyName s) :
    (∃ e, View.whole.stat store (Path.joinAll segments) = .error e ∧
      map.stat (Flat.keyOf segments) = .error e.kind) ∨
    ∃ entry item, View.whole.stat store (Path.joinAll segments) = .ok entry ∧
      map.stat (Flat.keyOf segments) = .ok item ∧
      entry.summary = item.summary (Flat.keyOf segments) := by
  have hresolve : store.resolve View.whole.root (Path.joinAll segments) = _ :=
    h.resolve_joinAll hsegments
  unfold View.stat
  rw [hresolve]
  have hkey : ∀ s ∈ Flat.keyOf segments, s ≠ "." := ne_dot_of_mem_keyOf
  rcases h.descend hkey with
    ⟨j, node, hdescend, hnode, hleads, hstat⟩ | ⟨e, hdescend, hstat⟩
  · rw [hdescend, hstat]
    simp only [hnode, h.rebased_base]
    exact .inr ⟨_, _, rfl, rfl, h.summary_of_leads ne_dot_of_mem_keyOf hleads hnode⟩
  · rw [hdescend, hstat]
    exact .inl ⟨_, rfl, rfl⟩

/-- The children of a directory are those of its key. -/
theorem childNames_eq (h : Flattens clock store map) {key : List String}
    (hkey : ∀ s ∈ key, s ≠ ".") (hleads : store.leads Store.rootInode key = some i) :
    store.childNames i = map.childNames key := by
  have hirrefl : Std.Irrefl fun a b : String => Text.before a b = true := ⟨fun a => by simp⟩
  have hantisymm : Std.Antisymm fun a b : String => Text.before a b = true :=
    ⟨fun a b hab hba => by simpa using Text.before_trans hab hba⟩
  refine (h.shape.sorted_childNames i).eq_of_mem_iff (map.sorted_childNames h.nodup)
    fun name => ?_
  rw [store.mem_childNames_iff, Flat.Map.mem_childNames]
  have hstep := Store.leads_concat_of_leads hleads name
  constructor
  · rintro ⟨hsome, hdot⟩
    obtain ⟨child, hchild⟩ := Option.isSome_iff_exists.mp hsome
    rw [hchild, Option.map_some] at hstep
    obtain ⟨node, hnode⟩ := h.node?_of_leads hstep
    rw [h.find_of_leads (Path.forall_mem_concat hkey hdot) hstep hnode]
    rfl
  · intro hfound
    obtain ⟨item, hitem⟩ := Option.isSome_iff_exists.mp hfound
    have hdots : ∀ s ∈ key ++ [name], s ≠ "." := by
      obtain ⟨front, back, hmap, -⟩ := List.lookup_eq_some_iff.mp hitem
      exact h.keys (key ++ [name]) item (by rw [hmap]; simp)
    rw [h.items _ hdots, hstep] at hitem
    refine ⟨?_, hdots name (by simp)⟩
    cases hchild : store.child? i name with
    | none => simp [hchild] at hitem
    | some child => rfl

/-- Reading a directory in the tree is reading it in the map. -/
theorem readDir (h : Flattens clock store map) (hsegments : ∀ s ∈ segments, Path.IsTidyName s) :
    (∃ e, View.whole.readDir store (Path.joinAll segments) = .error e ∧
      map.readDir (Flat.keyOf segments) = .error e.kind) ∨
    ∃ entries, View.whole.readDir store (Path.joinAll segments) = .ok entries ∧
      map.readDir (Flat.keyOf segments) = .ok (entries.map Entry.summary) := by
  unfold View.readDir View.dirIter Flat.Map.readDir
  simp only [View.whole]
  rcases h.resolveDir_joinAll hsegments with ⟨i, d, hfound, hdir, hleads, hat⟩ | ⟨e, hfound, hat⟩
  · rw [hfound, hat]
    right
    simp only [Pager.nextPage_rest, Except.map, FsError.tag_ok]
    refine ⟨_, rfl, ?_⟩
    rw [Pager.start, h.childNames_eq ne_dot_of_mem_keyOf hleads, List.map_filterMap]
    congr 1
    refine List.filterMap_congr fun name hname => ?_
    have hdots : ∀ s ∈ Flat.keyOf segments ++ [name], s ≠ "." := by
      obtain ⟨item, hitem⟩ := Option.isSome_iff_exists.mp (Flat.Map.mem_childNames _ |>.mp hname)
      obtain ⟨front, back, hmap, -⟩ := List.lookup_eq_some_iff.mp hitem
      exact h.keys _ item (by rw [hmap]; simp)
    have hstep := Store.leads_concat_of_leads hleads name
    unfold Pager.entry?
    cases hchild : store.child? i name with
    | none =>
      rw [hchild] at hstep
      rw [h.find_of_not_leads hdots hstep]
      simp
    | some child =>
      rw [hchild, Option.map_some] at hstep
      obtain ⟨node, hnode⟩ := h.node?_of_leads hstep
      rw [h.find_of_leads hdots hstep hnode]
      have hbase := h.rebased_base node.entry
      simp only [View.whole] at hbase
      simp only [Option.bind_some, hnode, Option.map_some, hbase,
        h.summary_of_leads hdots hstep hnode]
  · rw [hfound, hat]
    exact .inl ⟨_, rfl, rfl⟩

end Tree.Flattens

end VirtualFs
