import VirtualFs.Proofs.Path.Keys
import VirtualFs.Proofs.Tree.Descent
import VirtualFs.Tree.Create

namespace VirtualFs

namespace PathRules

variable {rules : PathRules} {segments : List String}

theorem clean_joinAll (haccepts : rules.accepts (Path.joinAll segments) = true)
    (hsegments : ∀ s ∈ segments, Path.IsTidyName s) :
    rules.clean (Path.joinAll segments) = .ok (Path.joinAll segments) := by
  rw [clean_eq, (Path.tidy_joinAll hsegments).trim_eq, if_pos haccepts,
    Path.cleaned_joinAll hsegments]

theorem split_joinAll (haccepts : rules.accepts (Path.joinAll segments) = true)
    (hsegments : ∀ s ∈ segments, Path.IsTidyName s) :
    rules.split (Path.joinAll segments) = .ok segments := by
  rw [split_eq, (Path.tidy_joinAll hsegments).trim_eq, if_pos haccepts,
    Path.cleaned_joinAll hsegments, Path.segments_joinAll fun s hs => (hsegments s hs).1]

/-- A tidy path ends with a dot if its last segment is one. -/
theorem endsWithDot_joinAll {front : List String} {name : String}
    (haccepts : rules.accepts (Path.joinAll (front ++ [name])) = true)
    (hfront : ∀ s ∈ front, Path.IsTidyName s) (hname : Path.IsTidyName name) :
    rules.endsWithDot (Path.joinAll (front ++ [name])) = (name == ".") := by
  have hsegments : ∀ s ∈ front ++ [name], Path.IsTidyName s :=
    Path.forall_mem_concat hfront hname
  unfold endsWithDot
  rw [clean_joinAll haccepts hsegments]
  simp only [Path.base_joinAll _ hname.1]

variable {key : List String}

theorem clean_ofKey (hkey : Path.IsKey key) (haccepts : rules.accepts (Path.ofKey key) = true) :
    rules.clean (Path.ofKey key) = .ok (Path.ofKey key) := by
  rw [clean_eq, Path.trim_ofKey hkey, if_pos haccepts, Path.cleaned_ofKey hkey]

theorem clean_of_accepted {path : String} (haccepts : rules.accepts (Text.trim path) = true) :
    rules.clean path = .ok (Path.cleaned path) := by
  rw [clean_eq, if_pos haccepts]

theorem clean_of_refused {path : String} (hrefused : rules.accepts (Text.trim path) = false) :
    rules.clean path = .error (.invalidPath path) := by
  rw [clean_eq, hrefused, if_neg Bool.false_ne_true]

theorem split_of_refused {path : String} (hrefused : rules.accepts (Text.trim path) = false) :
    rules.split path = .error (.invalidPath path) := by
  rw [split_eq, hrefused, if_neg Bool.false_ne_true]

end PathRules

namespace Tree.Store

variable {store : Store} {clock : Clock} {root : Nat} {mode : FileMode}
variable {segments key : List String}

/-- The path of a key is taken apart into segments that move along the key. -/
theorem split_ofKey {rules : PathRules} (hkey : Path.IsKey key)
    (haccepts : rules.accepts (Path.ofKey key) = true) :
    ∃ segments, rules.split (Path.ofKey key) = .ok segments ∧ moving segments = key := by
  by_cases hne : key = []
  · subst hne
    have hroot : rules.split "." = .ok (Path.segments ".") := by
      rw [PathRules.split_eq]
      exact if_pos haccepts
    exact ⟨_, hroot, by decide⟩
  · rw [Path.ofKey_of_ne_nil hne] at haccepts ⊢
    refine ⟨key, PathRules.split_joinAll haccepts hkey.tidyNames, ?_⟩
    exact List.filter_eq_self.mpr fun s hs => by simpa using (hkey s hs).2

theorem resolve_joinAll (haccepts : store.rules.accepts (Path.joinAll segments) = true)
    (hsegments : ∀ s ∈ segments, Path.IsTidyName s) :
    store.resolve root (Path.joinAll segments) = store.descend root (moving segments) := by
  unfold resolve
  rw [PathRules.split_joinAll haccepts hsegments]

theorem mkdirAll_joinAll (haccepts : store.rules.accepts (Path.joinAll segments) = true)
    (hsegments : ∀ s ∈ segments, Path.IsTidyName s) :
    store.mkdirAll clock root (Path.joinAll segments) mode =
      store.mkdirAlong clock root mode segments := by
  unfold mkdirAll
  rw [PathRules.split_joinAll haccepts hsegments]

/-- A directory is made in the directory that its parents lead to. -/
theorem mkdir_joinAll {front : List String} {name : String}
    (haccepts : store.rules.accepts (Path.joinAll (front ++ [name])) = true)
    (hfront : ∀ s ∈ front, Path.IsTidyName s) (hname : Path.IsTidyName name) (hdot : name ≠ ".") :
    store.mkdir clock root (Path.joinAll (front ++ [name])) mode =
      match if front = [] then .ok root else store.resolveDir root (Path.joinAll front) with
      | .error e => (.error e, store)
      | .ok parent => store.mkdirIn clock parent name mode := by
  unfold mkdir
  rw [PathRules.endsWithDot_joinAll haccepts hfront hname, beq_false_of_ne hdot,
    PathRules.split_joinAll haccepts (Path.forall_mem_concat hfront hname)]
  cases hparent : (if front = [] then .ok root
      else store.resolveDir root (Path.joinAll front) : Except FsError Nat) <;>
    simp only [Bool.false_eq_true, if_false, List.getLast?_concat, List.dropLast_concat, hparent]

/-- A file is made in the directory that its parents lead to, once they are there. -/
theorem createAt_joinAll {front : List String} {name : String}
    (haccepts : store.rules.accepts (Path.joinAll (front ++ [name])) = true)
    (hparents : front ≠ [] → store.rules.accepts (Path.joinAll front) = true)
    (hfront : ∀ s ∈ front, Path.IsTidyName s) (hname : Path.IsTidyName name)
    (hmode : mode.isDir = false) :
    store.createAt clock root (Path.joinAll (front ++ [name])) mode =
      match store.mkdirAlong clock root mode front with
      | (.error e, grown) => (.error e, grown)
      | (.ok parent, grown) => grown.findOrCreate clock parent name mode := by
  have hsegments : ∀ s ∈ front ++ [name], Path.IsTidyName s :=
    Path.forall_mem_concat hfront hname
  have hmade : (if front = [] then (.ok root, store)
      else store.mkdirAll clock root (Path.joinAll front) mode) =
      store.mkdirAlong clock root mode front := by
    split
    · next hnil =>
      subst hnil
      rfl
    · next hne => rw [mkdirAll_joinAll (hparents hne) hfront]
  unfold createAt
  rw [hmode, PathRules.split_joinAll haccepts hsegments]
  rcases hmoved : store.mkdirAlong clock root mode front with ⟨e | parent, grown⟩ <;>
    simp only [Bool.false_eq_true, if_false, List.getLast?_concat, List.dropLast_concat, hmade,
      hmoved]

/-- Segments that are `"."` make nothing. -/
theorem mkdirAlong_moving (segments : List String) :
    store.mkdirAlong clock root mode (moving segments) =
      store.mkdirAlong clock root mode segments := by
  induction segments generalizing store root with
  | nil => rfl
  | cons name rest ih =>
    by_cases hdot : name = "."
    · subst hdot
      have hskip : moving ("." :: rest) = moving rest := by simp [moving]
      rw [hskip, ih, mkdirAlong, if_pos rfl]
    · have hkeep : moving (name :: rest) = name :: moving rest := by simp [moving, hdot]
      rw [hkeep, mkdirAlong, mkdirAlong, if_neg hdot, if_neg hdot]
      simp only [ih]

/-- Directories that are there are passed through. -/
theorem mkdirAlong_append {front back : List String} {inode : Nat}
    (hdots : ∀ s ∈ front, s ≠ ".") (hleads : store.leads root front = some inode)
    (hinode : (store.dir? inode).isSome) :
    store.mkdirAlong clock root mode (front ++ back) =
      store.mkdirAlong clock inode mode back := by
  induction front generalizing root with
  | nil =>
    simp only [leads_nil, Option.some.injEq] at hleads
    rw [List.nil_append, hleads]
  | cons name rest ih =>
    rw [leads_cons] at hleads
    obtain ⟨child, hchild, hrest⟩ := Option.bind_eq_some_iff.mp hleads
    have hchildDir : (store.dir? child.inode).isSome := by
      cases rest with
      | nil =>
        simp only [leads_nil, Option.some.injEq] at hrest
        rwa [hrest]
      | cons first more => exact dir?_isSome_of_leads hrest (by simp)
    obtain ⟨d, hd⟩ := Option.isSome_iff_exists.mp hchildDir
    rw [List.cons_append, mkdirAlong, if_neg (hdots name (List.mem_cons_self ..)), hchild]
    simp only [hd]
    exact ih (fun s hs => hdots s (List.mem_cons_of_mem _ hs)) hrest

theorem resolve_ofKey (hkey : Path.IsKey key)
    (haccepts : store.rules.accepts (Path.ofKey key) = true) :
    store.resolve root (Path.ofKey key) = store.descend root key := by
  obtain ⟨segments, hsplit, hmoving⟩ := split_ofKey hkey haccepts
  unfold resolve
  simp only [hsplit, hmoving]

theorem mkdirAll_ofKey (hkey : Path.IsKey key)
    (haccepts : store.rules.accepts (Path.ofKey key) = true) :
    store.mkdirAll clock root (Path.ofKey key) mode = store.mkdirAlong clock root mode key := by
  obtain ⟨segments, hsplit, hmoving⟩ := split_ofKey hkey haccepts
  unfold mkdirAll
  simp only [hsplit]
  rw [← mkdirAlong_moving segments, hmoving]

end Tree.Store

end VirtualFs
