import VirtualFs.Host.Session
import VirtualFs.Proofs.Host.Beneath
import VirtualFs.Proofs.Host.Contract

namespace VirtualFs.Host

/-- The pattern is that of a path below the base and, after it, of components that do not go up. -/
def SearchesBeneath (library : Glob.Library) (base pattern : String) : Prop :=
  base ≠ "" ∧ ∃ view rest, Beneath base view ∧ pattern = library.escape view ++ "/" ++ rest ∧
    ∀ component ∈ Path.pieces rest, library.goesUp component = false

/-- The call is about paths below the base, and about nodes that do not lie outside. -/
def Request.Confined (library : Glob.Library) (base : String) (outside : Nat → Prop) {β : Type} :
    Request β → Prop
  | .metadata path | .canonical path | .openFile path _ | .list path => Beneath base path
  | .size file | .read file _ _ | .write file _ _ => ¬outside file
  | .member dir _ => ¬outside dir
  | .search pattern => SearchesBeneath library base pattern
  | .makeDir path _ | .makeDirs path _ => Beneath base path
  | .removeDir path | .removeFile path | .removeTree path => Beneath base path
  | .rename path target => Beneath base path ∧ Beneath base target

/-- The answer tells of no node outside. Absolute paths are such as `named` allows, and paths that
are found such as `found` does. -/
def Request.Honest (outside : Nat → Prop) (named : String → String → Prop) (found : String → Prop)
    {β : Type} : Request β → β → Prop
  | .metadata _, answer | .member _ _, answer =>
    OnSuccess (fun m : Metadata => ¬outside m.inode) answer
  | .canonical path, answer => OnSuccess (named path) answer
  | .openFile _ _, answer => OnSuccess (fun file : Nat => ¬outside file) answer
  | .list _, answer => OnSuccess (fun listing : Listing => ¬outside listing.dir) answer
  | .search _, answer => OnSuccess (fun paths : List String => ∀ path ∈ paths, found path) answer
  | _, _ => True

/-- Calls and answers that stay below a base. -/
def confinement (library : Glob.Library) (base : String) (outside : Nat → Prop)
    (named : String → String → Prop) (found : String → Prop) : Contract where
  asks := Request.Confined library base outside
  answers := Request.Honest outside named found

/-- The filesystem lies below the base. -/
def Filesystem.Within (base : String) (fs : Filesystem) : Prop :=
  ∃ full, fs.base = some full ∧ Beneath base full

/-- The filesystem is that of a path below the base, or of the absolute path named for it. -/
def Filesystem.Named (base : String) (named : String → String → Prop) (fs : Filesystem) : Prop :=
  ∃ path full, fs.base = some full ∧ Beneath base path ∧ (full = path ∨ named path full)

/-- The handle was opened below the base, and no node that it knows lies outside. -/
structure Handle.Confined (base : String) (outside : Nat → Prop) (handle : Handle) : Prop where
  full : Beneath base handle.full
  file : ∀ file, handle.file = some file → ¬outside file
  listing : ∀ listing, handle.listing = some listing → ¬outside listing.dir

/-- Everything taken so far stays below the base. -/
structure Session.Confined (base : String) (outside : Nat → Prop) (named : String → String → Prop)
    (session : Session) : Prop where
  views : ∀ fs ∈ session.views, fs.Named base named
  handles : ∀ handle ∈ session.handles, handle.Confined base outside

variable {library : Glob.Library} {base : String} {outside : Nat → Prop}
  {named : String → String → Prop} {found : String → Prop}

namespace Handle

variable {handle : Handle}

theorem confined_onDir {full : String} (path : String) (hfull : Beneath base full) :
    (onDir path full).Confined base outside :=
  ⟨hfull, by simp [onDir], by simp [onDir]⟩

theorem confined_onFile {full : String} {file : Nat} (path : String) (flags : OpenFlags)
    (hfull : Beneath base full) (hfile : ¬outside file) :
    (onFile path full flags file).Confined base outside :=
  ⟨hfull, by simpa [onFile] using hfile, by simp [onFile]⟩

/-- Only the cursor of the handle moved. -/
theorem Confined.seekTo (hhandle : handle.Confined base outside) (offset : Nat) :
    { handle with offset := offset }.Confined base outside :=
  ⟨hhandle.full, hhandle.file, hhandle.listing⟩

theorem Confined.readable (hhandle : handle.Confined base outside) {file : Nat}
    (hreadable : handle.readable = .ok file) : ¬outside file :=
  hhandle.file file (file_of_transferred hreadable)

theorem Confined.writable (hhandle : handle.Confined base outside) {file : Nat}
    (hwritable : handle.writable = .ok file) : ¬outside file :=
  hhandle.file file (file_of_transferred hwritable)

theorem read_keeps (hhandle : handle.Confined base outside) (n : Nat) :
    (handle.read n).Keeps (confinement library base outside named found) fun (_, handle) =>
      handle.Confined base outside := by
  unfold read
  cases hreadable : handle.readable with
  | error e => exact hhandle
  | ok file =>
    refine ⟨hhandle.readable hreadable, fun answer _ => ?_⟩
    cases answer with
    | error e => exact hhandle
    | ok data => exact hhandle.seekTo _

theorem readAt_keeps (hhandle : handle.Confined base outside) (n offset : Nat) :
    (handle.readAt n offset).Keeps (confinement library base outside named found)
      fun _ => True := by
  unfold readAt
  cases hreadable : handle.readable with
  | error e => trivial
  | ok file =>
    dsimp only
    split
    · trivial
    · refine ⟨hhandle.readable hreadable, fun answer _ => ?_⟩
      cases answer with
      | error e => trivial
      | ok data => trivial

theorem seek_keeps (hhandle : handle.Confined base outside) (goal : SeekTo) :
    (handle.seek goal).Keeps (confinement library base outside named found) fun (_, handle) =>
      handle.Confined base outside := by
  unfold seek
  cases hreadable : handle.readable with
  | error e => exact hhandle
  | ok file =>
    refine ⟨hhandle.readable hreadable, fun size _ => ?_⟩
    dsimp only
    split
    · exact hhandle.seekTo _
    · exact hhandle

theorem write_keeps (hhandle : handle.Confined base outside) (data : Bytes) :
    (handle.write data).Keeps (confinement library base outside named found) fun (_, handle) =>
      handle.Confined base outside := by
  unfold write
  cases hwritable : handle.writable with
  | error e => exact hhandle
  | ok file =>
    dsimp only
    split
    · exact hhandle
    · refine ⟨hhandle.writable hwritable, fun size _ =>
        ⟨hhandle.writable hwritable, fun answer _ => ?_⟩⟩
      cases answer with
      | error e => exact hhandle
      | ok _ => exact hhandle.seekTo _

theorem deliver_keeps {dir : Nat} (hdir : ¬outside dir) (limit : Nat) (names : List String) :
    (handle.deliver dir limit names).Keeps (confinement library base outside named found)
      fun _ => True := by
  induction limit, names using deliver.induct with
  | case1 names => trivial
  | case2 limit => cases limit <;> trivial
  | case3 limit name names ih =>
    refine ⟨hdir, fun answer _ => ?_⟩
    cases answer with
    | error e => trivial
    | ok m =>
      dsimp only
      split
      · trivial
      · exact ih.bind fun (result, rest) _ => by cases result <;> trivial

theorem page_keeps (hhandle : handle.Confined base outside) (n : Int) {listing : Listing}
    (hlisting : ¬outside listing.dir) :
    (handle.page n listing).Keeps (confinement library base outside named found) fun (_, handle) =>
      handle.Confined base outside := by
  refine (deliver_keeps hlisting _ _).bind fun (result, rest) _ => ?_
  have hafter : { handle with listing := some ⟨listing.dir, rest⟩ }.Confined base outside :=
    ⟨hhandle.full, hhandle.file, by
      rintro _ ⟨rfl⟩
      exact hlisting⟩
  cases result with
  | error e => exact hafter
  | ok entries =>
    dsimp only
    split <;> exact hafter

theorem readDir_keeps (hhandle : handle.Confined base outside) (n : Int) :
    (handle.readDir n).Keeps (confinement library base outside named found) fun (_, handle) =>
      handle.Confined base outside := by
  unfold readDir
  split
  · exact hhandle
  · split
    · exact hhandle
    · cases hlisting : handle.listing with
      | some listing => exact page_keeps hhandle n (hhandle.listing listing hlisting)
      | none =>
        refine ⟨hhandle.full, fun answer hanswer => ?_⟩
        cases answer with
        | error e => exact hhandle
        | ok listing => exact page_keeps hhandle n hanswer

theorem stat_keeps (hhandle : handle.Confined base outside) :
    handle.stat.Keeps (confinement library base outside named found) fun _ => True := by
  unfold stat
  split
  · trivial
  · refine ⟨hhandle.full, fun answer _ => ?_⟩
    cases answer with
    | error e => trivial
    | ok m =>
      dsimp only
      split <;> trivial

theorem Confined.close (hhandle : handle.Confined base outside) :
    handle.close.2.Confined base outside := by
  unfold Handle.close
  split
  · exact hhandle
  · exact ⟨hhandle.full, by simp, by simp⟩

end Handle

namespace Filesystem

variable {fs : Filesystem}

theorem Within.isNamed (hfs : fs.Within base) : fs.Named base named := by
  obtain ⟨full, hfull, hbeneath⟩ := hfs
  exact ⟨full, full, hfull, hbeneath, .inl rfl⟩

theorem resolve_keeps (hfs : fs.Within base) (path : String) :
    (Attempt.lift (fs.resolve path)).Keeps (confinement library base outside named found)
      (Beneath base) := by
  obtain ⟨full, hfull, hbeneath⟩ := hfs
  refine Attempt.keeps_lift ?_
  cases hresolve : fs.resolve path with
  | error e => trivial
  | ok path => exact hbeneath.trans (beneath_of_resolve hfull hresolve)

theorem onPath_keeps {β : Type} {Q : β → Prop} (hfs : fs.Within base) (path : String)
    {request : String → Request (Except Failure β)}
    (hasks : ∀ full, Beneath base full → (request full).Confined library base outside)
    (hanswer : ∀ full result, (request full).Honest outside named found (.ok result) → Q result) :
    (fs.onPath path request).Keeps (confinement library base outside named found) Q :=
  (resolve_keeps hfs path).bind fun full hfull =>
    Attempt.keeps_ask (hasks full hfull) (hanswer full)

theorem isDirAt_keeps {full : String} (hfull : Beneath base full) :
    (isDirAt full).Keeps (confinement library base outside named found) fun _ => True := by
  refine ⟨hfull, fun answer _ => ?_⟩
  cases answer with
  | error e => trivial
  | ok m => trivial

theorem openHandle_keeps (hfs : fs.Within base) (path : String) (flags : OpenFlags)
    (mode : FileMode) :
    (fs.openHandle path flags mode).Keeps (confinement library base outside named found)
      (Handle.Confined base outside) := by
  refine (resolve_keeps hfs path).bind fun full hfull => ?_
  refine (isDirAt_keeps hfull).bind fun there _ => ?_
  split
  · exact Attempt.keeps_pure (Handle.confined_onDir path hfull)
  · split
    · exact (Attempt.keeps_ask (Q := fun _ => True) hfull fun _ _ => trivial).bind fun _ _ =>
        Attempt.keeps_pure (Handle.confined_onDir path hfull)
    · exact (Attempt.keeps_ask (Q := fun file => ¬outside file) hfull fun _ hfile => hfile).bind
        fun file hfile => Attempt.keeps_pure (Handle.confined_onFile path flags hfull hfile)

theorem openRead_keeps (hfs : fs.Within base) (path : String) :
    (fs.openRead path).Keeps (confinement library base outside named found)
      (Handle.Confined base outside) :=
  (openHandle_keeps hfs path _ _).tag _ _

theorem openFile_keeps (hfs : fs.Within base) (path : String) (flags : OpenFlags)
    (mode : FileMode) :
    (fs.openFile path flags mode).Keeps (confinement library base outside named found)
      (Handle.Confined base outside) :=
  (openHandle_keeps hfs path _ _).tag _ _

theorem create_keeps (hfs : fs.Within base) (path : String) :
    (fs.create path).Keeps (confinement library base outside named found)
      (Handle.Confined base outside) :=
  (openHandle_keeps hfs path _ _).tag _ _

theorem stat_keeps (hfs : fs.Within base) (path : String) :
    (fs.stat path).Keeps (confinement library base outside named found) fun _ => True := by
  refine Attempt.Keeps.tag (Attempt.Keeps.bind (Q := fun _ => True) ?_ fun m _ => ?_) _ _
  · exact onPath_keeps hfs path (fun _ hfull => hfull) fun _ _ _ => trivial
  · exact Attempt.keeps_lift (by cases entryOf path m <;> trivial)

theorem readDir_keeps (hfs : fs.Within base) (path : String) :
    (fs.readDir path).Keeps (confinement library base outside named found) fun _ => True := by
  refine ((openHandle_keeps hfs path _ _).tag _ _).bind fun handle hhandle => ?_
  refine Attempt.Keeps.bind (Q := fun _ => True) ?_ fun _ _ => Attempt.keeps_pure trivial
  refine (Handle.readDir_keeps hhandle (-1)).bind fun (result, _) _ => ?_
  cases result <;> trivial

theorem content_keeps (hfs : fs.Within base) (path : String) :
    (fs.content path).Keeps (confinement library base outside named found) fun _ => True := by
  refine Attempt.Keeps.tag (Attempt.Keeps.bind (Q := fun file => ¬outside file) ?_
    fun file hfile => ?_) _ _
  · exact onPath_keeps hfs path (fun _ hfull => hfull) fun _ _ hfile => hfile
  · refine Attempt.Keeps.bind (Q := fun _ => True) ?_ fun size _ => ?_
    · exact Attempt.keeps_of_program ⟨hfile, fun _ _ => trivial⟩
    · exact Attempt.keeps_ask hfile fun _ _ => trivial

theorem writeFile_keeps (hfs : fs.Within base) (path : String) (data : Bytes) (mode : FileMode) :
    (fs.writeFile path data mode).Keeps (confinement library base outside named found)
      fun _ => True := by
  refine Attempt.Keeps.tag (Attempt.Keeps.bind (Q := fun file => ¬outside file) ?_
    fun file hfile => ?_) _ _
  · exact onPath_keeps hfs path (fun _ hfull => hfull) fun _ _ hfile => hfile
  · exact Attempt.keeps_ask hfile fun _ _ => trivial

theorem mkdir_keeps (hfs : fs.Within base) (path : String) (mode : FileMode) :
    (fs.mkdir path mode).Keeps (confinement library base outside named found) fun _ => True := by
  refine Attempt.Keeps.tag ?_ _ _
  exact onPath_keeps hfs path (fun _ hfull => hfull) fun _ _ _ => trivial

theorem mkdirAll_keeps (hfs : fs.Within base) (path : String) (mode : FileMode) :
    (fs.mkdirAll path mode).Keeps (confinement library base outside named found) fun _ => True := by
  refine Attempt.Keeps.tag ?_ _ _
  exact onPath_keeps hfs path (fun _ hfull => hfull) fun _ _ _ => trivial

theorem rooted_keeps {full : String} (hfull : Beneath base full) :
    (rooted full).Keeps (confinement library base outside named found) (Named base named) := by
  refine ⟨hfull, fun answer hanswer => ?_⟩
  cases answer with
  | error e => exact ⟨full, full, rfl, hfull, .inl rfl⟩
  | ok absolute => exact ⟨full, absolute, rfl, hfull, .inr hanswer⟩

theorem sub_keeps (hfs : fs.Within base) (dir : String) :
    (fs.sub dir).Keeps (confinement library base outside named found) (Named base named) := by
  refine ((resolve_keeps hfs dir).bind fun full hfull => ?_).tag _ _
  refine (Attempt.keeps_ask (Q := fun _ => True) hfull fun _ _ => trivial).bind fun m _ => ?_
  split
  · exact Attempt.keeps_of_program (rooted_keeps hfull)
  · exact Attempt.keeps_lift trivial

theorem remove_keeps (hfs : fs.Within base) (path : String) :
    (fs.remove path).Keeps (confinement library base outside named found) fun _ => True := by
  refine ((resolve_keeps hfs path).bind fun full hfull => ?_).tag _ _
  refine (Attempt.keeps_ask (Q := fun _ => True) hfull fun _ _ => trivial).bind fun m _ => ?_
  split
  all_goals exact Attempt.keeps_ask hfull fun _ _ => trivial

theorem removeAll_keeps (hfs : fs.Within base) (path : String) :
    (fs.removeAll path).Keeps (confinement library base outside named found) fun _ => True := by
  refine ((resolve_keeps hfs path).bind fun full hfull => ?_).tag _ _
  refine ⟨hfull, fun answer _ => ?_⟩
  cases answer with
  | error e => cases e <;> trivial
  | ok m =>
    dsimp only
    split
    all_goals exact Attempt.keeps_ask (Q := fun _ => True) hfull fun _ _ => trivial

theorem rename_keeps (hfs : fs.Within base) (path target : String) :
    (fs.rename path target).Keeps (confinement library base outside named found) fun _ => True := by
  refine ((resolve_keeps hfs path).bind fun full hfull => ?_).tag _ _
  refine (resolve_keeps hfs target).bind fun fullTarget htarget => ?_
  exact Attempt.keeps_ask ⟨hfull, htarget⟩ fun _ _ => trivial

/-- A search stays below the base exactly if its pattern is one that does. -/
theorem glob_keeps_iff (pattern : String) :
    (fs.glob library pattern).Keeps (confinement library base outside named found) (fun _ => True) ↔
      SearchesBeneath library base (fs.fullPattern library pattern) := by
  refine ⟨fun hkeeps => hkeeps.1, fun hsearch => Attempt.Keeps.tag ?_ _ _⟩
  refine ⟨hsearch, fun answer _ => ?_⟩
  cases answer with
  | ok found => trivial
  | error e => cases e <;> trivial

end Filesystem

end VirtualFs.Host
