import VirtualFs.Proofs.Host.Finding
import VirtualFs.Proofs.Host.Steps

namespace VirtualFs.Host

/-- What may be asked of a host about a base, whatever it answers. -/
def staysBelow (library : Glob.Library) (base : String) : Contract :=
  confinement library base (fun _ => False) (fun _ _ => True) fun _ => True

namespace Disk

variable {disk old new : Disk} {base path : String} {i : Nat}

/-- What may be asked of a disk about a base, and what it then tells: nothing of the nodes outside,
absolute paths as they are, and of a search only paths below. -/
def region (disk : Disk) (library : Glob.Library) (base : String) : Contract :=
  confinement library base (disk.Outside base) (fun path full => full = path) (Trails base)

theorem Sound.setClock (hsound : disk.Sound) (now : Time) : { disk with now := now }.Sound :=
  hsound.of_members le_rfl (fun _ _ => rfl) id

theorem Since.setClock (hsince : Since base old new) (now : Time) :
    Since base old { new with now := now } :=
  hsince.step (hsince.sound.setClock now)
    ⟨le_rfl, fun _ _ _ => rfl, fun _ _ _ _ => rfl, .inl⟩

/-- A disk tells of a region what it may tell, and is changed within the region only. -/
theorem region_honoured {libraries : Libraries} (hlawful : libraries.Lawful) (old : Disk)
    (base : String) : (old.region libraries.patterns base).Honoured libraries (Since base old) := by
  intro disk hsince β request hasks
  cases request with
  | metadata path => exact ⟨onSuccess_of_ok fun _ h => hsince.metadata hasks h, hsince⟩
  | canonical path =>
    have hpath := hsince.rooted.trans hasks
    exact ⟨onSuccess_of_ok fun _ h => hlawful.canonical_eq hsince.sound hpath h, hsince⟩
  | openFile path options =>
    obtain ⟨hfile, hafter⟩ := hsince.openFile hasks options
    exact ⟨onSuccess_of_ok hfile, hafter⟩
  | size file => exact ⟨trivial, hsince⟩
  | read file offset n => exact ⟨trivial, hsince⟩
  | write file offset data => exact ⟨trivial, hsince.write hasks offset data⟩
  | list path => exact ⟨onSuccess_of_ok fun _ h => hsince.list hasks h, hsince⟩
  | member dir name => exact ⟨onSuccess_of_ok fun _ h => hsince.memberMetadata hasks h, hsince⟩
  | search pattern =>
    obtain ⟨-, view, rest, hview, hpattern, hrest⟩ := hasks
    have hanswer : OnSuccess (fun paths => ∀ path ∈ paths, Trails base path)
        (libraries.search disk pattern) := by
      refine onSuccess_of_ok fun paths hpaths path hpath => ?_
      rw [hpattern] at hpaths
      exact hview.trails (hlawful.trails_of_search hsince.sound (hsince.rooted.trans hview) hrest
        hpaths hpath)
    exact ⟨hanswer, hsince⟩
  | makeDir path perm => exact ⟨trivial, hsince.makeDir hasks perm⟩
  | makeDirs path perm => exact ⟨trivial, hsince.makeDirs hasks perm⟩
  | removeDir path => exact ⟨trivial, hsince.unlink hasks true⟩
  | removeFile path => exact ⟨trivial, hsince.unlink hasks false⟩
  | removeTree path => exact ⟨trivial, hsince.removeTree hasks⟩
  | rename path target => exact ⟨trivial, hsince.rename hasks.1 hasks.2⟩

end Disk

namespace Session

variable {libraries : Libraries} {session : Session} {disk old : Disk} {base : String}
  {steps : List (Time × Command)}

/-- The calls that a run makes, and what they answer. -/
def log (session : Session) (libraries : Libraries) (disk : Disk) :
    List (Time × Command) → List Exchange
  | [] => []
  | (now, command) :: rest =>
    let program := session.step libraries.patterns command
    let disk := { disk with now := now }
    let ((_, session), after) := program.run libraries disk
    program.log libraries disk ++ log session libraries after rest

/-- Filesystems with the absolute paths of directories below the base lie below it. -/
theorem within_of_named {fs : Filesystem}
    (hfs : fs.Named base fun path full => full = path) : fs.Within base := by
  obtain ⟨path, full, hbase, hpath, hsame⟩ := hfs
  have hfull : full = path := hsame.elim id id
  exact ⟨full, hbase, hfull ▸ hpath⟩

/-- A run that starts below a base stays there, and so does all that it takes. -/
theorem run_since (hlawful : libraries.Lawful) (hsince : Disk.Since base old disk)
    (hsession : session.Confined base (old.Outside base) fun path full => full = path)
    (hsteps : ∀ step ∈ steps, ¬step.2.Escapes libraries.patterns base) :
    Disk.Since base old (session.run libraries disk steps).2.2 ∧
      ∀ exchange ∈ session.log libraries disk steps,
        (old.region libraries.patterns base).Allows exchange := by
  induction steps generalizing session disk with
  | nil => exact ⟨hsince, List.forall_mem_nil _⟩
  | cons step rest ih =>
    obtain ⟨now, command⟩ := step
    obtain ⟨hcommand, hrest⟩ := List.forall_mem_cons.mp hsteps
    have hkeeps : (session.step libraries.patterns command).Keeps
        (old.region libraries.patterns base) fun answer =>
          answer.2.Confined base (old.Outside base) fun path full => full = path :=
      step_keeps hlawful.patterns hsession
        (fun fs hfs => within_of_named (hsession.views fs hfs)) hcommand
    obtain ⟨hafter, hdisk, hlog⟩ := hkeeps.run (Disk.region_honoured hlawful old base)
      (hsince.setClock now)
    obtain ⟨hlast, hlogs⟩ := ih hdisk hafter hrest
    exact ⟨hlast, List.forall_mem_append.mpr ⟨hlog, hlogs⟩⟩

theorem confined_start {fs : Filesystem} {outside : Nat → Prop} {named : String → String → Prop}
    (hfs : fs.Within base) : (start fs).Confined base outside named :=
  ⟨List.forall_mem_singleton.mpr hfs.isNamed, List.forall_mem_nil _⟩

end Session

/-- A filesystem rooted anywhere stays below its base, whatever the host answers. Only a search can
leave it, and does so exactly if `".."` matches a component of its pattern or the base is empty.
Where it is rooted at a directory of a sound disk, in every run without such a search all calls are
about paths below the base and all answers about what lies there, no path that a search finds leads
out, and nothing outside is changed but the base's own name. -/
theorem rooted_confined {libraries : Libraries} (hlawful : libraries.Lawful) (disk : Disk)
    (dir : String) :
    ∃ base, (Filesystem.rooted dir).run libraries disk = (⟨some base⟩, disk) ∧
      (∀ fs command, fs.Within base →
        (((Session.start fs).viewStep libraries.patterns fs command).Keeps
          (staysBelow libraries.patterns base) (fun _ => True) ↔
            ¬command.Escapes libraries.patterns base)) ∧
      (disk.Sound → disk.Attached (disk.start dir) → disk.isDirAt dir = true →
        ∀ steps, (∀ step ∈ steps, ¬step.2.Escapes libraries.patterns base) →
          (∀ exchange ∈ (Session.start ⟨some base⟩).log libraries disk steps,
            (disk.region libraries.patterns base).Allows exchange) ∧
          (∀ path i, Trails base path →
            ((Session.start ⟨some base⟩).run libraries disk steps).2.2.locate path = .ok i →
            ¬disk.Outside base i) ∧
          Disk.Inward (disk.fence base) disk
            ((Session.start ⟨some base⟩).run libraries disk steps).2.2) := by
  have hstays (base : String) (fs : Filesystem) (command : ViewCommand) (hfs : fs.Within base) :
      ((Session.start fs).viewStep libraries.patterns fs command).Keeps
        (staysBelow libraries.patterns base) (fun _ => True) ↔
          ¬command.Escapes libraries.patterns base :=
    Session.viewStep_keeps_iff hlawful.patterns (Session.confined_start hfs) hfs command
  cases hcanonical : libraries.canonical disk dir with
  | error e =>
    refine ⟨dir, ?_, hstays dir, fun hsound hstart hdir => ?_⟩
    · simp only [Filesystem.rooted, Program.run, Disk.answer, hcanonical]
    · obtain ⟨base, hbase, -⟩ := hlawful.exists_canonical hsound hstart hdir
      cases hcanonical.symm.trans hbase
  | ok base =>
    refine ⟨base, ?_, hstays base, fun hsound hstart hdir steps hsteps => ?_⟩
    · simp only [Filesystem.rooted, Program.run, Disk.answer, hcanonical]
    · obtain ⟨other, hother, hbase, inode, -, hthere⟩ :=
        hlawful.exists_canonical hsound hstart hdir
      cases hcanonical.symm.trans hother
      have hwithin : (⟨some base⟩ : Filesystem).Within base := ⟨base, rfl, .refl base⟩
      obtain ⟨hsince, hlog⟩ := Session.run_since hlawful (.refl hsound hbase ⟨inode, hthere⟩)
        (Session.confined_start hwithin) hsteps
      exact ⟨hlog, fun path i htrails hlocate => hsince.not_outside_of_trails htrails hlocate,
        hsince.inward⟩

/-- A directory with another in it, and a file beside it. -/
def corridor : Disk :=
  ((((Disk.empty 0).makeDir "/in" 0o755).2.makeDir "/in/d" 0o755).2.openFile "/out.txt"
    ⟨false, true, false, true, true, 0o644⟩).2

theorem sound_corridor : corridor.Sound := by
  have hempty : Disk.Since "/" (Disk.empty 0) (Disk.empty 0) :=
    .refl (Disk.sound_empty 0) (.refl "/") ⟨Disk.root, by
      have hroot : components "/" = [] := by decide
      rw [hroot]
      rfl⟩
  have hin : Beneath "/" "/in" := ⟨["in"], by decide, by decide⟩
  have hinner : Beneath "/" "/in/d" := ⟨["in", "d"], by decide, by decide⟩
  have hout : Beneath "/" "/out.txt" := ⟨["out.txt"], by decide, by decide⟩
  exact (((hempty.makeDir hin _).makeDir hinner _).openFile hout _).2.sound

/-- Making, searching, writing and removing below `/in`, also by way of a filesystem below `/in/d`,
and two paths and a file that lie outside. -/
def errand : List (Time × Command) :=
  [(1, .view 0 (.mkdirAll "d/e" (FileMode.dir 0o755))),
    (2, .view 0 (.sub "d")),
    (3, .view 1 (.writeFile "f" [120] (FileMode.file 0o644))),
    (4, .view 1 (.glob "*")),
    (5, .view 0 (.writeFile "../out.txt" [121] (FileMode.file 0o644))),
    (6, .view 0 (.stat "/out.txt")),
    (7, .view 1 (.openRead "f")),
    (8, .handle 0 (.read 5)),
    (9, .view 0 (.rename "d/f" "g")),
    (10, .view 1 (.removeAll "."))]

theorem rooted_confined_errand :
    corridor.Sound ∧ corridor.Attached (corridor.start "/in") ∧ corridor.isDirAt "/in" = true ∧
      (∀ step ∈ errand, ¬step.2.Escapes .shell "/in") ∧
      (((Session.start ⟨some "/in"⟩).run .standard corridor errand).1.map
        fun answer => answer.toOption) =
        [some .done, some (.view 1), some .done, some (.names ["e", "f"]), none, none,
          some (.handle 0), some (.data [120]), some .done, some .done] ∧
      Disk.Inward (corridor.fence "/in") corridor
        ((Session.start ⟨some "/in"⟩).run .standard corridor errand).2.2 := by
  have hroot : Disk.root = corridor.start "/in" := by decide +kernel
  have hstart : corridor.Attached (corridor.start "/in") := ⟨[], hroot⟩
  have hdir : corridor.isDirAt "/in" = true := by decide +kernel
  have hsteps : ∀ step ∈ errand, ¬step.2.Escapes .shell "/in" := by decide +kernel
  obtain ⟨base, hrooted, -, hrun⟩ := rooted_confined standard_lawful corridor "/in"
  have hbase : (Filesystem.rooted "/in").run .standard corridor = (⟨some "/in"⟩, corridor) := by
    decide +kernel
  cases hbase.symm.trans hrooted
  obtain ⟨-, -, hinward⟩ := hrun sound_corridor hstart hdir errand hsteps
  exact ⟨sound_corridor, hstart, hdir, hsteps, by decide +kernel, hinward⟩

/-- A search for `../*` hands `".."` to the host and lists what lies beside the base. -/
theorem not_forall_glob_confined :
    ¬∀ (disk : Disk) (base pattern : String) (found : List String), disk.Sound →
      disk.canonical base = .ok base → disk.isDirAt base = true →
      ((Filesystem.glob ⟨some base⟩ .shell pattern).run.run .standard disk).1 = .ok found →
      ".." ∉ Path.pieces ((⟨some base⟩ : Filesystem).fullPattern .shell pattern) ∧
        ∀ path ∈ found, ".." ∉ Path.pieces path := by
  intro hall
  have hcanonical : corridor.canonical "/in" = .ok "/in" := by decide +kernel
  have hdir : corridor.isDirAt "/in" = true := by decide +kernel
  have hfound : ((Filesystem.glob ⟨some "/in"⟩ .shell "../*").run.run .standard corridor).1 =
      .ok ["../in", "../out.txt"] := by decide +kernel
  obtain ⟨hpattern, -⟩ := hall corridor "/in" "../*" _ sound_corridor hcanonical hdir hfound
  exact hpattern (by decide +kernel)

end VirtualFs.Host
