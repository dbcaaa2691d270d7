import VirtualFs.Proofs.Host.Confined

namespace VirtualFs.Host

variable {library : Glob.Library} {base : String} {outside : Nat → Prop}
  {named : String → String → Prop} {found : String → Prop}

/-- Where a search starts is of no account: what follows must not go up. -/
theorem searchesBeneath_iff (hlawful : library.Lawful) {view pattern : String}
    (hview : Beneath base view) :
    SearchesBeneath library base (library.escape view ++ "/" ++ pattern) ↔
      base ≠ "" ∧ ∀ component ∈ Path.pieces pattern, library.goesUp component = false := by
  refine and_congr_right fun _ => ⟨?_, fun hdown => ⟨view, pattern, hview, rfl, hdown⟩⟩
  rintro ⟨other, rest, ⟨back, hback, rfl⟩, hsame, hdown⟩ component hcomponent
  obtain ⟨front, hfront, rfl⟩ := hview
  have hcomponents := congrArg components hsame
  rw [components_pattern hlawful hfront, components_pattern hlawful hback,
    List.append_cancel_left_eq] at hcomponents
  by_cases hempty : component = ""
  · rw [hempty, library.goesUp_empty]
  · have hmem : component ∈ back.map library.escape ++ components rest := by
      rw [← hcomponents]
      exact List.mem_append_right _ (List.mem_filter.mpr ⟨hcomponent, by simpa using hempty⟩)
    rcases List.mem_append.mp hmem with hname | hrest
    · obtain ⟨s, hs, rfl⟩ := List.mem_map.mp hname
      by_contra hup
      rw [Bool.not_eq_false] at hup
      exact (hback s hs).2.2 (hlawful.eq_dotDot_of_goesUp_escape hup)
    · exact hdown component (List.mem_filter.mp hrest).1

/-- The operation is a search for a pattern that goes up, or one from an empty base, which starts at
the root of the host. -/
def ViewCommand.Escapes (library : Glob.Library) (base : String) : ViewCommand → Prop
  | .glob pattern => base = "" ∨ ∃ component ∈ Path.pieces pattern, library.goesUp component = true
  | _ => False

instance (library : Glob.Library) (base : String) : DecidablePred (ViewCommand.Escapes library base)
  | .glob pattern => inferInstanceAs
    (Decidable (base = "" ∨ ∃ component ∈ Path.pieces pattern, library.goesUp component = true))
  | .openRead _ | .openFile _ _ _ | .create _ | .stat _ | .readDir _ | .content _ | .writeFile _ _ _
  | .sub _ | .mkdir _ _ | .mkdirAll _ _ | .remove _ | .removeAll _ | .rename _ _ =>
    inferInstanceAs (Decidable False)

/-- The operation is a search that does not stay below the base. -/
def Command.Escapes (library : Glob.Library) (base : String) : Command → Prop
  | .view _ command => command.Escapes library base
  | .handle _ _ => False

instance (library : Glob.Library) (base : String) : DecidablePred (Command.Escapes library base)
  | .view _ command => inferInstanceAs (Decidable (command.Escapes library base))
  | .handle _ _ => inferInstanceAs (Decidable False)

theorem Filesystem.searchesBeneath_fullPattern_iff (hlawful : library.Lawful) {fs : Filesystem}
    (hfs : fs.Within base) (pattern : String) :
    SearchesBeneath library base (fs.fullPattern library pattern) ↔
      ¬(ViewCommand.glob pattern).Escapes library base := by
  obtain ⟨full, hfull, hbeneath⟩ := hfs
  have hpattern : fs.fullPattern library pattern = library.escape full ++ "/" ++ pattern := by
    simp only [Filesystem.fullPattern, hfull]
  rw [hpattern, searchesBeneath_iff hlawful hbeneath]
  simp only [ViewCommand.Escapes, not_or, ne_eq, not_exists, not_and, Bool.not_eq_true]

namespace Session

variable {session : Session} {α : Type}

theorem report_keeps (hsession : session.Confined base outside named) (reply : α → Reply)
    {attempt : Attempt α}
    (hattempt : attempt.Keeps (confinement library base outside named found) fun _ => True) :
    (session.report reply attempt).Keeps (confinement library base outside named found)
      fun (_, session) => session.Confined base outside named :=
  Program.Keeps.bind hattempt fun _ _ => hsession

theorem takeHandle_keeps (hsession : session.Confined base outside named) {attempt : Attempt Handle}
    (hattempt : attempt.Keeps (confinement library base outside named found)
      (Handle.Confined base outside)) :
    (session.takeHandle attempt).Keeps (confinement library base outside named found)
      fun (_, session) => session.Confined base outside named := by
  refine Program.Keeps.bind hattempt fun result hresult => ?_
  cases result with
  | error e => exact hsession
  | ok handle =>
    exact ⟨hsession.views,
      List.forall_mem_append.mpr ⟨hsession.handles, List.forall_mem_singleton.mpr hresult⟩⟩

theorem takeView_keeps (hsession : session.Confined base outside named)
    {attempt : Attempt Filesystem}
    (hattempt : attempt.Keeps (confinement library base outside named found)
      (Filesystem.Named base named)) :
    (session.takeView attempt).Keeps (confinement library base outside named found)
      fun (_, session) => session.Confined base outside named := by
  refine Program.Keeps.bind hattempt fun result hresult => ?_
  cases result with
  | error e => exact hsession
  | ok fs =>
    exact ⟨List.forall_mem_append.mpr ⟨hsession.views, List.forall_mem_singleton.mpr hresult⟩,
      hsession.handles⟩

/-- An operation of a filesystem stays below the base, and so does what it takes. -/
theorem viewStep_keeps (hlawful : library.Lawful) (hsession : session.Confined base outside named)
    {fs : Filesystem} (hfs : fs.Within base) {command : ViewCommand}
    (hcommand : ¬command.Escapes library base) :
    (session.viewStep library fs command).Keeps (confinement library base outside named found)
      fun (_, session) => session.Confined base outside named := by
  cases command with
  | openRead path => exact takeHandle_keeps hsession (Filesystem.openRead_keeps hfs path)
  | openFile path flags mode =>
    exact takeHandle_keeps hsession (Filesystem.openFile_keeps hfs path flags mode)
  | create path => exact takeHandle_keeps hsession (Filesystem.create_keeps hfs path)
  | stat path => exact report_keeps hsession _ (Filesystem.stat_keeps hfs path)
  | readDir path => exact report_keeps hsession _ (Filesystem.readDir_keeps hfs path)
  | content path => exact report_keeps hsession _ (Filesystem.content_keeps hfs path)
  | writeFile path data mode =>
    exact report_keeps hsession _ (Filesystem.writeFile_keeps hfs path data mode)
  | glob pattern =>
    have hsearch := (Filesystem.searchesBeneath_fullPattern_iff hlawful hfs pattern).mpr hcommand
    exact report_keeps hsession _ ((Filesystem.glob_keeps_iff pattern).mpr hsearch)
  | sub path => exact takeView_keeps hsession (Filesystem.sub_keeps hfs path)
  | mkdir path mode => exact report_keeps hsession _ (Filesystem.mkdir_keeps hfs path mode)
  | mkdirAll path mode => exact report_keeps hsession _ (Filesystem.mkdirAll_keeps hfs path mode)
  | remove path => exact report_keeps hsession _ (Filesystem.remove_keeps hfs path)
  | removeAll path => exact report_keeps hsession _ (Filesystem.removeAll_keeps hfs path)
  | rename path target => exact report_keeps hsession _ (Filesystem.rename_keeps hfs path target)

/-- Only a search can leave the base. -/
theorem viewStep_keeps_iff (hlawful : library.Lawful)
    (hsession : session.Confined base outside named) {fs : Filesystem} (hfs : fs.Within base)
    (command : ViewCommand) :
    ((session.viewStep library fs command).Keeps (confinement library base outside named found)
      fun _ => True) ↔
      ¬command.Escapes library base := by
  refine ⟨fun hkeeps => ?_, fun hcommand =>
    (viewStep_keeps hlawful hsession hfs hcommand).mono fun _ _ => trivial⟩
  cases command with
  | glob pattern =>
    exact (Filesystem.searchesBeneath_fullPattern_iff hlawful hfs pattern).mp hkeeps.1
  | _ => exact not_false

theorem putHandle_keeps (hsession : session.Confined base outside named) (index : Nat)
    (reply : α → Reply) {program : Program (Except FsError α × Handle)}
    (hprogram : program.Keeps (confinement library base outside named found) fun (_, handle) =>
      handle.Confined base outside) :
    (session.putHandle index reply program).Keeps (confinement library base outside named found)
      fun (_, session) => session.Confined base outside named := by
  refine Program.Keeps.bind hprogram fun (result, handle) hhandle => ?_
  refine ⟨hsession.views, fun other hother => ?_⟩
  rcases List.mem_or_eq_of_mem_set hother with hmem | rfl
  · exact hsession.handles other hmem
  · exact hhandle

/-- An operation of a handle that was opened below the base stays there. -/
theorem handleStep_keeps (hsession : session.Confined base outside named) (index : Nat)
    {handle : Handle} (hhandle : handle.Confined base outside) (command : HandleCommand) :
    (session.handleStep index handle command).Keeps (confinement library base outside named found)
      fun (_, session) => session.Confined base outside named := by
  cases command with
  | read n => exact putHandle_keeps hsession _ _ (Handle.read_keeps hhandle n)
  | readAt n offset =>
    exact report_keeps hsession _ ((Handle.readAt_keeps hhandle n offset).mono fun result _ => by
      cases result <;> trivial)
  | seek goal => exact putHandle_keeps hsession _ _ (Handle.seek_keeps hhandle goal)
  | write data => exact putHandle_keeps hsession _ _ (Handle.write_keeps hhandle data)
  | readDir n => exact putHandle_keeps hsession _ _ (Handle.readDir_keeps hhandle n)
  | stat =>
    exact report_keeps hsession _ ((Handle.stat_keeps hhandle).mono fun result _ => by
      cases result <;> trivial)
  | close =>
    have hclosed : (Program.done handle.close).Keeps (confinement library base outside named found)
        fun (_, handle) => handle.Confined base outside := hhandle.close
    exact putHandle_keeps hsession _ _ hclosed

/-- One operation stays below the base if all filesystems taken so far lie there. -/
theorem step_keeps (hlawful : library.Lawful) (hsession : session.Confined base outside named)
    (hviews : ∀ fs ∈ session.views, fs.Within base) {command : Command}
    (hcommand : ¬command.Escapes library base) :
    (session.step library command).Keeps (confinement library base outside named found)
      fun (_, session) => session.Confined base outside named := by
  cases command with
  | view index command =>
    simp only [step]
    cases hfs : session.views[index]? with
    | none => exact hsession
    | some fs =>
      exact viewStep_keeps hlawful hsession (hviews fs (List.mem_of_getElem? hfs)) hcommand
  | handle index command =>
    simp only [step]
    cases hhandle : session.handles[index]? with
    | none => exact hsession
    | some handle =>
      exact handleStep_keeps hsession index
        (hsession.handles handle (List.mem_of_getElem? hhandle)) command

end Session

end VirtualFs.Host
