import VirtualFs.Proofs.Host.Answers

namespace VirtualFs.Host

open VirtualFs.Path (IsDownward IsSegment joinAll pieces)

variable {base path name : String} {names : List String}

theorem pieces_absolute (hnames : ∀ s ∈ names, IsSegment s) (hne : names ≠ []) :
    pieces (absolute names) = "" :: names := by
  rw [absolute, Path.pieces_absolute, Path.pieces_joinAll hne fun s hs => (hnames s hs).2]

namespace Disk

theorem dropHollow_of_isDownward (hname : IsDownward name) (rest : List String) :
    dropHollow (name :: rest) = name :: rest := by
  obtain ⟨⟨hne, -⟩, hdot, -⟩ := hname
  simp [dropHollow, hne, hdot]

/-- The parent of an absolute path, none below the root. -/
theorem parentPath_absolute (hnames : ∀ s ∈ names, IsDownward s) (hname : IsDownward name) :
    parentPath (absolute (names ++ [name])) = if names = [] then "" else absolute names := by
  have hall := Path.forall_mem_concat hnames hname
  have hpieces := pieces_absolute (fun s hs => (hall s hs).1) (by simp)
  unfold parentPath
  rw [hpieces, List.reverse_cons, List.reverse_append, List.reverse_singleton, List.cons_append,
    List.cons_append, dropHollow_of_isDownward hname, List.drop_one, List.tail_cons, List.nil_append]
  rcases List.eq_nil_or_concat' names with rfl | ⟨front, last, rfl⟩
  · decide
  · have hlast := hnames last (List.mem_append_right _ (List.mem_singleton_self last))
    rw [List.reverse_append, List.reverse_singleton, List.cons_append, List.cons_append,
      dropHollow_of_isDownward hlast, if_neg (by simp), absolute]
    have hreverse : (last :: ([] ++ front.reverse ++ [""])).reverse = [""] ++ (front ++ [last]) := by
      simp
    rw [hreverse, Path.joinAll_append (List.cons_ne_nil _ _) (by simp), Path.joinAll_singleton,
      String.empty_append]

theorem checkPath_ne_missing (hpath : isAbsolute path = true) : checkPath path ≠ .error .missing := by
  have hne : path ≠ "" := by
    rintro rfl
    exact absurd hpath (by decide)
  unfold checkPath
  rw [if_neg hne]
  split
  · simp
  · split <;> simp

variable {disk old new : Disk}

theorem member?_ne_missing (disk : Disk) (dir : Nat) (name : String) :
    disk.member? dir name ≠ .error .missing := by
  unfold member?
  split
  · simp
  · split <;> simp

/-- Where the way to the last component is there, so is the place. -/
theorem place_ne_missing (hpath : isAbsolute path = true)
    (hfollow : disk.follow (disk.start path) (components path).dropLast ≠ .error .missing) :
    disk.place path ≠ .error .missing := by
  unfold place
  split
  · next e hresult =>
    rintro ⟨rfl⟩
    exact checkPath_ne_missing hpath hresult
  · split
    · next e hresult =>
      rintro ⟨rfl⟩
      exact hfollow hresult
    · split
      · simp
      · split <;> simp

/-- Only the way to a directory can be missing when it is made. -/
theorem makeDirOrReuse_ne_missing_of_place (hplace : disk.place path ≠ .error .missing)
    (perm : UInt32) : (disk.makeDirOrReuse path perm).1 ≠ .error .missing := by
  have hmake : (disk.makeDir path perm).1 ≠ .error .missing := by
    unfold makeDir
    split
    · next e hresult =>
      rintro ⟨rfl⟩
      exact hplace hresult
    · split
      · split
        · next e hmember =>
          rintro ⟨rfl⟩
          exact member?_ne_missing _ _ _ hmember
        · simp
        · split <;> simp
      · simp
  unfold makeDirOrReuse
  split
  · simp
  · next e after hresult =>
    rw [hresult] at hmake
    split
    · simp
    · exact hmake

namespace Since

/-- The parents of the base are there. -/
theorem makeDirOrReuse_ne_missing (hsince : Since base old new) (perm : UInt32) :
    (new.makeDirOrReuse base perm).1 ≠ .error .missing := by
  obtain ⟨habsolute, -, -⟩ := hsince.rooted.components
  refine makeDirOrReuse_ne_missing_of_place (place_ne_missing habsolute ?_) perm
  rw [start, if_pos habsolute]
  obtain ⟨top, htop⟩ := hsince.there
  rcases List.eq_nil_or_concat' (components base) with hnil | ⟨front, name, hfront⟩
  · rw [hnil]
    simp [follow]
  · rw [hfront] at htop ⊢
    obtain ⟨dir, hdir, -⟩ := leads_concat.mp htop
    rw [List.dropLast_concat]
    exact hsince.sound.follow_ne_missing (hsince.leads_of_leads hdir (by simp [hfront]))

theorem makeDirsWithin (hsince : Since base old new) (hpath : Beneath base path) (perm : UInt32)
    (depth : Nat) : Since base old (makeDirsWithin depth new path perm).2 := by
  induction depth generalizing new path with
  | zero => exact hsince
  | succ depth ih =>
    have hmade := hsince.makeDirOrReuse hpath perm
    unfold Disk.makeDirsWithin
    split
    · exact hsince
    · split
      · next disk hresult =>
        rw [hresult] at hmade
        have hparents :
            Since base old (Disk.makeDirsWithin depth disk (parentPath path) perm).2 := by
          obtain ⟨names, hnames, hself⟩ := hpath
          rcases List.eq_nil_or_concat' names with rfl | ⟨front, name, rfl⟩
          · rw [List.foldl_nil] at hself
            rw [hself] at hresult
            exact absurd (congrArg Prod.fst hresult) (hsince.makeDirOrReuse_ne_missing perm)
          · obtain ⟨hfront, hname⟩ := List.forall_mem_append.mp hnames
            obtain ⟨-, hbase, hbaseSelf⟩ := hsince.rooted.components
            have hdirs := List.forall_mem_append.mpr ⟨hbase, hfront⟩
            have habsolute : path = absolute (components base ++ front ++ [name]) := by
              rw [absolute_eq_foldl fun s hs =>
                (List.forall_mem_append.mpr ⟨hdirs, hname⟩ s hs).1, List.append_assoc,
                List.foldl_append, ← hbaseSelf, hself]
            rw [habsolute, parentPath_absolute hdirs (hname name (List.mem_singleton_self name))]
            split
            · cases depth with
              | zero => exact hmade
              | succ depth =>
                unfold Disk.makeDirsWithin
                rwa [if_pos rfl]
            · refine ih hmade ⟨front, hfront, ?_⟩
              rw [absolute_eq_foldl fun s hs => (hdirs s hs).1, List.foldl_append, ← hbaseSelf]
        split
        · next hlast => rwa [hlast] at hparents
        · next hlast =>
          rw [hlast] at hparents
          exact hparents.makeDirOrReuse hpath perm
      · next hresult => rwa [hresult] at hmade

theorem makeDirs (hsince : Since base old new) (hpath : Beneath base path) (perm : UInt32) :
    Since base old (new.makeDirs path perm).2 :=
  hsince.makeDirsWithin hpath perm _

end Since

end Disk

end VirtualFs.Host
