import VirtualFs.Proofs.Host.Parents

namespace VirtualFs.Host

open VirtualFs.Path (IsDownward joinAll)

variable {base name : String} {front names : List String}

theorem isHollow_of_isDownward (hname : IsDownward name) : isHollow name = false := by
  obtain ⟨⟨hempty, -⟩, hdot, -⟩ := hname
  simp [isHollow, hempty, hdot]

theorem dropWhile_isHollow (hnames : ∀ s ∈ names, IsDownward s) :
    names.dropWhile isHollow = names := by
  cases names with
  | nil => rfl
  | cons name rest =>
    have hname := isHollow_of_isDownward (hnames name List.mem_cons_self)
    rw [List.dropWhile_cons_of_neg (by simp [hname])]

theorem dropHollowEnd_eq_self (hnames : ∀ s ∈ names, IsDownward s) :
    dropHollowEnd names = names := by
  rw [dropHollowEnd, dropWhile_isHollow fun s hs => hnames s (List.mem_reverse.mp hs),
    List.reverse_reverse]

theorem filter_isHollow (hnames : ∀ s ∈ names, IsDownward s) :
    names.filter (fun piece => !isHollow piece) = names :=
  List.filter_eq_self.mpr fun s hs => by simp [isHollow_of_isDownward (hnames s hs)]

theorem afterNames_append (hfront : ∀ s ∈ front, IsDownward s)
    (hnames : ∀ s ∈ names, IsDownward s) : afterNames front (front ++ names) = some names := by
  induction front with
  | nil => rw [List.nil_append, afterNames, dropWhile_isHollow hnames]
  | cons name rest ih =>
    obtain ⟨hname, hrest⟩ := List.forall_mem_cons.mp hfront
    have hall : ∀ s ∈ name :: (rest ++ names), IsDownward s :=
      List.forall_mem_cons.mpr ⟨hname, List.forall_mem_append.mpr ⟨hrest, hnames⟩⟩
    rw [List.cons_append, afterNames, dropWhile_isHollow hall]
    dsimp only
    rw [if_pos rfl, ih hrest]

theorem lead_absolute (names : List String) : lead (absolute names) = "/" := by
  have habsolute : isAbsolute (absolute names) = true := by
    simp [isAbsolute, absolute, Path.separator]
  rw [lead, if_pos habsolute]

theorem body_absolute (hnames : ∀ s ∈ names, IsDownward s) :
    body (absolute names) = if names = [] then [""] else names := by
  rw [body, lead_absolute, if_neg (by decide)]
  split
  · next hnil =>
    rw [hnil]
    decide
  · next hne =>
    rw [pieces_absolute (fun s hs => (hnames s hs).1) hne, List.tail_cons]

theorem stripPrefix?_absolute (hfront : ∀ s ∈ front, IsDownward s)
    (hnames : ∀ s ∈ names, IsDownward s) :
    stripPrefix? (absolute front) (absolute (front ++ names)) = some (joinAll names) := by
  have hall := List.forall_mem_append.mpr ⟨hfront, hnames⟩
  have hkept : (body (absolute front)).filter (fun piece => !isHollow piece) = front := by
    rw [body_absolute hfront]
    split
    · next hnil =>
      rw [hnil]
      decide
    · exact filter_isHollow hfront
  rw [stripPrefix?, hkept, lead_absolute, lead_absolute, if_neg (by simp), if_pos rfl,
    body_absolute hall]
  split
  · next hnil =>
    obtain ⟨rfl, rfl⟩ := List.append_eq_nil_iff.mp hnil
    decide
  · rw [afterNames_append hfront hnames, Option.map_some, dropHollowEnd_eq_self hnames]

/-- What lies below the base is seen from there under its names. -/
theorem Filesystem.relative_of_beneath {fs : Filesystem} (hbase : fs.base = some base)
    (hroot : Beneath "/" base) (hnames : ∀ s ∈ names, IsDownward s) :
    fs.relative (names.foldl below base) = joinAll names := by
  obtain ⟨front, hfront, rfl⟩ := hroot
  have hall := List.forall_mem_append.mpr ⟨hfront, hnames⟩
  have hstrip := stripPrefix?_absolute hfront hnames
  rw [absolute_eq_foldl fun s hs => (hfront s hs).1,
    absolute_eq_foldl fun s hs => (hall s hs).1, List.foldl_append] at hstrip
  simp only [relative, hbase, hstrip, Option.getD_some]

end VirtualFs.Host
