import VirtualFs.Proofs.Content.PlainFile

namespace VirtualFs

/-- Growing a buffer, where it does not fail, makes room for the new bytes and stays within `bound`.
Asked of the capacities within `bound` and the lengths within the limit on the content. The limit
itself serves as the bound as long as doubles hold it exactly. -/
def Config.GrowsWithin (config : Config) (bound : Nat) : Prop :=
  config.maxContentLen ≤ bound ∧
    ∀ capacity n grown, capacity ≤ bound → n ≤ config.maxContentLen →
      Tree.grownCapacity config capacity n = some grown → capacity + n ≤ grown ∧ grown ≤ bound

namespace Tree.Cell

/-- What holds of every cell of a tree. -/
structure Sound (bound : Nat) (cell : Cell) : Prop where
  size_le : cell.size ≤ cell.capacity
  capacity_le : cell.capacity ≤ bound
  /-- Past the content there are only zeros. -/
  slack : ∀ i, cell.size ≤ i → i < cell.capacity → cell.buf[i]? = some 0
  regular : cell.entry.isDir = false
  entry_size : cell.entry.size = cell.size

/-- The plain file that a cell holds. -/
def plain (cell : Cell) : Plain.File :=
  ⟨cell.active, ⟨cell.capacity, cell.entry.attrs.ctime, cell.entry.attrs.mtime⟩⟩

variable {config : Config} {bound : Nat} {cell : Cell}

theorem Sound.length_active (hsound : cell.Sound bound) : cell.active.length = cell.size := by
  have hle := hsound.size_le
  simp only [capacity] at hle
  simp [active, hle]

theorem setSize_eq {entry : Entry} (hregular : entry.isDir = false) (size : Nat) :
    entry.setSize size = { entry with attrs := { entry.attrs with size := size } } := by
  simp [Entry.setSize, hregular]

theorem sound_empty {entry : Entry} {capacity : Nat} (hcapacity : capacity ≤ bound)
    (hregular : entry.isDir = false) (hsize : entry.size = 0) :
    (Cell.empty entry capacity).Sound bound where
  size_le := Nat.zero_le _
  capacity_le := by simpa [empty, Cell.capacity] using hcapacity
  slack := by
    intro i _ hi
    simp only [empty, Cell.capacity, List.length_replicate] at hi ⊢
    simp [hi]
  regular := hregular
  entry_size := hsize

theorem capacity_truncate (hle : cell.size ≤ cell.capacity) :
    cell.truncate.capacity = cell.capacity := by
  simp only [capacity] at hle
  simp only [truncate, capacity, List.length_append, List.length_replicate, List.length_drop]
  omega

theorem Sound.truncate (hsound : cell.Sound bound) : cell.truncate.Sound bound where
  size_le := Nat.zero_le _
  capacity_le := by
    rw [capacity_truncate hsound.size_le]
    exact hsound.capacity_le
  slack := by
    intro i _ hi
    rw [capacity_truncate hsound.size_le] at hi
    have hle := hsound.size_le
    simp only [capacity] at hle hi
    simp only [Cell.truncate]
    rw [List.getElem?_append, List.length_replicate, Nat.min_eq_left hle]
    split
    · next hlt => exact List.getElem?_replicate_of_lt hlt
    · next hge =>
      rw [List.getElem?_drop, Nat.add_sub_cancel' (Nat.le_of_not_lt hge)]
      exact hsound.slack i (Nat.le_of_not_lt hge) hi
  regular := by
    rw [Cell.truncate, Entry.isDir_setSize]
    exact hsound.regular
  entry_size := by
    rw [Cell.truncate, setSize_eq hsound.regular]
    rfl

/-- Emptying a cell leaves a file without bytes. The room stays. -/
theorem plain_truncate (hsound : cell.Sound bound) :
    cell.truncate.plain = { cell.plain with bytes := [] } := by
  have hcapacity := capacity_truncate hsound.size_le
  simp only [plain, hcapacity]
  simp [Cell.truncate, active, setSize_eq hsound.regular]

/-- A buffer that grows keeps its bytes and is zero behind them. -/
theorem getElem?_resize {capacity : Nat} (hle : cell.capacity ≤ capacity) (i : Nat) :
    (cell.resize capacity).buf[i]? =
      if i < cell.capacity then cell.buf[i]? else if i < capacity then some 0 else none := by
  have hlength : cell.buf.length = cell.capacity := rfl
  simp only [resize]
  rw [List.take_of_length_le (by omega), List.getElem?_append, hlength]
  split
  · rfl
  · split
    · exact List.getElem?_replicate_of_lt (by omega)
    · exact List.getElem?_eq_none_iff.mpr (by simp; omega)

theorem capacity_resize {capacity : Nat} (hle : cell.capacity ≤ capacity) :
    (cell.resize capacity).capacity = capacity := by
  simp only [Cell.capacity] at hle
  simp only [resize, Cell.capacity, List.length_append, List.length_take, List.length_replicate]
  omega

theorem Sound.resize (hsound : cell.Sound bound) {capacity : Nat}
    (hle : cell.capacity ≤ capacity) (hmax : capacity ≤ bound) :
    (cell.resize capacity).Sound bound where
  size_le := by
    rw [capacity_resize hle]
    exact Nat.le_trans hsound.size_le hle
  capacity_le := by rwa [capacity_resize hle]
  slack := by
    intro i hsize hi
    rw [capacity_resize hle] at hi
    rw [getElem?_resize hle]
    split
    · next hlt => exact hsound.slack i hsize hlt
    · rfl
  regular := hsound.regular
  entry_size := hsound.entry_size

/-- Growing shows no new bytes. -/
theorem active_resize {capacity : Nat} (hsize : cell.size ≤ cell.capacity)
    (hle : cell.capacity ≤ capacity) : (cell.resize capacity).active = cell.active := by
  apply List.ext_getElem?
  intro i
  have hsame : (cell.resize capacity).size = cell.size := rfl
  simp only [active, List.getElem?_take, hsame]
  by_cases hlt : i < cell.size
  · rw [if_pos hlt, if_pos hlt, getElem?_resize hle, if_pos (Nat.lt_of_lt_of_le hlt hsize)]
  · rw [if_neg hlt, if_neg hlt]

/-- Bytes put into a buffer that has room for them are laid over the content. The zeros past the
content are what fills a gap. -/
theorem active_patch {offset : Nat} {data : Bytes} {entry : Entry} (hsound : cell.Sound bound)
    (hroom : offset + data.length ≤ cell.capacity) :
    (cell.patch offset data entry).active = Plain.overlay cell.active offset data := by
  have hsize := hsound.size_le
  simp only [capacity] at hsize hroom
  apply List.ext_getElem?
  intro i
  rw [Plain.getElem?_overlay]
  simp only [patch, active, List.getElem?_take]
  have hfront : (cell.buf.take offset).length = offset := by
    rw [List.length_take]
    omega
  by_cases hbefore : i < offset
  · rw [if_pos (by omega), if_pos hbefore, List.append_assoc, List.getElem?_append, hfront,
      if_pos hbefore, List.getElem?_take_of_lt hbefore]
    split
    · next hlt => simp [List.getElem?_eq_getElem (Nat.lt_of_lt_of_le hlt hsize)]
    · next hge =>
      rw [hsound.slack i (Nat.le_of_not_lt hge) (by simp only [capacity]; omega)]
      rfl
  · rw [if_neg hbefore, List.append_assoc, List.getElem?_append, hfront, if_neg hbefore,
      List.getElem?_append]
    by_cases hdata : i < offset + data.length
    · rw [if_pos (by omega), if_pos (by omega), if_pos hdata]
    · rw [if_neg hdata, if_neg (show ¬ i - offset < data.length by omega), List.getElem?_drop]
      have hindex : offset + data.length + (i - offset - data.length) = i := by omega
      rw [hindex]
      by_cases hlt : i < cell.size
      · rw [if_pos hlt, if_pos (by omega)]
      · rw [if_neg hlt, if_neg (by omega)]

/-- Bytes put into a buffer leave its size alone. -/
theorem capacity_patch {offset : Nat} (data : Bytes) (entry : Entry)
    (hroom : offset + data.length ≤ cell.capacity) :
    (cell.patch offset data entry).capacity = cell.capacity := by
  simp only [capacity] at hroom
  simp only [patch, capacity, List.length_append, List.length_take, List.length_drop]
  omega

theorem Sound.patch {offset : Nat} {data : Bytes} {entry : Entry} (hsound : cell.Sound bound)
    (hroom : offset + data.length ≤ cell.capacity) (hregular : entry.isDir = false) :
    (cell.patch offset data entry).Sound bound := by
  have hsize := hsound.size_le
  have hmax := hsound.capacity_le
  have hcapacity : (cell.patch offset data entry).capacity = cell.buf.length :=
    capacity_patch data entry hroom
  simp only [capacity] at hsize hroom hmax
  constructor
  · rw [hcapacity]
    simp only [Cell.patch]
    omega
  · rwa [hcapacity]
  · intro i hi hlt
    rw [hcapacity] at hlt
    simp only [Cell.patch] at hi ⊢
    have hfront : (cell.buf.take offset ++ data).length = offset + data.length := by
      rw [List.length_append, List.length_take]
      omega
    rw [List.getElem?_append, hfront, if_neg (by omega), List.getElem?_drop]
    have hindex : offset + data.length + (i - (offset + data.length)) = i := by omega
    rw [hindex]
    exact hsound.slack i (by omega) hlt
  · rw [Cell.patch, Entry.isDir_setSize]
    exact hregular
  · rw [Cell.patch, setSize_eq hregular]
    rfl

theorem makeRoom_eq_none {size offset n : Nat} (hsize : cell.size = size)
    (hroom : cell.plain.gate.room config size offset n = none) :
    cell.makeRoom config offset n = none := by
  subst hsize
  have hcapacity : cell.plain.gate.capacity = cell.capacity := rfl
  unfold Plain.Gate.room at hroom
  rw [hcapacity] at hroom
  unfold makeRoom
  split at hroom
  · next hfull => rw [if_pos hfull, Option.map_eq_none_iff.mp hroom]
  · cases hroom

/-- Making room changes neither the content nor the entry, and what it makes is enough. -/
theorem makeRoom_eq_some (hsound : cell.Sound bound) (hgrows : config.GrowsWithin bound)
    {size offset n capacity : Nat} (hsize : cell.size = size)
    (hend : offset + n ≤ config.maxContentLen)
    (hroom : cell.plain.gate.room config size offset n = some capacity) :
    ∃ roomy, cell.makeRoom config offset n = some roomy ∧ roomy.Sound bound ∧
      roomy.active = cell.active ∧ roomy.entry = cell.entry ∧ roomy.capacity = capacity ∧
      offset + n ≤ capacity := by
  subst hsize
  have hgate : cell.plain.gate.capacity = cell.capacity := rfl
  unfold Plain.Gate.room at hroom
  rw [hgate] at hroom
  unfold makeRoom
  split at hroom
  · next hfull =>
    obtain ⟨grown, hgrown, rfl⟩ := Option.map_eq_some_iff.mp hroom
    obtain ⟨hlimit, hfit⟩ := hgrows
    obtain ⟨hfits, hmax⟩ := hfit _ _ _ hsound.capacity_le (by omega) hgrown
    have hle : cell.capacity ≤ max grown (offset + n) := by omega
    refine ⟨cell.resize (max grown (offset + n)), ?_, hsound.resize hle (by omega),
      active_resize hsound.size_le hle, rfl, capacity_resize hle, by omega⟩
    rw [if_pos hfull, hgrown]
  · next hspare =>
    simp only [Option.some.injEq] at hroom
    subst hroom
    exact ⟨cell, if_neg hspare, hsound, rfl, rfl, rfl, by omega⟩

/-- Making room never takes room away, and what it makes is enough. -/
theorem capacity_of_makeRoom {roomy : Cell} {offset n : Nat} (hcapacity : cell.capacity ≤ bound)
    (hgrows : config.GrowsWithin bound) (hn : n ≤ config.maxContentLen)
    (hmade : cell.makeRoom config offset n = some roomy) :
    cell.capacity ≤ roomy.capacity ∧ offset + n ≤ roomy.capacity := by
  unfold makeRoom at hmade
  split at hmade
  · split at hmade
    · next grown hgrown =>
      obtain rfl := Option.some.inj hmade
      obtain ⟨hfits, -⟩ := hgrows.2 _ _ _ hcapacity hn hgrown
      have hle : cell.capacity ≤ max grown (offset + n) := by omega
      rw [capacity_resize hle]
      omega
    · cases hmade
  · obtain rfl := Option.some.inj hmade
    omega

/-- A write never makes a buffer smaller, whether it was refused or not. -/
theorem capacity_le_writeAt (hcapacity : cell.capacity ≤ bound) (hgrows : config.GrowsWithin bound)
    (now : Time) (offset : Nat) (data : Bytes) :
    cell.capacity ≤ (cell.writeAt config now offset data).2.capacity := by
  unfold writeAt
  split
  · exact Nat.le_refl _
  split
  · exact Nat.le_refl _
  next hend =>
  split
  · exact Nat.le_refl _
  next roomy hmade =>
  obtain ⟨hle, hroom⟩ := capacity_of_makeRoom hcapacity hgrows (by omega) hmade
  split
  · exact hle
  · next entry _ => rwa [capacity_patch data entry hroom]

theorem plain_patch {offset : Nat} {data : Bytes} {entry : Entry} (hsound : cell.Sound bound)
    (hroom : offset + data.length ≤ cell.capacity) (hregular : entry.isDir = false) :
    (cell.patch offset data entry).plain =
      ⟨Plain.overlay cell.active offset data,
        ⟨cell.capacity, entry.attrs.ctime, entry.attrs.mtime⟩⟩ := by
  simp only [plain, active_patch hsound hroom, capacity_patch data entry hroom]
  simp only [patch, setSize_eq hregular]

/-- A write to a cell is a write to the plain file that it holds, and leaves the cell sound. -/
theorem writeAt_spec (hsound : cell.Sound bound) (hgrows : config.GrowsWithin bound) (now : Time)
    (offset : Nat) (data : Bytes) :
    (cell.writeAt config now offset data).2.Sound bound ∧
      ((cell.writeAt config now offset data).1, (cell.writeAt config now offset data).2.plain) =
        cell.plain.write config now offset data := by
  have hlength : cell.plain.bytes.length = cell.size := hsound.length_active
  have hbytes : cell.plain.bytes = cell.active := rfl
  have hctime : cell.plain.gate.ctime = cell.entry.attrs.ctime := rfl
  have hmtime : cell.plain.gate.mtime = cell.entry.attrs.mtime := rfl
  unfold writeAt Plain.File.write
  by_cases hnone : data = []
  · rw [if_pos hnone, if_pos hnone]
    exact ⟨hsound, rfl⟩
  rw [if_neg hnone, if_neg hnone]
  unfold Plain.Gate.admit
  by_cases hend : config.maxContentLen < offset + data.length
  · rw [if_pos hend, if_pos hend]
    exact ⟨hsound, rfl⟩
  rw [if_neg hend, if_neg hend]
  cases hroom : cell.plain.gate.room config cell.plain.bytes.length offset data.length with
  | none =>
    rw [makeRoom_eq_none hlength.symm hroom]
    exact ⟨hsound, rfl⟩
  | some capacity =>
    obtain ⟨roomy, hmade, hsound', hactive, hentry, hcapacity, hfits⟩ :=
      makeRoom_eq_some hsound hgrows hlength.symm (by omega) hroom
    have hplain : roomy.plain =
        ⟨cell.active, ⟨capacity, cell.entry.attrs.ctime, cell.entry.attrs.mtime⟩⟩ := by
      simp only [plain, hactive, hentry, hcapacity]
    rw [hmade]
    simp only [Entry.setModTime, Attributes.setMtime, hctime, hmtime, hentry]
    by_cases hbefore : now < cell.entry.attrs.ctime
    · simp only [hbefore, if_true]
      exact ⟨hsound', by rw [hplain, hbytes]⟩
    simp only [hbefore, if_false]
    by_cases hback : now < cell.entry.attrs.mtime
    · simp only [hback, if_true]
      exact ⟨hsound', by rw [hplain, hbytes]⟩
    simp only [hback, if_false]
    have hfits' : offset + data.length ≤ roomy.capacity := by omega
    have hregular : ({ cell.entry with attrs.mtime := now } : Entry).isDir = false :=
      hsound.regular
    refine ⟨hsound'.patch hfits' hregular, ?_⟩
    rw [plain_patch hsound' hfits' hregular, hactive, hcapacity, hbytes]

variable {now : Time} {offset n : Nat} {data : Bytes} {written : Cell}

/-- A write that succeeds puts all its bytes into a cell with room for them. -/
theorem writeAt_eq_ok (hwrite : cell.writeAt config now offset data = (.ok n, written)) :
    n = data.length ∧ (data = [] ∧ written = cell ∨
      ∃ roomy : Cell, roomy.entry = cell.entry ∧ roomy.size = cell.size ∧
        written = roomy.patch offset data
          { cell.entry with attrs := { cell.entry.attrs with mtime := now } }) := by
  unfold writeAt at hwrite
  split at hwrite
  · next hnone =>
    obtain ⟨hn, hcell⟩ := Prod.mk.inj hwrite
    rw [← Except.ok.inj hn, hnone]
    exact ⟨rfl, .inl ⟨rfl, hcell.symm⟩⟩
  split at hwrite
  · cases hwrite
  split at hwrite
  · cases hwrite
  next roomy hroom =>
  obtain ⟨hentry, hsize⟩ := makeRoom_keeps hroom
  rw [hentry] at hwrite
  split at hwrite
  · cases hwrite
  next entry hset =>
  obtain ⟨rfl, -, -⟩ := Entry.setModTime_eq_ok hset
  obtain ⟨hn, hcell⟩ := Prod.mk.inj hwrite
  exact ⟨(Except.ok.inj hn).symm, .inr ⟨roomy, hentry, hsize, hcell.symm⟩⟩

/-- Bytes that are written into an empty file are all that it then holds. -/
theorem writeAt_of_empty (hsize : cell.size = 0) (hregular : cell.entry.isDir = false)
    (hentry : cell.entry.size = 0)
    (hwrite : cell.writeAt config now 0 data = (.ok n, written)) :
    written.active = data ∧ written.entry.size = data.length := by
  obtain ⟨-, ⟨rfl, rfl⟩ | ⟨roomy, -, hroomy, rfl⟩⟩ := writeAt_eq_ok hwrite
  · exact ⟨by simp [active, hsize], hentry⟩
  · have hregular' : ({ cell.entry with attrs.mtime := now } : Entry).isDir = false := hregular
    rw [hsize] at hroomy
    constructor
    · simp [patch, active, hroomy]
    · simp only [patch, setSize_eq hregular', Entry.size]
      omega

end Tree.Cell

end VirtualFs
