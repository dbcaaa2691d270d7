import VirtualFs.Proofs.Content.OneFile

namespace VirtualFs

/-- The number of words. -/
def wordLimit : Nat := 0x10000000000000000

/-- The length of the longest buffer there is. -/
def longestBuffer : Nat := 0x7FFFFFFFFFFFFFFF

/-- A number that must be a word. -/
def word? (n : Nat) : Option Nat :=
  if n < wordLimit then some n else none

/-- A number that must be a signed word of double length. -/
def wide? (x : Int) : Option Int :=
  if -0x80000000000000000000000000000000 ≤ x ∧ x < 0x80000000000000000000000000000000 then some x
  else none

/-- The bytes from `start` on and before `stop`. -/
def slice? (buf : Bytes) (start stop : Nat) : Option Bytes :=
  if start ≤ stop ∧ stop ≤ buf.length then some ((buf.take stop).drop start) else none

theorem wordLimit_pos : 0 < wordLimit := by decide

theorem word?_of_lt {n : Nat} (hn : n < wordLimit) : word? n = some n :=
  if_pos hn

theorem slice?_of_le {buf : Bytes} {start stop : Nat} (hstart : start ≤ stop)
    (hstop : stop ≤ buf.length) : slice? buf start stop = some ((buf.take stop).drop start) :=
  if_pos ⟨hstart, hstop⟩

/-- The bytes from `offset` to the end, none if the end is before it. -/
def tailFrom (bytes : Bytes) (offset : Nat) : Bytes :=
  (slice? bytes offset bytes.length).getD []

theorem tailFrom_eq (bytes : Bytes) (offset : Nat) : tailFrom bytes offset = bytes.drop offset := by
  unfold tailFrom
  by_cases hoffset : offset ≤ bytes.length
  · rw [slice?_of_le hoffset (Nat.le_refl _), List.take_length]
    rfl
  · rw [slice?, if_neg fun h => hoffset h.1, List.drop_eq_nil_of_le (Nat.le_of_not_le hoffset)]
    rfl

/-- The position asked for is in words: an offset from the start is one, and the distances are signed
words. -/
def SeekTo.InWords : SeekTo → Prop
  | start offset => offset < wordLimit
  | current delta => -0x8000000000000000 ≤ delta ∧ delta < 0x8000000000000000
  | fromEnd delta => -0x8000000000000000 ≤ delta ∧ delta < 0x8000000000000000

/-- The target of a seek is exact in a double word. -/
theorem SeekTo.wide?_target {goal : SeekTo} (hgoal : goal.InWords) {position size : Nat}
    (hposition : position < wordLimit) (hsize : size < wordLimit) :
    wide? (goal.target position size) = some (goal.target position size) := by
  refine if_pos ?_
  simp only [wordLimit] at hposition hsize
  cases goal <;> simp only [InWords, wordLimit, target] at hgoal ⊢ <;> omega

/-- A source never delivers more than it was asked for. -/
theorem Source.length_read_le {source rest : Source} {limit : Nat} {bytes : Bytes}
    (hread : source.read limit = (.ok bytes, rest)) : bytes.length ≤ limit := by
  unfold read at hread
  split at hread
  · obtain rfl := Except.ok.inj (Prod.mk.inj hread).1
    exact Nat.zero_le _
  · cases hread
  · split at hread
    · next hshort =>
      obtain rfl := Except.ok.inj (Prod.mk.inj hread).1
      exact hshort
    · obtain rfl := Except.ok.inj (Prod.mk.inj hread).1
      exact List.length_take_le _ _

namespace Tree

namespace Cell

/-- `Cell.active` as a slice of the buffer. -/
def active? (cell : Cell) : Option Bytes :=
  slice? cell.buf 0 cell.size

/-- `Cell.readAt` as a copy into the front of a buffer of `n` bytes. -/
def readAt? (cell : Cell) (offset n : Nat) : Option Bytes :=
  cell.active?.bind fun active =>
    let count := min n (tailFrom active offset).length
    if count ≤ n then slice? (tailFrom active offset) 0 count else none

/-- `Cell.readFromOffset` behind the slice that is read. -/
def readFromOffset? (cell : Cell) (offset : Nat) : Option Bytes :=
  cell.active?.map fun active => tailFrom active offset

/-- `Cell.patch` as a copy into a slice of the same length. -/
def patch? (cell : Cell) (offset stop : Nat) (data : Bytes) (entry : Entry) : Option Cell :=
  (slice? cell.buf offset stop).bind fun replaced =>
    if replaced.length = data.length then some (cell.patch offset data entry) else none

/-- `Cell.writeAt` with its sums in words. -/
def writeAt? (config : Config) (now : Time) (cell : Cell) (offset : Nat) (data : Bytes) :
    Option (Except FsError Nat × Cell) :=
  if data = [] then some (.ok 0, cell)
  else
    (word? (offset + data.length)).bind fun stop =>
      if config.maxContentLen < stop then some (.error .tooLarge, cell)
      else
        (word? (max cell.size offset + data.length)).bind fun _ =>
          match cell.makeRoom config offset data.length with
          | none => some (.error .tooLarge, cell)
          | some roomy =>
            match roomy.entry.setModTime now with
            | .error e => some (.error e, roomy)
            | .ok entry =>
              (roomy.patch? offset stop data entry).map fun written => (.ok data.length, written)

/-- `Cell.truncate` with a slice that is overwritten. -/
def truncate? (cell : Cell) : Option Cell :=
  (slice? cell.buf 0 cell.size).map fun _ => cell.truncate

variable {config : Config} {bound : Nat} {cell : Cell}

theorem active?_eq (hsound : cell.Sound bound) : cell.active? = some cell.active := by
  rw [active?, slice?_of_le (Nat.zero_le _) hsound.size_le, List.drop_zero]
  rfl

theorem readAt?_eq (hsound : cell.Sound bound) (offset n : Nat) :
    cell.readAt? offset n = some (cell.readAt offset n) := by
  rw [readAt?, active?_eq hsound, Option.bind_some, tailFrom_eq]
  dsimp only
  rw [if_pos (Nat.min_le_left _ _), slice?_of_le (Nat.zero_le _) (Nat.min_le_right _ _),
    List.drop_zero]
  exact congrArg some List.take_eq_take_min.symm

theorem readFromOffset?_eq (hsound : cell.Sound bound) (offset : Nat) :
    cell.readFromOffset? offset = some (cell.readFromOffset offset) := by
  rw [readFromOffset?, active?_eq hsound, Option.map_some, tailFrom_eq]
  rfl

theorem truncate?_eq (hsound : cell.Sound bound) : cell.truncate? = some cell.truncate := by
  rw [truncate?, slice?_of_le (Nat.zero_le _) hsound.size_le]
  rfl

theorem patch?_eq {offset : Nat} {data : Bytes} (entry : Entry)
    (hroom : offset + data.length ≤ cell.capacity) :
    cell.patch? offset (offset + data.length) data entry = some (cell.patch offset data entry) := by
  rw [patch?, slice?_of_le (Nat.le_add_right _ _) hroom, Option.bind_some, if_pos]
  have hlength : cell.buf.length = cell.capacity := rfl
  rw [List.length_drop, List.length_take, hlength, Nat.min_eq_left hroom, Nat.add_sub_cancel_left]

/-- A write within the bound on the content has no sum that is no word and no slice that is none. -/
theorem writeAt?_eq (hsound : cell.Sound bound) (hgrows : config.GrowsWithin bound)
    (hlimit : config.maxContentLen ≤ Config.contentLimit) (hsize : cell.size ≤ config.maxContentLen)
    {offset : Nat} (hoffset : offset ≤ config.maxContentLen) {data : Bytes}
    (hdata : data.length ≤ longestBuffer) (now : Time) :
    cell.writeAt? config now offset data = some (cell.writeAt config now offset data) := by
  simp only [Config.contentLimit] at hlimit
  simp only [longestBuffer] at hdata
  have hend : offset + data.length < wordLimit := by
    rw [wordLimit]
    omega
  have hfilled : max cell.size offset + data.length < wordLimit := by
    rw [wordLimit]
    omega
  unfold writeAt? writeAt
  split
  · rfl
  rw [word?_of_lt hend, Option.bind_some, word?_of_lt hfilled, Option.bind_some]
  split
  · rfl
  next hfits =>
  cases hmade : cell.makeRoom config offset data.length with
  | none => rfl
  | some roomy =>
    have hroom := (capacity_of_makeRoom hsound.capacity_le hgrows (by omega) hmade).2
    cases hset : roomy.entry.setModTime now with
    | error e => simp only [hset]
    | ok entry => simp only [hset, patch?_eq entry hroom, Option.map_some]

/-- A write leaves the content within its bound, whether it was refused or not. -/
theorem size_writeAt_le (hsize : cell.size ≤ config.maxContentLen) (now : Time) (offset : Nat)
    (data : Bytes) : (cell.writeAt config now offset data).2.size ≤ config.maxContentLen := by
  unfold writeAt
  split
  · exact hsize
  split
  · exact hsize
  next hfits =>
  split
  · exact hsize
  next roomy hmade =>
  obtain ⟨-, hkept⟩ := makeRoom_keeps hmade
  split
  · rwa [hkept]
  · simp only [patch, hkept]
    omega

/-- A write that succeeds ends within the bound on the content. -/
theorem add_le_of_writeAt {offset : Nat} (hoffset : offset ≤ config.maxContentLen) {now : Time}
    {data : Bytes} {n : Nat} {written : Cell}
    (hwrite : cell.writeAt config now offset data = (.ok n, written)) :
    offset + n ≤ config.maxContentLen := by
  obtain ⟨rfl, -⟩ := writeAt_eq_ok hwrite
  unfold writeAt at hwrite
  split at hwrite
  · next hempty =>
    rw [hempty]
    exact hoffset
  split at hwrite
  · cases hwrite
  · next hfits => exact Nat.le_of_not_lt hfits

end Cell

namespace Store

variable {named : String → Prop} {bound : Nat} {store store' : Store}

/-- Every content is within the bound of the settings. -/
def Bounded (store : Store) : Prop :=
  ∀ i c, store.cell? i = some c → c.size ≤ store.config.maxContentLen

theorem Change.bounded (hstep : Change named store store') (hbounded : store.Bounded) :
    store'.Bounded := by
  unfold Bounded
  rw [hstep.config_eq]
  exact hstep.forall_cell hbounded (fun _ _ _ => Nat.zero_le _) (fun _ _ => Nat.zero_le _)
    fun _ now offset data hsize => Cell.size_writeAt_le hsize now offset data

/-- The store has usable settings and sound contents within their bound. -/
structure Fit (bound : Nat) (store : Store) : Prop where
  valid : store.config.Valid
  grows : store.config.GrowsWithin bound
  sound : store.Sound bound
  sizes : store.Bounded

/-- Lengths within the bound on the content are words. -/
theorem Fit.lt_wordLimit (hfit : store.Fit bound) {n : Nat}
    (hn : n ≤ store.config.maxContentLen) : n < wordLimit := by
  have hlimit : store.config.maxContentLen ≤ Config.contentLimit := hfit.valid.2.2.1
  simp only [Config.contentLimit] at hlimit
  rw [wordLimit]
  omega

theorem Change.fit (hstep : Change named store store') (hfit : store.Fit bound) :
    store'.Fit bound where
  valid := by rw [hstep.config_eq]; exact hfit.valid
  grows := by rw [hstep.config_eq]; exact hfit.grows
  sound := hstep.sound hfit.valid hfit.grows hfit.sound
  sizes := hstep.bounded hfit.sizes

theorem Changes.fit (hchanges : Changes named store store') (hfit : store.Fit bound) :
    store'.Fit bound :=
  hchanges.preserves (fun hstep => hstep.fit) hfit

end Store

/-- All contents of a session are in order as long as buffers grow within the bound. -/
theorem Session.ReachableBy.fit {session : Session} {bound : Nat} (hreach : session.Reachable)
    (hgrows : session.store.config.GrowsWithin bound) : session.store.Fit bound where
  valid := hreach.config_valid
  grows := hgrows
  sound := hreach.sound hgrows
  sizes := by
    refine hreach.store_induction (P := Store.Bounded)
      (fun hrooted _ => step_changes_segment hrooted _ _) ?_ fun hstep => hstep.bounded
    intro config rules now _ i c hc
    match i with
    | 0 => cases hc
    | 1 => cases hc
    | _ + 2 => cases hc

end Tree

end VirtualFs
