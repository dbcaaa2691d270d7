import Mathlib.Tactic.Common
import VirtualFs.Proofs.Content.Deliveries
import VirtualFs.Transfer

namespace VirtualFs

/-- What the writes to a handle have come to: the bytes that they took, in the order of the writes,
and the error of the last one if that has failed. -/
structure WriteLog where
  accepted : Bytes
  refusal? : Option FsError
  deriving Repr, DecidableEq

namespace Writable

variable {σ : Type} (handle : Writable σ)

/-- The handle with a log of its writes beside its state. -/
def logged : Writable (σ × WriteLog) where
  write := fun (s, log) data hdata =>
    match handle.write s data hdata with
    | (.ok taken, s) =>
      (.ok taken, s, { log with accepted := log.accepted ++ data.take taken.count })
    | (.error e, s) => (.error e, s, { log with refusal? := some e })
  stat := fun (s, _) => handle.stat s

/-- The path that errors of a source are tagged with. -/
def pathOf (s : σ) : String :=
  match handle.stat s with
  | .ok entry => entry.path
  | .error _ => ""

/-- Writes the pieces one after the other, up to the first write that fails. -/
def writePieces (s : σ) : List Source.Piece → Except FsError Unit × σ
  | [] => (.ok (), s)
  | piece :: pieces =>
    match handle.writeAll s piece.bytes with
    | (.error e, s) => (.error e, s)
    | (.ok (), s) => writePieces s pieces

theorem writeAll_of_ne_nil (s : σ) (data : Bytes) (hdata : data ≠ []) :
    handle.writeAll s data =
      match handle.write s data hdata with
      | (.error e, s) => (.error e, s)
      | (.ok taken, s) => handle.writeAll s (data.drop taken.count) := by
  rw [writeAll]
  exact dif_neg hdata

/-- What a transfer answers that has written all it got, `total` bytes. -/
def answer (s : σ) (total : Nat) : Option IoError → Except FsError Nat
  | none => .ok total
  | some e => .error (.tagged .readFrom (handle.pathOf s) (.io e))

/-- A transfer writes the pieces that it gets from the source, and then answers by the way in which
the source ended. -/
theorem readFrom_eq (s : σ) (source : Source) (total stage : Nat) :
    handle.readFrom s source total =
      match handle.writePieces s (source.pieces stage) with
      | (.error e, s) => (.error e, s)
      | (.ok (), s) => (handle.answer s (total + source.bytes.length) source.failure?, s) := by
  fun_induction readFrom handle s source total generalizing stage with
  | case1 s source total rest hread =>
    obtain ⟨hbytes, hfailure⟩ := Source.of_read_end Source.chunkSize_pos hread
    rw [Source.pieces_of_end hread, hbytes, hfailure]
    rfl
  | case2 s source total b data rest hread e s' hwrite =>
    rw [Source.pieces_of_data hread]
    simp only [writePieces, hwrite]
  | case3 s source total b data rest hread s' hwrite ih =>
    obtain ⟨hbytes, hfailure⟩ := Source.of_read_data hread
    rw [Source.pieces_of_data hread, hbytes, hfailure, List.length_append, ← Nat.add_assoc]
    simp only [writePieces, hwrite]
    exact ih (stage + 1)
  | case4 s source total e rest hread hkind ih =>
    obtain ⟨hbytes, hfailure⟩ := Source.of_read_failure hread
    rw [Source.pieces_of_failure hread, hbytes, hfailure, if_pos hkind, if_pos hkind, if_pos hkind]
    exact ih (stage + 1)
  | case5 s source total e rest hread hkind path =>
    obtain ⟨hbytes, hfailure⟩ := Source.of_read_failure hread
    rw [Source.pieces_of_failure hread, hbytes, hfailure, if_neg hkind, if_neg hkind, if_neg hkind]
    rfl

/-- What has been logged once some bytes were to be written: all of them, or those up to a write
that failed. -/
inductive Logs (before : WriteLog) (data : Bytes) : Except FsError Unit → WriteLog → Prop where
  | all : Logs before data (.ok ()) ⟨before.accepted ++ data, before.refusal?⟩
  | part {e : FsError} {taken : Bytes} (htaken : taken <+: data) (hrest : taken ≠ data) :
      Logs before data (.error e) ⟨before.accepted ++ taken, some e⟩

/-- The same for pieces. The failure falls into one of them; those before it were taken whole. -/
inductive LogsPieces (before : WriteLog) (pieces : List Source.Piece) :
    Except FsError Unit → WriteLog → Prop where
  | all :
      LogsPieces before pieces (.ok ()) ⟨before.accepted ++ Source.joined pieces, before.refusal?⟩
  | part {e : FsError} {front back : List Source.Piece} {piece : Source.Piece} {taken : Bytes}
      (hpieces : pieces = front ++ piece :: back) (htaken : taken <+: piece.bytes)
      (hrest : taken ≠ piece.bytes) :
      LogsPieces before pieces (.error e)
        ⟨before.accepted ++ Source.joined front ++ taken, some e⟩

/-- Nothing has been taken. -/
theorem Logs.refused (before : WriteLog) {data : Bytes} (hdata : data ≠ []) (e : FsError) :
    Logs before data (.error e) { before with refusal? := some e } := by
  have hnone : Logs before data (.error e) ⟨before.accepted ++ [], some e⟩ :=
    .part List.nil_prefix hdata.symm
  rwa [List.append_nil] at hnone

/-- The bytes in front were taken, and then those behind them were to be written. -/
theorem Logs.append {before log : WriteLog} {front back : Bytes} {result : Except FsError Unit}
    (hback : Logs { before with accepted := before.accepted ++ front } back result log) :
    Logs before (front ++ back) result log := by
  cases hback with
  | all =>
    rw [List.append_assoc]
    exact .all
  | part htaken hrest =>
    rw [List.append_assoc]
    exact .part (List.prefix_append_right_inj front |>.mpr htaken)
      fun hsame => hrest (List.append_cancel_left hsame)

/-- The first of the pieces was not taken whole. -/
theorem LogsPieces.first {before log : WriteLog} {piece : Source.Piece} {e : FsError}
    (hfirst : Logs before piece.bytes (.error e) log) (rest : List Source.Piece) :
    LogsPieces before (piece :: rest) (.error e) log := by
  cases hfirst with
  | @part _ taken htaken hrest =>
    have hnone : LogsPieces before (piece :: rest) (.error e)
        ⟨before.accepted ++ Source.joined [] ++ taken, some e⟩ := .part rfl htaken hrest
    rwa [Source.joined_nil, List.append_nil] at hnone

/-- The first of the pieces was taken, and then the others were to be written. -/
theorem LogsPieces.cons {before middle log : WriteLog} {piece : Source.Piece}
    {rest : List Source.Piece} {result : Except FsError Unit}
    (hfirst : Logs before piece.bytes (.ok ()) middle) (hrest : LogsPieces middle rest result log) :
    LogsPieces before (piece :: rest) result log := by
  cases hfirst
  cases hrest with
  | all =>
    rw [List.append_assoc, ← Source.joined_cons]
    exact .all
  | @part e front back next taken hpieces htaken hpart =>
    have hwhole : LogsPieces before (piece :: rest) (.error e)
        ⟨before.accepted ++ Source.joined (piece :: front) ++ taken, some e⟩ :=
      .part (congrArg (piece :: ·) hpieces) htaken hpart
    rwa [Source.joined_cons, ← List.append_assoc] at hwhole

/-- A log changes nothing of what the handle does, and shows what became of the data. -/
theorem logged_writeAll (s : σ) (log : WriteLog) (data : Bytes) :
    ∃ log', handle.logged.writeAll (s, log) data =
        ((handle.writeAll s data).1, (handle.writeAll s data).2, log') ∧
      Logs log data (handle.writeAll s data).1 log' := by
  fun_induction writeAll handle s data generalizing log with
  | case1 s =>
    refine ⟨log, by rw [writeAll, dif_pos rfl], ?_⟩
    have hall : Logs log [] (.ok ()) ⟨log.accepted ++ [], log.refusal?⟩ := .all
    rwa [List.append_nil] at hall
  | case2 s data hdata e s' hwrite =>
    refine ⟨{ log with refusal? := some e }, ?_, .refused log hdata e⟩
    rw [writeAll_of_ne_nil _ _ _ hdata]
    simp only [logged, hwrite]
  | case3 s data hdata taken s' hwrite ih =>
    obtain ⟨log', hlogged, hlogs⟩ :=
      ih { log with accepted := log.accepted ++ data.take taken.count }
    refine ⟨log', ?_, ?_⟩
    · rw [writeAll_of_ne_nil _ _ _ hdata]
      simp only [logged, hwrite]
      exact hlogged
    · have hwhole := hlogs.append
      rwa [List.take_append_drop] at hwhole

theorem logged_writePieces (s : σ) (log : WriteLog) (pieces : List Source.Piece) :
    ∃ log', handle.logged.writePieces (s, log) pieces =
        ((handle.writePieces s pieces).1, (handle.writePieces s pieces).2, log') ∧
      LogsPieces log pieces (handle.writePieces s pieces).1 log' := by
  induction pieces generalizing s log with
  | nil =>
    have hall : LogsPieces log [] (.ok ()) ⟨log.accepted ++ Source.joined [], log.refusal?⟩ := .all
    rw [Source.joined_nil, List.append_nil] at hall
    exact ⟨log, rfl, hall⟩
  | cons piece rest ih =>
    obtain ⟨middle, hpiece, hfirst⟩ := handle.logged_writeAll s log piece.bytes
    rcases hwrite : handle.writeAll s piece.bytes with ⟨e | u, s'⟩
    · rw [hwrite] at hpiece hfirst
      simp only [writePieces, hpiece, hwrite]
      exact ⟨middle, rfl, .first hfirst rest⟩
    · rw [hwrite] at hpiece hfirst
      obtain ⟨log', hrest, hlogs⟩ := ih s' middle
      simp only [writePieces, hpiece, hwrite]
      exact ⟨log', hrest, .cons hfirst hlogs⟩

end Writable

namespace Writable

variable {σ : Type}

/-- What a transfer from the source does to the handle, seen from its log: no byte is lost, none
comes twice and none out of its order. -/
structure Conveys (handle : Writable σ) (source : Source) (result : Except FsError Nat) (final : σ)
    (log : WriteLog) : Prop where
  succeeds_iff : (∃ n, result = .ok n) ↔ log.refusal? = none ∧ source.failure? = none
  counts : ∀ n, result = .ok n → log.accepted = source.bytes ∧ n = log.accepted.length
  sourceFailed : ∀ e, log.refusal? = none → source.failure? = some e →
    log.accepted = source.bytes ∧ result = .error (.tagged .readFrom (handle.pathOf final) (.io e))
  /-- Up to a write that fails everything was taken, all pieces before the one that it was to write
  and a part of that. -/
  writeFailed : ∀ e, log.refusal? = some e → result = .error e ∧
    ∃ front piece back taken, source.pieces 0 = front ++ piece :: back ∧
      log.accepted = Source.joined front ++ taken ∧ taken <+: piece.bytes ∧ taken ≠ piece.bytes

/-- All pieces were taken, and the transfer answers by the way in which the source ended. -/
theorem conveys_answer (handle : Writable σ) (source : Source) (final : σ) :
    handle.Conveys source (handle.answer final source.bytes.length source.failure?) final
      ⟨source.bytes, none⟩ := by
  cases hfailure : source.failure? with
  | none =>
    constructor
    case succeeds_iff => exact iff_of_true ⟨_, rfl⟩ ⟨rfl, hfailure⟩
    case counts => exact fun n hn => ⟨rfl, (Except.ok.inj hn).symm⟩
    case sourceFailed => exact fun e _ he => nomatch he.symm.trans hfailure
    case writeFailed => exact fun e he => nomatch he
  | some e =>
    constructor
    case succeeds_iff =>
      refine iff_of_false ?_ fun h => nomatch h.2.symm.trans hfailure
      rintro ⟨n, hn⟩
      cases hn
    case counts => exact fun n hn => nomatch hn
    case sourceFailed =>
      intro e' _ he
      obtain rfl := Option.some.inj (he.symm.trans hfailure)
      exact ⟨rfl, rfl⟩
    case writeFailed => exact fun e he => nomatch he

/-- A write has failed, and the transfer with it. -/
theorem conveys_error {handle : Writable σ} {source : Source} {e : FsError} {log : WriteLog}
    (hlogs : LogsPieces ⟨[], none⟩ (source.pieces 0) (.error e) log) (final : σ) :
    handle.Conveys source (.error e) final log := by
  cases hlogs with
  | part hpieces htaken hrest =>
    constructor
    case succeeds_iff =>
      refine iff_of_false ?_ fun h => nomatch h.1
      rintro ⟨n, hn⟩
      cases hn
    case counts => exact fun n hn => nomatch hn
    case sourceFailed => exact fun _ hnone => nomatch hnone
    case writeFailed =>
      intro e' he
      obtain rfl := Option.some.inj he
      exact ⟨rfl, _, _, _, _, hpieces, rfl, htaken, hrest⟩

/-- Whatever parts the writes take, a transfer conveys what the source delivers. -/
theorem exists_conveys (handle : Writable σ) (s : σ) (source : Source) :
    ∃ log, handle.logged.readFrom (s, ⟨[], none⟩) source 0 =
        ((handle.readFrom s source 0).1, (handle.readFrom s source 0).2, log) ∧
      handle.Conveys source (handle.readFrom s source 0).1 (handle.readFrom s source 0).2 log := by
  obtain ⟨log, hlogged, hlogs⟩ := handle.logged_writePieces s ⟨[], none⟩ (source.pieces 0)
  rw [handle.logged.readFrom_eq (s, ⟨[], none⟩) source 0 0, handle.readFrom_eq s source 0 0,
    hlogged]
  refine ⟨log, ?_⟩
  generalize handle.writePieces s (source.pieces 0) = written at hlogs ⊢
  obtain ⟨e | u, final⟩ := written
  · exact ⟨rfl, conveys_error hlogs final⟩
  · cases hlogs
    rw [Source.joined_pieces, List.nil_append, Nat.zero_add]
    refine ⟨?_, handle.conveys_answer source final⟩
    cases source.failure? <;> rfl

end Writable

/-- Reads in the size of a chunk, from the state `s` on, bring these pieces, none of them empty, and
then nothing more or an error. -/
inductive ReadsOut {σ : Type} (read : σ → Nat → Except FsError Bytes × σ) :
    σ → List Bytes → Option FsError → σ → Prop where
  | ended {s s' : σ} (hread : read s Source.chunkSize = (.ok [], s')) : ReadsOut read s [] none s'
  | failed {s s' : σ} {e : FsError} (hread : read s Source.chunkSize = (.error e, s')) :
      ReadsOut read s [] (some e) s'
  | piece {s s' final : σ} {b : UInt8} {data : Bytes} {pieces : List Bytes}
      {failure? : Option FsError} (hread : read s Source.chunkSize = (.ok (b :: data), s'))
      (hrest : ReadsOut read s' pieces failure? final) :
      ReadsOut read s ((b :: data) :: pieces) failure? final

namespace Readable

variable {σ : Type}

/-- Any reads as those of a handle that is at its end after `limit` of them. The state counts how
many are left. -/
def limited (read : σ → Nat → Except FsError Bytes × σ) : Readable (σ × Nat) where
  read
    | (s, 0), _ => (.ok [], s, 0)
    | (s, limit + 1), n => ((read s n).1, (read s n).2, limit)
  left := Prod.snd
  left_lt := by
    rintro ⟨s, _ | limit⟩ n b ⟨s', left⟩ hread hb
    · exact absurd (Except.ok.inj (Prod.mk.inj hread).1).symm hb
    · rw [← (Prod.mk.inj (Prod.mk.inj hread).2).2]
      exact Nat.lt_succ_self limit

theorem read_limited (read : σ → Nat → Except FsError Bytes × σ) (s : σ) (limit n : Nat) :
    (limited read).read (s, limit + 1) n = ((read s n).1, (read s n).2, limit) := rfl

variable {read : σ → Nat → Except FsError Bytes × σ} {s final : σ} {pieces : List Bytes}
  {failure? : Option FsError}

/-- Reads that come to an end are not cut short by a limit above their number. -/
theorem readsOut_limited (hreads : ReadsOut read s pieces failure? final) (more : Nat) :
    ReadsOut (limited read).read (s, pieces.length + 1 + more) pieces failure? (final, more) := by
  induction hreads with
  | ended hread =>
    refine .ended ?_
    rw [List.length_nil, Nat.zero_add, Nat.add_comm, read_limited, hread]
  | failed hread =>
    refine .failed ?_
    rw [List.length_nil, Nat.zero_add, Nat.add_comm, read_limited, hread]
  | @piece s s' final b data pieces failure? hread hrest ih =>
    have hcount : ((b :: data) :: pieces).length + 1 + more = pieces.length + 1 + more + 1 := by
      rw [List.length_cons]
      omega
    refine .piece ?_ ih
    rw [hcount, read_limited, hread]

/-- The reads of a handle come to an end. -/
theorem exists_readsOut (handle : Readable σ) (s : σ) :
    ∃ pieces failure? final, ReadsOut handle.read s pieces failure? final := by
  fun_induction readToEnd handle s [] 0 with
  | case1 s out total e s' hread => exact ⟨_, _, _, .failed hread⟩
  | case2 s out total s' hread => exact ⟨_, _, _, .ended hread⟩
  | case3 s out total b data s' hread ih =>
    obtain ⟨pieces, failure?, final, hrest⟩ := ih
    exact ⟨_, _, _, .piece hread hrest⟩

/-- Reading to the end appends what the reads bring, and counts it if no read fails. -/
theorem readToEnd_of_readsOut {handle : Readable σ}
    (hreads : ReadsOut handle.read s pieces failure? final) (out : Bytes) (total : Nat) :
    handle.readToEnd s out total =
      (failure?.elim (.ok (total + pieces.flatten.length)) .error, out ++ pieces.flatten,
        final) := by
  induction hreads generalizing out total with
  | ended hread =>
    rw [readToEnd]
    split <;> simp_all
  | failed hread =>
    rw [readToEnd]
    split <;> simp_all
  | piece hread hrest ih =>
    rw [readToEnd]
    split
    · next hother => simp [hread] at hother
    · next hother => simp [hread] at hother
    · next hother =>
      simp only [hread, Prod.mk.injEq, Except.ok.injEq, List.cons.injEq] at hother
      obtain ⟨⟨rfl, rfl⟩, rfl⟩ := hother
      rw [ih, List.flatten_cons, List.length_append, Nat.add_assoc, List.append_assoc]

end Readable

/-- Transfers in bulk lose, repeat and reorder nothing, through whichever handle and with whichever
failures: into a handle, out of one, and out of anything whose reads come to an end. -/
theorem conveys_and_readToEnd_eq {σ : Type} :
    (∀ (handle : Writable σ) (s : σ) (source : Source), ∃ log,
      handle.logged.readFrom (s, ⟨[], none⟩) source 0 =
        ((handle.readFrom s source 0).1, (handle.readFrom s source 0).2, log) ∧
      handle.Conveys source (handle.readFrom s source 0).1 (handle.readFrom s source 0).2 log) ∧
    (∀ (handle : Readable σ) (s : σ) (out : Bytes), ∃ pieces failure? final,
      ReadsOut handle.read s pieces failure? final ∧
      handle.readToEnd s out 0 =
        (failure?.elim (.ok pieces.flatten.length) .error, out ++ pieces.flatten, final)) ∧
    ∀ (read : σ → Nat → Except FsError Bytes × σ) (s : σ) pieces failure? final,
      ReadsOut read s pieces failure? final → ∀ (out : Bytes) (more : Nat),
      (Readable.limited read).readToEnd (s, pieces.length + 1 + more) out 0 =
        (failure?.elim (.ok pieces.flatten.length) .error, out ++ pieces.flatten, final, more) := by
  refine ⟨fun handle s source => handle.exists_conveys s source, ?_, ?_⟩
  · intro handle s out
    obtain ⟨pieces, failure?, final, hreads⟩ := handle.exists_readsOut s
    refine ⟨pieces, failure?, final, hreads, ?_⟩
    rw [Readable.readToEnd_of_readsOut hreads, Nat.zero_add]
  · intro read s pieces failure? final hreads out more
    rw [Readable.readToEnd_of_readsOut (Readable.readsOut_limited hreads more), Nat.zero_add]

/-- A handle that takes two bytes at a time, and none once it has five. -/
def sips : Writable Nat where
  write := fun n data hdata =>
    if n < 5 then
      (.ok ⟨min 2 data.length, Nat.lt_min.mpr ⟨Nat.zero_lt_two, List.length_pos_iff.mpr hdata⟩,
        Nat.min_le_right _ _⟩, n + min 2 data.length)
    else (.error .tooLarge, n)
  stat := fun _ => .error .closed

/-- Bytes with an interruption among them, more than there is room for. -/
def drops : Source :=
  [.data [1, 2, 3], .failure ⟨.interrupted, "signal"⟩, .data [4, 5, 6, 7], .data [8]]

/-- Reads that count down to three and then fail. -/
def countdown (n : Nat) : Nat → Except FsError Bytes × Nat :=
  fun _ => if n < 3 then (.error .closed, n) else (.ok [n.toUInt8], n - 1)

theorem conveys_and_readToEnd_eq_drops :
    (∃ log, sips.logged.readFrom (0, ⟨[], none⟩) drops 0 = (.error .tooLarge, 5, log) ∧
      sips.Conveys drops (.error .tooLarge) 5 log ∧ log = ⟨[1, 2, 3, 4, 5], some .tooLarge⟩) ∧
    ReadsOut countdown 4 [[4], [3]] (some .closed) 2 ∧
    (Readable.limited countdown).readToEnd (4, 9) [7] 0 = (.error .closed, [7, 4, 3], 2, 6) := by
  have hreads : ReadsOut countdown 4 [[4], [3]] (some .closed) 2 :=
    .piece rfl (.piece rfl (.failed rfl))
  obtain ⟨hwrites, -, hlimited⟩ := conveys_and_readToEnd_eq (σ := Nat)
  obtain ⟨log, hlogged, hconveys⟩ := hwrites sips 0 drops
  have hrun : sips.readFrom 0 drops 0 = (.error .tooLarge, 5) := by decide +kernel
  have hlog : sips.logged.readFrom (0, ⟨[], none⟩) drops 0 =
      (.error .tooLarge, 5, ⟨[1, 2, 3, 4, 5], some .tooLarge⟩) := by decide +kernel
  rw [hrun] at hlogged hconveys
  refine ⟨⟨log, hlogged, hconveys, ?_⟩, hreads, hlimited _ _ _ _ _ hreads [7] 6⟩
  rw [hlog] at hlogged
  exact (Prod.mk.inj (Prod.mk.inj hlogged).2).2.symm

end VirtualFs
