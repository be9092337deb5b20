import Dysco.MappingDump

/-! # The dump of the reconfiguration times

A user asks how long the reconfigurations of a host took.  The reply is one buffer with a count and
a record for each entry of the reconfiguration table: the session, and the nanoseconds between the
two times of the entry, in network order.  Unlike the walk of the other dump, this one looks at the
room before it puts a record, so it can do with a buffer that is nearly full (`recTimes_dumped`). -/
namespace Dysco
open ByteOrder

/-- `struct timespec`. -/
structure Timespec where
  tvSec : BitVec 64
  tvNsec : BitVec 64
deriving DecidableEq, Repr, Inhabited

/-- What the dump reads of an entry of the reconfiguration table. -/
structure RecEntry where
  super : TcpSession
  recBegin : Timespec
  recEnd : Timespec
deriving DecidableEq, Repr, Inhabited

/-- `rec_time`. -/
def RecEntry.recTime (rec : RecEntry) : BitVec 64 :=
  (rec.recEnd.tvSec - rec.recBegin.tvSec) * 1000000000#64 +
  (rec.recEnd.tvNsec - rec.recBegin.tvNsec)

/-- The bytes of `cpu_to_be64`. -/
def be64Bytes (x : BitVec 64) : List U8 :=
  [byte x 7, byte x 6, byte x 5, byte x 4, byte x 3, byte x 2, byte x 1, byte x 0]

/-- A record of the reply. -/
def RecEntry.bytes (rec : RecEntry) : List U8 := rec.super.bytes ++ be64Bytes rec.recTime

/-- `REC_SIZE`. -/
def recSize : Nat := 20

/-! ## The walk -/

/-- What `rhashtable_walk_next` returns here. -/
inductive RecNext where
  | entry (rec : RecEntry)
  | again
  | err

/-- The loop of `dysco_walk_rec_table`, with its variables `buf_size` and `ret` and what has been
put. -/
def walkRecLoop : List RecNext → Nat → Nat → List U8 → Nat × List U8
  | [], _, ret, put => (ret, put)
  | next :: nexts, bufSize, ret, put =>
    if recSize < bufSize then
      match next with
      | .again => walkRecLoop nexts bufSize ret put
      | .err => (ret, put)
      | .entry rec => walkRecLoop nexts (bufSize - recSize) (ret + 1) (put ++ rec.bytes)
    else (ret, put)

/-- `dysco_walk_rec_table`. -/
def walkRecTable (ht : Except Int (List RecNext)) : Except Int (Nat × List U8) :=
  ht.map fun nexts => walkRecLoop nexts (maxNetlinkMsg - 2 * 2) 0 []

/-- `dysco_get_rec_time`: no reply is sent if there is no buffer or the walk fails. -/
def getRecTime (nlmsgNew : Bool) (ht : Except Int (List RecNext)) : Option NetlinkReply :=
  if nlmsgNew = false then none
  else
    match walkRecTable ht with
    | .error _ => none
    | .ok (ret, put) =>
      some
        { nlmsgLen := BitVec.ofNat 32 (nlmsgHdrLen + 4) + BitVec.ofNat 32 (ret * recSize)
          data := bytes16 (htons (BitVec.ofNat 16 ret)) ++ bytes16 0#16 ++ put }

/-- The entries that a walk comes to before it fails. -/
def entriesBefore : List RecNext → List RecEntry
  | [] => []
  | .again :: nexts => entriesBefore nexts
  | .err :: _ => []
  | .entry rec :: nexts => rec :: entriesBefore nexts

/-- The number of records that the buffer holds. -/
def maxRecTimes : Nat := 3276

/-- A walk puts an entry for every twenty bytes that leave one byte over. -/
theorem walkRecLoop_eq (nexts : List RecNext) (cap bufSize ret : Nat) (put : List U8)
    (hfits : recSize * cap < bufSize) (hfull : bufSize ≤ recSize * (cap + 1)) :
    walkRecLoop nexts bufSize ret put =
      (ret + min (entriesBefore nexts).length cap,
        put ++ ((entriesBefore nexts).take cap).flatMap RecEntry.bytes) := by
  induction nexts generalizing cap bufSize ret put with
  | nil => simp [walkRecLoop, entriesBefore]
  | cons next nexts ih =>
    rw [walkRecLoop.eq_def]
    simp only
    cases cap with
    | zero =>
      rw [if_neg (by simpa using hfull)]
      simp
    | succ cap =>
      have hroom : recSize < bufSize := by
        simp only [recSize] at hfits ⊢
        omega
      rw [if_pos hroom]
      cases next with
      | again => exact ih (cap + 1) bufSize ret put hfits hfull
      | err => simp [entriesBefore]
      | entry rec =>
        simp only [recSize] at hfits hfull
        have hrest := ih cap (bufSize - recSize) (ret + 1) (put ++ rec.bytes)
          (by simp only [recSize]; omega) (by simp only [recSize]; omega)
        simp only [hrest, entriesBefore, List.length_cons, List.take_succ_cons, List.flatMap_cons,
          List.append_assoc]
        congr 1
        omega

/-! ## The reader -/

/-- `be64_to_cpu` of the eight bytes at offset `k`. -/
def readBe64 (bs : List U8) (k : Nat) : Nat :=
  (List.range 8).foldl (fun n i => 256 * n + (byteAt bs (k + i)).toNat) 0

theorem readBe64_append_right (as bs : List U8) (k : Nat) :
    readBe64 (as ++ bs) (as.length + k) = readBe64 bs k := by
  simp only [readBe64, Nat.add_assoc, byteAt_append_right]

theorem readBe64_be64Bytes (x : BitVec 64) (cs : List U8) :
    readBe64 (be64Bytes x ++ cs) 0 = x.toNat := by
  have hlt := x.isLt
  simp only [readBe64, be64Bytes, List.range, List.range.loop, List.foldl, byteAt,
    List.cons_append, byte]
  simp
  omega

/-- The records of the reply: sessions and nanoseconds. -/
def NetlinkReply.recTimes (r : NetlinkReply) : List (TcpSession × Nat) :=
  (List.range r.len).map fun i =>
    (readSession (r.data.drop (4 + recSize * i)), readBe64 (r.data.drop (4 + recSize * i)) 12)

/-- Nanoseconds since the epoch. -/
def Timespec.nanos (t : Timespec) : Nat := t.tvSec.toNat * 1000000000 + t.tvNsec.toNat

theorem Timespec.ofNat_nanos (t : Timespec) :
    BitVec.ofNat 64 t.nanos = t.tvSec * 1000000000#64 + t.tvNsec := by
  rw [Timespec.nanos, BitVec.ofNat_add, BitVec.ofNat_mul, BitVec.ofNat_toNat, BitVec.ofNat_toNat,
    BitVec.setWidth_eq, BitVec.setWidth_eq]

/-- The reconfiguration has ended, and did not take centuries. -/
def RecEntry.Timed (rec : RecEntry) : Prop :=
  rec.recBegin.nanos ≤ rec.recEnd.nanos ∧ rec.recEnd.nanos - rec.recBegin.nanos < 2 ^ 64

/-- The time of a record is the time between its two points. -/
theorem RecEntry.Timed.toNat_recTime {rec : RecEntry} (ht : rec.Timed) :
    rec.recTime.toNat = rec.recEnd.nanos - rec.recBegin.nanos := by
  obtain ⟨hle, hlt⟩ := ht
  have hdiff : rec.recTime = BitVec.ofNat 64 rec.recEnd.nanos - BitVec.ofNat 64
      rec.recBegin.nanos := by
    rw [RecEntry.recTime, Timespec.ofNat_nanos, Timespec.ofNat_nanos]
    grind
  rw [hdiff, BitVec.toNat_sub, BitVec.toNat_ofNat, BitVec.toNat_ofNat]
  omega

theorem RecEntry.length_bytes (rec : RecEntry) : rec.bytes.length = recSize := rfl

/-- A record is read back as it was written. -/
theorem RecEntry.read (rec : RecEntry) (cs : List U8) :
    (readSession (rec.bytes ++ cs), readBe64 (rec.bytes ++ cs) 12) =
    (rec.super, rec.recTime.toNat) := by
  have htime : readBe64 (rec.super.bytes ++ (be64Bytes rec.recTime ++ cs)) 12 =
      rec.recTime.toNat := by
    rw [← readBe64_be64Bytes rec.recTime cs]
    exact readBe64_append_right rec.super.bytes _ 0
  rw [RecEntry.bytes, List.append_assoc, readSession_append, htime]

/-- **The dump of the reconfiguration times.**  However large the table is, and wherever a walk has
to begin anew or fails, the reply fits the buffer, tells its own length, and decodes to the sessions
and the times of the entries that the walk came to, as many as there is room for, in the order of
the walk; the time of an entry whose reconfiguration has ended is exact. -/
theorem recTimes_dumped (nexts : List RecNext) : ∃ r, getRecTime true (.ok nexts) = some r ∧
    r.data.length ≤ maxNetlinkMsg ∧ r.nlmsgLen.toNat = nlmsgHdrLen + r.data.length ∧
    (r.recTimes = ((entriesBefore nexts).take maxRecTimes).map
      fun rec => (rec.super, rec.recTime.toNat)) ∧
    ∀ rec ∈ entriesBefore nexts, rec.Timed →
      rec.recTime.toNat = rec.recEnd.nanos - rec.recBegin.nanos := by
  have hwalk := walkRecLoop_eq nexts maxRecTimes (maxNetlinkMsg - 2 * 2) 0 [] (by decide)
      (by decide)
  rw [Nat.zero_add, List.nil_append] at hwalk
  generalize hrecs : (entriesBefore nexts).take maxRecTimes = recs at hwalk ⊢
  have hlen : min (entriesBefore nexts).length maxRecTimes = recs.length := by
    rw [← hrecs, List.length_take, Nat.min_comm]
  have hfew : recs.length ≤ maxRecTimes := by
    rw [← hlen]
    exact Nat.min_le_right ..
  rw [hlen] at hwalk
  have hsmall : recs.length < 2 ^ 16 := hfew.trans_lt (by decide)
  have hbytes : (recs.flatMap RecEntry.bytes).length = recSize * recs.length :=
    length_flatMap_of_forall RecEntry.length_bytes recs
  have hdata : ∀ data : List U8, data = bytes16
      (htons (BitVec.ofNat 16 recs.length)) ++ bytes16 0#16 ++
      recs.flatMap RecEntry.bytes → data.length = 4 + recSize * recs.length := by
    rintro data rfl
    rw [List.length_append, hbytes]
    rfl
  simp only [getRecTime, walkRecTable, Except.map, hwalk, Bool.true_eq_false, if_false]
  refine ⟨_, rfl, ?_, ?_, ?_, fun rec _ ht => ht.toNat_recTime⟩
  · rw [hdata _ rfl]
    simp only [recSize, maxNetlinkMsg, maxRecTimes] at hfew ⊢
    omega
  · rw [hdata _ rfl, BitVec.toNat_add, BitVec.toNat_ofNat, BitVec.toNat_ofNat]
    simp only [recSize, nlmsgHdrLen, maxRecTimes] at hfew ⊢
    omega
  · have hcount : load16 (bytes16 (htons (BitVec.ofNat 16 recs.length)) ++ bytes16 0#16 ++
        recs.flatMap RecEntry.bytes) 0 = htons (BitVec.ofNat 16 recs.length) := by
      rw [List.append_assoc]
      exact load16_bytes16 [] _ _
    rw [NetlinkReply.recTimes, NetlinkReply.len]
    simp only [hcount, ntohs_htons, BitVec.toNat_ofNat, Nat.mod_eq_of_lt hsmall]
    apply List.ext_getElem
    · rw [List.length_map, List.length_map, List.length_range]
    · intro i _ hi
      rw [List.length_map] at hi
      have hdrop : (bytes16 (htons (BitVec.ofNat 16 recs.length)) ++ bytes16 0#16 ++
          recs.flatMap RecEntry.bytes).drop (4 + recSize * i) =
            (recs.drop i).flatMap RecEntry.bytes := by
        have hfour : (bytes16 (htons (BitVec.ofNat 16 recs.length)) ++ bytes16 0#16 ++
            recs.flatMap RecEntry.bytes).drop 4 = recs.flatMap RecEntry.bytes := rfl
        rw [← List.drop_drop, hfour, drop_flatMap_of_forall RecEntry.length_bytes]
      rw [List.getElem_map, List.getElem_map, List.getElem_range, hdrop,
        List.drop_eq_getElem_cons hi,
        List.flatMap_cons, RecEntry.read]

end Dysco
