import Dysco.Input

/-! # The dump of the mappings

A user asks for the mappings between sessions and subsessions over netlink.  The reply
is one buffer: two counts, and the records that two walks copy out of the entries of the
output and the input table.  A record is a raw copy of the two sessions of an entry, which
a block of one table stores in the other order than a block of the other table.

`mappingDump_eq` gives the reply for tables of any size: as many entries as fit, those of the
output table first.  The two walks together never put more than `maxMappings` records, although
each looks at the room left only after it has put a record.
-/
namespace Dysco
open ByteOrder

/-! ## Records of one size -/

section Records
variable {α β : Type} {f : α → List β} {n : Nat}

theorem length_flatMap_of_forall (hf : ∀ a, (f a).length = n) (l : List α) :
    (l.flatMap f).length = n * l.length := by
  induction l with
  | nil => rfl
  | cons a l ih =>
    rw [List.flatMap_cons, List.length_append, hf, ih, List.length_cons, Nat.mul_succ, Nat.add_comm]

/-- A record is found behind those before it. -/
theorem drop_flatMap_of_forall (hf : ∀ a, (f a).length = n) (l : List α) (i : Nat) :
    (l.flatMap f).drop (n * i) = (l.drop i).flatMap f := by
  induction i generalizing l with
  | zero => rfl
  | succ i ih =>
    cases l with
    | nil => rw [List.flatMap_nil, List.drop_nil, List.drop_nil, List.flatMap_nil]
    | cons a l =>
      rw [List.flatMap_cons, Nat.mul_succ, Nat.add_comm, ← List.drop_drop,
        List.drop_left' (hf a), ih, List.drop_succ_cons]

end Records

/-! ## Mappings -/

/-- `struct dysco_mapping`: a session and its subsession. -/
structure Mapping where
  super : TcpSession
  sub : TcpSession
deriving DecidableEq, Repr

/-- The bytes of a mapping. -/
def Mapping.bytes (m : Mapping) : List U8 := m.super.bytes ++ m.sub.bytes

/-- A session in a buffer. -/
def readSession (bs : List U8) : TcpSession :=
  { sip := load32 bs 0, dip := load32 bs 4, sport := load16 bs 8, dport := load16 bs 10 }

/-- A mapping in a buffer. -/
def readMapping (bs : List U8) : Mapping := ⟨readSession bs, readSession (bs.drop 12)⟩

@[simp] theorem TcpSession.length_bytes (ss : TcpSession) : ss.bytes.length = 12 := rfl

@[simp] theorem Mapping.length_bytes (m : Mapping) : m.bytes.length = 24 := rfl

theorem readSession_append (ss : TcpSession) (cs : List U8) :
    readSession (ss.bytes ++ cs) = ss := by
  have hsip : load32 (ss.bytes ++ cs) 0 = ss.sip := by
    simpa [TcpSession.bytes] using load32_bytes32 [] (bytes32 ss.dip ++
      (bytes16 ss.sport ++ (bytes16 ss.dport ++ cs))) ss.sip
  have hdip : load32 (ss.bytes ++ cs) 4 = ss.dip := by
    simpa [TcpSession.bytes] using load32_bytes32 (bytes32 ss.sip)
      (bytes16 ss.sport ++ (bytes16 ss.dport ++ cs)) ss.dip
  have hsport : load16 (ss.bytes ++ cs) 8 = ss.sport := by
    simpa [TcpSession.bytes] using load16_bytes16 (bytes32 ss.sip ++ bytes32 ss.dip)
      (bytes16 ss.dport ++ cs) ss.sport
  have hdport : load16 (ss.bytes ++ cs) 10 = ss.dport := by
    simpa [TcpSession.bytes] using load16_bytes16 (bytes32 ss.sip ++ bytes32 ss.dip ++
      bytes16 ss.sport) cs ss.dport
  rw [readSession, hsip, hdip, hsport, hdport]

/-- A mapping is read back as it was written. -/
theorem readMapping_append (m : Mapping) (cs : List U8) : readMapping (m.bytes ++ cs) = m := by
  have hdrop : (m.bytes ++ cs).drop 12 = m.sub.bytes ++ cs := by
    rw [Mapping.bytes, List.append_assoc, List.drop_left' (TcpSession.length_bytes _)]
  rw [readMapping, hdrop, readSession_append, Mapping.bytes, List.append_assoc, readSession_append]

/-- The blocks as they lie in memory, up to and including the sessions.  The two pointers in
front are eight bytes each. -/
def CbOut.bytes (pointers : BitVec 128) (dcb : CbOut) : List U8 :=
  (List.range 16).map (byte pointers) ++ dcb.super.bytes ++ dcb.sub.bytes

def CbIn.bytes (pointers : BitVec 128) (dcb : CbIn) : List U8 :=
  (List.range 16).map (byte pointers) ++ dcb.sub.bytes ++ dcb.super.bytes

/-! ## `dysco_walk_hash_table` -/

/-- What `rhashtable_walk_next` returns: an entry, or an error pointer. -/
inductive WalkNext where
  | entry (rec : List U8)
  | again
  | err

/-- The variables of a walk: `ret`, what it has put into the buffer, and `no_room`. -/
structure Walked where
  ret : Nat
  put : List U8
  noRoom : Bool

/-- The loop of `dysco_walk_hash_table`. -/
def walkLoop (offset size : Nat) (bufSize : Int) : List WalkNext → Walked → Walked
  | [], w => w
  | .again :: nexts, w => walkLoop offset size bufSize nexts w
  | .err :: _, w => w
  | .entry rec :: nexts, w =>
    let w := { w with ret := w.ret + 1, put := w.put ++ (rec.drop offset).take size }
    -- the room is looked at after the record has been put
    if bufSize < size * (w.ret + 1) then { w with noRoom := true }
    else walkLoop offset size bufSize nexts w

/-- `dysco_walk_hash_table`: a walk that cannot be started is an error. -/
def walkHashTable (ht : Except Int (List WalkNext)) (offset size : Nat) (bufSize : Int) :
    Except Int Walked :=
  ht.map fun nexts => walkLoop offset size bufSize nexts ⟨0, [], false⟩

/-! ## `dysco_get_mapping` -/

/-- `MAX_NETLINK_MSG`. -/
def maxNetlinkMsg : Nat := 64 * 1024

/-- `offsetof(struct dysco_cb_out, super)`. -/
def superOffset : Nat := 16

/-- `sizeof(struct dysco_mapping)`. -/
def mappingSize : Nat := 24

/-- `NLMSG_HDRLEN`. -/
def nlmsgHdrLen : Nat := 16

/-- A netlink message: `nlmsg_len`, and what follows the header. -/
structure NetlinkReply where
  nlmsgLen : U32
  data : List U8

/-- Filling in the two counts and the length. -/
def NetlinkReply.make (lenL out : U16) (records : List U8) : NetlinkReply where
  nlmsgLen := BitVec.ofNat 32 (nlmsgHdrLen + 4) + BitVec.ofNat 32 (lenL.toNat * mappingSize)
  data := bytes16 (htons lenL) ++ bytes16 (htons out) ++ records

/-- `dysco_get_mapping`: no reply is sent if there is no buffer (`nlmsgNew`) or a walk fails. -/
def getMapping (nlmsgNew : Bool) (hashOut hashIn : Except Int (List WalkNext)) :
    Option NetlinkReply :=
  if nlmsgNew = false then none
  else
    let bufSize : Int := maxNetlinkMsg - 2 * 2
    match walkHashTable hashOut superOffset mappingSize bufSize with
    | .error _ => none
    | .ok w =>
      if w.noRoom then
        some (NetlinkReply.make (BitVec.ofNat 16 w.ret) (BitVec.ofNat 16 w.ret) w.put)
      else
        let out : U16 := BitVec.ofNat 16 w.ret
        let bufSize := bufSize - w.ret * mappingSize
        match walkHashTable hashIn superOffset mappingSize bufSize with
        | .error _ => none
        | .ok w' =>
          some (NetlinkReply.make (BitVec.ofNat 16 (out.toNat + w'.ret)) out (w.put ++ w'.put))

/-- The order in which a walk visits the entries of a table, each once. -/
structure Walk (t : BucketTable Nat) where
  order : List Nat
  visits : order.Perm (t.entries.map Prod.snd)

/-- The dump for a host, whose blocks begin with `pointers`. -/
def mappingDump (h : Host) (pointers : Nat → BitVec 128) (outs : Walk h.hashOut)
    (ins : Walk h.hashIn) : Option NetlinkReply :=
  getMapping true
    (.ok (outs.order.map fun p => .entry ((h.outMem p).bytes (pointers p))))
    (.ok (ins.order.map fun q => .entry ((h.inMem q).bytes (pointers q))))

/-! ## What a walk puts -/

/-- A walk puts as many records as there is room for: `cap` in all, of which fewer are there. -/
theorem walkLoop_entries (offset size cap : Nat) (bufSize : Int) (hfits : size * cap ≤ bufSize)
    (hfull : bufSize < size * (cap + 1)) (recs : List (List U8)) (ret : Nat) (hret : ret < cap)
    (put : List U8) :
    walkLoop offset size bufSize (recs.map .entry) ⟨ret, put, false⟩ =
      ⟨ret + min recs.length (cap - ret),
        put ++ (recs.take (cap - ret)).flatMap fun rec => (rec.drop offset).take size,
        decide (cap ≤ ret + recs.length)⟩ := by
  induction recs generalizing ret put with
  | nil => simp [walkLoop, hret]
  | cons rec recs ih =>
    obtain ⟨room, hroom⟩ : ∃ room, cap - ret = room + 1 := ⟨cap - ret - 1, by omega⟩
    rw [List.map_cons, walkLoop]
    simp only
    by_cases hlast : ret + 1 = cap
    · subst hlast
      have hone : ret + 1 - ret = 1 := by omega
      have hover : bufSize < (size : Int) * (((ret + 1 : Nat) : Int) + 1) := by exact_mod_cast hfull
      rw [if_pos hover, hone]
      simp
    · have hmono : size * (ret + 1 + 1) ≤ size * cap := Nat.mul_le_mul_left size (by omega)
      have hunder : ¬ bufSize < (size : Int) * (((ret + 1 : Nat) : Int) + 1) := by
        have : ((size * (ret + 1 + 1) : Nat) : Int) ≤ bufSize :=
          le_trans (by exact_mod_cast hmono) hfits
        push_cast at this ⊢
        omega
      rw [if_neg hunder, ih _ (by omega)]
      have hleft : cap - (ret + 1) = room := by omega
      rw [hroom, hleft, List.take_succ_cons, List.flatMap_cons, List.append_assoc, List.length_cons]
      congr 1
      · omega
      · simp only [decide_eq_decide]
        omega

/-- What a reader is to find for an entry. -/
def Host.outMapping (h : Host) (p : Nat) : Mapping := ⟨(h.outMem p).super, (h.outMem p).sub⟩

def Host.inMapping (h : Host) (q : Nat) : Mapping := ⟨(h.inMem q).super, (h.inMem q).sub⟩

/-- What lies behind the two pointers of an input block: the subsession comes first. -/
def Host.inCopy (h : Host) (q : Nat) : Mapping := ⟨(h.inMem q).sub, (h.inMem q).super⟩

theorem CbOut.copy_bytes (dcb : CbOut) (pointers : BitVec 128) :
    ((dcb.bytes pointers).drop superOffset).take mappingSize =
      Mapping.bytes ⟨dcb.super, dcb.sub⟩ := by
  rw [CbOut.bytes, List.append_assoc, List.drop_left' (by simp [superOffset])]
  exact List.take_of_length_le (by simp [mappingSize])

theorem CbIn.copy_bytes (dcb : CbIn) (pointers : BitVec 128) :
    ((dcb.bytes pointers).drop superOffset).take mappingSize =
      Mapping.bytes ⟨dcb.sub, dcb.super⟩ := by
  rw [CbIn.bytes, List.append_assoc, List.drop_left' (by simp [superOffset])]
  exact List.take_of_length_le (by simp [mappingSize])

/-- The number of records that the buffer holds. -/
def maxMappings : Nat := 2730

/-- The records of a dump. -/
def Host.mappings (h : Host) (outs ins : List Nat) : List Mapping :=
  (outs.take maxMappings).map h.outMapping ++
    (ins.take (maxMappings - outs.length)).map h.inCopy

/-- **The reply**: as many entries as fit, those of the output table first. -/
theorem mappingDump_eq (h : Host) (pointers : Nat → BitVec 128) (outs : Walk h.hashOut)
    (ins : Walk h.hashIn) :
    mappingDump h pointers outs ins =
      some (NetlinkReply.make
        (BitVec.ofNat 16 (min (outs.order.length + ins.order.length) maxMappings))
        (BitVec.ofNat 16 (min outs.order.length maxMappings))
        ((h.mappings outs.order ins.order).flatMap Mapping.bytes)) := by
  obtain ⟨outs, -⟩ := outs
  obtain ⟨ins, -⟩ := ins
  simp only [mappingDump, getMapping, walkHashTable, Except.map, Host.mappings]
  rw [if_neg (by decide)]
  have hout := walkLoop_entries superOffset mappingSize maxMappings
    ((maxNetlinkMsg : Int) - 2 * 2) (by decide) (by decide)
    (outs.map fun p => (h.outMem p).bytes (pointers p)) 0 (by decide) []
  simp only [List.map_map, List.length_map, Nat.zero_add, Nat.sub_zero, List.nil_append] at hout
  rw [show (outs.map fun p => WalkNext.entry ((h.outMem p).bytes (pointers p))) =
    outs.map (WalkNext.entry ∘ fun p => (h.outMem p).bytes (pointers p)) from rfl, hout]
  have hputOut : ((outs.map fun p => (h.outMem p).bytes (pointers p)).take maxMappings).flatMap
      (fun rec => (rec.drop superOffset).take mappingSize) =
      ((outs.take maxMappings).map h.outMapping).flatMap Mapping.bytes := by
    rw [← List.map_take, List.flatMap_map, List.flatMap_map]
    exact List.flatMap_congr fun p _ => CbOut.copy_bytes _ _
  rw [hputOut]
  by_cases hfull : maxMappings ≤ outs.length
  · simp only [decide_eq_true hfull, if_true]
    rw [Nat.min_eq_right hfull, Nat.min_eq_right (Nat.le_add_right_of_le hfull),
      Nat.sub_eq_zero_of_le hfull, List.take_zero, List.map_nil, List.append_nil]
  · simp only [decide_eq_false hfull, Bool.false_eq_true, if_false]
    have hmin : min outs.length maxMappings = outs.length := Nat.min_eq_left (by omega)
    have hin := walkLoop_entries superOffset mappingSize (maxMappings - outs.length)
      ((maxNetlinkMsg : Int) - 2 * 2 - outs.length * mappingSize)
      (by simp only [maxNetlinkMsg, mappingSize, maxMappings] at hfull ⊢; omega)
      (by simp only [maxNetlinkMsg, mappingSize, maxMappings] at hfull ⊢; omega)
      (ins.map fun q => (h.inMem q).bytes (pointers q)) 0 (by omega) []
    simp only [List.map_map, List.length_map, Nat.zero_add, Nat.sub_zero, List.nil_append] at hin
    rw [hmin, show (ins.map fun q => WalkNext.entry ((h.inMem q).bytes (pointers q))) =
      ins.map (WalkNext.entry ∘ fun q => (h.inMem q).bytes (pointers q)) from rfl, hin]
    have hputIn : ((ins.map fun q => (h.inMem q).bytes (pointers q)).take
        (maxMappings - outs.length)).flatMap
        (fun rec => (rec.drop superOffset).take mappingSize) =
        ((ins.take (maxMappings - outs.length)).map h.inCopy).flatMap Mapping.bytes := by
      rw [← List.map_take, List.flatMap_map, List.flatMap_map]
      exact List.flatMap_congr fun q _ => CbIn.copy_bytes _ _
    have hsmall : outs.length < 2 ^ 16 := by simp only [maxMappings] at hfull; omega
    have hlen : outs.length + min ins.length (maxMappings - outs.length) =
        min (outs.length + ins.length) maxMappings := by omega
    rw [hputIn, List.flatMap_append, BitVec.toNat_ofNat, Nat.mod_eq_of_lt hsmall, hlen]

/-! ## The reader -/

namespace NetlinkReply
variable (r : NetlinkReply)

/-- The number of records, as `struct dysco_mapping_vector` has it. -/
def len : Nat := (ntohs (load16 r.data 0)).toNat

/-- The number of records from the output table. -/
def out : Nat := (ntohs (load16 r.data 2)).toNat

/-- The records, decoded as `struct dysco_mapping`. -/
def vector : List Mapping :=
  (List.range r.len).map fun i => readMapping (r.data.drop (4 + mappingSize * i))

end NetlinkReply

section Make
variable (lenL out : U16) (records : List U8)

theorem NetlinkReply.len_make : (make lenL out records).len = lenL.toNat := by
  have hload : load16 (make lenL out records).data 0 = htons lenL := by
    simpa [make] using load16_bytes16 [] (bytes16 (htons out) ++ records) (htons lenL)
  rw [len, hload, ntohs_htons]

theorem NetlinkReply.out_make : (make lenL out records).out = out.toNat := by
  have hload : load16 (make lenL out records).data 2 = htons out := by
    simpa [make] using load16_bytes16 (bytes16 (htons lenL)) records (htons out)
  rw [NetlinkReply.out, hload, ntohs_htons]

theorem NetlinkReply.length_make : (make lenL out records).data.length = 4 + records.length := by
  simp [make]
  omega

theorem NetlinkReply.nlmsgLen_make :
    (make lenL out records).nlmsgLen.toNat = nlmsgHdrLen + 4 + mappingSize * lenL.toNat := by
  have hlt := lenL.isLt
  rw [make, BitVec.toNat_add, BitVec.toNat_ofNat, BitVec.toNat_ofNat]
  simp only [nlmsgHdrLen, mappingSize]
  omega

/-- The mappings that were put are the mappings that are read. -/
theorem NetlinkReply.vector_make {ms : List Mapping} (hlen : lenL.toNat = ms.length) :
    (make lenL out (ms.flatMap Mapping.bytes)).vector = ms := by
  apply List.ext_getElem
  · rw [vector, List.length_map, List.length_range, len_make, hlen]
  intro i _ hi
  have hdrop : (make lenL out (ms.flatMap Mapping.bytes)).data.drop (4 + mappingSize * i) =
      ms[i].bytes ++ (ms.drop (i + 1)).flatMap Mapping.bytes := by
    rw [make, ← List.drop_drop, List.drop_left' (by simp), mappingSize,
      drop_flatMap_of_forall Mapping.length_bytes, List.drop_eq_getElem_cons hi,
      List.flatMap_cons]
  simp only [vector, List.getElem_map, List.getElem_range]
  rw [hdrop, readMapping_append]

end Make

/-- The dump is complete, bounded and decodable. -/
structure Dumped (h : Host) (outs ins : List Nat) (r : NetlinkReply) : Prop where
  /-- The reply does not exceed the buffer. -/
  bounded : r.data.length ≤ maxNetlinkMsg
  /-- The first count is the number of records. -/
  len : r.data.length = 4 + mappingSize * r.len
  /-- `nlmsg_len` covers header, counts and records. -/
  nlmsgLen : r.nlmsgLen.toNat = nlmsgHdrLen + r.data.length
  /-- Every entry is there, or there is no room for one more record. -/
  complete : (r.out = outs.length ∧ r.len = outs.length + ins.length) ∨
    maxNetlinkMsg < r.data.length + mappingSize
  /-- The entries are all there if they fit. -/
  fitting : 4 + mappingSize * (outs.length + ins.length) ≤ maxNetlinkMsg →
    r.out = outs.length ∧ r.len = outs.length + ins.length
  /-- The second count is the number of leading records from the output table, and each record
  yields the sessions of its entry. -/
  vector : r.vector = (outs.take r.out).map h.outMapping ++
    (ins.take (r.len - r.out)).map h.inMapping

theorem Host.length_mappings (h : Host) (outs ins : List Nat) :
    (h.mappings outs ins).length = min (outs.length + ins.length) maxMappings := by
  rw [Host.mappings, List.length_append, List.length_map, List.length_map, List.length_take,
    List.length_take]
  omega

section Reply
variable (h : Host) (pointers : Nat → BitVec 128) {outs : Walk h.hashOut} {ins : Walk h.hashIn}
  {r : NetlinkReply}

/-- What the reply holds, whatever the tables are. -/
theorem mappingDump_reads (hr : mappingDump h pointers outs ins = some r) :
    r.data.length = 4 + mappingSize * r.len ∧ r.nlmsgLen.toNat = nlmsgHdrLen + r.data.length ∧
      r.len = min (outs.order.length + ins.order.length) maxMappings ∧
      r.out = min outs.order.length maxMappings ∧ r.vector = h.mappings outs.order ins.order := by
  rw [mappingDump_eq] at hr
  obtain rfl := Option.some.inj hr
  have hms := h.length_mappings outs.order ins.order
  generalize hlenL : BitVec.ofNat 16 (min (outs.order.length + ins.order.length) maxMappings) = lenL
  generalize houtL : BitVec.ofNat 16 (min outs.order.length maxMappings) = outL
  have hlen : lenL.toNat = min (outs.order.length + ins.order.length) maxMappings := by
    rw [← hlenL, BitVec.toNat_ofNat]
    simp only [maxMappings]
    omega
  have hout : outL.toNat = min outs.order.length maxMappings := by
    rw [← houtL, BitVec.toNat_ofNat]
    simp only [maxMappings]
    omega
  have hbytes := length_flatMap_of_forall Mapping.length_bytes (h.mappings outs.order ins.order)
  have hdata : (NetlinkReply.make lenL outL
      ((h.mappings outs.order ins.order).flatMap Mapping.bytes)).data.length =
      4 + mappingSize * lenL.toNat := by
    rw [NetlinkReply.length_make, hbytes, hms, hlen, mappingSize]
  rw [NetlinkReply.len_make, NetlinkReply.out_make, NetlinkReply.nlmsgLen_make]
  exact ⟨hdata, by rw [hdata, Nat.add_assoc], hlen, hout,
    NetlinkReply.vector_make lenL outL (hlen.trans hms.symm)⟩

/-- The records are decoded as they should be exactly if no input block has two sessions. -/
theorem mappings_eq_iff (outs ins : List Nat) :
    h.mappings outs ins = (outs.take (min outs.length maxMappings)).map h.outMapping ++
        (ins.take (min (outs.length + ins.length) maxMappings -
          min outs.length maxMappings)).map h.inMapping ↔
      ∀ q ∈ ins.take (maxMappings - outs.length), (h.inMem q).sub = (h.inMem q).super := by
  have htakeOut : outs.take (min outs.length maxMappings) = outs.take maxMappings :=
    List.take_eq_take_iff.mpr (by omega)
  have htakeIn : ins.take (min (outs.length + ins.length) maxMappings -
      min outs.length maxMappings) = ins.take (maxMappings - outs.length) :=
    List.take_eq_take_iff.mpr (by omega)
  rw [htakeOut, htakeIn, Host.mappings, List.append_cancel_left_eq, List.map_inj_left]
  refine forall₂_congr fun q _ => ⟨fun heq => congrArg Mapping.super heq, fun heq => ?_⟩
  rw [Host.inCopy, Host.inMapping, heq]

/-- Apart from the records of the input table, the reply is always as it should be. -/
theorem dumped_iff (hr : mappingDump h pointers outs ins = some r) :
    Dumped h outs.order ins.order r ↔
      ∀ q ∈ ins.order.take (maxMappings - outs.order.length),
        (h.inMem q).sub = (h.inMem q).super := by
  obtain ⟨hdata, hmsg, hlen, hout, hvector⟩ := mappingDump_reads h pointers hr
  rw [← mappings_eq_iff h outs.order ins.order]
  constructor
  · intro hd
    rw [← hvector, hd.vector, hlen, hout]
  · intro heq
    refine ⟨?_, hdata, hmsg, ?_, fun hfit => ?_, ?_⟩
    · rw [hdata, hlen]
      simp only [maxMappings, maxNetlinkMsg, mappingSize]
      omega
    · rw [hdata, hlen, hout]
      simp only [maxMappings, maxNetlinkMsg, mappingSize]
      omega
    · rw [hlen, hout]
      simp only [maxMappings, maxNetlinkMsg, mappingSize] at hfit ⊢
      omega
    · rw [hvector, heq, hlen, hout]

end Reply

/-- **The dump is what it should be exactly if** no entry of the input table for which there is
room has a session different from its subsession: its record shows them exchanged. -/
theorem mappingDump_iff (h : Host) (pointers : Nat → BitVec 128) (outs : Walk h.hashOut)
    (ins : Walk h.hashIn) :
    (∃ r, mappingDump h pointers outs ins = some r ∧ Dumped h outs.order ins.order r) ↔
      ∀ q ∈ ins.order.take (maxMappings - outs.order.length),
        (h.inMem q).sub = (h.inMem q).super := by
  constructor
  · rintro ⟨r, hr, hdumped⟩
    exact (dumped_iff h pointers hr).mp hdumped
  · intro hsame
    exact ⟨_, mappingDump_eq h pointers outs ins,
      (dumped_iff h pointers (mappingDump_eq h pointers outs ins)).mpr hsame⟩

/-- A middlebox at 10.0.0.3, on the path of a session from 10.0.0.1 to port 80 of 10.0.0.2. -/
def oneEntry : Host :=
  { Host.fresh with
    inMem := fun _ => { (default : CbIn) with
      sub := ⟨htonl 0x0a000001#32, htonl 0x0a000003#32, htons 10000#16, htons 10001#16⟩
      super := ⟨htonl 0x0a000001#32, htonl 0x0a000002#32, htons 40000#16, htons 80#16⟩ }
    brk := 1
    hashIn := ⟨[(0, 0)]⟩ }

theorem not_mappingDump : ¬ ∀ (h : Host) (pointers : Nat → BitVec 128) (outs : Walk h.hashOut)
    (ins : Walk h.hashIn),
    ∃ r, mappingDump h pointers outs ins = some r ∧ Dumped h outs.order ins.order r := by
  intro hall
  obtain ⟨r, hr, hdumped⟩ := hall oneEntry (fun _ => 0#128) ⟨[], List.Perm.refl _⟩
    ⟨[0], List.Perm.refl _⟩
  have hsame := (dumped_iff oneEntry _ hr).mp hdumped 0 (List.mem_singleton_self 0)
  revert hsame
  decide

end Dysco
