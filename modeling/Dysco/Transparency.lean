import Dysco.SynFailure
import Dysco.Rewriting
import Dysco.SeqCutoff
import Dysco.Translation

/-! # Hosts inserted on the new path

A host that is neither anchor makes four blocks for a `DYSCO_SYN`: an input and an output
block for each direction.  None of them translates numbers or windows, so a segment
that crosses the host keeps everything but addresses, ports and checksums.  One field is
not looked after: the input block of the direction from the left anchor comes from
`kmalloc`, and if the session has timestamps its echo delta is what was in memory
(`transparent_iff`).
-/
namespace Dysco
open OnesComplement ByteOrder BucketTable

variable {E : Env} {h h' : Host} {skb : SkBuff}

/-! ## Crossing a host -/

/-- A segment comes in, goes through a transparent middlebox and out again. -/
def cross (E : Env) (h : Host) (skb : SkBuff) : Host × SkBuff :=
  let arrived := input E h skb
  let left := output E arrived.1 arrived.2.1
  (left.1, left.2.1)

/-- What leaves the host when the packets of a list cross it one after the other. -/
def crossing (E : Env) : Host → List SkBuff → List SkBuff
  | _, [] => []
  | h, skb :: rest => (cross E h skb).2 :: crossing E (cross E h skb).1 rest

/-- A TCP segment of the subsession that is not a SYN. -/
structure SegmentOf (sub : TcpSession) (skb : SkBuff) : Prop extends skb.IsTcp where
  session : skb.session = sub
  notSyn : skb.hasSyn = false

/-- The packets agree in all but addresses, ports, checksums and what belongs to them. -/
def Unaltered (skb skb' : SkBuff) : Prop :=
  skb' = { skb with
    hDest := skb'.hDest, hSource := skb'.hSource, saddr := skb'.saddr, daddr := skb'.daddr,
    source := skb'.source, dest := skb'.dest, ipCheck := skb'.ipCheck, check := skb'.check,
    csum := skb'.csum, ipSummed := skb'.ipSummed }

/-- One direction through a host: the subsession a segment arrives with, its session, the
subsession and the next hop it leaves with, and the translation of timestamp echoes, if the
session has timestamps. -/
structure Lane where
  sub : TcpSession
  super : TcpSession
  outSub : TcpSession
  nhMac : Mac
  tsr : Option (U32 × Bool)
deriving DecidableEq, Repr

/-- The block translates nothing, but for timestamp echoes. -/
structure CbIn.Still (d : CbIn) : Prop where
  seqDelta : d.seqDelta = 0#32
  ackDelta : d.ackDelta = 0#32
  tsDelta : d.tsOk = true → d.tsDelta = 0#32
  wsDelta : d.wsOk = true → d.wsDelta = 0#16
  onePath : d.twoPaths = false

/-- The lane goes through the blocks `q` and `p`. -/
structure Lane.Through (E : Env) (L : Lane) (h : Host) (q p : Nat) : Prop where
  into : h.lookupIn E L.sub = some q
  out : h.lookupOut E L.super = some p
  sub : (h.inMem q).sub = L.sub
  super : (h.inMem q).super = L.super
  still : (h.inMem q).Still
  tsr : L.tsr = if (h.inMem q).tsOk then some ((h.inMem q).tsrDelta, (h.inMem q).tsrAdd) else none
  outSub : (h.outMem p).sub = L.outSub
  nhMac : (h.outMem p).nhMac = L.nhMac
  onePath : (h.outMem p).otherPath = none
  noSock : (h.outMem p).myTp = none

/-- The segment with its timestamp echo translated. -/
def Lane.stamp (L : Lane) (skb : SkBuff) : SkBuff :=
  match L.tsr with
  | none => skb
  | some (delta, add) => rewriteTs skb 0#32 false delta add

/-- What becomes of a segment in the lane. -/
def Lane.carry (E : Env) (L : Lane) (skb : SkBuff) : SkBuff :=
  outHdrRewriteCsum E
    (L.stamp (inTupleRewriteCsum skb { (default : CbIn) with sub := L.sub, super := L.super }))
    { (default : CbOut) with sub := L.outSub, nhMac := L.nhMac }

theorem rewriteTs_zero (skb : SkBuff) (tsAdd : Bool) (tsrDelta : U32) (tsrAdd : Bool) :
    rewriteTs skb 0#32 tsAdd tsrDelta tsrAdd = rewriteTs skb 0#32 false tsrDelta tsrAdd := by
  unfold rewriteTs
  cases getTsOption skb with
  | none => rfl
  | some ts => simp only [if_true]

/-- The input rewriting of a block that translates nothing. -/
theorem inRewrite_still {d : CbIn} (hd : d.Still) (skb : SkBuff) :
    inRewrite skb d = if d.tsOk then rewriteTs skb 0#32 false d.tsrDelta d.tsrAdd else skb := by
  rw [inRewrite, inRewriteSeq, rewriteSeq, if_pos hd.seqDelta, inRewriteAck, rewriteAck,
    if_pos hd.ackDelta]
  have hts : (if d.tsOk then inRewriteTs skb d else skb) =
      if d.tsOk then rewriteTs skb 0#32 false d.tsrDelta d.tsrAdd else skb := by
    by_cases hok : d.tsOk = true
    · rw [if_pos hok, if_pos hok, inRewriteTs, hd.tsDelta hok, rewriteTs_zero]
    · rw [if_neg hok, if_neg hok]
  simp only [hts]
  by_cases hok : d.wsOk = true
  · rw [if_pos hok, inRewriteRcvWnd, rewriteRcvWnd, if_pos (hd.wsDelta hok)]
  · rw [if_neg hok]

theorem inTupleRewriteCsum_congr {d d' : CbIn} (hsub : d.sub = d'.sub) (hsuper : d.super = d'.super)
    (skb : SkBuff) : inTupleRewriteCsum skb d = inTupleRewriteCsum skb d' := by
  rw [inTupleRewriteCsum_eq, inTupleRewriteCsum_eq, hsub, hsuper]

theorem outHdrRewriteCsum_congr {d d' : CbOut} (hsub : d.sub = d'.sub) (hmac : d.nhMac = d'.nhMac)
    (skb : SkBuff) : outHdrRewriteCsum E skb d = outHdrRewriteCsum E skb d' := by
  rw [outHdrRewriteCsum_eq, outHdrRewriteCsum_eq, hsub, hmac]

/-- Readdressing a packet changes nothing else. -/
theorem unaltered_inTupleRewriteCsum (skb : SkBuff) (d : CbIn) :
    Unaltered skb (inTupleRewriteCsum skb d) ∧ (inTupleRewriteCsum skb d).session = d.super := by
  rw [inTupleRewriteCsum_eq]
  have hshape := (retupled skb d.sub.dip d.super).shape
  generalize tupleRewriteCsum skb _ _ d.super = skb' at hshape ⊢
  rw [hshape]
  exact ⟨rfl, rfl⟩

theorem unaltered_outHdrRewriteCsum (skb : SkBuff) (d : CbOut) :
    Unaltered skb (outHdrRewriteCsum E skb d) := by
  rw [outHdrRewriteCsum_eq]
  have hshape := (retupled skb d.sub.dip d.sub).shape
  generalize tupleRewriteCsum skb _ _ d.sub = skb' at hshape ⊢
  rw [hshape]
  rfl

theorem Unaltered.trans {s t u : SkBuff} (hst : Unaltered s t) (htu : Unaltered t u) :
    Unaltered s u := by
  rw [Unaltered] at hst htu ⊢
  rw [htu, hst]

/-- What the hooks look at to find a packet's block. -/
def SkBuff.head (skb : SkBuff) : U16 × U8 × U8 × TcpSession :=
  (skb.hProto, skb.protocol, skb.flags, skb.session)

theorem head_dyscoInetProtoCsumReplace4 (skb : SkBuff) (a b : U32) :
    (dyscoInetProtoCsumReplace4 skb a b false).head = skb.head := by
  rw [dyscoInetProtoCsumReplace4]
  rfl

theorem head_replaceWord (skb : SkBuff) (k : Nat) (f : U32 → U32) :
    (skb.replaceWord k f).head = skb.head := by
  have hstore : ∀ (s : SkBuff) (x : U32), (s.store k x).head = s.head := fun _ _ => rfl
  rw [SkBuff.replaceWord]
  simp only [hstore, head_dyscoInetProtoCsumReplace4]

/-- A translated timestamp echo does not change where a packet belongs. -/
theorem head_rewriteTs (skb : SkBuff) (tsDelta : U32) (tsAdd : Bool) (tsrDelta : U32)
    (tsrAdd : Bool) : (rewriteTs skb tsDelta tsAdd tsrDelta tsrAdd).head = skb.head := by
  unfold rewriteTs
  cases getTsOption skb with
  | none => rfl
  | some ts =>
    simp only
    split <;> split <;> simp only [head_replaceWord]

theorem Lane.head_stamp (L : Lane) (skb : SkBuff) : (L.stamp skb).head = skb.head := by
  rw [Lane.stamp]
  split
  · rfl
  · exact head_rewriteTs ..

/-! ## One segment -/

section Cross
variable {L : Lane} {q p : Nat}

/-- A segment in a lane, as the middlebox gets it. -/
def Lane.inside (L : Lane) (skb : SkBuff) : SkBuff :=
  L.stamp (inTupleRewriteCsum skb { (default : CbIn) with sub := L.sub, super := L.super })

theorem Lane.Through.input_eq (T : L.Through E h q p) (hs : SegmentOf L.sub skb) :
    input E h skb = (h, L.inside skb, true) := by
  have hin : h.lookupIn E skb.session = some q := by rw [hs.session, T.into]
  have hcongr : inTupleRewriteCsum skb (h.inMem q) =
      inTupleRewriteCsum skb { (default : CbIn) with sub := L.sub, super := L.super } :=
    inTupleRewriteCsum_congr T.sub T.super skb
  rw [input, if_neg (not_not_intro hs.ip), if_neg (not_not_intro hs.tcp), hin]
  simp only [hs.notSyn, Bool.false_eq_true, if_false, inputSegment, T.still.onePath, if_true]
  rw [inHdrRewriteCsum, inRewrite_still T.still, hcongr, Lane.inside, Lane.stamp, T.tsr]
  by_cases hok : (h.inMem q).tsOk = true
  · rw [if_pos hok, if_pos hok]
  · rw [if_neg hok, if_neg hok]

theorem Unaltered.hProto {s t : SkBuff} (hst : Unaltered s t) : t.hProto = s.hProto := by
  rw [Unaltered] at hst
  rw [hst]

theorem Unaltered.protocol {s t : SkBuff} (hst : Unaltered s t) : t.protocol = s.protocol := by
  rw [Unaltered] at hst
  rw [hst]

theorem Unaltered.flags {s t : SkBuff} (hst : Unaltered s t) : t.flags = s.flags := by
  rw [Unaltered] at hst
  rw [hst]

theorem Unaltered.data {s t : SkBuff} (hst : Unaltered s t) : t.data = s.data := by
  rw [Unaltered] at hst
  rw [hst]

theorem Unaltered.doff {s t : SkBuff} (hst : Unaltered s t) : t.doff = s.doff := by
  rw [Unaltered] at hst
  rw [hst]

/-- The middlebox gets a segment of the session. -/
theorem Lane.segmentOf_inside (hs : SegmentOf L.sub skb) : SegmentOf L.super (L.inside skb) := by
  obtain ⟨hsame, hsession⟩ := unaltered_inTupleRewriteCsum skb
    { (default : CbIn) with sub := L.sub, super := L.super }
  have hhead := L.head_stamp
    (inTupleRewriteCsum skb { (default : CbIn) with sub := L.sub, super := L.super })
  have hproto : (L.inside skb).hProto = skb.hProto := (congrArg Prod.fst hhead).trans hsame.hProto
  have hprotocol : (L.inside skb).protocol = skb.protocol :=
    (congrArg (fun x => x.2.1) hhead).trans hsame.protocol
  have hflags : (L.inside skb).flags = skb.flags :=
    (congrArg (fun x => x.2.2.1) hhead).trans hsame.flags
  refine ⟨⟨?_, ?_⟩, (congrArg (fun x => x.2.2.2) hhead).trans hsession, ?_⟩
  · rw [hproto]
    exact hs.ip
  · rw [hprotocol]
    exact hs.tcp
  · rw [SkBuff.hasSyn, hflags]
    exact hs.notSyn

/-- A segment of a session without spliced sockets, on one path, is only readdressed. -/
theorem Lane.Through.output_eq (T : L.Through E h q p) (hs : SegmentOf L.super skb) :
    (output E h skb).2.1 =
      outHdrRewriteCsum E skb { (default : CbOut) with sub := L.outSub, nhMac := L.nhMac } := by
  have hp : h.lookupOut E skb.session = some p := by rw [hs.session, T.out]
  rw [output_unfold, if_neg (not_not_intro hs.ip), if_neg (not_not_intro hs.tcp), hp]
  simp only [outputWith, hs.notSyn, Bool.false_eq_true, if_false, T.noSock]
  rw [outTranslate]
  simp only [T.onePath]
  refine outHdrRewriteCsum_congr ?_ ?_ skb
  · split
    · rw [Host.setOut_outMem_self]
      exact T.outSub
    · exact T.outSub
  · split
    · rw [Host.setOut_outMem_self]
      exact T.nhMac
    · exact T.nhMac

/-- **A segment in a lane** leaves as the lane says, and moves at most the record of sent data. -/
theorem Lane.Through.cross_eq (T : L.Through E h q p) (hs : SegmentOf L.sub skb) :
    (cross E h skb).2 = L.carry E skb ∧
      ((cross E h skb).1 = h ∨
        ∃ seq, (cross E h skb).1 = h.setOut p ((h.outMem p).withSeqCutoff seq)) := by
  have hinside := Lane.segmentOf_inside hs
  rw [cross, T.input_eq hs]
  refine ⟨T.output_eq hinside, ?_⟩
  have hp : h.lookupOut E (L.inside skb).session = some p := by rw [hinside.session, T.out]
  have hhost := output_onePath hinside.toIsTcp hinside.notSyn hp T.onePath
  simp only
  rw [hhost]
  split
  · exact Or.inr ⟨_, rfl⟩
  · exact Or.inl rfl

/-- The record of sent data of a block does not matter to a lane. -/
theorem Lane.Through.withSeqCutoff (T : L.Through E h q p) (x : Nat) (seq : U32) :
    L.Through E (h.setOut x ((h.outMem x).withSeqCutoff seq)) q p := by
  have hmem : ∀ {D : Type} (f : CbOut → D), (∀ d : CbOut, f (d.withSeqCutoff seq) = f d) →
      f ((h.setOut x ((h.outMem x).withSeqCutoff seq)).outMem p) = f (h.outMem p) := by
    intro D f hf
    by_cases hx : p = x
    · rw [hx, Host.setOut_outMem_self, hf]
    · rw [Host.setOut_outMem_of_ne h hx]
  exact
    { T with
      out := (Host.lookupOut_setOut h (d := (h.outMem x).withSeqCutoff seq) (fun _ => rfl) _).trans
        T.out
      outSub := (hmem CbOut.sub fun _ => rfl).trans T.outSub
      nhMac := (hmem CbOut.nhMac fun _ => rfl).trans T.nhMac
      onePath := (hmem CbOut.otherPath fun _ => rfl).trans T.onePath
      noSock := (hmem CbOut.myTp fun _ => rfl).trans T.noSock }

/-- **Any number of segments, in two lanes.** -/
theorem crossing_eq {L' : Lane} {q' p' : Nat} (T : L.Through E h q p) (T' : L'.Through E h q' p')
    {skbs : List SkBuff} (hskbs : ∀ s ∈ skbs, SegmentOf L.sub s ∨ SegmentOf L'.sub s) :
    crossing E h skbs =
      skbs.map fun s => if s.session = L.sub then L.carry E s else L'.carry E s := by
  induction skbs generalizing h with
  | nil => rfl
  | cons s skbs ih =>
    have hrest : ∀ t ∈ skbs, SegmentOf L.sub t ∨ SegmentOf L'.sub t :=
      fun t ht => hskbs t (List.mem_cons_of_mem _ ht)
    -- the segment leaves as its lane says, and both lanes are still there
    have hstep : ∀ {K : Lane} {r x : Nat}, K.Through E h r x → SegmentOf K.sub s →
        crossing E h (s :: skbs) = K.carry E s ::
          skbs.map fun s => if s.session = L.sub then L.carry E s else L'.carry E s := by
      intro K r x hK hs
      obtain ⟨hout, hhost⟩ := hK.cross_eq hs
      rw [crossing, hout]
      obtain hsame | ⟨seq, hmoved⟩ := hhost
      · rw [hsame, ih T T' hrest]
      · rw [hmoved, ih (T.withSeqCutoff x seq) (T'.withSeqCutoff x seq) hrest]
    by_cases hs : s.session = L.sub
    · have hseg : SegmentOf L.sub s := by
        obtain hseg | hseg := hskbs s List.mem_cons_self
        · exact hseg
        · exact { hseg with session := hs }
      rw [hstep T hseg, List.map_cons, if_pos hs]
    · obtain hseg | hseg := hskbs s List.mem_cons_self
      · exact absurd hseg.session hs
      · rw [hstep T' hseg, List.map_cons, if_neg hs]

end Cross

/-! ## Lanes that translate nothing -/

/-- The lane leaves timestamp echoes alone. -/
def Lane.Quiet (L : Lane) : Prop := ∀ delta add, L.tsr = some (delta, add) → delta = 0#32

theorem rewriteTs_same (skb : SkBuff) (add : Bool) :
    rewriteTs skb 0#32 false 0#32 add = skb := by
  unfold rewriteTs
  cases getTsOption skb with
  | none => rfl
  | some ts => simp only [if_true]

theorem Lane.Quiet.stamp {L : Lane} (hq : L.Quiet) (skb : SkBuff) : L.stamp skb = skb := by
  rw [Lane.stamp]
  split
  · rfl
  · rename_i delta add htsr
    rw [hq delta add htsr, rewriteTs_same]

/-- **A quiet lane only readdresses**, and it does not matter why it is quiet. -/
theorem Lane.Quiet.carry {L : Lane} (hq : L.Quiet) (skb : SkBuff) :
    Unaltered skb (L.carry E skb) ∧ L.carry E skb = { L with tsr := none }.carry E skb := by
  rw [Lane.carry, hq.stamp]
  exact ⟨(unaltered_inTupleRewriteCsum skb _).1.trans (unaltered_outHdrRewriteCsum _ _), rfl⟩

/-- A timestamp option with both halves zero, and padding. -/
def stampBytes : List U8 :=
  [8#8, 10#8, 0#8, 0#8, 0#8, 0#8, 0#8, 0#8, 0#8, 0#8, 1#8, 1#8]

/-- A segment of the subsession with a timestamp option. -/
def stampedSegment (ss : TcpSession) : SkBuff :=
  { (default : SkBuff) with
    hProto := htons ethPIp
    protocol := ipprotoTcp
    saddr := ss.sip
    daddr := ss.dip
    source := ss.sport
    dest := ss.dport
    doff := 8#4
    data := stampBytes }

theorem segmentOf_stampedSegment (ss : TcpSession) : SegmentOf ss (stampedSegment ss) := by
  have hsyn : (default : SkBuff).hasSyn = false := by decide
  exact ⟨⟨ntohs_htons _, rfl⟩, rfl, hsyn⟩

/-- **A lane that is not quiet alters a segment.** -/
theorem Lane.altered {L : Lane} {delta : U32} {add : Bool} (htsr : L.tsr = some (delta, add))
    (hdelta : delta ≠ 0#32) :
    ¬ Unaltered (stampedSegment L.sub) (L.carry E (stampedSegment L.sub)) := by
  intro hun
  generalize hskb : stampedSegment L.sub = skb at hun
  obtain ⟨htup, -⟩ := unaltered_inTupleRewriteCsum skb
    { (default : CbIn) with sub := L.sub, super := L.super }
  have hout := unaltered_outHdrRewriteCsum (E := E) (L.stamp (inTupleRewriteCsum skb
    { (default : CbIn) with sub := L.sub, super := L.super }))
    { (default : CbOut) with sub := L.outSub, nhMac := L.nhMac }
  rw [Lane.carry] at hun
  generalize inTupleRewriteCsum skb { (default : CbIn) with sub := L.sub, super := L.super } = t
    at htup hout hun
  have hdata : t.data = skb.data := htup.data
  have hdoff : t.doff = skb.doff := htup.doff
  have hkept : (L.stamp t).data = skb.data := hout.data.symm.trans hun.data
  have hopt : getTsOption t = some 2 := by
    rw [getTsOption, SkBuff.options, SkBuff.optLen, hdata, hdoff, ← hskb]
    rfl
  have hlen : t.optLen ≤ t.data.length := by
    have hlen : (8#4).toNat * 4 - 20 ≤ stampBytes.length := by decide
    rw [SkBuff.optLen, hdata, hdoff, ← hskb]
    exact hlen
  have hload := (rewriteTs_load hlen hopt 0#32 false delta add).2
  rw [Lane.stamp, htsr] at hkept
  simp only at hkept
  rw [hkept, hdata] at hload
  have hzero : load32 skb.data (2 + 4) = 0#32 := by
    have hbytes : load32 stampBytes (2 + 4) = 0#32 := by decide
    rw [← hskb]
    exact hbytes
  rw [hzero] at hload
  -- a shift by a delta other than zero moves the echo
  have hshift := congrArg ntohl hload
  rw [ntohl_htonl, show ntohl 0#32 = 0#32 from by decide, shift] at hshift
  apply hdelta
  split at hshift
  · rw [BitVec.zero_add] at hshift
    exact hshift.symm
  · have hneg : -delta = 0#32 := by rw [← BitVec.zero_sub, ← hshift]
    rwa [BitVec.neg_eq_zero_iff] at hneg

/-! ## A `DYSCO_SYN` on its way -/

/-- The input block of the direction from the left anchor, once a host on the way is configured. -/
def CbReconfig.middleIn (rcb : CbReconfig) (dcbIn : CbIn) : CbIn :=
  let dcbIn :=
    { dcbIn with
      super := rcb.super
      outIseq := rcb.leftIseq
      outIack := rcb.leftIack
      seqDelta := 0#32
      ackDelta := 0#32 }
  let dcbIn :=
    if rcb.leftIts ≠ 0#32 then
      { dcbIn with tsIn := rcb.leftIts, tsOut := rcb.leftIts, tsDelta := 0#32, tsOk := true }
    else { dcbIn with tsOk := false }
  let dcbIn :=
    if rcb.leftIws ≠ 0#16 then
      { dcbIn with wsIn := rcb.leftIws, wsOut := rcb.leftIws, wsDelta := 0#16, wsOk := true }
    else { dcbIn with wsOk := false }
  { dcbIn with sackOk := rcb.sackOk.getLsbD 0 }

/-- What `middleIn` says about the block, and what it leaves to what was in memory. -/
theorem middleIn_spec (rcb : CbReconfig) (d : CbIn) :
    (rcb.middleIn d).super = rcb.super ∧ (rcb.middleIn d).sub = d.sub ∧
      (d.twoPaths = false → (rcb.middleIn d).Still) ∧
      (rcb.middleIn d).tsOk = decide (rcb.leftIts ≠ 0#32) ∧
      (rcb.middleIn d).tsrDelta = d.tsrDelta ∧ (rcb.middleIn d).tsrAdd = d.tsrAdd := by
  have hstill : d.twoPaths = false → (rcb.middleIn d).Still := by
    intro hone
    constructor
    all_goals
      rw [CbReconfig.middleIn]
      by_cases hts : rcb.leftIts = 0#32 <;> by_cases hws : rcb.leftIws = 0#16 <;>
        simp [hts, hws, hone]
  refine ⟨?_, ?_, hstill, ?_, ?_, ?_⟩
  all_goals
    rw [CbReconfig.middleIn]
    by_cases hts : rcb.leftIts = 0#32 <;> by_cases hws : rcb.leftIws = 0#16 <;> simp [hts, hws]

/-- What a `DYSCO_SYN` that arrives leaves behind at a host on the way. -/
structure MiddleArrived (E : Env) (h h1 : Host) (pkt : ControlPacket) : Prop where
  brk : h1.brk = h.brk + 3
  oom : h1.oom = h.oom
  allocPorts : h1.allocPorts = h.allocPorts
  rcbMem : h1.rcbMem = Function.update h.rcbMem h.brk ((h.rcbMem h.brk).ofSynIn pkt)
  inMem : h1.inMem = Function.update h.inMem (h.brk + 1)
    (((h.rcbMem h.brk).ofSynIn pkt).middleIn
      ((((h.rcbMem h.brk).ofSynIn pkt).newPathIn (h.inMem (h.brk + 1)) pkt.skbIif).withDcbOut
        (h.brk + 2)))
  outMem : h1.outMem = Function.update h.outMem (h.brk + 2)
    { (((h.rcbMem h.brk).ofSynIn pkt).reverseOut pkt).withDcbIn (some (h.brk + 1)) with
      sackOk := ((h.rcbMem h.brk).ofSynIn pkt).sackOk.getLsbD 0 }
  hashIn : h1.hashIn = ⟨(E.sessionHash (h1.inMem (h.brk + 1)).sub, h.brk + 1) :: h.hashIn.entries⟩
  hashOut : h1.hashOut = ⟨(E.sessionHash pkt.msg.super.reverse, h.brk + 2) :: h.hashOut.entries⟩
  hashReconfig : h1.hashReconfig =
    ⟨(E.sessionHash pkt.msg.super, h.brk) :: h.hashReconfig.entries⟩

theorem controlConfigMiddle_eq (h : Host) (r q p : Nat) :
    controlConfigMiddle E h r q p =
      ((h.setIn q ((h.rcbMem r).middleIn (h.inMem q))).setOut p
        { h.outMem p with sackOk := (h.rcbMem r).sackOk.getLsbD 0 }).insertOut E p := rfl

theorem synIn_arrived {pkt : ControlPacket}
    (hmem : ∀ a, h.brk ≤ a → a < h.brk + 3 → h.oom a = false)
    (hnone : h.lookupReconfig E pkt.msg.super = none) (hmiddle : pkt.daddr ≠ pkt.msg.rightA) :
    (synIn E h pkt).1 = true ∧ MiddleArrived E h (synIn E h pkt).2 pkt := by
  have hkmalloc : ∀ (g : Host) (k : Nat), g.oom = h.oom → g.brk = h.brk + k → k < 3 →
      g.kmalloc = (some g.brk, g.bump) := by
    intro g k hg hk hlt
    rw [Host.kmalloc, hg, hmem _ (by omega) (by omega), if_neg Bool.false_ne_true]
  rw [synIn, hnone]
  simp only
  rw [insertRcbControlInput, hkmalloc h 0 rfl rfl (by decide)]
  simp only
  generalize hh1 : (h.bump.setRcb h.brk ((h.bump.rcbMem h.brk).ofSynIn pkt)).insertReconfig E h.brk
    = h1
  have hbrk1 : h1.brk = h.brk + 1 := by rw [← hh1]; rfl
  rw [controlReconfigIn, hkmalloc h1 1 (by rw [← hh1]; rfl) hbrk1 (by decide)]
  simp only
  generalize hh2 : h1.bump.setIn h1.brk _ = h2
  have hbrk2 : h2.brk = h.brk + 2 := by rw [← hh2, ← hh1]; rfl
  have hoom2 : h2.oom h2.brk = false := by
    have hoom : h2.oom = h.oom := by rw [← hh2, ← hh1]; rfl
    rw [hoom, hmem _ (by omega) (by omega)]
  rw [buildCbInReverse, Host.kzallocOut, hoom2, if_neg Bool.false_ne_true]
  simp only
  rw [if_neg hmiddle, controlConfigMiddle_eq]
  have hrcb1 : h1.rcbMem = Function.update h.rcbMem h.brk ((h.rcbMem h.brk).ofSynIn pkt) := by
    rw [← hh1]
    rfl
  have hrcb2 : h2.rcbMem = h1.rcbMem := by rw [← hh2]; rfl
  have hin2 : h2.inMem = Function.update h.inMem (h.brk + 1)
      (((h.rcbMem h.brk).ofSynIn pkt).newPathIn (h.inMem (h.brk + 1)) pkt.skbIif) := by
    have hin1 : h1.inMem = h.inMem := by rw [← hh1]; rfl
    have hrcbq : h1.bump.rcbMem h.brk = (h.rcbMem h.brk).ofSynIn pkt := by
      rw [Host.bump_rcbMem, hrcb1, Function.update_self]
    rw [← hh2, Host.bump_inMem, hin1, hbrk1, hrcbq, Host.setIn]
    simp only [Host.bump_inMem, hin1]
  have hout2 : h2.outMem = h.outMem := by rw [← hh2, ← hh1]; rfl
  refine ⟨rfl, ?_⟩
  constructor
  · simp [hbrk2]
  · rw [← hh2, ← hh1]
    rfl
  · rw [← hh2, ← hh1]
    rfl
  · simp [hrcb2, hrcb1]
  · simp [hin2, hrcb2, hrcb1, hbrk1, hbrk2, Host.setIn]
  · simp [hout2, hrcb2, hrcb1, hbrk1, hbrk2, Host.setOut]
  · have htab : h2.hashIn = h.hashIn := by rw [← hh2, ← hh1]; rfl
    simp [Host.insertIn, BucketTable.insert, htab, hbrk1]
  · have htab : h2.hashOut = h.hashOut := by rw [← hh2, ← hh1]; rfl
    simp [Host.insertOut, BucketTable.insert, htab, hbrk2, hrcb2, hrcb1, CbReconfig.reverseOut,
      CbOut.withDcbIn, CbReconfig.ofSynIn]
  · have htab : h2.hashReconfig = h1.hashReconfig := by rw [← hh2]; rfl
    simp [htab, ← hh1, Host.insertReconfig, BucketTable.insert, CbReconfig.ofSynIn]

/-! ## A `DYSCO_SYN` leaves -/

/-- The output block of the direction from the left anchor at a host on the way, before its next
hop is looked up. -/
def CbReconfig.middleOut (rcb : CbReconfig) : CbOut :=
  { (default : CbOut) with
    super := rcb.super
    sub := rcb.subOut
    outIseq := rcb.leftIseq
    inIseq := rcb.leftIseq
    outIack := rcb.leftIack
    inIack := rcb.leftIack
    tsOut := rcb.leftIts
    tsIn := rcb.leftIts
    tsrOut := rcb.leftItsr
    tsrIn := rcb.leftItsr
    wsOut := rcb.leftIws
    wsIn := rcb.leftIws
    sackOk := rcb.sackOk.getLsbD 0
    nhMac := rcb.nhMac }

/-- What `dysco_control_insert_out` leaves behind: the blocks `p` and `q`. -/
structure MiddleInserted (E : Env) (g g' : Host) (tos : U8) (rcb : CbReconfig) (p q : Nat) :
    Prop where
  out_block : g'.outMem p = (arp E tos rcb.middleOut).withDcbIn (some q)
  in_block : (g'.inMem q).sub = (arp E tos rcb.middleOut).sub.reverse ∧
    (g'.inMem q).super = rcb.super.reverse ∧ (g'.inMem q).Still ∧ (g'.inMem q).tsOk = false
  out_ne : ∀ x, x ≠ p → g'.outMem x = g.outMem x
  in_ne : ∀ x, x ≠ q → g'.inMem x = g.inMem x
  hashOut : g'.hashOut = ⟨(E.sessionHash rcb.super, p) :: g.hashOut.entries⟩
  hashIn : g'.hashIn = ⟨(E.sessionHash (g'.inMem q).sub, q) :: g.hashIn.entries⟩

theorem controlInsertOut_inserted {g : Host} (hmem : g.oom g.brk = false)
    (hmem' : g.oom (g.brk + 1) = false) (pkt : ControlPacket) (r : Nat) : MiddleInserted E g
    (controlInsertOut E g pkt r) pkt.tos (g.rcbMem r) g.brk
      (g.brk + 1) := by
  have hp : g.kzallocOut = (some g.brk, g.bump.setOut g.brk default) := by
    rw [Host.kzallocOut, hmem, if_neg Bool.false_ne_true]
  rw [controlInsertOut, hp]
  simp only [Host.setOut_outMem_self, Host.setOut_rcbMem, Host.bump_rcbMem]
  have hdcb : arp E pkt.tos
      { (default : CbOut) with
        super := (g.rcbMem r).super, sub := (g.rcbMem r).subOut
        outIseq := (g.rcbMem r).leftIseq, inIseq := (g.rcbMem r).leftIseq
        outIack := (g.rcbMem r).leftIack, inIack := (g.rcbMem r).leftIack
        tsOut := (g.rcbMem r).leftIts, tsIn := (g.rcbMem r).leftIts
        tsrOut := (g.rcbMem r).leftItsr, tsrIn := (g.rcbMem r).leftItsr
        wsOut := (g.rcbMem r).leftIws, wsIn := (g.rcbMem r).leftIws
        sackOk := (g.rcbMem r).sackOk.getLsbD 0, nhMac := (g.rcbMem r).nhMac } =
      arp E pkt.tos (g.rcbMem r).middleOut := rfl
  rw [hdcb]
  generalize hd : arp E pkt.tos (g.rcbMem r).middleOut = d
  have hsuper : d.super = (g.rcbMem r).super := by rw [← hd]; rfl
  have htsOk : d.tsOk = false := by rw [← hd]; rfl
  have hwsOk : d.wsOk = false := by rw [← hd]; rfl
  generalize hg1 : (g.bump.setOut g.brk default).setOut g.brk d = g1
  rw [insertCbOut]
  simp only
  cases hrev : insertCbOutReverse E (g1.insertOut E g.brk) g.brk false with
  | mk q g2 =>
    have R := insertCbOutReverse_made hrev
    have hbrk1 : g1.brk = g.brk + 1 := by rw [← hg1]; rfl
    have hq : q = some (g.brk + 1) := by
      have hk : (g1.insertOut E g.brk).kzallocIn = (some (g.brk + 1),
          (g1.insertOut E g.brk).bump.setIn (g.brk + 1) default) := by
        have hoom : (g1.insertOut E g.brk).oom (g.brk + 1) = false := by
          rw [← hg1]
          exact hmem'
        have hbrk : (g1.insertOut E g.brk).brk = g.brk + 1 := hbrk1
        rw [Host.kzallocIn, hbrk, hoom, if_neg Bool.false_ne_true]
      rw [insertCbOutReverse, hk] at hrev
      exact (congrArg Prod.fst hrev).symm
    subst hq
    have hout1 : g1.outMem g.brk = d := by rw [← hg1, Host.setOut_outMem_self]
    have hout2 : g2.outMem = Function.update g1.outMem g.brk (d.withDcbIn (some (g.brk + 1))) := by
      rw [R.outMem, Option.elim_some, Host.insertOut_outMem, hout1]
    have hin2 : g2.inMem = Function.update g1.inMem (g.brk + 1) (d.reverseIn g.brk false) := by
      rw [R.inMem, Option.elim_some, Host.insertOut_outMem, Host.insertOut_inMem, hout1]
    have hblock : ((g2.outMem g.brk).withDcbIn (some (g.brk + 1))) =
        d.withDcbIn (some (g.brk + 1)) := by
      rw [hout2, Function.update_self]
      rfl
    simp only [Host.setOut_outMem_self, hblock]
    have hdcbIn : (d.withDcbIn (some (g.brk + 1))).dcbIn = some (g.brk + 1) := rfl
    simp only [hdcbIn, Host.setOut_inMem]
    have hin1 : g1.inMem = g.inMem := by rw [← hg1]; rfl
    have hout0 : ∀ x, x ≠ g.brk → g1.outMem x = g.outMem x := by
      intro x hx
      rw [← hg1, Host.setOut_outMem_of_ne _ hx, Host.setOut_outMem_of_ne _ hx, Host.bump_outMem]
    have hq2 : g2.inMem (g.brk + 1) = d.reverseIn g.brk false := by rw [hin2, Function.update_self]
    constructor
    · simp [hd]
    · rw [Host.setIn_inMem_self, hq2, hd]
      refine ⟨rfl, ?_, ⟨rfl, rfl, fun _ => rfl, fun _ => rfl, rfl⟩, htsOk⟩
      rw [← hsuper]
      rfl
    · intro x hx
      simp [hx, hout2, hout0 x hx]
    · intro x hx
      simp [hx, hin2, hin1]
    · simp [R.hashOut, Host.insertOut, BucketTable.insert, hsuper, ← hg1]
    · simp [R.hashIn, ← hg1, hq2]

/-! ## The lanes of a host on the way -/

/-- The host that is neither anchor handles the message for the first time, with memory for the
six blocks that are made. -/
structure OnTheWay (E : Env) (h : Host) (arriving leaving : ControlPacket) : Prop where
  mem : ∀ a, h.brk ≤ a → a < h.brk + 6 → h.oom a = false
  new : h.lookupReconfig E arriving.msg.super = none
  notRight : arriving.daddr ≠ arriving.msg.rightA
  notLeft : leaving.saddr ≠ leaving.msg.leftA
  msg : leaving.msg = arriving.msg
  super : arriving.msg.leftSS = arriving.msg.super

/-- The host once the message has left it. -/
def processed (E : Env) (h : Host) (arriving leaving : ControlPacket) : Host :=
  (passSyn E h (some arriving) leaving).2.1

/-- The subsession to the next host, and its next hop. -/
def nextHop (E : Env) (h : Host) (leaving : ControlPacket) : CbOut :=
  arp E leaving.tos
    { (default : CbOut) with
      sub := { sip := leaving.saddr, dip := leaving.daddr, sport := h.allocateLocalPort.1,
               dport := h.allocateLocalPort.2.allocateNeighborPort }
      nhMac := leaving.hDest }

/-- From the left anchor.  The delta for timestamp echoes is what was in memory. -/
def forwardLane (E : Env) (h : Host) (arriving leaving : ControlPacket) : Lane where
  sub := { sip := arriving.saddr, dip := arriving.daddr, sport := arriving.msg.sport,
           dport := arriving.msg.dport }
  super := arriving.msg.super
  outSub := (nextHop E h leaving).sub
  nhMac := (nextHop E h leaving).nhMac
  tsr :=
    if ntohl arriving.msg.leftIts ≠ 0#32 then
      some ((h.inMem (h.brk + 1)).tsrDelta, (h.inMem (h.brk + 1)).tsrAdd)
    else none

/-- From the right anchor.  A session that is its own reverse leaves as in the other lane. -/
def backwardLane (E : Env) (h : Host) (arriving leaving : ControlPacket) : Lane where
  sub := (nextHop E h leaving).sub.reverse
  super := arriving.msg.super.reverse
  outSub :=
    if arriving.msg.super = arriving.msg.super.reverse then (nextHop E h leaving).sub
    else { sip := arriving.daddr, dip := arriving.saddr, sport := arriving.msg.dport,
           dport := arriving.msg.sport }
  nhMac :=
    if arriving.msg.super = arriving.msg.super.reverse then (nextHop E h leaving).nhMac
    else arriving.hSource
  tsr := none

/-- What the message leaves behind on its way out. -/
theorem processed_inserted {arriving leaving : ControlPacket} (hw : OnTheWay E h arriving leaving) :
    ∃ h1 g rcb, MiddleArrived E h h1 arriving ∧
      MiddleInserted E g (processed E h arriving leaving) leaving.tos rcb (h.brk + 4) (h.brk + 5) ∧
      g.inMem = h1.inMem ∧ g.outMem = h1.outMem ∧ g.hashIn = h1.hashIn ∧ g.hashOut = h1.hashOut ∧
      rcb.super = arriving.msg.super ∧
      (arp E leaving.tos rcb.middleOut).sub = (nextHop E h leaving).sub ∧
      (arp E leaving.tos rcb.middleOut).nhMac = (nextHop E h leaving).nhMac := by
  obtain ⟨hok, A⟩ := synIn_arrived (E := E) (fun a hle hlt => hw.mem a hle (by omega)) hw.new
    hw.notRight
  generalize hh1 : (synIn E h arriving).2 = h1 at A
  have hsyn : synIn E h arriving = (true, h1) := Prod.ext hok hh1
  -- the block made on the way in is found, and has no outgoing subsession yet
  have hkey : (h1.rcbMem h.brk).super = arriving.msg.super := by
    rw [A.rcbMem, Function.update_self]
    rfl
  have hfound : h1.lookupReconfig E leaving.msg.super = some h.brk := by
    rw [Host.lookupReconfig, A.hashReconfig, hw.msg, ← hkey]
    exact lookup_insert_self rfl
  have hsip : (h1.rcbMem h.brk).subOut.sip = 0#32 := by
    rw [A.rcbMem, Function.update_self]
    rfl
  have hoom : ∀ k, k < 6 → h1.oom (h.brk + k) = false := by
    intro k hk
    rw [A.oom, hw.mem _ (by omega) (by omega)]
  have hbrk := A.brk
  rw [processed, passSyn, hsyn]
  simp only
  rw [controlOutputSyn]
  simp only [hw.notLeft, if_false, hfound, Option.elim_some, hsip, ne_eq, not_true_eq_false,
    decide_false, Bool.false_eq_true]
  rw [insertCbControl, Host.kmalloc, hbrk, hoom 3 (by decide), if_neg Bool.false_ne_true]
  simp only
  have hports : ∀ g : Host, g.allocPorts = h.allocPorts →
      g.allocateLocalPort.1 = h.allocateLocalPort.1 ∧
        g.allocateLocalPort.2.allocateNeighborPort =
          h.allocateLocalPort.2.allocateNeighborPort := by
    intro g hg
    simp only [Host.allocateLocalPort, Host.allocateNeighborPort, hg]
    exact ⟨trivial, trivial⟩
  obtain ⟨hsport, hdport⟩ := hports h1.bump A.allocPorts
  generalize h1.bump.allocateLocalPort.1 = sport at hsport
  generalize hport : h1.bump.allocateLocalPort.2 = h2 at hdport
  generalize h2.allocateNeighborPort = dport at hdport
  generalize hpkt : fixUdpChecksum _ = pkt'
  generalize hg : Host.insertReconfig E _ (h.brk + 3) = g
  have hg' : g = (h2.setRcb (h.brk + 3) ((h2.rcbMem (h.brk + 3)).ofSynOut leaving sport
      dport)).insertReconfig E (h.brk + 3) := hg.symm
  have h2_eq : h2.inMem = h1.inMem ∧ h2.outMem = h1.outMem ∧ h2.hashIn = h1.hashIn ∧
      h2.hashOut = h1.hashOut ∧ h2.brk = h.brk + 4 ∧ h2.oom = h1.oom := by
    rw [← hport]
    exact ⟨rfl, rfl, rfl, rfl, congrArg Nat.succ hbrk, rfl⟩
  generalize hrcb : (h2.rcbMem (h.brk + 3)).ofSynOut leaving sport dport = rcb at hg'
  have hgbrk : g.brk = h.brk + 4 := by rw [hg']; exact h2_eq.2.2.2.2.1
  have hgoom : g.oom = h1.oom := by rw [hg']; exact h2_eq.2.2.2.2.2
  have hgrcb : g.rcbMem (h.brk + 3) = rcb := by
    rw [hg', Host.insertReconfig_rcbMem, Host.setRcb_rcbMem_self]
  have I := controlInsertOut_inserted (E := E) (g := g)
      (by rw [hgoom, hgbrk]; exact hoom 4 (by decide))
    (by rw [hgoom, hgbrk]; exact hoom 5 (by decide)) pkt' (h.brk + 3)
  have htos : pkt'.tos = leaving.tos := by rw [← hpkt]; rfl
  rw [hgrcb, hgbrk, htos] at I
  refine ⟨h1, g, rcb, A, I, ?_, ?_, ?_, ?_, ?_, ?_, ?_⟩
  · rw [hg']
    exact h2_eq.1
  · rw [hg']
    exact h2_eq.2.1
  · rw [hg']
    exact h2_eq.2.2.1
  · rw [hg']
    exact h2_eq.2.2.2.1
  · rw [← hrcb, ← hw.super, ← hw.msg]
    rfl
  · rw [← hrcb, hsport, hdport]
    rfl
  · rw [← hrcb, hsport, hdport]
    rfl

/-- **The lanes of a host that has passed a `DYSCO_SYN` on.** -/
theorem processed_through {arriving leaving : ControlPacket} (hw : OnTheWay E h arriving leaving) :
    (∃ q p, (backwardLane E h arriving leaving).Through E (processed E h arriving leaving) q p) ∧
      ((forwardLane E h arriving leaving).sub ≠ (backwardLane E h arriving leaving).sub →
        ∃ q p, (forwardLane E h arriving leaving).Through E
          (processed E h arriving leaving) q p) := by
  obtain ⟨h1, g, rcb, A, I, hgin, hgout, hgtin, hgtout, hsuper, hsub, hmac⟩ :=
    processed_inserted hw
  generalize hm : arriving.msg = m at *
  generalize processed E h arriving leaving = h' at I ⊢
  generalize hhop : nextHop E h leaving = hop at hsub hmac
  have hF : forwardLane E h arriving leaving =
      { sub := { sip := arriving.saddr, dip := arriving.daddr, sport := m.sport, dport := m.dport }
        super := m.super, outSub := hop.sub, nhMac := hop.nhMac
        tsr :=
          if ntohl m.leftIts ≠ 0#32 then
            some ((h.inMem (h.brk + 1)).tsrDelta, (h.inMem (h.brk + 1)).tsrAdd)
          else none } := by
    rw [← hhop, ← hm]
    rfl
  have hB : backwardLane E h arriving leaving =
      { sub := hop.sub.reverse
        super := m.super.reverse
        outSub := if m.super = m.super.reverse then hop.sub
          else { sip := arriving.daddr, dip := arriving.saddr, sport := m.dport, dport := m.sport }
        nhMac := if m.super = m.super.reverse then hop.nhMac else arriving.hSource
        tsr := none } := by
    rw [← hhop, ← hm]
    rfl
  rw [hF, hB]
  -- the four blocks
  have hq : h'.inMem (h.brk + 1) = _ :=
    (I.in_ne _ (by omega)).trans ((congrFun (hgin.trans A.inMem) _).trans (Function.update_self ..))
  have hp : h'.outMem (h.brk + 2) = _ :=
    (I.out_ne _ (by omega)).trans
      ((congrFun (hgout.trans A.outMem) _).trans (Function.update_self ..))
  have hp2 := I.out_block
  obtain ⟨hq2sub, hq2super, hq2still, hq2ts⟩ := I.in_block
  obtain ⟨hqsuper, hqsub, hqstill, hqts, hqtsr, hqadd⟩ := middleIn_spec
    ((h.rcbMem h.brk).ofSynIn arriving)
    ((((h.rcbMem h.brk).ofSynIn arriving).newPathIn
    (h.inMem (h.brk + 1)) arriving.skbIif).withDcbOut
        (h.brk + 2))
  rw [← hq] at hqsuper hqsub hqstill hqts hqtsr hqadd
  refine ⟨⟨h.brk + 5, if m.super = m.super.reverse then h.brk + 4 else h.brk + 2, ?_⟩,
    fun hne => ⟨h.brk + 1, h.brk + 4, ?_⟩⟩
  · have hsub' : (h'.inMem (h.brk + 5)).sub = hop.sub.reverse := by rw [hq2sub, hsub]
    have hkey2 : (h'.outMem (h.brk + 4)).super = m.super := by
      rw [hp2, ← hsuper]
      rfl
    have hkey : (h'.outMem (h.brk + 2)).super = m.super.reverse := by
      rw [hp, ← hm]
      rfl
    have hout : h'.lookupOut E m.super.reverse =
        some (if m.super = m.super.reverse then h.brk + 4 else h.brk + 2) := by
      rw [Host.lookupOut, I.hashOut, hsuper, lookup_cons (f := fun p => (h'.outMem p).super) hkey2]
      split
      · rfl
      · rw [hgtout, A.hashOut, hm, lookup_cons (f := fun p => (h'.outMem p).super) hkey, if_pos rfl]
    have hin : h'.lookupIn E hop.sub.reverse = some (h.brk + 5) := by
      rw [Host.lookupIn, I.hashIn, hsub', lookup_cons (f := fun p => (h'.inMem p).sub) hsub',
        if_pos rfl]
    have hblock : ∀ {D : Type} (f : CbOut → D) {x y : D}, f (h'.outMem (h.brk + 4)) = x →
        f (h'.outMem (h.brk + 2)) = y →
        f (h'.outMem (if m.super = m.super.reverse then h.brk + 4 else h.brk + 2)) =
          if m.super = m.super.reverse then x else y := by
      intro D f x y hx hy
      split
      · exact hx
      · exact hy
    constructor
    · exact hin
    · exact hout
    · exact hsub'
    · rw [hq2super, hsuper]
    · exact hq2still
    · rw [hq2ts, if_neg Bool.false_ne_true]
    · refine hblock CbOut.sub ?_ ?_
      · rw [hp2, ← hsub]
        rfl
      · rw [hp, ← hm]
        rfl
    · refine hblock CbOut.nhMac ?_ ?_
      · rw [hp2, ← hmac]
        rfl
      · rw [hp]
        rfl
    · refine (hblock CbOut.otherPath (x := none) (y := none) ?_ ?_).trans (ite_self _)
      · rw [hp2]
        rfl
      · rw [hp]
        rfl
    · refine (hblock CbOut.myTp (x := none) (y := none) ?_ ?_).trans (ite_self _)
      · rw [hp2]
        rfl
      · rw [hp]
        rfl
  · have hsubq : (h'.inMem (h.brk + 1)).sub =
        { sip := arriving.saddr, dip := arriving.daddr, sport := m.sport, dport := m.dport } := by
      rw [hqsub, ← hm]
      rfl
    have hts : (h'.inMem (h.brk + 1)).tsOk = decide (ntohl m.leftIts ≠ 0#32) := by
      rw [hqts, ← hm]
      rfl
    have hkeyq : (h1.inMem (h.brk + 1)).sub =
        { sip := arriving.saddr, dip := arriving.daddr, sport := m.sport, dport := m.dport } := by
      rw [← hgin, ← I.in_ne _ (by omega)]
      exact hsubq
    constructor
    · rw [Host.lookupIn, I.hashIn, hq2sub, hsub,
        lookup_cons (f := fun p => (h'.inMem p).sub) (hq2sub.trans (by rw [hsub])),
        if_neg (Ne.symm hne), hgtin, A.hashIn, hkeyq,
        lookup_cons (f := fun p => (h'.inMem p).sub) hsubq, if_pos rfl]
    · rw [Host.lookupOut, I.hashOut, hsuper,
        lookup_cons (f := fun p => (h'.outMem p).super) (by rw [hp2, ← hsuper]; rfl), if_pos rfl]
    · exact hsubq
    · rw [hqsuper, ← hm]
      rfl
    · exact hqstill rfl
    · rw [hts, hqtsr, hqadd]
      by_cases hits : ntohl m.leftIts = 0#32
      · simp [hits]
      · rw [if_pos hits, if_pos (decide_eq_true hits)]
        rfl
    · rw [hp2, ← hsub]
      rfl
    · rw [hp2, ← hmac]
      rfl
    · rw [hp2]
      rfl
    · rw [hp2]
      rfl

/-! ## Transparency -/

/-- The hosts on the two sides of a comparison, after the same message has passed: whatever
segments of the session cross them in either direction, none is altered, and both hosts emit
the same packets. -/
def Transparent (E : Env) (h h' : Host) (arriving leaving : ControlPacket) : Prop :=
  ∀ skbs : List SkBuff,
    (∀ s ∈ skbs, SegmentOf (forwardLane E h arriving leaving).sub s ∨
      SegmentOf (backwardLane E h arriving leaving).sub s) →
    List.Forall₂ Unaltered skbs (crossing E (processed E h arriving leaving) skbs) ∧
      List.Forall₂ Unaltered skbs (crossing E (processed E h' arriving leaving) skbs) ∧
      crossing E (processed E h arriving leaving) skbs =
        crossing E (processed E h' arriving leaving) skbs

theorem forall₂_map {skbs : List SkBuff} {f : SkBuff → SkBuff}
    (hf : ∀ s ∈ skbs, Unaltered s (f s)) :
    List.Forall₂ Unaltered skbs (skbs.map f) := by
  rw [List.forall₂_map_right_iff, List.forall₂_same]
  exact hf

/-- In quiet lanes no segment is altered, and why they are quiet does not show. -/
theorem crossing_quiet {L L' : Lane} {h : Host} {q p q' p' : Nat} (hq : L.Quiet) (hq' : L'.Quiet)
    (T : L.Through E h q p) (T' : L'.Through E h q' p') {skbs : List SkBuff}
    (hskbs : ∀ s ∈ skbs, SegmentOf L.sub s ∨ SegmentOf L'.sub s) :
    List.Forall₂ Unaltered skbs (crossing E h skbs) ∧
      crossing E h skbs = skbs.map fun s =>
        if s.session = L.sub then { L with tsr := none }.carry E s
        else { L' with tsr := none }.carry E s := by
  have hmap := crossing_eq T T' hskbs
  constructor
  · rw [hmap]
    refine forall₂_map fun s _ => ?_
    split
    · exact (hq.carry s).1
    · exact (hq'.carry s).1
  · rw [hmap]
    refine List.map_congr_left fun s _ => ?_
    rw [(hq.carry s).2, (hq'.carry s).2]

theorem nextHop_congr (halloc : h'.allocPorts = h.allocPorts) (leaving : ControlPacket) :
    nextHop E h' leaving = nextHop E h leaving := by
  simp only [nextHop, Host.allocateLocalPort, Host.allocateNeighborPort, halloc]

/-- The delta that a host finds in memory makes the lane from the left anchor loud. -/
theorem altered_of_delta {arriving leaving : ControlPacket} (hw : OnTheWay E h arriving leaving)
    (hits : ntohl arriving.msg.leftIts ≠ 0#32)
    (hne : (forwardLane E h arriving leaving).sub ≠ (backwardLane E h arriving leaving).sub)
    (hdelta : (h.inMem (h.brk + 1)).tsrDelta ≠ 0#32) :
    ¬ List.Forall₂ Unaltered [stampedSegment (forwardLane E h arriving leaving).sub]
      (crossing E (processed E h arriving leaving)
        [stampedSegment (forwardLane E h arriving leaving).sub]) := by
  intro hall
  obtain ⟨q, p, T⟩ := (processed_through hw).2 hne
  rw [crossing, (T.cross_eq (segmentOf_stampedSegment _)).1] at hall
  have htsr : (forwardLane E h arriving leaving).tsr =
      some ((h.inMem (h.brk + 1)).tsrDelta, (h.inMem (h.brk + 1)).tsrAdd) := if_pos hits
  exact Lane.altered htsr hdelta (List.forall₂_cons.mp hall).1

/-- A lane without timestamps, or with a delta of zero, is quiet. -/
theorem forwardLane_quiet {arriving leaving : ControlPacket}
    (hcond : ntohl arriving.msg.leftIts = 0#32 ∨ (h.inMem (h.brk + 1)).tsrDelta = 0#32) :
    (forwardLane E h arriving leaving).Quiet := by
  intro delta add htsr
  rw [forwardLane] at htsr
  split at htsr
  · rename_i hits
    cases htsr
    exact hcond.resolve_left hits
  · cases htsr

theorem backwardLane_quiet (h : Host) (arriving leaving : ControlPacket) :
    (backwardLane E h arriving leaving).Quiet := by
  intro delta add htsr
  cases htsr

/-- **An inserted host is transparent exactly when** the session has no timestamps, or the word
that `kmalloc` returns for the delta of timestamp echoes is zero; or if both subsessions of the
host are each other's reverse, so that the block is never found. -/
theorem transparent_iff {arriving leaving : ControlPacket} (hw : OnTheWay E h arriving leaving)
    (hw' : OnTheWay E h' arriving leaving) (hsame : SameLive h h') (hbrk : h'.brk = h.brk) :
    Transparent E h h' arriving leaving ↔ ntohl arriving.msg.leftIts = 0#32 ∨
      ((h.inMem (h.brk + 1)).tsrDelta = 0#32 ∧ (h'.inMem (h.brk + 1)).tsrDelta = 0#32) ∨
      (forwardLane E h arriving leaving).sub = (backwardLane E h arriving leaving).sub := by
  have hhop := nextHop_congr (E := E) hsame.allocPorts leaving
  have hsubF : (forwardLane E h' arriving leaving).sub =
      (forwardLane E h arriving leaving).sub := rfl
  have hB : backwardLane E h' arriving leaving = backwardLane E h arriving leaving := by
    rw [backwardLane, backwardLane, hhop]
  have hF : { forwardLane E h' arriving leaving with tsr := none } =
      { forwardLane E h arriving leaving with tsr := none } := by
    rw [forwardLane, forwardLane, hhop]
  obtain ⟨⟨qb, pb, TB⟩, hTF⟩ := processed_through hw
  obtain ⟨⟨qb', pb', TB'⟩, hTF'⟩ := processed_through hw'
  rw [hB] at TB' hTF'
  by_cases hne : (forwardLane E h arriving leaving).sub = (backwardLane E h arriving leaving).sub
  · -- there is one lane only
    refine iff_of_true (fun skbs hskbs => ?_) (Or.inr (Or.inr hne))
    rw [hne] at hskbs
    have hq := backwardLane_quiet (E := E) h arriving leaving
    obtain ⟨hun, hout⟩ := crossing_quiet hq hq TB TB hskbs
    obtain ⟨hun', hout'⟩ := crossing_quiet hq hq TB' TB' hskbs
    exact ⟨hun, hun', hout.trans hout'.symm⟩
  · constructor
    · intro htrans
      by_contra hcond
      obtain ⟨hits, hdelta⟩ := not_or.mp hcond
      have hdelta := (not_or.mp hdelta).1
      obtain ⟨hun, hun', -⟩ := htrans [stampedSegment (forwardLane E h arriving leaving).sub]
        (fun s hs => Or.inl (by rw [List.mem_singleton.mp hs]; exact segmentOf_stampedSegment _))
      by_cases h0 : (h.inMem (h.brk + 1)).tsrDelta = 0#32
      · have h0' : (h'.inMem (h'.brk + 1)).tsrDelta ≠ 0#32 := by
          rw [hbrk]
          exact fun hc => hdelta ⟨h0, hc⟩
        rw [← hsubF] at hun'
        exact altered_of_delta hw' hits (by rw [hsubF, hB]; exact hne) h0' hun'
      · exact altered_of_delta hw hits hne h0 hun
    · intro hcond
      have hdelta : (ntohl arriving.msg.leftIts = 0#32 ∨ (h.inMem (h.brk + 1)).tsrDelta = 0#32) ∧
          (ntohl arriving.msg.leftIts = 0#32 ∨ (h'.inMem (h'.brk + 1)).tsrDelta = 0#32) := by
        obtain hits | ⟨h0, h0'⟩ | hc := hcond
        · exact ⟨Or.inl hits, Or.inl hits⟩
        · rw [hbrk]
          exact ⟨Or.inr h0, Or.inr h0'⟩
        · exact absurd hc hne
      intro skbs hskbs
      obtain ⟨qf, pf, TF⟩ := hTF hne
      obtain ⟨qf', pf', TF'⟩ := hTF' (by rw [hsubF]; exact hne)
      have hq := backwardLane_quiet (E := E) h arriving leaving
      obtain ⟨hun, hout⟩ := crossing_quiet (forwardLane_quiet hdelta.1) hq TF TB hskbs
      obtain ⟨hun', hout'⟩ := crossing_quiet (forwardLane_quiet hdelta.2) hq TF' TB' hskbs
      rw [hF, hsubF] at hout'
      exact ⟨hun, hun', hout.trans hout'.symm⟩

/-! ## Two contents of memory -/

/-- A `DYSCO_SYN` of a session with timestamps. -/
def stampedSyn (saddr daddr : U32) : ControlPacket :=
  { synOnTheWay saddr daddr with msg.leftIts := htonl 1#32 }

/-- A host on which an input block with an echo delta of one has lain where the next one will. -/
def usedHost : Host :=
  { Host.fresh with inMem := Function.update default 1 { (default : CbIn) with tsrDelta := 1#32 } }

theorem onTheWay_fresh : OnTheWay default Host.fresh (stampedSyn 0x0100000a#32 0x0200000a#32)
    (stampedSyn 0x0200000a#32 0x0300000a#32) where
  mem := fun _ _ _ => rfl
  new := rfl
  notRight := by decide
  notLeft := by decide
  msg := rfl
  super := rfl

theorem onTheWay_used : OnTheWay default usedHost (stampedSyn 0x0100000a#32 0x0200000a#32)
    (stampedSyn 0x0200000a#32 0x0300000a#32) where
  mem := fun _ _ _ => rfl
  new := rfl
  notRight := by decide
  notLeft := by decide
  msg := rfl
  super := rfl

/-- A host on which an input block with other deltas has lain there. -/
def staleHost : Host :=
  { Host.fresh with
    inMem := Function.update default 1
      { (default : CbIn) with seqDelta := 5#32, ackDelta := 7#32, tsDelta := 9#32 } }

theorem onTheWay_stale : OnTheWay default staleHost (stampedSyn 0x0100000a#32 0x0200000a#32)
    (stampedSyn 0x0200000a#32 0x0300000a#32) where
  mem := fun _ _ _ => rfl
  new := rfl
  notRight := by decide
  notLeft := by decide
  msg := rfl
  super := rfl

theorem transparent_stale : Transparent default Host.fresh staleHost
    (stampedSyn 0x0100000a#32 0x0200000a#32) (stampedSyn 0x0200000a#32 0x0300000a#32) := by
  have hsame : SameLive Host.fresh staleHost :=
    ⟨⟨rfl, rfl, rfl, rfl, rfl, fun _ _ => rfl, fun _ hq => absurd hq (Nat.not_lt_zero _),
      fun _ _ => rfl, rfl⟩, Nat.le_refl _, rfl, rfl, rfl, rfl⟩
  exact (transparent_iff onTheWay_fresh onTheWay_stale hsame rfl).mpr (Or.inr (Or.inl ⟨rfl, rfl⟩))

/-- The used host alters the timestamp echo of a segment. -/
theorem not_transparent : ¬ ∀ (E : Env) (h h' : Host) (arriving leaving : ControlPacket),
    OnTheWay E h arriving leaving → OnTheWay E h' arriving leaving → SameLive h h' →
    h'.brk = h.brk → Transparent E h h' arriving leaving := by
  intro hall
  have htrans := hall default usedHost usedHost _ _ onTheWay_used onTheWay_used
    (SameLive.refl usedHost) rfl [stampedSegment (forwardLane default usedHost
      (stampedSyn 0x0100000a#32 0x0200000a#32) (stampedSyn 0x0200000a#32 0x0300000a#32)).sub]
    (fun s hs => Or.inl (by rw [List.mem_singleton.mp hs]; exact segmentOf_stampedSegment _))
  refine altered_of_delta onTheWay_used ?_ ?_ ?_ htrans.1
  · decide
  · decide +kernel
  · decide +kernel

end Dysco
