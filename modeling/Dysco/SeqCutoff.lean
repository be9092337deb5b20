import Dysco.PendingTables

/-! # The sequence number cutoff

A block's `seq_cutoff` is to be the highest sequence number sent on its path, so that a
reconfiguration knows which bytes belong to the old path.  While there is one path,
`dysco_output` moves it forward with every new segment (`run_highWater`), from where it stood
when the session was opened.  The routes that make a block let it start from the initial
sequence number, except for the pending block of a middlebox, whose cutoff is still the
zero of zeroed memory (`highWaterKept_iff`).

Once there are two paths, a segment is sent on the old one if it *ends* before the
cutoff, which sends the last segment in front of the cutoff on the new one
(`outTranslate_path_iff`).
-/
namespace Dysco
open SerialNumber

variable {E : Env}

/-! ## The fields that the record depends on -/

/-- The session of a block, its cutoff and its other path. -/
def CbOut.mark (d : CbOut) : TcpSession × U32 × Option Nat := (d.super, d.seqCutoff, d.otherPath)

theorem mark_parseTcpSynOptS (skb : SkBuff) (d : CbOut) :
    (parseTcpSynOptS skb d).mark = d.mark := by
  rw [parseTcpSynOptS_eq]
  rfl

theorem mark_arp (tos : U8) (d : CbOut) : (arp E tos d).mark = d.mark := rfl

/-- The node at the head of its bucket is the one found. -/
theorem lookupOut_of_head {h : Host} {p : Nat} {ss : TcpSession} {es : List (Nat × Nat)}
    (hout : h.hashOut = ⟨(E.sessionHash ss, p) :: es⟩) (hp : (h.outMem p).super = ss) :
    h.lookupOut E ss = some p := by
  have hans : BucketTable.answers E.sessionHash (fun p => (h.outMem p).super) ss
      (E.sessionHash ss, p) = true := BucketTable.answers_iff.mpr ⟨rfl, hp⟩
  rw [Host.lookupOut, BucketTable.lookup, hout, List.find?_cons_of_pos hans]
  rfl

/-- Putting a block into the output table leaves its record alone. -/
theorem insertCbOut_mark (h : Host) (p : Nat) (twoPaths : Bool) :
    ((insertCbOut E h p twoPaths).outMem p).mark = (h.outMem p).mark ∧
      (insertCbOut E h p twoPaths).hashOut =
        ⟨(E.sessionHash (h.outMem p).super, p) :: h.hashOut.entries⟩ := by
  rw [insertCbOut, insertCbOutReverse]
  cases hk : (h.insertOut E p).kzallocIn with
  | mk o h1 =>
    cases o with
    | none =>
      rw [Host.kzallocIn] at hk
      split at hk <;> cases hk
      exact ⟨by rw [Host.setOut_outMem_self]; rfl, rfl⟩
    | some q =>
      obtain ⟨rfl, rfl⟩ := Host.kzallocIn_some hk
      refine ⟨?_, rfl⟩
      simp only [Host.setOut_outMem_self, Host.insertIn_outMem]
      rfl

/-- A pending block that is emitted keeps its record and is found under its session. -/
theorem outHandleMb_mark (h : Host) (skb : SkBuff) (p : Nat) :
    ((outHandleMb E h skb p).1.outMem p).mark = (h.outMem p).mark ∧
      (outHandleMb E h skb p).1.lookupOut E (h.outMem p).super = some p := by
  rw [outHandleMb]
  simp only
  generalize hdcb : parseTcpSynOptS skb _ = dcb
  have hmark : dcb.mark = (h.outMem p).mark := by
    rw [← hdcb, mark_parseTcpSynOptS]
    split <;> rfl
  have hsuper : dcb.super = (h.outMem p).super := congrArg Prod.fst hmark
  generalize (((h.removePen E p).removeTag E p).allocateLocalPort).2 = g
  obtain ⟨hkept, hout⟩ := insertCbOut_mark (E := E) (g.setOut p dcb) p false
  rw [Host.setOut_outMem_self] at hkept hout
  rw [hsuper] at hout
  refine ⟨hkept.trans hmark, lookupOut_of_head hout ?_⟩
  exact congrArg Prod.fst (hkept.trans hmark)

/-- A SYN of a session with a block starts the cutoff at its sequence number. -/
theorem outSynWith_mark (h : Host) (skb : SkBuff) (p : Nat) :
    ((outSynWith E h skb p).1.outMem p).mark =
        ((h.outMem p).super, ntohl skb.seq, (h.outMem p).otherPath) ∧
      (∀ x, x ≠ p → (outSynWith E h skb p).1.outMem x = h.outMem x) ∧
      (outSynWith E h skb p).1.hashOut = h.hashOut := by
  rw [outSynWith]
  simp only
  generalize hdcb : parseTcpSynOptS skb _ = dcb
  have hmark : dcb.mark = ((h.outMem p).super, ntohl skb.seq, (h.outMem p).otherPath) := by
    rw [← hdcb, mark_parseTcpSynOptS]
    rfl
  split
  · split
    · refine ⟨by rw [Host.setOut_outMem_self, hmark], fun x hx => ?_, rfl⟩
      exact Host.setOut_outMem_of_ne h hx _
    · refine ⟨?_, fun x hx => ?_, rfl⟩
      · rw [Host.setIn_outMem, Host.setOut_outMem_self, ← hmark]
        rfl
      · simp only [Host.setIn_outMem, Host.setOut_outMem_of_ne _ hx]
  · refine ⟨?_, fun x hx => ?_, rfl⟩
    · simp only [Host.setOut_outMem_self]
      split
      · rw [mark_arp, hmark]
      · exact hmark
    · simp only [Host.setOut_outMem_of_ne _ hx]

/-! ## One path: the record is the high-water mark -/

/-- What the routes have in common: the packet is a TCP packet over IPv4. -/
structure SkBuff.IsTcp (skb : SkBuff) : Prop where
  ip : ntohs skb.hProto = ethPIp
  tcp : skb.protocol = ipprotoTcp

/-- A segment of session `ss` that is not a SYN and begins at position `a` of the stream whose
initial sequence number is `iss`. -/
structure SegmentAt (ss : TcpSession) (iss : U32) (a : Nat) (skb : SkBuff) : Prop
    extends skb.IsTcp where
  session : skb.session = ss
  notSyn : skb.hasSyn = false
  seq : ntohl skb.seq = pos iss a

/-- The highest end of a data segment, starting from position `m`. -/
def highWater (m : Nat) (a : Nat) (skb : SkBuff) : Nat :=
  if 0#16 < skb.segSz then max m (a + skb.segSz.toNat) else m

/-- The segments of a run, each within half the number space of the highest end before it. -/
inductive SegmentRun (ss : TcpSession) (iss : U32) : Nat → List SkBuff → Nat → Prop
  | nil (m : Nat) : SegmentRun ss iss m [] m
  | cons {m m' a : Nat} {skb : SkBuff} {run : List SkBuff} (hseg : SegmentAt ss iss a skb)
      (hahead : a + skb.segSz.toNat < m + 2 ^ 31) (hbehind : m < a + skb.segSz.toNat + 2 ^ 31)
      (hrun : SegmentRun ss iss (highWater m a skb) run m') : SegmentRun ss iss m (skb :: run) m'

/-- The host once a run of packets has left it. -/
def outputs (E : Env) (h : Host) (run : List SkBuff) : Host :=
  run.foldl (fun h skb => (output E h skb).1) h

/-- The session has the output block `p`, whose cutoff is position `m`, and one path. -/
structure Marked (E : Env) (h : Host) (ss : TcpSession) (iss : U32) (p m : Nat) : Prop where
  found : h.lookupOut E ss = some p
  onePath : (h.outMem p).otherPath = none
  cutoff : (h.outMem p).seqCutoff = pos iss m

/-- Throttling changes neither where a segment begins nor where it ends. -/
theorem endSeq_fixRcvWindow (skb : SkBuff) (my other : TcpSock) :
    (fixRcvWindow skb my other).endSeq = skb.endSeq ∧
      (fixRcvWindow skb my other).segSz = skb.segSz := by
  rw [fixRcvWindow]
  split
  · exact ⟨rfl, rfl⟩
  · exact ⟨rfl, rfl⟩

/-- What `dysco_out_translate` does to the host while there is one path. -/
theorem outTranslate_onePath {h : Host} {p : Nat} (hone : (h.outMem p).otherPath = none)
    (skb : SkBuff) : (outTranslate E h skb p).1 =
      if 0#16 < skb.segSz ∧ after skb.endSeq (h.outMem p).seqCutoff then
        h.setOut p ((h.outMem p).withSeqCutoff skb.endSeq)
      else h := by
  rw [outTranslate]
  simp only [hone]

/-- **What a segment does to the host while there is one path.** -/
theorem output_onePath {h : Host} {p : Nat} {skb : SkBuff} (htcp : skb.IsTcp)
    (hsyn : skb.hasSyn = false) (hp : h.lookupOut E skb.session = some p)
    (hone : (h.outMem p).otherPath = none) : (output E h skb).1 =
      if 0#16 < skb.segSz ∧ after skb.endSeq (h.outMem p).seqCutoff then
        h.setOut p ((h.outMem p).withSeqCutoff skb.endSeq)
      else h := by
  rw [output_unfold, if_neg (not_not_intro htcp.ip), if_neg (not_not_intro htcp.tcp), hp]
  simp only [outputWith, hsyn, Bool.false_eq_true, if_false]
  rw [outTranslate_onePath hone]
  split
  · split
    · rw [(endSeq_fixRcvWindow _ _ _).1, (endSeq_fixRcvWindow _ _ _).2]
    · rfl
  · rfl

/-- The number behind a segment. -/
theorem SegmentAt.endSeq {ss : TcpSession} {iss : U32} {a : Nat} {skb : SkBuff}
    (h : SegmentAt ss iss a skb) : skb.endSeq = pos iss (a + skb.segSz.toNat) := by
  have hlen : BitVec.ofNat 32 skb.segSz.toNat = skb.segSz.setWidth 32 := by
    apply BitVec.eq_of_toNat_eq
    rw [BitVec.toNat_ofNat, BitVec.toNat_setWidth]
  rw [SkBuff.endSeq, h.seq, pos_add, hlen]

/-- **One segment moves the record to the new high-water mark.** -/
theorem Marked.step {h : Host} {ss : TcpSession} {iss : U32} {p m a : Nat} {skb : SkBuff}
    (hm : Marked E h ss iss p m) (hseg : SegmentAt ss iss a skb)
    (hahead : a + skb.segSz.toNat < m + 2 ^ 31) (hbehind : m < a + skb.segSz.toNat + 2 ^ 31) :
    Marked E (output E h skb).1 ss iss p (highWater m a skb) := by
  have hafter : after skb.endSeq (h.outMem p).seqCutoff = decide (m < a + skb.segSz.toNat) := by
    rw [hseg.endSeq, hm.cutoff]
    exact after_pos (by decide) iss hahead hbehind
  have hp : h.lookupOut E skb.session = some p := by rw [hseg.session, hm.found]
  rw [output_onePath hseg.toIsTcp hseg.notSyn hp hm.onePath, hafter, highWater]
  by_cases hdata : 0#16 < skb.segSz
  · by_cases hnew : m < a + skb.segSz.toNat
    · rw [if_pos ⟨hdata, decide_eq_true hnew⟩, if_pos hdata, Nat.max_eq_right (Nat.le_of_lt hnew)]
      refine ⟨?_, ?_, ?_⟩
      · rw [Host.lookupOut_setOut h (d := (h.outMem p).withSeqCutoff skb.endSeq) fun _ => rfl]
        exact hm.found
      · rw [Host.setOut_outMem_self]
        exact hm.onePath
      · rw [Host.setOut_outMem_self]
        exact hseg.endSeq
    · rw [if_neg fun hc => hnew (of_decide_eq_true hc.2), if_pos hdata,
        Nat.max_eq_left (Nat.le_of_not_lt hnew)]
      exact hm
  · rw [if_neg fun hc => hdata hc.1, if_neg hdata]
    exact hm

/-- **A run moves the record to the high-water mark of the run.** -/
theorem Marked.run {h : Host} {ss : TcpSession} {iss : U32} {p m m' : Nat} {run : List SkBuff}
    (hrun : SegmentRun ss iss m run m') (hm : Marked E h ss iss p m) :
    Marked E (outputs E h run) ss iss p m' := by
  induction hrun generalizing h with
  | nil m => exact hm
  | cons hseg hahead hbehind _ ih => exact ih (hm.step hseg hahead hbehind)

/-! ## Where the record starts -/

/-- The SYN or SYN+ACK opens its session with the output block `p`: the route that makes
the block, or finds it. -/
inductive Opens (E : Env) (h : Host) (skb : SkBuff) (p : Nat) : Prop
  /-- A policy takes the SYN. -/
  | policy {h' h1 : Host} {sc : Nat} (hout : h.lookupOut E skb.session = none)
      (hpen : h.lookupPen E skb.session = none) (htag : lookupPenTag E h skb = (none, h'))
      (hpolicy : matchPolicy h' skb = some sc) (hmade : createCbOut E h' skb sc = (some p, h1))
  /-- The session has a block already: the reverse block of a SYN that arrived. -/
  | reverse (hout : h.lookupOut E skb.session = some p)
      (hone : (h.outMem p).otherPath = none)
  /-- A pending block is activated. -/
  | pending (hout : h.lookupOut E skb.session = none) (hpen : h.lookupPen E skb.session = some p)
      (hone : (h.outMem p).otherPath = none)
  /-- A pending block is activated by its tag. -/
  | tagged {h' : Host} (hout : h.lookupOut E skb.session = none)
      (hpen : h.lookupPen E skb.session = none) (htag : lookupPenTag E h skb = (some p, h'))
      (hone : (h.outMem p).otherPath = none)

/-- The SYN activates a pending block: the session has no output block, and `p` is found in
a pending table. -/
def Activates (E : Env) (h : Host) (skb : SkBuff) (p : Nat) : Prop :=
  h.lookupOut E skb.session = none ∧
    (h.lookupPen E skb.session = some p ∨
      h.lookupPen E skb.session = none ∧ (lookupPenTag E h skb).1 = some p)

/-- A block that the policy route made. -/
theorem createCbOut_mark {h h1 : Host} {skb : SkBuff} {sc p : Nat}
    (hmade : createCbOut E h skb sc = (some p, h1)) :
    (h1.outMem p).super = skb.session ∧ (h1.outMem p).otherPath = none := by
  rw [createCbOut] at hmade
  split at hmade
  · cases hmade
  · rename_i q h2 hk
    obtain ⟨rfl, rfl⟩ := Host.kzallocOut_some hk
    simp only at hmade
    split at hmade
    · cases hmade
    · cases hmade
      rw [Host.setOut_outMem_self, Host.setOut_outMem_self]
      exact ⟨rfl, rfl⟩

/-- The lookup by tag fills in options, nothing that the record depends on. -/
theorem lookupPenTag_mark {h h' : Host} {skb : SkBuff} {p : Nat}
    (htag : lookupPenTag E h skb = (some p, h')) : (h'.outMem p).mark = (h.outMem p).mark := by
  rw [lookupPenTag, lookupPenTagBy] at htag
  simp only at htag
  split at htag
  · split at htag
    · cases htag
    · cases htag
      rw [Host.setOut_outMem_self]
      rfl
  · cases htag

/-- **The block once its session is open**: its cutoff is the SYN's number, or what a pending
block had. -/
theorem Opens.marked {h : Host} {skb : SkBuff} {p : Nat} (htcp : skb.IsTcp)
    (hsyn : skb.hasSyn = true) (ho : Opens E h skb p) :
    (output E h skb).1.lookupOut E skb.session = some p ∧
      ((output E h skb).1.outMem p).otherPath = none ∧
      (Activates E h skb p → ((output E h skb).1.outMem p).seqCutoff = (h.outMem p).seqCutoff) ∧
      (¬ Activates E h skb p → ((output E h skb).1.outMem p).seqCutoff = ntohl skb.seq) := by
  rw [output_unfold, if_neg (not_not_intro htcp.ip), if_neg (not_not_intro htcp.tcp)]
  cases ho with
  | @policy h' h1 sc hout hpen htag hpolicy hmade =>
    have hnot : ¬ Activates E h skb p := by
      rintro ⟨-, hfound | ⟨-, hfound⟩⟩
      · rw [hpen] at hfound
        cases hfound
      · rw [htag] at hfound
        cases hfound
    simp only [hout, hpen, htag, hsyn, if_true, outSyn, hpolicy, hmade]
    obtain ⟨hsuper, hone⟩ := createCbOut_mark hmade
    obtain ⟨hkept, hhead⟩ := insertCbOut_mark (E := E) h1 p false
    obtain ⟨hmark, -, hsame⟩ := outSynWith_mark (E := E) (insertCbOut E h1 p false) skb p
    have hsuper' : ((insertCbOut E h1 p false).outMem p).super = skb.session :=
      (congrArg Prod.fst hkept).trans hsuper
    have hone' : ((insertCbOut E h1 p false).outMem p).otherPath = none :=
      (congrArg (fun m => m.2.2) hkept).trans hone
    rw [hsuper] at hhead
    refine ⟨lookupOut_of_head (hsame.trans hhead) ((congrArg Prod.fst hmark).trans hsuper'),
      (congrArg (fun m => m.2.2) hmark).trans hone', fun ha => absurd ha hnot,
      fun _ => congrArg (fun m => m.2.1) hmark⟩
  | reverse hout hone =>
    have hnot : ¬ Activates E h skb p := by
      rintro ⟨hnone, -⟩
      rw [hout] at hnone
      cases hnone
    simp only [hout, outputWith, hsyn, if_true, outSyn]
    obtain ⟨hmark, hother, hsame⟩ := outSynWith_mark (E := E) h skb p
    refine ⟨?_, (congrArg (fun m => m.2.2) hmark).trans hone, fun ha => absurd ha hnot,
      fun _ => congrArg (fun m => m.2.1) hmark⟩
    have hkeys : ∀ x, ((outSynWith E h skb p).1.outMem x).super = (h.outMem x).super := by
      intro x
      by_cases hx : x = p
      · rw [hx]
        exact congrArg Prod.fst hmark
      · rw [hother x hx]
    rw [Host.lookupOut, hsame, BucketTable.lookup_congr fun x _ => hkeys x]
    exact hout
  | pending hout hpen hone =>
    have hact : Activates E h skb p := ⟨hout, Or.inl hpen⟩
    simp only [hout, hpen]
    have hsuper : (h.outMem p).super = skb.session := (BucketTable.lookup_eq_some hpen).2
    obtain ⟨hmark, hfound⟩ := outHandleMb_mark (E := E) h skb p
    rw [hsuper] at hfound
    exact ⟨hfound, (congrArg (fun m => m.2.2) hmark).trans hone,
      fun _ => congrArg (fun m => m.2.1) hmark, fun hnot => absurd hact hnot⟩
  | @tagged h' hout hpen htag hone =>
    have hact : Activates E h skb p := ⟨hout, Or.inr ⟨hpen, by rw [htag]⟩⟩
    simp only [hout, hpen, htag]
    have hkept := lookupPenTag_mark htag
    obtain ⟨hmark, hfound⟩ := outHandleMb_mark (E := E) (updateFiveTuple h' skb p) skb p
    have hblock : ((updateFiveTuple h' skb p).outMem p) =
        { h'.outMem p with super := skb.session } := Host.setOut_outMem_self ..
    rw [hblock] at hmark hfound
    exact ⟨hfound, (congrArg (fun m => m.2.2) (hmark.trans rfl)).trans
        ((congrArg (fun m => m.2.2) hkept).trans hone),
      fun _ => (congrArg (fun m => m.2.1) hmark).trans (congrArg (fun m => m.2.1) hkept),
      fun hnot => absurd hact hnot⟩

/-- Whatever is sent of a session that the SYN opened, the cutoff of its block is the highest
number sent, or the initial sequence number. -/
def HighWaterKept (E : Env) (h : Host) (syn : SkBuff) (p : Nat) : Prop :=
  ∀ run m, SegmentRun syn.session (ntohl syn.seq) 0 run m →
    ((outputs E (output E h syn).1 run).outMem p).seqCutoff = pos (ntohl syn.seq) m

/-- **The cutoff is the high-water mark exactly when** the block was not activated from a pending
table, or the SYN's number is what the pending block had for a cutoff. -/
theorem highWaterKept_iff {h : Host} {syn : SkBuff} {p : Nat} (htcp : syn.IsTcp)
    (hsyn : syn.hasSyn = true) (ho : Opens E h syn p) :
    HighWaterKept E h syn p ↔
      ¬ Activates E h syn p ∨ (h.outMem p).seqCutoff = ntohl syn.seq := by
  obtain ⟨hfound, hone, hpending, hother⟩ := ho.marked htcp hsyn
  constructor
  · intro hkept
    have hstart := hkept [] 0 (SegmentRun.nil 0)
    rw [pos_zero, outputs, List.foldl_nil] at hstart
    by_cases ha : Activates E h syn p
    · exact Or.inr ((hpending ha).symm.trans hstart)
    · exact Or.inl ha
  · intro hcond run m hrun
    have hstart : ((output E h syn).1.outMem p).seqCutoff = ntohl syn.seq := by
      by_cases ha : Activates E h syn p
      · exact (hpending ha).trans (hcond.resolve_left (not_not_intro ha))
      · exact hother ha
    have hm : Marked E (output E h syn).1 syn.session (ntohl syn.seq) p 0 :=
      ⟨hfound, hone, by rw [hstart, pos_zero]⟩
    exact (hm.run hrun).cutoff

/-- A SYN with number `seq` that carries a session and a chain of two hops. -/
def chainedSyn (seq : U32) : SkBuff :=
  { (default : SkBuff) with
    hProto := htons ethPIp
    protocol := ipprotoTcp
    flags := tcphdrSyn
    doff := 5#4
    seq := htonl seq
    totLen := htons 64#16
    data := 1#8 :: List.replicate 11 0#8 ++
      [2#8, 0#8, 0#8, 0#8, 10#8, 0#8, 0#8, 1#8, 10#8, 0#8, 0#8, 2#8]
    tailroom := 100 }

/-- A middlebox that a SYN with number `seq` has entered, and the SYN as it entered. -/
def chainedHost (seq : U32) : Host := (input default Host.fresh (chainedSyn seq)).1
def enteredSyn (seq : U32) : SkBuff := (input default Host.fresh (chainedSyn seq)).2.1

theorem highWaterKept_zero : HighWaterKept default (chainedHost 0#32) (enteredSyn 0#32) 2 := by
  refine (highWaterKept_iff ⟨by decide +kernel, by decide +kernel⟩ (by decide +kernel)
    (Opens.pending ?_ ?_ ?_)).mpr (Or.inr ?_)
  · decide +kernel
  · decide +kernel
  · decide +kernel
  · decide +kernel

/-- A SYN with number one leaves the middlebox, and the cutoff is zero. -/
theorem not_highWaterKept : ¬ ∀ (E : Env) (h : Host) (syn : SkBuff) (p : Nat), syn.IsTcp →
    syn.hasSyn = true → Opens E h syn p → HighWaterKept E h syn p := by
  intro hall
  have hopens : Opens default (chainedHost 1#32) (enteredSyn 1#32) 2 :=
    Opens.pending (by decide +kernel) (by decide +kernel) (by decide +kernel)
  have hkept := hall default (chainedHost 1#32) (enteredSyn 1#32) 2
    ⟨by decide +kernel, by decide +kernel⟩ (by decide +kernel) hopens [] 0 (SegmentRun.nil 0)
  revert hkept
  decide +kernel

/-! ## Two paths: which segments stay on the old one -/

/-- Block `p` of an old path with the new path's block `other`, once both anchors know of the
new path, its cutoff at position `cut`; and a data segment that begins at position `s`, less than
half the number space away. -/
structure OldPathSegment (h : Host) (skb : SkBuff) (p other : Nat) (iss : U32) (s cut : Nat) :
    Prop where
  otherPath : (h.outMem p).otherPath = some other
  ne : other ≠ p
  stateT : (h.outMem p).stateT = false
  useNpSeq : (h.outMem p).useNpSeq = false
  state : (h.outMem p).state = .established ∨ (h.outMem p).state = .synReceived
  seqCutoff : (h.outMem p).seqCutoff = pos iss cut
  seq : ntohl skb.seq = pos iss s
  data : 0#16 < skb.segSz
  behind : cut ≤ s + 2 ^ 31
  ahead : s + skb.segSz.toNat < cut + 2 ^ 31

/-- A segment in front of the cutoff is sent on the old path, and a segment behind it on the
new one. -/
def SplitAtCutoff (E : Env) (h : Host) (skb : SkBuff) (p other s cut : Nat) : Prop :=
  (s + skb.segSz.toNat ≤ cut → (outTranslate E h skb p).2.2 = p) ∧
    (cut ≤ s → (outTranslate E h skb p).2.2 = other)

variable {h : Host} {skb : SkBuff} {p other s cut : Nat} {iss : U32}

/-- The path is chosen by where the segment ends. -/
theorem OldPathSegment.path (ho : OldPathSegment h skb p other iss s cut) :
    (outTranslate E h skb p).2.2 = if s + skb.segSz.toNat < cut then p else other := by
  have hlen : BitVec.ofNat 32 skb.segSz.toNat = skb.segSz.setWidth 32 := by
    apply BitVec.eq_of_toNat_eq
    rw [BitVec.toNat_ofNat, BitVec.toNat_setWidth]
  have hend : skb.endSeq = pos iss (s + skb.segSz.toNat) := by
    rw [SkBuff.endSeq, ho.seq, pos_add, hlen]
  have hpos : cut < s + skb.segSz.toNat + 2 ^ 31 := by
    have hdata := ho.data
    have := ho.behind
    rw [BitVec.lt_def, BitVec.toNat_ofNat] at hdata
    omega
  have hbefore : before skb.endSeq (h.outMem p).seqCutoff =
      decide (s + skb.segSz.toNat < cut) := by
    rw [hend, ho.seqCutoff]
    exact before_pos (by decide) iss ho.ahead hpos
  have hpick : pickPathSeq (h.outMem p) p other skb.endSeq =
      if s + skb.segSz.toNat < cut then p else other := by
    rw [pickPathSeq, hbefore]
    simp only [ho.stateT, ho.useNpSeq, Bool.false_eq_true, if_false]
    by_cases hlt : s + skb.segSz.toNat < cut
    · simp [hlt]
    · simp [hlt]
  rw [outTranslate]
  simp only [ho.otherPath]
  rcases ho.state with hst | hst
  · simp only [pickPath, hst, ho.data, if_true, hpick]
  · simp only [pickPath, hst, ho.data, if_true, hpick]

/-- **The cutoff splits the segments exactly when** none ends at it. -/
theorem splitAtCutoff_iff (ho : OldPathSegment h skb p other iss s cut) :
    SplitAtCutoff E h skb p other s cut ↔ s + skb.segSz.toNat ≠ cut := by
  have hpath := ho.path (E := E)
  constructor
  · rintro ⟨hold, -⟩ heq
    rw [if_neg (Nat.not_lt_of_ge (Nat.le_of_eq heq.symm)), hold (Nat.le_of_eq heq)] at hpath
    exact ho.ne hpath.symm
  · intro hends
    refine ⟨fun hle => ?_, fun hge => ?_⟩
    · rw [hpath, if_pos (Nat.lt_of_le_of_ne hle hends)]
    · rw [hpath, if_neg (by omega)]

/-- An old path at address 0 whose cutoff is 100, and a new path at address 1. -/
def cutoffHost : Host :=
  { Host.fresh with
    outMem := Function.update default 0
      { (default : CbOut) with
        otherPath := some 1, oldPath := true, state := .established, seqCutoff := 100#32 } }

/-- A segment of `len` bytes with number `seq`. -/
def dataSegment (seq : U32) (len : U16) : SkBuff :=
  { (default : SkBuff) with seq := htonl seq, doff := 5#4, totLen := htons (40#16 + len) }

theorem splitAtCutoff_ninety :
    SplitAtCutoff default cutoffHost (dataSegment 90#32 5#16) 0 1 90 100 := by
  have ho : OldPathSegment cutoffHost (dataSegment 90#32 5#16) 0 1 0#32 90 100 :=
    ⟨rfl, Nat.one_ne_zero, rfl, rfl, Or.inl rfl, by decide, by decide, by decide, by decide,
      by decide⟩
  exact (splitAtCutoff_iff ho).mpr (by decide)

/-- The last ten bytes in front of the cutoff are sent on the new path. -/
theorem not_splitAtCutoff : ¬ ∀ (E : Env) (h : Host) (skb : SkBuff) (p other : Nat) (iss : U32)
    (s cut : Nat), OldPathSegment h skb p other iss s cut →
      SplitAtCutoff E h skb p other s cut := by
  intro hall
  have hsplit := hall default cutoffHost (dataSegment 90#32 10#16) 0 1 0#32 90 100
    ⟨rfl, Nat.one_ne_zero, rfl, rfl, Or.inl rfl, by decide, by decide, by decide, by decide,
      by decide⟩
  have hpath := hsplit.1 (by decide)
  revert hpath
  decide +kernel

end Dysco
