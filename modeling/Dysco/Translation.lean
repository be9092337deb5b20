import Dysco.SackEdges
import Dysco.RightAnchor

/-! # The translation at the right anchor

After a reconfiguration the left session's numbers travel on the new path and the
right anchor translates between them and the numbers of its own, old session.  Its
new output block translates what leaves, its new input block what arrives, each by a
delta and a sign obtained from an unsigned comparison.

Every such pair is a translation by a difference modulo `2 ^ 32` (`shift_distance`),
on either side of the comparison and when the delta is zero and the rewriting is
skipped.  The two blocks take their differences from the same numbers, so each undoes
the other (`rightA_coherent`); for timestamps this rests on what the SYN and SYN+ACK
of the old session put into its two blocks (`Filled.paired`).
-/
namespace Dysco
open OnesComplement ByteOrder

variable {E : Env}

/-! ## Deltas -/

/-- **A delta with its sign is a difference.** -/
theorem shift_distance (a b x : U32) : shift (distance a b) (decide (a < b)) x = x + (b - a) := by
  unfold shift distance
  by_cases h : a < b
  · simp [h]
  · simp only [h, decide_false, if_false, Bool.false_eq_true]
    ring

/-- The cutoff translation written out at its uses is a difference as well. -/
theorem cutoffOfSeq_eq (newOut : CbOut) (s : U32) :
    newOut.cutoffOfSeq s = s + (newOut.inIack - newOut.outIack) := by
  unfold CbOut.cutoffOfSeq
  split
  · ring
  · rfl

/-! ## What the rewriting functions do to the numbers -/

theorem rewriteSeq_seq (skb : SkBuff) (delta : U32) (add : Bool) :
    (rewriteSeq skb delta add).seq = htonl (shift delta add (ntohl skb.seq)) := by
  unfold rewriteSeq
  split
  · rename_i h0
    rw [h0, shift_zero, htonl_ntohl]
  · rfl

theorem rewriteAck_ackSeq (skb : SkBuff) (delta : U32) (add sackOk : Bool) :
    (rewriteAck skb delta add sackOk).ackSeq = htonl (shift delta add (ntohl skb.ackSeq)) := by
  unfold rewriteAck
  split
  · rename_i h0
    rw [h0, shift_zero, htonl_ntohl]
  · rfl

/-- Every SACK edge goes through the same map as the acknowledgment number. -/
theorem rewriteAck_sackEdge {skb : SkBuff} (hlen : skb.optLen ≤ skb.data.length) {k : Nat}
    (hk : k ∈ skb.sackEdges) (delta : U32) (add : Bool) :
    load32 (rewriteAck skb delta add true).data k =
      htonl (shift delta add (ntohl (load32 skb.data k))) := by
  unfold rewriteAck
  split
  · rename_i h0
    rw [h0, shift_zero, htonl_ntohl]
  · have hdata : (dyscoInetProtoCsumReplace4 (tcpSack skb delta add)
        (tcpSack skb delta add).ackSeq (htonl (shift delta add (ntohl skb.ackSeq))) false).data =
        (tcpSack skb delta add).data := rfl
    simp only [if_true, hdata]
    rw [tcpSack_eq, SkBuff.load32_replaceWords skb.apart_sackEdges ?_ _ hk, SkBuff.newWord]
    intro k' hk'
    have := (SkBuff.mem_sackEdges hk').2
    omega

/-- Both halves of the timestamp option are shifted, each by its own delta. -/
theorem rewriteTs_load {skb : SkBuff} (hlen : skb.optLen ≤ skb.data.length) {ts : Nat}
    (h : getTsOption skb = some ts) (tsDelta : U32) (tsAdd : Bool) (tsrDelta : U32)
    (tsrAdd : Bool) :
    load32 (rewriteTs skb tsDelta tsAdd tsrDelta tsrAdd).data ts =
        htonl (shift tsDelta tsAdd (ntohl (load32 skb.data ts))) ∧
      load32 (rewriteTs skb tsDelta tsAdd tsrDelta tsrAdd).data (ts + 4) =
        htonl (shift tsrDelta tsrAdd (ntohl (load32 skb.data (ts + 4)))) := by
  have hin := getTsOption_lt h
  -- replacing one half, or skipping it, shifts that half and leaves the other alone
  have hone : ∀ (s : SkBuff) (k i : Nat) (delta : U32) (add : Bool), k + 4 ≤ s.data.length →
      (i + 4 ≤ k ∨ k + 4 ≤ i) →
      let s' := if delta = 0#32 then s else s.replaceWord k (shift delta add)
      load32 s'.data k = htonl (shift delta add (ntohl (load32 s.data k))) ∧
        load32 s'.data i = load32 s.data i ∧ s'.data.length = s.data.length := by
    intro s k i delta add hk hi
    simp only
    split
    · rename_i h0
      rw [h0, shift_zero, htonl_ntohl]
      exact ⟨rfl, rfl, rfl⟩
    · exact ⟨SkBuff.load32_replaceWord_self hk _, SkBuff.load32_replaceWord_of_disjoint hi _,
        length_store32 _ _ _⟩
  unfold rewriteTs
  rw [h]
  simp only
  obtain ⟨hts, hother, hlen1⟩ := hone skb ts (ts + 4) tsDelta tsAdd (by omega) (by omega)
  generalize (if tsDelta = 0#32 then skb else skb.replaceWord ts (shift tsDelta tsAdd)) = s
    at hts hother hlen1 ⊢
  obtain ⟨htsr, hkeep, -⟩ := hone s (ts + 4) ts tsrDelta tsrAdd (by omega) (by omega)
  exact ⟨by rw [hkeep, hts], by rw [htsr, hother]⟩

/-! ## What the session setup leaves in the two blocks -/

/-- The input and the output block of a session, as SYN and SYN+ACK processing fills
them: blocks are made with zero timestamps or one from the other, a SYN+ACK that leaves
or arrives records its own, and what comes later leaves the timestamps alone. -/
inductive Filled : CbIn → CbOut → Prop
  | made {i : CbIn} {o : CbOut} (hi : i.tsIn = 0#32 ∧ i.tsOut = 0#32)
      (hir : i.tsrIn = 0#32 ∧ i.tsrOut = 0#32) (ho : o.tsIn = 0#32 ∧ o.tsOut = 0#32)
      (hor : o.tsrIn = 0#32 ∧ o.tsrOut = 0#32) : Filled i o
  | reverse {o : CbOut} (p : Nat) (twoPaths : Bool) (ho : o.tsIn = o.tsOut ∧ o.tsrIn = o.tsrOut) :
      Filled (o.reverseIn p twoPaths) o
  | synAckOut {i : CbIn} {o : CbOut} (skb : SkBuff) (h : Filled i o) :
      Filled (i.synAckOut ((parseTcpSynOptS skb o).synAckOut skb))
        ((parseTcpSynOptS skb o).synAckOut skb)
  | synAckIn {i : CbIn} {o : CbOut} (skb : SkBuff) (h : Filled i o) :
      Filled (parseTcpSynOptR skb (i.synAckIn skb))
        (o.synAckIn skb (parseTcpSynOptR skb (i.synAckIn skb)))
  | later {i i' : CbIn} {o o' : CbOut} (h : Filled i o)
      (hi : i'.tsIn = i.tsIn ∧ i'.tsOut = i.tsOut)
      (hir : i'.tsrIn = i.tsrIn ∧ i'.tsrOut = i.tsrOut)
      (ho : o'.tsIn = o.tsIn ∧ o'.tsOut = o.tsOut)
      (hor : o'.tsrIn = o.tsrIn ∧ o'.tsrOut = o.tsrOut) : Filled i' o'

/-- What a block knows about timestamps. -/
structure Stamps where
  ok : Bool
  tsIn : U32
  tsOut : U32
  tsrIn : U32
  tsrOut : U32

def CbIn.stamps (d : CbIn) : Stamps := ⟨d.tsOk, d.tsIn, d.tsOut, d.tsrIn, d.tsrOut⟩
def CbOut.stamps (d : CbOut) : Stamps := ⟨d.tsOk, d.tsIn, d.tsOut, d.tsrIn, d.tsrOut⟩

/-- Both sides of the block have the same timestamps. -/
def Stamps.Even (s : Stamps) : Prop := s.tsIn = s.tsOut ∧ s.tsrIn = s.tsrOut

/-- Recording timestamps: all of them at once, or none. -/
def Stamps.Records (s s' : Stamps) : Prop := s.Even → s'.Even ∧ (s'.ok = true ∨ s' = s)

theorem Stamps.Records.refl (s : Stamps) : s.Records s := fun h => ⟨h, Or.inr rfl⟩

theorem Stamps.Records.trans {s s' s'' : Stamps} (h : s.Records s') (h' : s'.Records s'') :
    s.Records s'' := by
  intro heven
  obtain ⟨heven', hs'⟩ := h heven
  obtain ⟨heven'', hs''⟩ := h' heven'
  refine ⟨heven'', ?_⟩
  rcases hs'' with hok | rfl
  · exact Or.inl hok
  · exact hs'

/-- An option records timestamps if it is a timestamp of a SYN+ACK; all others leave them. -/
theorem stamps_parseOptS (skb : SkBuff) (d : CbOut) (o : TcpOption) :
    (parseOptS skb d o).stamps = d.stamps ∨ ∃ ts tsr, (parseOptS skb d o).stamps =
      ⟨true, ts, ts, tsr, tsr⟩ := by
  unfold parseOptS
  generalize skb.be32 o.ptr = ts
  generalize skb.be32 (o.ptr + 4) = tsr
  generalize load32 skb.data o.ptr = tag
  repeat' split
  all_goals first
    | exact Or.inl rfl
    | exact Or.inr ⟨ts, tsr, rfl⟩

theorem stamps_parseOptR (skb : SkBuff) (d : CbIn) (o : TcpOption) :
    (parseOptR skb d o).stamps = d.stamps ∨ ∃ ts tsr, (parseOptR skb d o).stamps =
      ⟨true, ts, ts, tsr, tsr⟩ := by
  unfold parseOptR
  generalize skb.be32 o.ptr = ts
  generalize skb.be32 (o.ptr + 4) = tsr
  repeat' split
  all_goals first
    | exact Or.inl rfl
    | exact Or.inr ⟨ts, tsr, rfl⟩

/-- A loop whose rounds record timestamps or leave them records them. -/
theorem records_foldl {D : Type} {stamps : D → Stamps} {f : D → TcpOption → D}
    (hf : ∀ d o, stamps (f d o) = stamps d ∨ ∃ ts tsr, stamps (f d o) = ⟨true, ts, ts, tsr, tsr⟩)
    (os : List TcpOption) (d : D) : (stamps d).Records (stamps (os.foldl f d)) := by
  induction os generalizing d with
  | nil => exact Stamps.Records.refl _
  | cons o os ih =>
    refine Stamps.Records.trans ?_ (ih (f d o))
    rcases hf d o with heq | ⟨ts, tsr, heq⟩
    · rw [heq]
      exact Stamps.Records.refl _
    · rw [heq]
      exact fun _ => ⟨⟨rfl, rfl⟩, Or.inl rfl⟩

theorem records_parseTcpSynOptS (skb : SkBuff) (d : CbOut) :
    d.stamps.Records (parseTcpSynOptS skb d).stamps :=
  records_foldl (stamps_parseOptS skb) skb.options { d with sackOk := false }

theorem records_parseTcpSynOptR (skb : SkBuff) (d : CbIn) :
    d.stamps.Records (parseTcpSynOptR skb d).stamps :=
  records_foldl (stamps_parseOptR skb) skb.options { d with sackOk := false }

/-- The timestamps of the two blocks of a session are the same two numbers, seen from
either direction. -/
structure Paired (i o : Stamps) : Prop where
  even_in : i.Even
  even_out : o.Even
  ts : i.tsOut = o.tsrIn
  tsr : i.tsrOut = o.tsIn

/-- Blocks that record timestamps stay paired if, where one has recorded, the other is given
the same. -/
theorem paired_of_ok {i o i' o' : Stamps} (h : Paired i o) (heven : o'.Even)
    (hrec : o'.ok = true ∨ o' = o)
    (hi : i' = if o'.ok then ⟨true, o'.tsrOut, o'.tsrOut, o'.tsOut, o'.tsOut⟩
      else { i with ok := false }) : Paired i' o' := by
  by_cases hok : o'.ok = true
  · rw [if_pos hok] at hi
    subst hi
    exact ⟨⟨rfl, rfl⟩, heven, heven.2.symm, heven.1.symm⟩
  · rw [if_neg hok] at hi
    subst hi
    rw [hrec.resolve_left hok]
    exact ⟨h.even_in, h.even_out, h.ts, h.tsr⟩

@[simp] theorem CbOut.stamps_synAckOut (o : CbOut) (skb : SkBuff) :
    (o.synAckOut skb).stamps = o.stamps := rfl

@[simp] theorem CbIn.stamps_synAckIn (i : CbIn) (skb : SkBuff) :
    (i.synAckIn skb).stamps = i.stamps := rfl

theorem stamps_synAckOut (i : CbIn) (o : CbOut) : (i.synAckOut o).stamps =
    if o.stamps.ok then
      ⟨true, o.stamps.tsrOut, o.stamps.tsrOut, o.stamps.tsOut, o.stamps.tsOut⟩
    else { i.stamps with ok := false } := by
  unfold CbIn.synAckOut CbOut.stamps CbIn.stamps
  by_cases hok : o.tsOk = true <;> by_cases hs : o.sackOk = true <;> simp [hok, hs]

theorem stamps_synAckIn (o : CbOut) (skb : SkBuff) (i : CbIn) : (o.synAckIn skb i).stamps =
    if i.stamps.ok then ⟨true, i.stamps.tsrIn, i.stamps.tsrIn, i.stamps.tsIn, i.stamps.tsIn⟩
    else o.stamps := by
  unfold CbOut.synAckIn CbOut.stamps CbIn.stamps
  by_cases hok : i.tsOk = true <;> by_cases hs : i.sackOk = true <;> simp [hok, hs]

/-- **Session setup pairs the timestamps of the two blocks.** -/
theorem Filled.paired {i : CbIn} {o : CbOut} (h : Filled i o) : Paired i.stamps o.stamps := by
  induction h with
  | made hi hir ho hor =>
    exact ⟨⟨hi.1.trans hi.2.symm, hir.1.trans hir.2.symm⟩,
      ⟨ho.1.trans ho.2.symm, hor.1.trans hor.2.symm⟩, hi.2.trans hor.1.symm,
      hir.2.trans ho.1.symm⟩
  | reverse _ _ ho => exact ⟨⟨rfl, rfl⟩, ho, rfl, rfl⟩
  | @synAckOut i o skb _ ih =>
    obtain ⟨heven, hrec⟩ := records_parseTcpSynOptS skb o ih.even_out
    have hi := stamps_synAckOut i ((parseTcpSynOptS skb o).synAckOut skb)
    rw [CbOut.stamps_synAckOut] at hi ⊢
    exact paired_of_ok ih heven hrec hi
  | @synAckIn i o skb _ ih =>
    have hrec := records_parseTcpSynOptR skb (i.synAckIn skb)
    rw [CbIn.stamps_synAckIn] at hrec
    obtain ⟨heven, hrec⟩ := hrec ih.even_in
    have ho := stamps_synAckIn o skb (parseTcpSynOptR skb (i.synAckIn skb))
    by_cases hok : (parseTcpSynOptR skb (i.synAckIn skb)).stamps.ok = true
    · rw [if_pos hok] at ho
      rw [ho]
      exact ⟨heven, ⟨rfl, rfl⟩, heven.1.symm, heven.2.symm⟩
    · rw [if_neg hok] at ho
      rw [ho, hrec.resolve_left hok]
      exact ih
  | later _ hi hir ho hor ih =>
    exact ⟨⟨hi.1.trans (ih.even_in.1.trans hi.2.symm), hir.1.trans (ih.even_in.2.trans hir.2.symm)⟩,
      ⟨ho.1.trans (ih.even_out.1.trans ho.2.symm), hor.1.trans (ih.even_out.2.trans hor.2.symm)⟩,
      hi.2.trans (ih.ts.trans hor.1.symm), hir.2.trans (ih.tsr.trans ho.1.symm)⟩

/-- A pending block is made in new memory. -/
theorem insertPending_frame (h : Host) (sp : SynPacket) {x : Nat} (hx : x < h.brk) :
    (insertPending E h sp).2.outMem x = h.outMem x ∧ (insertPending E h sp).2.inMem = h.inMem := by
  have hne : x ≠ h.brk := by omega
  unfold insertPending
  split
  · rename_i h1 hk
    unfold Host.kzallocOut at hk
    split at hk <;> cases hk
    exact ⟨rfl, rfl⟩
  · rename_i p h1 hk
    obtain ⟨rfl, rfl⟩ := Host.kzallocOut_some hk
    simp only
    split
    · rename_i h2 hk2
      unfold Host.kmalloc at hk2
      split at hk2 <;> cases hk2
      simp [Host.kfree, hne]
    · rename_i s h2 hk2
      obtain ⟨rfl, rfl⟩ := Host.kmalloc_some hk2
      simp [Host.insertPen, Host.insertTag, Host.setSc, hne]

/-- Timestamps that were never recorded. -/
def Stamps.Zero (s : Stamps) : Prop := (s.tsIn = 0#32 ∧ s.tsOut = 0#32) ∧
  (s.tsrIn = 0#32 ∧ s.tsrOut = 0#32)

theorem insertCbInReverse_some {h h' : Host} {skb : SkBuff} {sp : SynPacket} {p : Nat}
    (hp : insertCbInReverse h skb sp = (some p, h')) :
    p = h.brk ∧ h'.brk = h.brk + 1 ∧ h'.inMem = h.inMem ∧ (h'.outMem p).stamps.Zero := by
  unfold insertCbInReverse at hp
  split at hp
  · cases hp
  · rename_i a h1 hk
    obtain ⟨rfl, h1_eq⟩ := Host.kzallocOut_some hk
    obtain ⟨hp, hh'⟩ := Prod.mk.inj hp
    cases hp
    have hnew : h1.outMem h.brk = default := by rw [h1_eq, Host.setOut_outMem_self]
    refine ⟨rfl, ?_, ?_, ?_⟩
    · rw [← hh', Host.setOut_brk, h1_eq, Host.setOut_brk, Host.bump_brk]
    · rw [← hh', Host.setOut_inMem, h1_eq, Host.setOut_inMem, Host.bump_inMem]
    · rw [← hh', Host.setOut_outMem_self, hnew]
      exact ⟨⟨rfl, rfl⟩, rfl, rfl⟩

/-- The blocks made for a SYN that arrives. -/
theorem insertCbInput_filled {h h' : Host} {skb : SkBuff} {sp : SynPacket} {q : Nat}
    (hq : insertCbInput E h skb sp = (some q, h')) :
    ∃ p, (h'.inMem q).dcbOut = some p ∧ Filled (h'.inMem q) (h'.outMem p) := by
  unfold insertCbInput at hq
  split at hq
  · cases hq
  rename_i a h1 hk
  obtain ⟨rfl, h1_eq⟩ := Host.kzallocIn_some hk
  have hnew : h1.inMem h.brk = default := by rw [h1_eq, Host.setIn_inMem_self]
  rw [hnew] at hq
  simp only at hq
  split at hq
  · cases hq
  rename_i p h2 hrev
  obtain ⟨hp, hbrk, hin, hout⟩ := insertCbInReverse_some hrev
  have hin2 : (h2.inMem h.brk).stamps.Zero := by
    rw [hin, Host.setIn_inMem_self]
    exact ⟨⟨rfl, rfl⟩, rfl, rfl⟩
  have hpend : (if 1 < sp.sc.hops.length then insertPending E h2 sp else (true, h2)).2.outMem p =
      h2.outMem p ∧
      (if 1 < sp.sc.hops.length then insertPending E h2 sp else (true, h2)).2.inMem =
        h2.inMem := by
    split
    · exact insertPending_frame h2 sp (by omega)
    · exact ⟨rfl, rfl⟩
  generalize (if 1 < sp.sc.hops.length then insertPending E h2 sp else (true, h2)) = r at hq hpend
  obtain ⟨hpout, hpin⟩ := hpend
  split at hq
  · obtain ⟨hq, hh'⟩ := Prod.mk.inj hq
    cases hq
    refine ⟨p, ?_, ?_⟩
    · rw [← hh']
      simp [CbIn.withDcbOut]
    · rw [← hh', Host.insertOut_inMem, Host.insertIn_inMem, Host.setOut_inMem,
        Host.setIn_inMem_self, Host.insertOut_outMem, Host.insertIn_outMem,
        Host.setOut_outMem_self, Host.setIn_outMem, hpin, hpout]
      exact .made hin2.1 hin2.2 hout.1 hout.2
  · cases hq

/-- The input block made from an output block. -/
theorem insertCbOutReverse_filled {h h' : Host} {p q : Nat} {twoPaths : Bool}
    (hq : insertCbOutReverse E h p twoPaths = (some q, h'))
    (ho : (h.outMem p).tsIn = (h.outMem p).tsOut ∧ (h.outMem p).tsrIn = (h.outMem p).tsrOut) :
    Filled (h'.inMem q) (h'.outMem p) := by
  unfold insertCbOutReverse at hq
  split at hq
  · cases hq
  rename_i a h1 hk
  obtain ⟨rfl, h1_eq⟩ := Host.kzallocIn_some hk
  obtain ⟨hq, hh'⟩ := Prod.mk.inj hq
  cases hq
  have hout : h1.outMem = h.outMem := by rw [h1_eq, Host.setIn_outMem, Host.bump_outMem]
  rw [← hh', Host.insertIn_inMem, Host.setOut_inMem, Host.setIn_inMem_self, Host.insertIn_outMem,
    Host.setOut_outMem_self, hout]
  exact .later (.reverse p twoPaths ho) ⟨rfl, rfl⟩ ⟨rfl, rfl⟩ ⟨rfl, rfl⟩ ⟨rfl, rfl⟩

/-- A SYN+ACK that leaves, once the session has both blocks. -/
theorem outSynWith_filled {h : Host} {skb : SkBuff} {p q : Nat} (hack : skb.hasAck = true)
    (hq : (h.setOut p (parseTcpSynOptS skb { h.outMem p with seqCutoff := ntohl skb.seq })).lookupIn
      E (parseTcpSynOptS skb { h.outMem p with seqCutoff := ntohl skb.seq }).sub.reverse = some q)
    (hfill : Filled (h.inMem q) (h.outMem p)) :
    Filled ((outSynWith E h skb p).1.inMem q) ((outSynWith E h skb p).1.outMem p) := by
  have hfill' : Filled (h.inMem q) { h.outMem p with seqCutoff := ntohl skb.seq } :=
    .later hfill ⟨rfl, rfl⟩ ⟨rfl, rfl⟩ ⟨rfl, rfl⟩ ⟨rfl, rfl⟩
  unfold outSynWith
  simp only [hack, if_true, hq, Host.setIn_inMem_self, Host.setIn_outMem,
    Host.setOut_outMem_self, Host.setOut_inMem]
  exact .synAckOut skb hfill'

/-- A SYN+ACK that arrives, once the session has both blocks. -/
theorem setAckNumberOut_filled {h : Host} {skb : SkBuff} {p q : Nat}
    (hp : h.lookupOut E (h.inMem q).super.reverse = some p)
    (hfill : Filled (h.inMem q) (h.outMem p)) :
    Filled ((setAckNumberOut E h skb q).inMem q) ((setAckNumberOut E h skb q).outMem p) := by
  have hp' : (h.setIn q ((h.inMem q).synAckIn skb)).lookupOut E
      ((h.inMem q).synAckIn skb).super.reverse = some p := hp
  unfold setAckNumberOut
  simp only [Host.setIn_inMem_self, hp', Host.setOut_inMem, Host.setOut_outMem_self,
    Host.setIn_outMem]
  exact .synAckIn skb hfill

/-- How the two blocks of a session are set up on a host: with the SYN that arrives or that leaves,
and with the SYN+ACK in the other direction. -/
inductive SetUp (E : Env) : Host → Nat → Nat → Prop where
  | synArrives {h h' : Host} {skb : SkBuff} {sp : SynPacket} {p q : Nat}
      (made : insertCbInput E h skb sp = (some q, h')) (out : (h'.inMem q).dcbOut = some p) :
      SetUp E h' q p
  | synLeaves {h h' : Host} {p q : Nat} {twoPaths : Bool}
      (made : insertCbOutReverse E h p twoPaths = (some q, h'))
      (even : (h.outMem p).tsIn = (h.outMem p).tsOut ∧ (h.outMem p).tsrIn = (h.outMem p).tsrOut) :
      SetUp E h' q p
  | synAckLeaves {h : Host} {skb : SkBuff} {p q : Nat} (before : SetUp E h q p)
      (ack : skb.hasAck = true)
      (found : (h.setOut p
        (parseTcpSynOptS skb { h.outMem p with seqCutoff := ntohl skb.seq })).lookupIn
        E (parseTcpSynOptS skb { h.outMem p with seqCutoff := ntohl skb.seq }).sub.reverse =
          some q) :
      SetUp E (outSynWith E h skb p).1 q p
  | synAckArrives {h : Host} {p q : Nat} (skb : SkBuff) (before : SetUp E h q p)
      (found : h.lookupOut E (h.inMem q).super.reverse = some p) :
      SetUp E (setAckNumberOut E h skb q) q p

/-- **Whichever end opens the session**, its blocks are filled in as `Filled` says. -/
theorem SetUp.filled {h : Host} {p q : Nat} (hs : SetUp E h q p) :
    Filled (h.inMem q) (h.outMem p) := by
  induction hs with
  | synArrives made out =>
    obtain ⟨p, hp, hfill⟩ := insertCbInput_filled made
    obtain rfl := Option.some.inj (hp.symm.trans out)
    exact hfill
  | synLeaves made even => exact insertCbOutReverse_filled made even
  | synAckLeaves _ ack found ih => exact outSynWith_filled ack found ih
  | synAckArrives _ _ found ih => exact setAckNumberOut_filled found ih

/-! ## The maps of the new path -/

theorem computeDeltasOut_shift_seq (dcb old : CbOut) (rcb : CbReconfig) (x : U32) :
    shift (computeDeltasOut dcb old rcb).seqDelta (computeDeltasOut dcb old rcb).seqAdd x =
      x + (dcb.outIseq - old.inIseq) := by
  rw [← shift_distance]
  unfold computeDeltasOut
  simp only
  split <;> split <;> rfl

theorem computeDeltasOut_shift_ack (dcb old : CbOut) (rcb : CbReconfig) (x : U32) :
    shift (computeDeltasOut dcb old rcb).ackDelta (computeDeltasOut dcb old rcb).ackAdd x =
      x + (dcb.outIack - old.inIack) := by
  rw [← shift_distance]
  unfold computeDeltasOut
  simp only
  split <;> split <;> rfl

theorem computeDeltasOut_cutoffOfSeq (dcb old : CbOut) (rcb : CbReconfig) (x : U32) :
    (computeDeltasOut dcb old rcb).cutoffOfSeq x = x + (old.inIack - dcb.outIack) := by
  rw [cutoffOfSeq_eq]
  unfold computeDeltasOut
  simp only
  split <;> split <;> rfl

theorem computeDeltasOut_shift_ts (dcb old : CbOut) {rcb : CbReconfig} (hts : rcb.leftIts ≠ 0#32)
    (x : U32) :
    shift (computeDeltasOut dcb old rcb).tsDelta (computeDeltasOut dcb old rcb).tsAdd x =
      x + (rcb.leftItsr - old.tsIn) := by
  rw [← shift_distance]
  unfold computeDeltasOut
  simp only [if_pos hts]
  split <;> rfl

theorem computeDeltasOut_shift_tsr (dcb old : CbOut) {rcb : CbReconfig}
    (hts : rcb.leftIts ≠ 0#32) (x : U32) :
    shift (computeDeltasOut dcb old rcb).tsrDelta (computeDeltasOut dcb old rcb).tsrAdd x =
      x + (rcb.leftIts - old.tsrIn) := by
  rw [← shift_distance]
  unfold computeDeltasOut
  simp only [if_pos hts]
  split <;> rfl

theorem computeDeltasIn_shift_seq (dcb oldIn : CbIn) (old : CbOut) (rcb : CbReconfig) (x : U32) :
    shift (computeDeltasIn dcb old oldIn rcb).seqDelta (computeDeltasIn dcb old oldIn rcb).seqAdd
      x = x + (old.inIack - dcb.inIseq) := by
  rw [← shift_distance]
  unfold computeDeltasIn
  simp only
  split <;> split <;> rfl

theorem computeDeltasIn_shift_ack (dcb oldIn : CbIn) (old : CbOut) (rcb : CbReconfig) (x : U32) :
    shift (computeDeltasIn dcb old oldIn rcb).ackDelta (computeDeltasIn dcb old oldIn rcb).ackAdd
      x = x + (old.inIseq - dcb.inIack) := by
  rw [← shift_distance]
  unfold computeDeltasIn
  simp only
  split <;> split <;> rfl

theorem computeDeltasIn_shift_ts (dcb oldIn : CbIn) (old : CbOut) {rcb : CbReconfig}
    (hts : rcb.leftIts ≠ 0#32) (x : U32) :
    shift (computeDeltasIn dcb old oldIn rcb).tsDelta (computeDeltasIn dcb old oldIn rcb).tsAdd
      x = x + (oldIn.tsOut - rcb.leftIts) := by
  rw [← shift_distance]
  unfold computeDeltasIn
  simp only [if_pos hts]
  split <;> rfl

theorem computeDeltasIn_shift_tsr (dcb oldIn : CbIn) (old : CbOut) {rcb : CbReconfig}
    (hts : rcb.leftIts ≠ 0#32) (x : U32) :
    shift (computeDeltasIn dcb old oldIn rcb).tsrDelta (computeDeltasIn dcb old oldIn rcb).tsrAdd
      x = x + (oldIn.tsrOut - rcb.leftItsr) := by
  rw [← shift_distance]
  unfold computeDeltasIn
  simp only [if_pos hts]
  split <;> rfl

/-- The new path's two blocks translate by opposite differences: between the right
anchor's numbers, in `old` and `oldIn`, and the left session's, in the message. -/
structure Opposite (m : ControlMessage) (old : CbOut) (oldIn : CbIn) (newOut : CbOut)
    (newIn : CbIn) : Prop where
  out_seq : ∀ x, shift newOut.seqDelta newOut.seqAdd x = x + (ntohl m.leftIack - old.inIseq)
  out_ack : ∀ x, shift newOut.ackDelta newOut.ackAdd x = x + (ntohl m.leftIseq - old.inIack)
  in_seq : ∀ x, shift newIn.seqDelta newIn.seqAdd x = x + (old.inIack - ntohl m.leftIseq)
  in_ack : ∀ x, shift newIn.ackDelta newIn.ackAdd x = x + (old.inIseq - ntohl m.leftIack)
  cutoff : ∀ x, newOut.cutoffOfSeq x = x + (old.inIack - ntohl m.leftIseq)
  out_ts : ntohl m.leftIts ≠ 0#32 →
    ∀ x, shift newOut.tsDelta newOut.tsAdd x = x + (ntohl m.leftItsr - old.tsIn)
  out_tsr : ntohl m.leftIts ≠ 0#32 →
    ∀ x, shift newOut.tsrDelta newOut.tsrAdd x = x + (ntohl m.leftIts - old.tsrIn)
  in_ts : ntohl m.leftIts ≠ 0#32 →
    ∀ x, shift newIn.tsDelta newIn.tsAdd x = x + (oldIn.tsOut - ntohl m.leftIts)
  in_tsr : ntohl m.leftIts ≠ 0#32 →
    ∀ x, shift newIn.tsrDelta newIn.tsrAdd x = x + (oldIn.tsrOut - ntohl m.leftItsr)

theorem RightConfigured.opposite {h h' : Host} {pkt : ControlPacket} {old r q p : Nat}
    (C : RightConfigured E h h' pkt old r q p) :
    Opposite pkt.msg (h.outMem old) (h.inOf (h.outMem old)) (h'.outMem p) (h'.inMem q) := by
  rw [C.new_out, C.new_in]
  exact
    { out_seq := computeDeltasOut_shift_seq _ _ _
      out_ack := computeDeltasOut_shift_ack _ _ _
      in_seq := computeDeltasIn_shift_seq _ _ _ _
      in_ack := computeDeltasIn_shift_ack _ _ _ _
      cutoff := computeDeltasOut_cutoffOfSeq _ _ _
      out_ts := fun hts => computeDeltasOut_shift_ts _ _ hts
      out_tsr := fun hts => computeDeltasOut_shift_tsr _ _ hts
      in_ts := fun hts => computeDeltasIn_shift_ts _ _ _ hts
      in_tsr := fun hts => computeDeltasIn_shift_tsr _ _ _ hts }

/-! ## Coherence -/

/-- A host whose blocks `p` and `q` are those of a new path, in a later state: the numbers they
translate by are still what they were when the blocks were made. -/
structure Translating (E : Env) (g : Host) (m : ControlMessage) (old r p q : Nat)
    (newOut : CbOut) : Prop where
  rcb : g.lookupReconfig E m.super = some r
  oldDcb : (g.rcbMem r).oldDcb = some old
  newDcb : (g.rcbMem r).newDcb = some p
  dcbOut : (g.inMem q).dcbOut = some p
  newPath : (g.outMem p).oldPath = false
  otherPath : (g.outMem p).otherPath = some old
  seqDelta : (g.outMem p).seqDelta = newOut.seqDelta
  seqAdd : (g.outMem p).seqAdd = newOut.seqAdd
  inIack : (g.outMem p).inIack = newOut.inIack
  outIack : (g.outMem p).outIack = newOut.outIack

/-- What leaves through the output block `p` comes back through the input block `q` as it was, and
the translations that are written out elsewhere are those of the two blocks. -/
structure Coherent (E : Env) (m : ControlMessage) (oldOut : CbOut) (old r p q : Nat)
    (newOut : CbOut) (newIn : CbIn) : Prop where
  /-- The sequence number that leaves is acknowledged under its old name. -/
  seq_ack : ∀ skb back : SkBuff, back.ackSeq = (outRewriteSeq skb newOut).seq →
    (inRewriteAck back newIn).ackSeq = skb.seq
  /-- The acknowledgment number that leaves is answered under its old name. -/
  ack_seq : ∀ skb back : SkBuff, back.seq = (outRewriteAck skb newOut).ackSeq →
    (inRewriteSeq back newIn).seq = skb.ackSeq
  /-- So is every SACK edge. -/
  sack_seq : ∀ skb back : SkBuff, newOut.sackOk = true → skb.optLen ≤ skb.data.length →
    ∀ k ∈ skb.sackEdges, back.seq = load32 (outRewriteAck skb newOut).data k →
      (inRewriteSeq back newIn).seq = load32 skb.data k
  /-- SACK edges are translated as the acknowledgment number is. -/
  sack_ack : ∀ skb : SkBuff, newOut.sackOk = true → skb.optLen ≤ skb.data.length →
    ∀ k ∈ skb.sackEdges, load32 skb.data k = skb.ackSeq →
      load32 (outRewriteAck skb newOut).data k = (outRewriteAck skb newOut).ackSeq
  /-- The timestamp that leaves is echoed under its old name. -/
  ts_tsr : ntohl m.leftIts ≠ 0#32 → ∀ (skb back : SkBuff) (k l : Nat),
    skb.optLen ≤ skb.data.length → back.optLen ≤ back.data.length →
    getTsOption skb = some k → getTsOption back = some l →
    load32 back.data (l + 4) = load32 (outRewriteTs skb newOut).data k →
    load32 (inRewriteTs back newIn).data (l + 4) = load32 skb.data k
  /-- The echo that leaves comes back as the timestamp it was. -/
  tsr_ts : ntohl m.leftIts ≠ 0#32 → ∀ (skb back : SkBuff) (k l : Nat),
    skb.optLen ≤ skb.data.length → back.optLen ≤ back.data.length →
    getTsOption skb = some k → getTsOption back = some l →
    load32 back.data l = load32 (outRewriteTs skb newOut).data (k + 4) →
    load32 (inRewriteTs back newIn).data l = load32 skb.data (k + 4)
  /-- Byte `k` of the old session is byte `k` of the left session. -/
  seq_iseq : ∀ (skb : SkBuff) (k : U32), ntohl skb.seq = oldOut.inIseq + k →
    ntohl (outRewriteSeq skb newOut).seq = ntohl m.leftIack + k
  /-- Data on the new path: its number, as it will be delivered, lowers or sets the old path's
  cutoff. -/
  data_seg : ∀ (g : Host) (skb : SkBuff), Translating E g m old r p q newOut →
    ((g.outMem old).state = .synSent ∨ (g.outMem old).state = .synReceived) →
    ((inTwoPathsDataSeg g skb q).1.outMem old).validAckCut = true ∧
      ((inTwoPathsDataSeg g skb q).1.outMem old).ackCutoff =
        if (g.outMem old).validAckCut = true ∧
            before (ntohl (inRewriteSeq skb newIn).seq) (g.outMem old).ackCutoff = false then
          (g.outMem old).ackCutoff
        else ntohl (inRewriteSeq skb newIn).seq
  /-- A `DYSCO_ACK`: the old path's cutoff is the number it brings, as it would be delivered. -/
  ack_cutoff : ∀ (g : Host) (pkt : ControlPacket) (skb : SkBuff),
    Translating E g m old r p q newOut → pkt.msg.super = m.super → pkt.msg.rightA = pkt.daddr →
    (g.outMem old).otherPath = some p → (g.outMem old).state ≠ .established →
    (g.outMem old).stateT = false → skb.seq = pkt.msg.seqCutoff →
    ((ackIn E g pkt).1.outMem old).validAckCut = true ∧
      ((ackIn E g pkt).1.outMem old).ackCutoff = ntohl (inRewriteSeq skb newIn).seq
  /-- A `DYSCO_SYN_ACK` announces the old path's cutoff, as data with that number leaves. -/
  syn_ack_cutoff : ∀ (g : Host) (pkt : ControlPacket) (skb : SkBuff),
    Translating E g m old r p q newOut → pkt.msg.super = m.super →
    ntohl skb.seq = (g.outMem old).seqCutoff →
    (replaceCbRightA E g pkt).2.msg.seqCutoff = (outRewriteSeq skb newOut).seq

namespace Translating
variable {g : Host} {m : ControlMessage} {old r p q : Nat} {newOut newIn : CbOut}

/-- The cutoff translation written out at its uses only reads two numbers of the block. -/
theorem cutoffOfSeq (T : Translating E g m old r p q newOut) (x : U32) :
    (g.outMem p).cutoffOfSeq x = newOut.cutoffOfSeq x := by
  rw [CbOut.cutoffOfSeq, CbOut.cutoffOfSeq, T.inIack, T.outIack]

/-- Data that arrives on the new path. -/
theorem data_seg (T : Translating E g m old r p q newOut) (skb : SkBuff)
    (hstate : (g.outMem old).state = .synSent ∨ (g.outMem old).state = .synReceived) :
    (inTwoPathsDataSeg g skb q).1.outMem old =
      (g.outMem old).lowerAckCutoff (newOut.cutoffOfSeq (ntohl skb.seq)) := by
  rw [inTwoPathsDataSeg, T.dcbOut]
  simp only [T.newPath, T.otherPath, Bool.false_eq_true, if_false]
  rw [if_pos hstate, Host.setOut_outMem_self, T.cutoffOfSeq]

/-- A `DYSCO_ACK` that switches the right anchor to the new path. -/
theorem ack_cutoff (T : Translating E g m old r p q newOut) {pkt : ControlPacket}
    (hsuper : pkt.msg.super = m.super) (hright : pkt.msg.rightA = pkt.daddr)
    (hpath : (g.outMem old).otherPath = some p) (hstate : (g.outMem old).state ≠ .established)
    (hno : (g.outMem old).stateT = false) :
    (ackIn E g pkt).1.outMem old = ((g.outMem old).withAckCutoff
      (newOut.cutoffOfSeq (ntohl pkt.msg.seqCutoff))).withState .established := by
  rw [ackIn, hsuper, T.rcb]
  simp only [hright, if_true, T.oldDcb, hpath, hstate, hno, Bool.false_eq_true, if_false]
  rw [Host.setOut_outMem_self, T.cutoffOfSeq]

/-- A `DYSCO_SYN_ACK` that leaves the right anchor. -/
theorem syn_ack_cutoff (T : Translating E g m old r p q newOut) (hne : p ≠ old)
    {pkt : ControlPacket} (hsuper : pkt.msg.super = m.super) :
    (replaceCbRightA E g pkt).2.msg.seqCutoff =
      htonl (shift newOut.seqDelta newOut.seqAdd (g.outMem old).seqCutoff) := by
  rw [replaceCbRightA, hsuper, T.rcb]
  simp only [T.oldDcb, T.newDcb]
  rw [Host.setOut_outMem_of_ne _ hne, T.seqDelta, T.seqAdd]
  rfl

end Translating

theorem Opposite.coherent {m : ControlMessage} {oldOut newOut : CbOut} {oldIn newIn : CbIn}
    {old r p q : Nat} (O : Opposite m oldOut oldIn newOut newIn) (hne : p ≠ old)
    (hpair : Paired oldIn.stamps oldOut.stamps) :
    Coherent E m oldOut old r p q newOut newIn := by
  have hts : oldIn.tsOut = oldOut.tsrIn := hpair.ts
  have htsr : oldIn.tsrOut = oldOut.tsIn := hpair.tsr
  -- one difference and then the opposite one
  have hback : ∀ a b x : U32, x + (a - b) + (b - a) = x := fun a b x => by ring
  have hcutoff : ∀ skb : SkBuff, newOut.cutoffOfSeq (ntohl skb.seq) =
      ntohl (inRewriteSeq skb newIn).seq := fun skb => by
    rw [inRewriteSeq, rewriteSeq_seq, ntohl_htonl, O.in_seq, O.cutoff]
  constructor
  · intro skb back hseq
    rw [inRewriteAck, rewriteAck_ackSeq, hseq, outRewriteSeq, rewriteSeq_seq, ntohl_htonl,
      O.out_seq, O.in_ack, hback, htonl_ntohl]
  · intro skb back hack
    rw [inRewriteSeq, rewriteSeq_seq, hack, outRewriteAck, rewriteAck_ackSeq, ntohl_htonl,
      O.out_ack, O.in_seq, hback, htonl_ntohl]
  · intro skb back hok hlen k hk hseq
    rw [inRewriteSeq, rewriteSeq_seq, hseq, outRewriteAck, hok, rewriteAck_sackEdge hlen hk,
      ntohl_htonl, O.out_ack, O.in_seq, hback, htonl_ntohl]
  · intro skb hok hlen k hk heq
    rw [outRewriteAck, hok, rewriteAck_sackEdge hlen hk, rewriteAck_ackSeq, heq]
  · intro hits skb back k l hlen hlen' hk hl heq
    rw [inRewriteTs, (rewriteTs_load hlen' hl _ _ _ _).2, heq, outRewriteTs,
      (rewriteTs_load hlen hk _ _ _ _).1, ntohl_htonl, O.out_ts hits, O.in_tsr hits, htsr, hback,
      htonl_ntohl]
  · intro hits skb back k l hlen hlen' hk hl heq
    rw [inRewriteTs, (rewriteTs_load hlen' hl _ _ _ _).1, heq, outRewriteTs,
      (rewriteTs_load hlen hk _ _ _ _).2, ntohl_htonl, O.out_tsr hits, O.in_ts hits, hts, hback,
      htonl_ntohl]
  · intro skb k hseq
    rw [outRewriteSeq, rewriteSeq_seq, ntohl_htonl, O.out_seq, hseq]
    ring
  · intro g skb T hstate
    rw [T.data_seg skb hstate, hcutoff, CbOut.lowerAckCutoff]
    split
    · rename_i hvalid
      split
      · rename_i hlower
        exact ⟨hvalid, by simp [hlower]⟩
      · rename_i hlower
        exact ⟨hvalid, by simp [hvalid, hlower]⟩
    · rename_i hvalid
      exact ⟨rfl, by simp [hvalid, CbOut.withAckCutoff]⟩
  · intro g pkt skb T hsuper hright hpath hstate hno hseq
    rw [T.ack_cutoff hsuper hright hpath hstate hno, ← hseq, hcutoff]
    exact ⟨rfl, rfl⟩
  · intro g pkt skb T hsuper hseq
    rw [T.syn_ack_cutoff hne hsuper, outRewriteSeq, rewriteSeq_seq, hseq]

/-- **The translation at the right anchor is coherent**: a `DYSCO_SYN` that is handled
there, while the blocks of the old session are as its setup filled them, leaves a new
path whose output and input block undo each other. -/
theorem rightA_coherent {h h' : Host} {pkt : ControlPacket} (hwf : h.WF)
    (hnone : h.lookupReconfig E pkt.msg.super = none) (hright : pkt.daddr = pkt.msg.rightA)
    (hfill : ∀ old, h.lookupOut E pkt.msg.rightSS.reverse = some old →
      Filled (h.inOf (h.outMem old)) (h.outMem old))
    (hok : synIn E h pkt = (true, h')) :
    ∃ old r q p, h.lookupOut E pkt.msg.rightSS.reverse = some old ∧
      Translating E h' pkt.msg old r p q (h'.outMem p) ∧
      Coherent E pkt.msg (h.outMem old) old r p q (h'.outMem p) (h'.inMem q) := by
  obtain ⟨old, r, q, p, C⟩ := synIn_rightA hwf hnone hright hok
  have hne : p ≠ old := by
    have hlt := hwf.out_lt old (h.lookupOut_eq_some C.old_lookup).1
    have hp := C.p_eq
    omega
  refine ⟨old, r, q, p, C.old_lookup, ?_,
    C.opposite.coherent hne (hfill old C.old_lookup).paired⟩
  refine
    { rcb := ?_, oldDcb := by rw [C.rcb], newDcb := by rw [C.rcb], dcbOut := ?_, newPath := ?_
      otherPath := by rw [C.new_out]; rfl
      seqDelta := rfl, seqAdd := rfl, inIack := rfl, outIack := rfl }
  · have hsuper : (h'.rcbMem r).super = pkt.msg.super := by rw [C.rcb]; rfl
    unfold Host.lookupReconfig
    rw [C.hashReconfig, ← hsuper]
    exact BucketTable.lookup_insert_self rfl
  · rw [C.new_in]
    unfold CbIn.withTwoPaths computeDeltasIn
    simp only
    split <;> split <;> rfl
  · rw [C.new_out]
    unfold CbOut.withOtherPath computeDeltasOut
    simp only
    split <;> split <;> rfl

/-! ## A session with timestamps -/

/-- A segment with a timestamp and an echo. -/
def stamped (flags : U8) (ts tsr : U8) (payload : List U8) : SkBuff :=
  { (default : SkBuff) with
    hProto := htons ethPIp
    protocol := ipprotoTcp
    doff := 8#4
    flags := flags
    seq := htonl 70#32
    ackSeq := htonl 50#32
    totLen := htons (BitVec.ofNat 16 (52 + payload.length))
    data := [8#8, 10#8, 0#8, 0#8, 0#8, ts, 0#8, 0#8, 0#8, tsr, 1#8, 1#8] ++ payload
    tailroom := 100 }

/-- A SYN of a session that comes to its last host, with its timestamp. -/
def stampedSynIn : SkBuff := stamped tcphdrSyn 40#8 0#8 (List.replicate 12 0#8 ++
  [1#8, 0#8, 0#8, 0#8, 10#8, 0#8, 0#8, 1#8])

/-- The host once the SYN has come, and once it has answered. -/
def stampedMade : Host := (insertCbInput default Host.fresh stampedSynIn stampedSynIn.synPacket).2
def stampedHost : Host :=
  (outSynWith default stampedMade (stamped (tcphdrSyn ||| tcphdrAck) 90#8 40#8 []) 1).1

theorem setUp_stampedHost : SetUp default stampedHost 0 1 := by
  have hmade : SetUp default stampedMade 0 1 :=
    @SetUp.synArrives default Host.fresh stampedMade stampedSynIn stampedSynIn.synPacket 1 0
      (Prod.ext (by decide +kernel) rfl) (by decide +kernel)
  exact .synAckLeaves hmade (by decide) (by decide +kernel)

/-- The blocks of that session are as its setup fills them. -/
theorem filled_stampedHost : Filled (stampedHost.inMem 0) (stampedHost.outMem 1) :=
  setUp_stampedHost.filled

/-- A `DYSCO_SYN` for that session, whose left session has timestamps too. -/
def synForSession : ControlPacket :=
  { (default : ControlPacket) with
    msg.leftIseq := htonl 3#32, msg.leftIack := htonl 5#32, msg.leftIts := htonl 11#32
    msg.leftItsr := htonl 13#32 }

theorem wf_stampedHost : stampedHost.WF := by
  have hout : stampedHost.hashOut.entries = [(0, 1)] := by decide +kernel
  have hin : stampedHost.hashIn.entries = [(0, 0)] := by decide +kernel
  have hrcb : stampedHost.hashReconfig.entries = [] := by decide +kernel
  have hdcbIn : (stampedHost.outMem 1).dcbIn = some 0 := by decide +kernel
  have hbrk : stampedHost.brk = 2 := by decide +kernel
  constructor
  · rintro p ⟨b, hb⟩
    rw [hout] at hb
    cases List.mem_singleton.mp hb
    rw [hbrk]
    decide
  · rintro q ⟨b, hb⟩
    rw [hin] at hb
    cases List.mem_singleton.mp hb
    rw [hbrk]
    decide
  · rintro r ⟨b, hb⟩
    rw [hrcb] at hb
    cases hb
  · rintro p q ⟨b, hb⟩ hq
    rw [hout] at hb
    cases List.mem_singleton.mp hb
    rw [hdcbIn] at hq
    cases hq
    rw [hbrk]
    decide

/-- Timestamps 90 and 40 of the right session, 11 and 13 of the left one. -/
theorem rightA_coherent_stampedHost :
    ((stampedHost.outMem 1).tsIn = 90#32 ∧ (stampedHost.outMem 1).tsrIn = 40#32) ∧
      ∃ (h' : Host) (old r q p : Nat),
        stampedHost.lookupOut default synForSession.msg.rightSS.reverse = some old ∧
        Translating default h' synForSession.msg old r p q (h'.outMem p) ∧
        Coherent default synForSession.msg (stampedHost.outMem old) old r p q (h'.outMem p)
          (h'.inMem q) := by
  refine ⟨⟨by decide +kernel, by decide +kernel⟩,
    (synIn default stampedHost synForSession).2,
    rightA_coherent wf_stampedHost (by decide +kernel) (by decide) ?_
      (Prod.ext (by decide +kernel) rfl)⟩
  intro old hold
  have hone : stampedHost.lookupOut default synForSession.msg.rightSS.reverse = some 1 := by
    decide +kernel
  obtain rfl : 1 = old := Option.some.inj (hone.symm.trans hold)
  have hdcbIn : (stampedHost.outMem 1).dcbIn = some 0 := by decide +kernel
  rw [Host.inOf, hdcbIn]
  exact filled_stampedHost

end Dysco
