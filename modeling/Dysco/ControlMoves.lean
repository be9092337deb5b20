import Dysco.Retransmission

/-! # What control messages do to the block of an old path

The block of an old path goes from `DYSCO_ONE_PATH` through `DYSCO_SYN_SENT`, at the left
anchor, or `DYSCO_SYN_RECEIVED`, at the right one, to `DYSCO_ESTABLISHED`.  Five handlers
write its state.  Most of what the handlers do leaves the block where it is (`Quiet`);
a message that enters only moves it forward (`controlInput_forward`), and one that leaves
moves it back only as a `DYSCO_SYN_ACK` (`controlOutput_moves`).
-/
namespace Dysco
open BucketTable

/-- The order in which an anchor goes through the states of an old path. -/
def ConnState.Advances (s t : ConnState) : Prop := s = t ∨ s = .onePath ∨ t = .established

instance (s t : ConnState) : Decidable (s.Advances t) :=
  inferInstanceAs (Decidable (_ ∨ _ ∨ _))

theorem ConnState.Advances.refl (s : ConnState) : s.Advances s := Or.inl rfl

/-- A state that has been reached is not left for an earlier one in two steps either. -/
theorem ConnState.Advances.trans {s t u : ConnState} (hst : s.Advances t) (htu : t.Advances u) :
    s.Advances u := by
  rcases hst with rfl | rfl | rfl
  · exact htu
  · exact Or.inr (Or.inl rfl)
  · rcases htu with rfl | ht | rfl
    · exact Or.inr (Or.inr rfl)
    · cases ht
    · exact Or.inr (Or.inr rfl)

variable {E : Env} {h h' h'' : Host} {o : Nat} {w : Prop}

/-! ## What does not move a block -/

/-- Some reconfiguration block has the address `o` as that of its old path. -/
def Host.Names (h : Host) (o : Nat) : Prop := ∃ r, (h.rcbMem r).oldDcb = some o

/-- The fields that split the data of a session between two paths. -/
def CbOut.dataSplit (d : CbOut) : U32 × Bool := (d.seqCutoff, d.useNpSeq)

@[simp] theorem CbOut.dataSplit_withOldPath (d : CbOut) : d.withOldPath.dataSplit = d.dataSplit :=
  rfl

@[simp] theorem CbOut.dataSplit_withStateT (d : CbOut) : d.withStateT.dataSplit = d.dataSplit := rfl

@[simp] theorem CbOut.dataSplit_withState (d : CbOut) (s : ConnState) :
    (d.withState s).dataSplit = d.dataSplit := rfl

@[simp] theorem CbOut.dataSplit_withOtherPath (d : CbOut) (p : Nat) :
    (d.withOtherPath p).dataSplit = d.dataSplit := rfl

/-- Block `o` stays in its state and on its paths; if `w`, it is marked for state transfer when
a reconfiguration block comes to name it. -/
structure Quiet (w : Prop) (o : Nat) (h h' : Host) : Prop where
  brk : h.brk ≤ h'.brk
  state : (h'.outMem o).state = (h.outMem o).state
  otherPath : (h'.outMem o).otherPath = (h.outMem o).otherPath
  dataSplit : (h'.outMem o).dataSplit = (h.outMem o).dataSplit
  stateT : (h.outMem o).stateT = true → (h'.outMem o).stateT = true
  names : w → h'.Names o → h.Names o ∨ (h'.outMem o).stateT = true

namespace Quiet

theorem refl (w : Prop) (o : Nat) (h : Host) : Quiet w o h h :=
  ⟨Nat.le_refl _, rfl, rfl, rfl, id, fun _ => Or.inl⟩

/-- Two quiet steps are one: the block is not touched by either. -/
theorem trans (a : Quiet w o h h') (b : Quiet w o h' h'') : Quiet w o h h'' := by
  refine ⟨a.brk.trans b.brk, b.state.trans a.state, b.otherPath.trans a.otherPath,
    b.dataSplit.trans a.dataSplit, fun ht => b.stateT (a.stateT ht), fun hw hn => ?_⟩
  rcases b.names hw hn with hn' | ht
  · exact (a.names hw hn').imp_right b.stateT
  · exact Or.inr ht

/-- The block is not written. -/
theorem of_frame (hbrk : h.brk ≤ h'.brk) (ho : h'.outMem o = h.outMem o)
    (hr : ∀ r, (h'.rcbMem r).oldDcb = (h.rcbMem r).oldDcb) : Quiet w o h h' := by
  refine ⟨hbrk, by rw [ho], by rw [ho], by rw [ho], by rw [ho]; exact id, ?_⟩
  rintro - ⟨r, hn⟩
  exact Or.inl ⟨r, (hr r).symm.trans hn⟩

/-- A write to another block. -/
theorem setOut_of_ne (h : Host) {p : Nat} (hp : p ≠ o) (d : CbOut) :
    Quiet w o h (h.setOut p d) :=
  of_frame (Nat.le_refl _) (h.setOut_outMem_of_ne hp.symm d) fun _ => rfl

/-- A write that leaves state and paths alone. -/
theorem setOut (h : Host) {p : Nat} {d : CbOut} (hs : d.state = (h.outMem p).state)
    (hp : d.otherPath = (h.outMem p).otherPath) (hd : d.dataSplit = (h.outMem p).dataSplit)
    (ht : (h.outMem p).stateT = true → d.stateT = true) : Quiet w o h (h.setOut p d) := by
  by_cases hpo : p = o
  · subst hpo
    refine ⟨Nat.le_refl _, ?_, ?_, ?_, ?_, fun _ hn => Or.inl hn⟩
    · rw [Host.setOut_outMem_self, hs]
    · rw [Host.setOut_outMem_self, hp]
    · rw [Host.setOut_outMem_self, hd]
    · rw [Host.setOut_outMem_self]
      exact ht
  · exact setOut_of_ne h hpo d

/-- Input blocks are not the block in question. -/
theorem setIn (h : Host) (q : Nat) (d : CbIn) : Quiet w o h (h.setIn q d) :=
  of_frame (Nat.le_refl _) rfl fun _ => rfl

/-- A write to a reconfiguration block that keeps its old path. -/
theorem setRcb (h : Host) {r : Nat} {d : CbReconfig} (hd : d.oldDcb = (h.rcbMem r).oldDcb) :
    Quiet w o h (h.setRcb r d) := by
  refine of_frame (Nat.le_refl _) rfl fun x => ?_
  by_cases hx : x = r
  · rw [hx, Host.setRcb_rcbMem_self, hd]
  · rw [Host.setRcb_rcbMem_of_ne _ hx]

theorem bump (h : Host) : Quiet w o h h.bump := of_frame (Nat.le_succ _) rfl fun _ => rfl

theorem kmalloc (h : Host) : Quiet w o h h.kmalloc.2 := by
  rw [Host.kmalloc]
  split <;> exact bump h

theorem kzallocIn (h : Host) : Quiet w o h h.kzallocIn.2 := by
  rw [Host.kzallocIn]
  split
  · exact bump h
  · exact (bump h).trans (setIn _ _ _)

/-- A block that is there is not the one that an allocation gives. -/
theorem kzallocOut (ho : o < h.brk) : Quiet w o h h.kzallocOut.2 := by
  rw [Host.kzallocOut]
  split
  · exact bump h
  · exact (bump h).trans (setOut_of_ne _ (by omega) _)

theorem kfree (h : Host) (p : Nat) : Quiet w o h (h.kfree p) :=
  of_frame (Nat.le_refl _) rfl fun _ => rfl

theorem insertOut (h : Host) (p : Nat) : Quiet w o h (h.insertOut E p) :=
  of_frame (Nat.le_refl _) rfl fun _ => rfl

theorem insertIn (h : Host) (q : Nat) : Quiet w o h (h.insertIn E q) :=
  of_frame (Nat.le_refl _) rfl fun _ => rfl

theorem insertReconfig (h : Host) (r : Nat) : Quiet w o h (h.insertReconfig E r) :=
  of_frame (Nat.le_refl _) rfl fun _ => rfl

theorem removeReconfig (h : Host) (r : Nat) : Quiet w o h (h.removeReconfig E r) :=
  of_frame (Nat.le_refl _) rfl fun _ => rfl

/-- A reconfiguration block is given the address of its old path, and what follows marks that
path's block for state transfer. -/
theorem name (h : Host) {r old : Nat} {d : CbReconfig} (hd : d.oldDcb = some old)
    (hq : Quiet w o (h.setRcb r d) h') (hmark : w → old = o → (h'.outMem o).stateT = true) :
    Quiet w o h h' := by
  refine ⟨hq.brk, hq.state, hq.otherPath, hq.dataSplit, hq.stateT, fun hw hn => ?_⟩
  rcases hq.names hw hn with ⟨x, hx⟩ | ht
  · by_cases hxr : x = r
    · rw [hxr, Host.setRcb_rcbMem_self, hd] at hx
      exact Or.inr (hmark hw (Option.some.inj hx))
    · rw [Host.setRcb_rcbMem_of_ne _ hxr] at hx
      exact Or.inl ⟨x, hx⟩
  · exact Or.inr ht

end Quiet

/-! ### A `DYSCO_SYN` that enters -/

/-- Filing a reconfiguration leaves the block alone. -/
theorem insertRcbControlInput_quiet (h : Host) (pkt : ControlPacket) :
    Quiet w o h (insertRcbControlInput E h pkt).2 := by
  have hk := Quiet.kmalloc (w := w) (o := o) h
  rw [insertRcbControlInput]
  cases hkm : h.kmalloc with
  | mk a h1 =>
    rw [hkm] at hk
    cases a with
    | none => exact hk
    | some r =>
      have hset : Quiet w o h1 (h1.setRcb r ((h1.rcbMem r).ofSynIn pkt)) := Quiet.setRcb h1 rfl
      exact (hk.trans hset).trans (Quiet.insertReconfig _ r)

/-- The block of the new path is a fresh one. -/
theorem buildCbInReverse_quiet (ho : o < h.brk) (pkt : ControlPacket) (rcb : CbReconfig) :
    Quiet w o h (buildCbInReverse h pkt rcb).2 := by
  have hk := Quiet.kzallocOut (w := w) ho
  rw [buildCbInReverse]
  cases hkz : h.kzallocOut with
  | mk a h1 =>
    rw [hkz] at hk
    cases a with
    | none => exact hk
    | some p =>
      obtain ⟨rfl, -⟩ := Host.kzallocOut_some hkz
      exact hk.trans (Quiet.setOut_of_ne h1 (by omega) _)

/-- Where the right anchor comes to name a block, the block is marked for state transfer if the
message asks for it. -/
theorem controlConfigRightA_quiet (h : Host) {m : ControlMessage} (hw : w → m.WithState)
    {p : Nat} (hp : p ≠ o) (r q : Nat) : Quiet w o h (controlConfigRightA E h r m q p).2 := by
  rw [controlConfigRightA]
  split
  · exact (Quiet.kfree h q).trans (Quiet.removeReconfig _ r)
  · rename_i old _
    simp only
    generalize (computeDeltasIn _ _ _ _).withTwoPaths true = dcbIn
    generalize CbOut.withOtherPath _ old = dcbOut
    refine (Quiet.setIn h q dcbIn).trans ?_
    generalize h.setIn q dcbIn = h1
    have hrcb : ({ h.rcbMem r with oldDcb := some old, newDcb := some p } : CbReconfig).oldDcb =
      some old := rfl
    generalize ({ h.rcbMem r with oldDcb := some old, newDcb := some p } : CbReconfig) = rcb
      at hrcb ⊢
    have hout := Quiet.setOut_of_ne (w := w) (h1.setRcb r rcb) hp dcbOut
    split
    · refine Quiet.name h1 hrcb (hout.trans (Quiet.setOut _ rfl rfl rfl fun _ => rfl)) ?_
      rintro - rfl
      rw [Host.setOut_outMem_self]
      rfl
    · rename_i hplain
      exact Quiet.name h1 hrcb hout fun hw' _ => absurd (hw hw') hplain

/-- A host between the anchors only links its two fresh blocks. -/
theorem controlConfigMiddle_quiet (h : Host) {p : Nat} (hp : p ≠ o) (r q : Nat) :
    Quiet w o h (controlConfigMiddle E h r q p) := by
  rw [controlConfigMiddle]
  simp only
  exact ((Quiet.setIn h q _).trans (Quiet.setOut_of_ne _ hp _)).trans (Quiet.insertOut _ p)

/-- **A `DYSCO_SYN` that comes in** leaves the block alone, unless it asks for a state transfer. -/
theorem controlReconfigIn_quiet (ho : o < h.brk) {pkt : ControlPacket}
    (hw : w → pkt.msg.WithState) (r : Nat) : Quiet w o h (controlReconfigIn E h pkt r).2 := by
  have hk := Quiet.kmalloc (w := w) (o := o) h
  rw [controlReconfigIn]
  cases hkm : h.kmalloc with
  | mk a h1 =>
    rw [hkm] at hk
    cases a with
    | none => exact hk.trans (Quiet.removeReconfig _ r)
    | some q =>
      simp only
      generalize (h1.rcbMem r).newPathIn (h1.inMem q) pkt.skbIif = dcbIn
      have h2 := hk.trans (Quiet.setIn h1 q dcbIn)
      have hb := h2.trans (buildCbInReverse_quiet (ho.trans_le h2.brk) pkt (h1.rcbMem r))
      cases hrev : buildCbInReverse (h1.setIn q dcbIn) pkt (h1.rcbMem r) with
      | mk b h3 =>
        rw [hrev] at hb
        cases b with
        | none => exact (hb.trans (Quiet.kfree h3 q)).trans (Quiet.removeReconfig _ r)
        | some p =>
          obtain ⟨rfl, -⟩ := buildCbInReverse_some hrev
          have hp : (h1.setIn q dcbIn).brk ≠ o := by
            have := h2.brk
            omega
          generalize (h1.setIn q dcbIn).brk = p at hp
          have h4 := (hb.trans (Quiet.setOut_of_ne h3 hp ((h3.outMem p).withDcbIn (some q)))).trans
            (Quiet.setIn _ q
            (((h3.setOut p ((h3.outMem p).withDcbIn (some q))).inMem q).withDcbOut p))
          simp only
          split
          · have hc := h4.trans (controlConfigRightA_quiet (E := E) _ hw hp r q)
            split
            · rename_i hcfg
              rw [hcfg] at hc
              exact hc
            · rename_i hcfg
              rw [hcfg] at hc
              exact hc.trans (Quiet.insertIn _ q)
          · exact (h4.trans (controlConfigMiddle_quiet _ hp r q)).trans (Quiet.insertIn _ q)

/-- **A `DYSCO_SYN` that enters moves no block.** -/
theorem synIn_quiet (ho : o < h.brk) {pkt : ControlPacket} (hw : w → pkt.msg.WithState) :
    Quiet w o h (synIn E h pkt).2 := by
  have hi := insertRcbControlInput_quiet (E := E) (w := w) (o := o) h pkt
  rw [synIn]
  split
  · exact Quiet.refl w o h
  · cases hins : insertRcbControlInput E h pkt with
    | mk a h1 =>
      rw [hins] at hi
      cases a with
      | none => exact hi
      | some r => exact hi.trans (controlReconfigIn_quiet (ho.trans_le hi.brk) hw r)

/-! ### A `DYSCO_SYN` that leaves a host on the way -/

theorem insertCbControl_quiet (h : Host) (pkt : ControlPacket) :
    Quiet w o h (insertCbControl E h pkt).2.1 := by
  cases hins : insertCbControl E h pkt with
  | mk a rest =>
    obtain ⟨h', pkt'⟩ := rest
    cases a with
    | none =>
      have hk := Quiet.kmalloc (w := w) (o := o) h
      rw [insertCbControl] at hins
      split at hins
      · rename_i h1 hkm
        rw [hkm] at hk
        obtain ⟨rfl, -⟩ := Prod.mk.inj (Prod.mk.inj hins).2
        exact hk
      · cases hins
    | some r =>
      obtain ⟨sport, dport, R⟩ := insertCbControl_some hins
      refine Quiet.of_frame ?_ (by rw [R.outMem]) fun x => ?_
      · rw [R.brk]
        exact Nat.le_succ _
      · rw [R.rcbMem]
        by_cases hx : x = r
        · rw [hx, Function.update_self]
          rfl
        · rw [Function.update_of_ne hx]

/-- Another block goes into the table. -/
theorem insertCbOut_quiet (h : Host) {p : Nat} (hp : p ≠ o) (twoPaths : Bool) :
    Quiet w o h (insertCbOut E h p twoPaths) := by
  rw [insertCbOut]
  cases hrev : insertCbOutReverse E (h.insertOut E p) p twoPaths with
  | mk q h1 =>
    have R := insertCbOutReverse_made hrev
    have h1 : Quiet w o (h.insertOut E p) h1 := by
      refine Quiet.of_frame ?_ ?_ fun x => by rw [R.rcbMem]
      · rw [R.brk]
        exact Nat.le_succ _
      · rw [R.outMem]
        cases q with
        | none => rfl
        | some x => exact Function.update_of_ne hp.symm _ _
    exact ((Quiet.insertOut h p).trans h1).trans (Quiet.setOut_of_ne _ hp _)

/-- A `DYSCO_SYN` that goes on to the next host makes blocks of its own. -/
theorem controlInsertOut_quiet (ho : o < h.brk) (pkt : ControlPacket) (r : Nat) :
    Quiet w o h (controlInsertOut E h pkt r) := by
  have hk := Quiet.kzallocOut (w := w) ho
  rw [controlInsertOut]
  cases hkz : h.kzallocOut with
  | mk a h1 =>
    rw [hkz] at hk
    cases a with
    | none => exact hk
    | some p =>
      obtain ⟨rfl, -⟩ := Host.kzallocOut_some hkz
      have hp : h.brk ≠ o := by omega
      simp only
      generalize arp E pkt.tos _ = dcb
      have h2 :=
        hk.trans ((Quiet.setOut_of_ne h1 hp dcb).trans (insertCbOut_quiet (E := E) _ hp false))
      split
      · exact h2
      · exact h2.trans (Quiet.setIn _ _ _)

/-! ## What moves a block -/

/-- Block `o` may move: to another path only while it is not established, and, if `w`, only
marked for state transfer or named before. -/
structure Moves (w : Prop) (o : Nat) (h h' : Host) : Prop where
  brk : h.brk ≤ h'.brk
  stateT : (h.outMem o).stateT = true → (h'.outMem o).stateT = true
  names : w → h'.Names o → h.Names o ∨ (h'.outMem o).stateT = true
  otherPath : (h'.outMem o).otherPath = (h.outMem o).otherPath ∨
    ((h'.outMem o).state ≠ .established ∧ (w → h.Names o ∨ (h'.outMem o).stateT = true))

/-- What a control message does to the block: it may move it, and leaves the split of the data
alone. -/
structure Controls (w : Prop) (o : Nat) (h h' : Host) : Prop extends Moves w o h h' where
  dataSplit : (h'.outMem o).dataSplit = (h.outMem o).dataSplit

/-- A quiet step is one that a control message may make. -/
theorem Quiet.controls (q : Quiet w o h h') : Controls w o h h' :=
  ⟨⟨q.brk, q.stateT, q.names, Or.inl q.otherPath⟩, q.dataSplit⟩

theorem Quiet.trans_controls (q : Quiet w o h h') (m : Controls w o h' h'') :
    Controls w o h h'' := by
  have hnames : h'.Names o ∨ (h''.outMem o).stateT = true → w →
      h.Names o ∨ (h''.outMem o).stateT = true := by
    rintro (hn | ht) hw
    · exact (q.names hw hn).imp_right m.stateT
    · exact Or.inr ht
  refine ⟨⟨q.brk.trans m.brk, fun ht => m.stateT (q.stateT ht),
    fun hw hn => hnames (m.names hw hn) hw, ?_⟩, m.dataSplit.trans q.dataSplit⟩
  rcases m.otherPath with heq | ⟨hs, hn⟩
  · exact Or.inl (heq.trans q.otherPath)
  · exact Or.inr ⟨hs, fun hw => hnames (hn hw) hw⟩

/-- A write of the state alone. -/
theorem Controls.withState (h : Host) (p : Nat) (s : ConnState) :
    Controls w o h (h.setOut p ((h.outMem p).withState s)) := by
  by_cases hp : p = o
  · subst hp
    refine ⟨⟨Nat.le_refl _, ?_, fun _ hn => Or.inl hn, Or.inl ?_⟩, ?_⟩
    · rw [Host.setOut_outMem_self]
      exact id
    · rw [Host.setOut_outMem_self]
      rfl
    · rw [Host.setOut_outMem_self]
      rfl
  · exact (Quiet.setOut_of_ne h hp _).controls

/-- What `markOld` makes of the old path's block. -/
theorem markOld_block (h : Host) (m : ControlMessage) (o p : Nat) :
    ((h.markOld m o p).outMem o).state = .synSent ∧
      (m.WithState → ((h.markOld m o p).outMem o).stateT = true) ∧
      ((h.outMem o).stateT = true → ((h.markOld m o p).outMem o).stateT = true) ∧
      ((h.markOld m o p).outMem o).dataSplit = (h.outMem o).dataSplit := by
  rw [(markOld_eq h m o p).1, Function.update_self]
  by_cases hm : m.WithState
  · rw [if_pos hm]
    exact ⟨rfl, fun _ => rfl, fun _ => rfl, by simp⟩
  · rw [if_neg hm]
    exact ⟨rfl, fun hc => absurd hc hm, id, by simp⟩

/-- The left anchor puts the block of the old path into `DYSCO_SYN_SENT`, marked for state
transfer if the message asks for it. -/
theorem startLeftA_moves (ho : o < h.brk) {pkt : ControlPacket} (hw : w → pkt.msg.WithState)
    (r old : Nat) : Controls w o h (startLeftA E h pkt r old).2 ∧
      (((startLeftA E h pkt r old).2.outMem o).state = (h.outMem o).state ∨
        ((startLeftA E h pkt r old).2.outMem o).state = .synSent) := by
  have hk := Quiet.kzallocOut (w := w) ho
  rw [startLeftA]
  cases hkz : h.kzallocOut with
  | mk a h1 =>
    rw [hkz] at hk
    cases a with
    | none => exact ⟨hk.controls, Or.inl hk.state⟩
    | some p =>
      obtain ⟨rfl, -⟩ := Host.kzallocOut_some hkz
      have hp : h.brk ≠ o := by omega
      simp only
      generalize arp E pkt.tos _ = dcb
      generalize hrcb : ({ h1.rcbMem r with oldDcb := some old } : CbReconfig) = rcb
      have hname : rcb.oldDcb = some old := by rw [← hrcb]
      cases hrev : insertCbOutReverse E ((h1.setRcb r rcb).setOut h.brk (dcb.withOtherPath old))
          h.brk true with
      | mk q h4 =>
        have R := insertCbOutReverse_made hrev
        have h4q : Quiet w o ((h1.setRcb r rcb).setOut h.brk (dcb.withOtherPath old)) h4 := by
          refine Quiet.of_frame ?_ ?_ fun x => by rw [R.rcbMem]
          · rw [R.brk]
            exact Nat.le_succ _
          · rw [R.outMem]
            cases q with
            | none => rfl
            | some x => exact Function.update_of_ne hp.symm _ _
        have h5q :=
          ((Quiet.setOut_of_ne (w := w) (h1.setRcb r rcb) hp (dcb.withOtherPath old)).trans
          h4q).trans (Quiet.setOut_of_ne h4 hp ((h4.outMem h.brk).withDcbIn q))
        simp only
        generalize h4.setOut h.brk ((h4.outMem h.brk).withDcbIn q) = h5 at h5q ⊢
        have hout := (markOld_eq h5 pkt.msg old h.brk).1
        have hsame := markOld_same h5 pkt.msg old h.brk
        have hblock := markOld_block h5 pkt.msg old h.brk
        change Controls w o h (h5.markOld pkt.msg old h.brk) ∧
          (((h5.markOld pkt.msg old h.brk).outMem o).state = _ ∨
            ((h5.markOld pkt.msg old h.brk).outMem o).state = _)
        generalize h5.markOld pkt.msg old h.brk = h6 at hout hsame hblock ⊢
        by_cases hold : old = o
        · subst hold
          obtain ⟨hstate, hmarked, hkept, hsplit⟩ := hblock
          refine ⟨⟨⟨?_, fun ht => hkept (h5q.stateT (hk.stateT ht)), ?_, ?_⟩,
            hsplit.trans (h5q.dataSplit.trans hk.dataSplit)⟩, Or.inr hstate⟩
          · rw [hsame.1]
            exact hk.brk.trans h5q.brk
          · exact fun hw' _ => Or.inr (hmarked (hw hw'))
          · rw [hstate]
            exact Or.inr ⟨nofun, fun hw' => Or.inr (hmarked (hw hw'))⟩
        · have h6q : Quiet w o h5 h6 := by
            refine Quiet.of_frame (by rw [hsame.1]) ?_ fun x => by rw [hsame.2.1]
            rw [hout, Function.update_of_ne (Ne.symm hold)]
          have hq := hk.trans (Quiet.name h1 hname (h5q.trans h6q) fun _ hc => absurd hc hold)
          exact ⟨hq.controls, Or.inl hq.state⟩

/-- A step that does not take the block back. -/
structure Forward (w : Prop) (o : Nat) (h h' : Host) : Prop extends Controls w o h h' where
  advances : (h.outMem o).state.Advances (h'.outMem o).state

/-- And one in which the state does not go back. -/
theorem Quiet.forward (q : Quiet w o h h') : Forward w o h h' :=
  ⟨q.controls, Or.inl q.state.symm⟩

theorem Quiet.trans_forward (q : Quiet w o h h') (f : Forward w o h' h'') : Forward w o h h'' :=
  ⟨q.trans_controls f.toControls, by rw [← q.state]; exact f.advances⟩

/-- Writing `DYSCO_ESTABLISHED` is a step forward. -/
theorem Forward.established (h : Host) (p : Nat) :
    Forward w o h (h.setOut p ((h.outMem p).withState .established)) := by
  refine ⟨Controls.withState h p .established, ?_⟩
  by_cases hp : p = o
  · subst hp
    rw [Host.setOut_outMem_self]
    exact Or.inr (Or.inr rfl)
  · rw [Host.setOut_outMem_of_ne _ (Ne.symm hp)]
    exact ConnState.Advances.refl _

/-! ## One message -/

/-- `dysco_replace_cb_leftA` takes a block from its first state to the last. -/
theorem replaceCbLeftA_forward (h : Host) (pkt : ControlPacket) (r : Nat) :
    Forward w o h (replaceCbLeftA h pkt r).1 := by
  rw [replaceCbLeftA]
  split
  · exact (Quiet.refl w o h).forward
  · rename_i old hold
    simp only
    have hrcb : Quiet w o h (h.setRcb r { h.rcbMem r with recDone := true }) := Quiet.setRcb h rfl
    split
    · exact hrcb.trans_forward (Forward.established _ old)
    · exact hrcb.trans_forward (Quiet.setOut _ rfl rfl rfl id).forward

/-- A `DYSCO_ACK` that comes in establishes the block, once. -/
theorem ackIn_forward (h : Host) (pkt : ControlPacket) : Forward w o h (ackIn E h pkt).1 := by
  have hq := (Quiet.refl w o h).forward
  rw [ackIn]
  split
  · exact hq
  · split
    · split
      · exact hq
      · rename_i old _
        simp only
        split
        · exact hq
        · split
          · exact hq
          · split
            · exact hq
            · rename_i new _ _ _
              generalize (h.outMem new).cutoffOfSeq _ = ack
              have hcut : Quiet w o h (h.setOut old ((h.outMem old).withAckCutoff ack)) :=
                Quiet.setOut h rfl rfl rfl id
              have hest := hcut.trans_forward (Forward.established _ old)
              rw [Host.setOut_outMem_self] at hest
              have heq : (h.setOut old ((h.outMem old).withAckCutoff ack)).setOut old
                  (((h.outMem old).withAckCutoff ack).withState .established) =
                  h.setOut old (((h.outMem old).withAckCutoff ack).withState .established) := by
                simp [Host.setOut]
              rwa [heq] at hest
    · exact hq

/-- So does the end of a state transfer. -/
theorem stateTransferredIn_forward (h : Host) (pkt : ControlPacket) :
    Forward w o h (stateTransferredIn E h pkt).1 := by
  have hq := (Quiet.refl w o h).forward
  rw [stateTransferredIn]
  split
  · exact hq
  · rename_i r _
    split
    · exact replaceCbLeftA_forward h pkt r
    · split
      · split
        · exact hq
        · exact Forward.established h _
      · exact hq

/-- A `DYSCO_SYN_ACK` that comes in sets a cutoff and no state. -/
theorem synAckIn_quiet (h : Host) (pkt : ControlPacket) : Quiet w o h (synAckIn E h pkt).1 := by
  rw [synAckIn]
  split
  · split
    · exact Quiet.refl w o h
    · simp only
      split
      · exact Quiet.refl w o h
      · exact Quiet.setOut h rfl rfl rfl id
  · exact Quiet.refl w o h

/-- **A message that enters takes no block back.** -/
theorem controlInput_forward (ho : o < h.brk) {pkt : ControlPacket}
    (hw : w → pkt.msg.WithState) : Forward w o h (controlInput E h pkt).1 := by
  have hq := (Quiet.refl w o h).forward
  rw [controlInput]
  split
  · exact hq
  · split
    · exact hq
    · split
      · exact (synIn_quiet ho hw).forward
      · exact (synAckIn_quiet h pkt).forward
      · exact ackIn_forward h pkt
      · exact stateTransferredIn_forward h pkt
      all_goals exact hq

/-- A `DYSCO_ACK` that leaves establishes the block of the left anchor. -/
theorem ackOut_forward (h : Host) (pkt : ControlPacket) : Forward w o h (ackOut E h pkt).1 := by
  have hq := (Quiet.refl w o h).forward
  rw [ackOut]
  split
  · exact hq
  · rename_i r _
    split
    · exact hq
    · split
      · split
        · exact hq
        · split
          · exact hq
          · exact replaceCbLeftA_forward h pkt r
      · exact hq

theorem ctlSaveRcvWindow_quiet (h : Host) (m : ControlMessage) :
    Quiet w o h (ctlSaveRcvWindow E h m).2 := by
  have hq := Quiet.refl w o h
  have hsock : ∀ (h : Host) (p : Nat) (my other : Option Nat), Quiet w o h
      (h.setOut p { h.outMem p with otherTp := other, myTp := my }) :=
    fun h _ _ _ => Quiet.setOut h rfl rfl rfl id
  rw [ctlSaveRcvWindow]
  split
  · exact hq
  · split
    · exact hq
    · split
      · exact hq
      · split
        · exact hq
        · split
          · exact hq
          · simp only
            exact (hsock h _ _ _).trans (hsock _ _ _ _)

/-- A `DYSCO_SYN` that leaves takes the block back only if it starts a reconfiguration of a
block that is not on one path. -/
theorem controlOutputSyn_forward (ho : o < h.brk) {pkt : ControlPacket}
    (hw : w → pkt.msg.WithState)
    (hone : h.lookupReconfig E pkt.msg.super = none → (h.outMem o).state = .onePath) :
    Forward w o h (controlOutputSyn E h pkt).2.1 := by
  rw [controlOutputSyn]
  simp only
  split
  · split
    · exact (Quiet.refl w o h).forward
    · rename_i hnone
      split
      · exact (Quiet.refl w o h).forward
      · rename_i old _
        have hins := insertCbControl_quiet (E := E) (w := w) (o := o) h
          (pkt.announce (h.outMem old) (h.inOf (h.outMem old)))
        split
        · rename_i heq
          rw [heq] at hins
          exact hins.forward
        · rename_i r h1 pkt1 heq
          rw [heq] at hins
          have hmsg : pkt1.msg.WithState ↔ pkt.msg.WithState := by
            obtain ⟨sport, dport, R⟩ := insertCbControl_some heq
            rw [R.pkt_eq]
            exact Iff.rfl
          have hstart := startLeftA_moves (E := E) (ho.trans_le hins.brk)
            (fun hw' => hmsg.mpr (hw hw')) r old
          exact ⟨hins.trans_controls hstart.1, Or.inr (Or.inl (hone hnone))⟩
  · split
    · exact (Quiet.refl w o h).forward
    · have hins := insertCbControl_quiet (E := E) (w := w) (o := o) h pkt
      split
      · rename_i heq
        rw [heq] at hins
        exact hins.forward
      · rename_i r h1 pkt1 heq
        rw [heq] at hins
        exact (hins.trans (controlInsertOut_quiet (ho.trans_le hins.brk) pkt1 r)).forward

/-- Block `o` is the one a `DYSCO_SYN_ACK` is about. -/
def Announced (E : Env) (h : Host) (pkt : ControlPacket) (o : Nat) : Prop :=
  ∃ r new, h.lookupReconfig E pkt.msg.super = some r ∧ (h.rcbMem r).oldDcb = some o ∧
    (h.rcbMem r).newDcb = some new

/-- **A `DYSCO_SYN_ACK` that leaves the right anchor** puts its block into
`DYSCO_SYN_RECEIVED`, whatever its state. -/
theorem replaceCbRightA_moves (h : Host) (pkt : ControlPacket) :
    Controls w o h (replaceCbRightA E h pkt).1 ∧
      (Announced E h pkt o → ((replaceCbRightA E h pkt).1.outMem o).state = .synReceived) ∧
      (¬ Announced E h pkt o →
        ((replaceCbRightA E h pkt).1.outMem o).state = (h.outMem o).state) := by
  rw [replaceCbRightA]
  split
  · rename_i hnone
    refine ⟨(Quiet.refl w o h).controls, ?_, fun _ => rfl⟩
    rintro ⟨r, new, hr, -⟩
    rw [hnone] at hr
    cases hr
  · rename_i r hr
    split
    · rename_i old new hold hnew
      simp only
      generalize hd : (((h.outMem old).withOldPath.withState .synReceived).withOtherPath new) = dcb
      by_cases heq : old = o
      · subst heq
        have hstate : ((h.setOut old dcb).outMem old).state = .synReceived := by
          rw [Host.setOut_outMem_self, ← hd]
          rfl
        refine ⟨⟨⟨Nat.le_refl _, ?_, fun _ hn => Or.inl hn, Or.inr ⟨?_, fun _ => Or.inl ⟨r, hold⟩⟩⟩,
          ?_⟩, fun _ => hstate, fun hno => absurd ⟨r, new, hr, hold, hnew⟩ hno⟩
        · rw [Host.setOut_outMem_self, ← hd]
          exact id
        · rw [hstate]
          nofun
        · rw [Host.setOut_outMem_self, ← hd]
          rfl
      · have hq := Quiet.setOut_of_ne (w := w) h heq dcb
        refine ⟨hq.controls, ?_, fun _ => hq.state⟩
        rintro ⟨r', new', hr', hold', -⟩
        rw [hr] at hr'
        cases hr'
        exact absurd (Option.some.inj (hold.symm.trans hold')) heq
    · rename_i hnone
      refine ⟨(Quiet.refl w o h).controls, ?_, fun _ => rfl⟩
      rintro ⟨r', new, hr', hold, hnew⟩
      rw [hr] at hr'
      cases hr'
      exact absurd hnew (hnone o new hold)

/-! ## A reconfiguration -/

/-- The messages of the reconfiguration of session `ss`, with state transfer if `w`. -/
structure ControlMessage.Belongs (m : ControlMessage) (ss : TcpSession) (w : Prop) : Prop where
  super : m.super = ss
  leftSS : m.leftSS = ss
  withState : m.WithState ↔ w

/-- The message goes through the output handlers. -/
structure ControlPacket.Handled (E : Env) (pkt : ControlPacket) : Prop where
  port : pkt.dest = dyscoControlPort ∨ pkt.source = dyscoControlPort
  not_mgm : pkt.dest ≠ dyscoMgmPort
  long : controlMinLen ≤ (ntohs pkt.udpLen).toNat
  local_addr : pkt.saddr ∈ E.ifaddrs

/-- A `DYSCO_SYN_ACK` about block `o` leaves the right anchor. -/
structure AnnouncesAt (E : Env) (h : Host) (pkt : ControlPacket) (o : Nat) : Prop
    extends pkt.Handled E where
  mtype : pkt.msg.mtype = .synAck
  rightA : pkt.saddr = pkt.msg.rightA
  block : Announced E h pkt o

/-- What happens at an anchor: messages enter and leave, and segments of the session leave. -/
inductive AnchorEvent where
  | enters (pkt : ControlPacket)
  | leaves (pkt : ControlPacket)
  | segment (skb : SkBuff)

/-- What an event does, where `o` is the block of the old path. -/
def anchorStep (E : Env) (o : Nat) (h : Host) : AnchorEvent → Host
  | .enters pkt => (controlInput E h pkt).1
  | .leaves pkt => (controlOutput E h pkt).1
  | .segment skb => (outTranslate E h skb o).1

/-- The events of the reconfiguration. -/
def AnchorEvent.Belongs (ss : TcpSession) (w : Prop) : AnchorEvent → Prop
  | .enters pkt | .leaves pkt => pkt.msg.Belongs ss w
  | .segment _ => True

/-- A `DYSCO_SYN_ACK` leaves the right anchor although its block has been established, or, where
one host is both anchors, is in `DYSCO_SYN_SENT`. -/
def AnchorEvent.Repeats (E : Env) (h : Host) (o : Nat) : AnchorEvent → Prop
  | .leaves pkt => AnnouncesAt E h pkt o ∧
      ((h.outMem o).state = .established ∨ (h.outMem o).state = .synSent)
  | .enters _ | .segment _ => False

/-! ### The message that leaves -/

/-- Only two states come after the one in which a SYN has been received. -/
theorem advances_synReceived {s : ConnState} (hs : ¬ s.Advances .synReceived) :
    s = .established ∨ s = .synSent := by
  cases s with
  | onePath => exact absurd (Or.inr (Or.inl rfl)) hs
  | synSent => exact Or.inr rfl
  | synReceived => exact absurd (Or.inl rfl) hs
  | established => exact Or.inl rfl

theorem not_advances_synReceived {s : ConnState} (hs : s = .established ∨ s = .synSent) :
    ¬ s.Advances .synReceived := by
  rcases hs with rfl | rfl <;> decide

/-- **A message that leaves takes the block back exactly if** it is a `DYSCO_SYN_ACK` sent
again. -/
theorem controlOutput_moves (ho : o < h.brk) {pkt : ControlPacket} (hw : w → pkt.msg.WithState)
    (hone : h.lookupReconfig E pkt.msg.super = none → (h.outMem o).state = .onePath) :
    Controls w o h (controlOutput E h pkt).1 ∧
      ((h.outMem o).state.Advances ((controlOutput E h pkt).1.outMem o).state ↔
        ¬ (AnchorEvent.leaves pkt).Repeats E h o) := by
  have hforward : ∀ h' : Host, Forward w o h h' → ¬ AnnouncesAt E h pkt o →
      Controls w o h h' ∧ ((h.outMem o).state.Advances (h'.outMem o).state ↔
        ¬ (AnchorEvent.leaves pkt).Repeats E h o) :=
    fun h' hf hno => ⟨hf.toControls, fun _ hr => hno hr.1, fun _ => hf.advances⟩
  have hq := (Quiet.refl w o h).forward
  rw [controlOutput]
  split
  · rename_i hport
    exact hforward h hq fun ha => hport (ha.port.imp_right Or.inl)
  · rename_i hport
    split
    · rename_i hlen
      exact hforward h hq fun ha => absurd ha.long (Nat.not_le_of_lt hlen)
    · rename_i hlen
      split
      · rename_i haddr
        exact hforward h hq fun ha => haddr ha.local_addr
      · rename_i haddr
        split
        · rename_i hmgm
          exact hforward _ (ctlSaveRcvWindow_quiet h pkt.msg).forward fun ha => ha.not_mgm hmgm
        · rename_i hmgm
          split
          · rename_i hm
            exact hforward _ (controlOutputSyn_forward ho hw hone) fun ha =>
              nomatch hm.symm.trans ha.mtype
          · rename_i hm
            split
            · rename_i hright
              obtain ⟨hmoves, hyes, hno⟩ := replaceCbRightA_moves (E := E) (w := w) (o := o) h pkt
              refine ⟨hmoves, ?_⟩
              by_cases hann : Announced E h pkt o
              · rw [hyes hann]
                have hat : AnnouncesAt E h pkt o := by
                  refine ⟨⟨?_, hmgm, Nat.le_of_not_lt hlen, not_not.mp haddr⟩, hm, hright, hann⟩
                  rcases not_not.mp hport with hd | hs | hd
                  · exact Or.inl hd
                  · exact Or.inr hs
                  · exact absurd hd hmgm
                exact ⟨fun ha hr => not_advances_synReceived hr.2 ha,
                  fun hr => by_contra fun ha => hr ⟨hat, advances_synReceived ha⟩⟩
              · rw [hno hann]
                exact ⟨fun _ hr => hann hr.1.block, fun _ => ConnState.Advances.refl _⟩
            · rename_i hright
              exact hforward h hq fun ha => hright ha.rightA
          · rename_i hm
            exact hforward _ (ackOut_forward h pkt) fun ha => nomatch hm.symm.trans ha.mtype
          all_goals
            rename_i hm
            exact hforward h hq fun ha => nomatch hm.symm.trans ha.mtype

/-! ### The reconfiguration block stays filed -/

/-- A search for a reconfiguration block only reads keys. -/
theorem lookupReconfig_setRcb (h : Host) {r : Nat} {d : CbReconfig}
    (hd : d.super = (h.rcbMem r).super) (ss : TcpSession) :
    (h.setRcb r d).lookupReconfig E ss = h.lookupReconfig E ss := by
  apply BucketTable.lookup_congr
  intro m _
  by_cases hm : m = r
  · rw [hm, Host.setRcb_rcbMem_self, hd]
  · rw [Host.setRcb_rcbMem_of_ne _ hm]

/-- The reconfiguration of a session is found again. -/
theorem SameReconfig.lookup (hs : SameReconfig h h') (ss : TcpSession) :
    h'.lookupReconfig E ss = h.lookupReconfig E ss := by
  rw [Host.lookupReconfig, hs.rcbMem, hs.hashReconfig]
  rfl

theorem replaceCbLeftA_lookup (h : Host) (pkt : ControlPacket) (r : Nat) (ss : TcpSession) :
    (replaceCbLeftA h pkt r).1.lookupReconfig E ss = h.lookupReconfig E ss := by
  rw [replaceCbLeftA]
  split
  · rfl
  · refine lookupReconfig_setRcb _ ?_ ss
    rfl

theorem synAckIn_lookup (h : Host) (pkt : ControlPacket) (ss : TcpSession) :
    (synAckIn E h pkt).1.lookupReconfig E ss = h.lookupReconfig E ss := by
  simp only [synAckIn]
  repeat' split
  all_goals rfl

theorem ackIn_lookup (h : Host) (pkt : ControlPacket) (ss : TcpSession) :
    (ackIn E h pkt).1.lookupReconfig E ss = h.lookupReconfig E ss := by
  simp only [ackIn]
  repeat' split
  all_goals rfl

theorem stateTransferredIn_lookup (h : Host) (pkt : ControlPacket) (ss : TcpSession) :
    (stateTransferredIn E h pkt).1.lookupReconfig E ss = h.lookupReconfig E ss := by
  rw [stateTransferredIn]
  split
  · rfl
  · rename_i r _
    split
    · exact replaceCbLeftA_lookup h pkt r ss
    · repeat' split
      all_goals rfl

theorem startLeftA_lookup (h : Host) (pkt : ControlPacket) (r old : Nat) (ss : TcpSession) :
    (startLeftA E h pkt r old).2.lookupReconfig E ss = h.lookupReconfig E ss := by
  rw [startLeftA]
  cases hkz : h.kzallocOut with
  | mk a h1 =>
    cases a with
    | none =>
      rw [Host.kzallocOut] at hkz
      split at hkz <;> cases hkz
      rfl
    | some p =>
      obtain ⟨rfl, rfl⟩ := Host.kzallocOut_some hkz
      simp only
      generalize arp E pkt.tos _ = dcb
      generalize h2_eq : ((h.bump.setOut h.brk default).setRcb r _).setOut h.brk _ = h2
      have hlook : h2.lookupReconfig E ss = h.lookupReconfig E ss := by
        rw [← h2_eq]
        refine (lookupReconfig_setRcb (h.bump.setOut h.brk default) ?_ ss)
        rfl
      cases hrev : insertCbOutReverse E h2 h.brk true with
      | mk q h4 =>
        have R := insertCbOutReverse_made hrev
        have h4s : SameReconfig h2 h4 := ⟨R.rcbMem, R.hashReconfig⟩
        have hsame :=
          markOld_same (h4.setOut h.brk ((h4.outMem h.brk).withDcbIn q)) pkt.msg old h.brk
        have hs : SameReconfig h2
            ((h4.setOut h.brk ((h4.outMem h.brk).withDcbIn q)).markOld pkt.msg old h.brk) :=
          h4s.trans ⟨hsame.2.1, hsame.2.2.2.2⟩
        exact (hs.lookup ss).trans hlook

/-- A message that enters leaves a reconfiguration block filed, and without one does nothing to
the block of the old path. -/
theorem controlInput_filed (ho : o < h.brk) {pkt : ControlPacket} (hw : w → pkt.msg.WithState) :
    (h.lookupReconfig E pkt.msg.super ≠ none →
        (controlInput E h pkt).1.lookupReconfig E pkt.msg.super ≠ none) ∧
      (h.lookupReconfig E pkt.msg.super = none → Quiet w o h (controlInput E h pkt).1) := by
  have hq := Quiet.refl w o h
  rw [controlInput]
  split
  · exact ⟨id, fun _ => hq⟩
  · split
    · exact ⟨id, fun _ => hq⟩
    · split
      · refine ⟨fun hs => ?_, fun _ => synIn_quiet ho hw⟩
        obtain ⟨r, hr⟩ := Option.ne_none_iff_exists'.mp hs
        simp only [synIn, hr]
        exact Option.some_ne_none r
      · exact ⟨by rw [synAckIn_lookup]; exact id, fun _ => synAckIn_quiet h pkt⟩
      · refine ⟨by rw [ackIn_lookup]; exact id, fun hnone => ?_⟩
        simp only [ackIn, hnone]
        exact hq
      · refine ⟨by rw [stateTransferredIn_lookup]; exact id, fun hnone => ?_⟩
        simp only [stateTransferredIn, hnone]
        exact hq
      all_goals exact ⟨id, fun _ => hq⟩

/-- A block made for a `DYSCO_SYN` that leaves is found under the left session. -/
theorem RcbInserted.lookup {pkt pkt' : ControlPacket} {r : Nat} {sport dport : U16}
    (R : RcbInserted E h h' pkt pkt' r sport dport) :
    h'.lookupReconfig E pkt.msg.leftSS = some r := by
  have hkey : (h'.rcbMem r).super = pkt.msg.leftSS := by
    rw [R.rcbMem, Function.update_self]
    rfl
  rw [Host.lookupReconfig, R.hashReconfig,
    BucketTable.lookup_cons (f := fun r => (h'.rcbMem r).super) hkey, if_pos rfl]

/-- **A `DYSCO_SYN` that leaves the left anchor** has its session filed, or nothing has happened to
the block. -/
theorem controlOutputSyn_filed {pkt : ControlPacket} (hleft : pkt.msg.leftSS = pkt.msg.super) :
    (controlOutputSyn E h pkt).2.1.lookupReconfig E pkt.msg.super ≠ none ∨
      (h.lookupReconfig E pkt.msg.super = none ∧ Quiet w o h (controlOutputSyn E h pkt).2.1) := by
  have hins : ∀ {pkt1 pkt2 : ControlPacket} {r : Nat} {h1 : Host},
      pkt1.msg.leftSS = pkt.msg.leftSS → insertCbControl E h pkt1 = (some r, h1, pkt2) →
      h1.lookupReconfig E pkt.msg.super = some r := by
    intro pkt1 pkt2 r h1 heq hr
    obtain ⟨sport, dport, R⟩ := insertCbControl_some hr
    rw [← hleft, ← heq]
    exact R.lookup
  rw [controlOutputSyn]
  simp only
  split
  · split
    · rename_i r hr
      rw [hr]
      exact Or.inl nofun
    · rename_i hnone
      split
      · exact Or.inr ⟨hnone, Quiet.refl w o h⟩
      · rename_i old _
        have hq := insertCbControl_quiet (E := E) (w := w) (o := o) h
          (pkt.announce (h.outMem old) (h.inOf (h.outMem old)))
        split
        · rename_i heq
          rw [heq] at hq
          exact Or.inr ⟨hnone, hq⟩
        · rename_i r h1 pkt1 heq
          have hfiled : h1.lookupReconfig E pkt.msg.super = some r := by
            refine hins ?_ heq
            rfl
          simp only [startLeftA_lookup, hfiled]
          exact Or.inl nofun
  · split
    · rename_i hagain
      cases hr : h.lookupReconfig E pkt.msg.super with
      | none =>
        rw [hr] at hagain
        exact absurd hagain Bool.false_ne_true
      | some r => exact Or.inl nofun
    · rename_i hagain
      have hq := insertCbControl_quiet (E := E) (w := w) (o := o) h pkt
      split
      · rename_i h1 pkt1 heq
        rw [heq] at hq
        simp only
        rw [insertCbControl] at heq
        split at heq
        · rename_i h2 hkm
          rw [Host.kmalloc] at hkm
          split at hkm <;> cases hkm
          cases heq
          by_cases hnone : h.lookupReconfig E pkt.msg.super = none
          · exact Or.inr ⟨hnone, hq⟩
          · exact Or.inl hnone
        · cases heq
      · rename_i r h1 pkt1 heq
        have hsame :=
          (sameReconfig_controlInsertOut (E := E) h1 pkt1 r).lookup (E := E) pkt.msg.super
        simp only [hsame, hins rfl heq]
        exact Or.inl nofun

/-- A message that leaves leaves a reconfiguration block filed, and does nothing to the block
of the old path unless it finds one or files one. -/
theorem controlOutput_filed {pkt : ControlPacket} (hleft : pkt.msg.leftSS = pkt.msg.super) :
    (controlOutput E h pkt).1.lookupReconfig E pkt.msg.super ≠ none ∨
      (h.lookupReconfig E pkt.msg.super = none ∧ Quiet w o h (controlOutput E h pkt).1) := by
  have hsame : ∀ h' : Host, h'.lookupReconfig E pkt.msg.super = h.lookupReconfig E pkt.msg.super →
      (h.lookupReconfig E pkt.msg.super = none → Quiet w o h h') →
      h'.lookupReconfig E pkt.msg.super ≠ none ∨
        (h.lookupReconfig E pkt.msg.super = none ∧ Quiet w o h h') := by
    intro h' heq hquiet
    by_cases hnone : h.lookupReconfig E pkt.msg.super = none
    · exact Or.inr ⟨hnone, hquiet hnone⟩
    · rw [heq]
      exact Or.inl hnone
  have hstay := hsame h rfl fun _ => Quiet.refl w o h
  rw [controlOutput]
  split
  · exact hstay
  · split
    · exact hstay
    · split
      · exact hstay
      · split
        · refine hsame _ ?_ fun _ => ctlSaveRcvWindow_quiet h pkt.msg
          simp only [ctlSaveRcvWindow]
          repeat' split
          all_goals rfl
        · split
          · exact controlOutputSyn_filed hleft
          · split
            · refine hsame _ ?_ fun hnone => ?_
              · simp only [replaceCbRightA]
                repeat' split
                all_goals rfl
              · simp only [replaceCbRightA, hnone]
                exact Quiet.refl w o h
            · exact hstay
          · refine hsame _ ?_ fun hnone => ?_
            · simp only [ackOut]
              repeat' split
              all_goals first
                | rfl
                | exact replaceCbLeftA_lookup h pkt _ _
            · simp only [ackOut, hnone]
              exact Quiet.refl w o h
          all_goals exact hstay

end Dysco
