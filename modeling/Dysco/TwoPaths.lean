import Dysco.Connected
import Dysco.HostRuns
import Dysco.SeqCutoff

/-! # Sessions with two paths: the runs of a host

Control messages keep the blocks connected as well as packets do.  So it is an invariant of every
run of a host from one whose tables are empty, with packets and control messages in any order, and
the data path never finds blocks half connected (`pathsSound_ran`). -/
namespace Dysco
open EventRuns

variable {E : Env} {h g : Host} {p q : Nat} {U V : Set Nat}

/-! ## Messages that enter a host -/

theorem CbOut.kept_withState (d : CbOut) {state : ConnState} (hne : state ≠ .onePath) :
    d.Kept (d.withState state) := .of_state rfl hne id id

theorem computeDeltasIn_dcbOut (dcb : CbIn) (old : CbOut) (oldIn : CbIn) (rcb : CbReconfig) :
    (computeDeltasIn dcb old oldIn rcb).dcbOut = dcb.dcbOut := by
  rw [computeDeltasIn]
  simp only
  split <;> split <;> rfl

/-- The right anchor marks the new input block only when its output block has the old one as its
other path. -/
theorem controlConfigRightA_connected (hp : h.Connected U) (hqU : q ∉ U) (hpU : p ∉ U) {r : Nat}
    {m : ControlMessage} (hback : (h.inMem q).dcbOut = some p) {ok : Bool}
    (hc : controlConfigRightA E h r m q p = (ok, g)) :
    g.Connected U ∧ g.brk = h.brk ∧
      (ok = true → (g.inMem q).dcbOut = some p ∧ (g.outMem p).OnSomePath) := by
  rw [controlConfigRightA] at hc
  split at hc
  · cases hc
    exact ⟨(hp.kfree q).removeReconfig r, rfl, fun hf => Bool.noConfusion hf⟩
  · rename_i old hold
    simp only at hc
    generalize hi : CbIn.withTwoPaths _ true = i at hc
    generalize computeDeltasOut ((h.setIn q i).outMem p) (h.outMem old) (h.rcbMem r) = d at hc
    have hout : i.dcbOut = some p := by
      rw [← hi]
      exact (computeDeltasIn_dcbOut _ _ _ _).trans hback
    generalize ({ h.rcbMem r with oldDcb := some old, newDcb := some p } : CbReconfig) = rcb at hc
    have hset := ((hp.setIn_new hqU i).setRcb r rcb).setOut_new hpU (d.withOtherPath old)
    have hin : (h.setIn q i).inMem q = i := Host.setIn_inMem_self ..
    have hne : p ≠ old := by
      rintro rfl
      exact hpU (hp.out_mem p (Or.inl (h.lookupOut_eq_some hold).1))
    have hpath : (d.withOtherPath old).OnSomePath := Or.inr (Option.some_ne_none old)
    split at hc <;> cases hc
    · refine ⟨hset.setOut_kept (.of_same rfl rfl rfl rfl), rfl, fun _ => ⟨?_, ?_⟩⟩
      · exact (congrArg CbIn.dcbOut hin).trans hout
      · rw [Host.setOut_outMem_of_ne _ hne, Host.setOut_outMem_self]
        exact hpath
    · refine ⟨hset, rfl, fun _ => ⟨(congrArg CbIn.dcbOut hin).trans hout, ?_⟩⟩
      rw [Host.setOut_outMem_self]
      exact hpath

/-- At another host neither block gets another path. -/
theorem controlConfigMiddle_connected (hp : h.Connected U) (hUV : U ⊆ V) (hqU : q ∉ U) (hpU : p ∉ U)
    (hqV : q ∈ V) (hpV : p ∈ V) (r : Nat) (hback : (h.inMem q).dcbOut = some p)
    (hlink : (h.outMem p).dcbIn = some q) (hone : (h.inMem q).twoPaths = false)
    (hnew : (h.outMem p).otherPath = none) :
    ((controlConfigMiddle E h r q p).insertIn E q).Connected V ∧
      ((controlConfigMiddle E h r q p).insertIn E q).brk = h.brk := by
  obtain ⟨i, hmade, hout, htwo⟩ := controlConfigMiddle_made (E := E) h r q p
  generalize hd : ({ h.outMem p with sackOk := (h.rcbMem r).sackOk.getLsbD 0 } : CbOut) = d at hmade
  have hin : d.dcbIn = (h.outMem p).dcbIn := by rw [← hd]
  have hother : d.otherPath = (h.outMem p).otherPath := by rw [← hd]
  have hset := ((hp.setIn_new hqU i).setOut_new hpU d).mono hUV
  have hinMem : ((h.setIn q i).setOut p d).inMem q = i := Host.setIn_inMem_self ..
  have houtMem : ((h.setIn q i).setOut p d).outMem p = d := Host.setOut_outMem_self ..
  have hbrk : ((h.setIn q i).setOut p d).brk = h.brk := rfl
  rw [hmade]
  generalize (h.setIn q i).setOut p d = g at hset hinMem houtMem hbrk ⊢
  have hready : Host.Connected.Ready g V p := by
    refine ⟨hpV, fun hne => ?_, fun x hx => ?_⟩
    · rw [houtMem, hother] at hne
      exact absurd hnew hne
    · rw [houtMem, hin, hlink] at hx
      cases hx
      exact ⟨hqV, by rw [hinMem, hout, hback]⟩
  refine ⟨(hset.insertOut hready).insertIn hqV (fun x hx => ?_) (fun ht => ?_), hbrk⟩
  · rw [Host.insertOut_inMem, hinMem, hout, hback] at hx
    cases hx
    exact hpV
  · rw [Host.insertOut_inMem, hinMem, htwo, hone] at ht
    cases ht

/-- The blocks of the new path for a `DYSCO_SYN` that arrives. -/
theorem controlReconfigIn_grown (hp : h.Connected h.allocated) (pkt : ControlPacket) (r : Nat) :
    Grown h (controlReconfigIn E h pkt r).2 := by
  rw [controlReconfigIn]
  obtain hk | hk := h.kmalloc_cases
  · rw [hk]
    exact ⟨(hp.bump.removeReconfig r).mono (Host.allocated_mono (Nat.le_succ _)), Nat.le_succ _⟩
  · rw [hk]
    simp only
    generalize hi : (h.bump.rcbMem r).newPathIn (h.bump.inMem h.brk) pkt.skbIif = i
    have hone : i.twoPaths = false := by rw [← hi]; rfl
    have hp1 := hp.bump.setIn_new h.brk_notMem i
    have hbrk : (h.bump.setIn h.brk i).brk = h.brk + 1 := rfl
    have hself := h.bump.setIn_inMem_self (p := h.brk) i
    generalize h.bump.setIn h.brk i = g at hp1 hbrk hself ⊢
    have hnew : g.brk ∉ h.allocated := by
      rw [hbrk]
      exact Nat.not_lt.mpr (Nat.le_succ _)
    rw [buildCbInReverse]
    obtain hk | hk := g.kzallocOut_cases
    · rw [hk]
      have hle : h.brk ≤ g.brk + 1 := by omega
      exact ⟨((hp1.bump.kfree _).removeReconfig r).mono (Host.allocated_mono hle), hle⟩
    · rw [hk]
      simp only
      generalize hd : (h.bump.rcbMem r).reverseOut pkt = d
      have hother : d.otherPath = none := by rw [← hd]; rfl
      generalize hk0 : (g.bump.setOut g.brk default).setOut g.brk d = k
      have hp2 : k.Connected h.allocated := by
        rw [← hk0]
        exact (hp1.bump.setOut_new hnew default).setOut_new hnew d
      have hbrk' : k.brk = h.brk + 2 := by
        rw [← hk0]
        exact congrArg (· + 1) hbrk
      have hselfO : k.outMem g.brk = d := by
        rw [← hk0, Host.setOut_outMem_self]
      have hselfI : k.inMem h.brk = i := by
        rw [← hk0]
        exact hself
      have hp3 := (hp2.setOut_new hnew ((k.outMem g.brk).withDcbIn (some h.brk))).setIn_new
        h.brk_notMem ((k.inMem h.brk).withDcbOut g.brk)
      have hmadeO := k.setOut_outMem_self (p := g.brk) ((k.outMem g.brk).withDcbIn (some h.brk))
      have hmadeI := (k.setOut g.brk ((k.outMem g.brk).withDcbIn (some h.brk))).setIn_inMem_self
        (p := h.brk) ((k.inMem h.brk).withDcbOut g.brk)
      rw [Host.setOut_inMem]
      generalize hk1 : (k.setOut g.brk ((k.outMem g.brk).withDcbIn (some h.brk))).setIn h.brk
        ((k.inMem h.brk).withDcbOut g.brk) = k1 at hp3 hmadeI ⊢
      have hmadeO : k1.outMem g.brk = (k.outMem g.brk).withDcbIn (some h.brk) := by
        rw [← hk1]
        exact hmadeO
      have hbrk1 : k1.brk = h.brk + 2 := by
        rw [← hk1]
        exact hbrk'
      have hback : (k1.inMem h.brk).dcbOut = some g.brk := by rw [hmadeI]; rfl
      have hle : h.brk ≤ k1.brk := by omega
      have hsub : h.allocated ⊆ k1.allocated := Host.allocated_mono hle
      have hqV : h.brk ∈ k1.allocated := by exact (by omega : h.brk < k1.brk)
      have hpV : g.brk ∈ k1.allocated := by exact (by omega : g.brk < k1.brk)
      split
      · cases hc : controlConfigRightA E k1 r pkt.msg h.brk g.brk with
        | mk ok k2 =>
          obtain ⟨hp4, hbrk2, hpath⟩ :=
            controlConfigRightA_connected hp3 h.brk_notMem hnew hback hc
          have hp5 : k2.Connected k2.allocated :=
            hp4.mono (hsub.trans (Host.allocated_mono hbrk2.ge))
          cases ok with
          | false => exact ⟨hp5, hle.trans hbrk2.ge⟩
          | true =>
            obtain ⟨hback', hpath⟩ := hpath rfl
            refine ⟨hp5.insertIn (by exact hqV.trans_eq hbrk2.symm) (fun x hx => ?_) fun _ =>
              ⟨_, hback', hpath⟩,
              hle.trans hbrk2.ge⟩
            rw [hback'] at hx
            cases hx
            exact hpV.trans_eq hbrk2.symm
      · obtain ⟨hp4, hbrk2⟩ :=
          controlConfigMiddle_connected (E := E) hp3 hsub h.brk_notMem hnew hqV hpV r
          hback (by rw [hmadeO]; rfl) (by rw [hmadeI, hselfI]; exact hone)
          (by rw [hmadeO, hselfO]; exact hother)
        exact ⟨hp4.mono (Host.allocated_mono hbrk2.ge), hle.trans hbrk2.ge⟩

theorem synIn_grown (hp : h.Connected h.allocated) (pkt : ControlPacket) :
    Grown h (synIn E h pkt).2 := by
  rw [synIn]
  split
  · exact ⟨hp, le_rfl⟩
  · rw [insertRcbControlInput]
    have hle : h.allocated ⊆ h.bump.allocated := Host.allocated_mono (Nat.le_succ _)
    obtain hk | hk := h.kmalloc_cases
    · rw [hk]
      exact ⟨hp.bump.mono hle, Nat.le_succ _⟩
    · rw [hk]
      simp only
      generalize (h.bump.rcbMem h.brk).ofSynIn pkt = rcb
      have hmade := ((hp.bump.setRcb h.brk rcb).insertReconfig (E := E) h.brk).mono hle
      have hnext := controlReconfigIn_grown (E := E) hmade pkt h.brk
      exact ⟨hnext.connected, (Nat.le_succ _).trans hnext.brk⟩

/-- The left anchor's switch. -/
theorem replaceCbLeftA_connected (hp : h.Connected U) (pkt : ControlPacket) (r : Nat) :
    (replaceCbLeftA h pkt r).1.Connected U ∧ (replaceCbLeftA h pkt r).1.brk = h.brk := by
  rw [replaceCbLeftA]
  simp only
  split
  · exact ⟨hp, rfl⟩
  · rename_i old _
    refine ⟨(hp.setOut_kept ?_).setRcb r _, rfl⟩
    split
    · exact CbOut.kept_withState _ ConnState.noConfusion
    · exact .of_same rfl rfl rfl rfl

theorem synAckIn_connected (hp : h.Connected U) (pkt : ControlPacket) :
    (synAckIn E h pkt).1.Connected U ∧ (synAckIn E h pkt).1.brk = h.brk := by
  rw [synAckIn]
  split
  · split
    · exact ⟨hp, rfl⟩
    · simp only
      split
      · exact ⟨hp, rfl⟩
      · exact ⟨hp.setOut_kept (.of_same rfl rfl rfl rfl), rfl⟩
  · exact ⟨hp, rfl⟩

/-- The right anchor's switch. -/
theorem ackIn_connected (hp : h.Connected U) (pkt : ControlPacket) :
    (ackIn E h pkt).1.Connected U ∧ (ackIn E h pkt).1.brk = h.brk := by
  rw [ackIn]
  split
  · exact ⟨hp, rfl⟩
  · split
    · split
      · exact ⟨hp, rfl⟩
      · simp only
        split
        · exact ⟨hp, rfl⟩
        · split
          · exact ⟨hp, rfl⟩
          · split
            · exact ⟨hp, rfl⟩
            · exact ⟨hp.setOut_kept (.of_state rfl ConnState.noConfusion id id), rfl⟩
    · exact ⟨hp, rfl⟩

theorem stateTransferredIn_connected (hp : h.Connected U) (pkt : ControlPacket) :
    (stateTransferredIn E h pkt).1.Connected U ∧ (stateTransferredIn E h pkt).1.brk = h.brk := by
  rw [stateTransferredIn]
  split
  · exact ⟨hp, rfl⟩
  · rename_i r _
    split
    · exact replaceCbLeftA_connected hp pkt r
    · split
      · split
        · exact ⟨hp, rfl⟩
        · exact ⟨hp.setOut_kept (CbOut.kept_withState _ ConnState.noConfusion), rfl⟩
      · exact ⟨hp, rfl⟩

/-- **A control message enters the host.** -/
theorem controlInput_grown (hp : h.Connected h.allocated) (pkt : ControlPacket) :
    Grown h (controlInput E h pkt).1 := by
  have hstay : Grown h h := ⟨hp, le_rfl⟩
  rw [controlInput]
  split
  · exact hstay
  · split
    · exact hstay
    · cases pkt.msg.mtype with
      | syn => exact synIn_grown hp pkt
      | synAck =>
        obtain ⟨hc, hbrk⟩ := synAckIn_connected (E := E) hp pkt
        exact .of_brk hc hbrk
      | ack =>
        obtain ⟨hc, hbrk⟩ := ackIn_connected (E := E) hp pkt
        exact .of_brk hc hbrk
      | stateTransferred =>
        obtain ⟨hc, hbrk⟩ := stateTransferredIn_connected (E := E) hp pkt
        exact .of_brk hc hbrk
      | fin => exact hstay
      | ackAck => exact hstay
      | unknown code => exact hstay

/-! ## Messages that leave a host -/

/-- A host that only made a reconfiguration block. -/
theorem insertCbControl_grown (hp : h.Connected h.allocated) (pkt : ControlPacket) :
    Grown h (insertCbControl E h pkt).2.1 ∧ (insertCbControl E h pkt).2.1.hashOut = h.hashOut := by
  rw [insertCbControl]
  have hle : h.allocated ⊆ h.bump.allocated := Host.allocated_mono (Nat.le_succ _)
  obtain hk | hk := h.kmalloc_cases
  · rw [hk]
    exact ⟨⟨hp.bump.mono hle, Nat.le_succ _⟩, rfl⟩
  · rw [hk]
    exact ⟨⟨((hp.bump.allocateLocalPort.setRcb h.brk _).insertReconfig h.brk).mono hle,
      Nat.le_succ _⟩, rfl⟩

/-- The left anchor marks the old block before its input block gets two paths. -/
theorem markOld_connected (hp : h.Connected U) (m : ControlMessage) {old : Nat}
    (hold : h.Tabled old)
    (p : Nat) : (h.markOld m old p).Connected U ∧ (h.markOld m old p).brk = h.brk := by
  rw [Host.markOld]
  have hp1 : (h.setOut old (h.outMem old).withOldPath).Connected U :=
    hp.setOut_kept ⟨rfl, id, fun _ => Or.inl rfl⟩
  have hmark1 : ((h.setOut old (h.outMem old).withOldPath).outMem old).oldPath = true := by
    rw [Host.setOut_outMem_self]
    rfl
  generalize hg : h.setOut old (h.outMem old).withOldPath = g at hp1 hmark1
  have hg' : g.Tabled old ∧ g.brk = h.brk := by
    rw [← hg]
    exact ⟨hold, rfl⟩
  generalize hk : (if m.WithState then g.setOut old (g.outMem old).withStateT else g) = k
  have hp2 : k.Connected U ∧ (k.outMem old).oldPath = true ∧ k.Tabled old ∧ k.brk = h.brk := by
    rw [← hk]
    split
    · refine ⟨hp1.setOut_kept (.of_same rfl rfl rfl rfl), ?_, hg'⟩
      rw [Host.setOut_outMem_self]
      exact hmark1
    · exact ⟨hp1, hmark1, hg'⟩
  obtain ⟨hp2, hmark2, htab, hbrk⟩ := hp2
  have hlast : ∀ {k' : Host}, k'.Connected U → k'.brk = h.brk →
      (k'.setOut old (((k'.outMem old).withState .synSent).withOtherPath p)).Connected U ∧
        (k'.setOut old (((k'.outMem old).withState .synSent).withOtherPath p)).brk = h.brk :=
    fun hc hb => ⟨hc.setOut_kept (.of_state rfl ConnState.noConfusion
      (fun _ => Option.some_ne_none p) id), hb⟩
  cases hin : (k.outMem old).dcbIn with
  | none => exact hlast hp2 hbrk
  | some oldIn =>
    have hback := (hp2.linked old oldIn htab hin).2
    exact hlast (hp2.setIn_kept rfl fun _ => Or.inr ⟨old, hback, Or.inl hmark2⟩) hbrk

/-- What `startLeftA` does before it turns to the blocks of the old path. -/
theorem startLeftA_grown (hp : h.Connected h.allocated) (pkt : ControlPacket) (r : Nat) {old : Nat}
    (hold : h.hashOut.Holds old) : Grown h (startLeftA E h pkt r old).2 := by
  rw [startLeftA]
  have hle : h.allocated ⊆ h.bump.allocated := Host.allocated_mono (Nat.le_succ _)
  obtain hk | hk := h.kzallocOut_cases
  · rw [hk]
    exact ⟨hp.bump.mono hle, Nat.le_succ _⟩
  · rw [hk]
    simp only
    generalize hrcb : ({ (h.bump.setOut h.brk default).rcbMem r with oldDcb := some old } :
      CbReconfig) = rcb
    generalize hd :
      (arp E pkt.tos (((h.bump.setOut h.brk default).setRcb r rcb).rcbMem r).newLeft).withOtherPath
      old = d
    have hpath : d.OnSomePath := by
      rw [← hd]
      exact Or.inr (Option.some_ne_none old)
    have hset :=
      (((hp.bump.setOut_new h.brk_notMem default).setRcb r rcb).setOut_new h.brk_notMem d).mono hle
    have hself := ((h.bump.setOut h.brk default).setRcb r rcb).setOut_outMem_self (p := h.brk) d
    have hbrk : (((h.bump.setOut h.brk default).setRcb r rcb).setOut h.brk d).brk = h.brk + 1 := rfl
    have htab : (((h.bump.setOut h.brk default).setRcb r rcb).setOut h.brk d).hashOut =
        h.hashOut := rfl
    generalize ((h.bump.setOut h.brk default).setRcb r rcb).setOut h.brk d =
      g at hset hself hbrk htab ⊢
    have hU : h.bump.allocated = g.allocated := by rw [Host.allocated, Host.allocated, hbrk]; rfl
    rw [hU] at hset
    cases hi : insertCbOutReverse E g h.brk true with
    | mk q k =>
      have hrev := insertCbOutReverse_connected hset (by omega) (fun _ => by rwa [hself]) hi
      have hlink := hrev.connected.setOut_withDcbIn hrev.named
      have hhold : k.Tabled old := by
        rw [hrev.tabled, Host.Tabled, htab]
        exact Or.inl hold
      obtain ⟨hmark, hbrk'⟩ := markOld_connected hlink pkt.msg hhold h.brk
      have hle' : h.brk ≤ k.brk := (Nat.le_of_lt (by omega)).trans hrev.brk
      have hlast : Grown k ((k.setOut h.brk ((k.outMem h.brk).withDcbIn q)).markOld pkt.msg old
          h.brk) :=
        .of_brk hmark hbrk'
      exact ⟨hlast.connected, hle'.trans hlast.brk⟩

theorem controlInsertOut_grown (hp : h.Connected h.allocated) (pkt : ControlPacket) (r : Nat) :
    Grown h (controlInsertOut E h pkt r) := by
  rw [controlInsertOut]
  have hle : h.allocated ⊆ h.bump.allocated := Host.allocated_mono (Nat.le_succ _)
  obtain hk | hk := h.kzallocOut_cases
  · rw [hk]
    exact ⟨hp.bump.mono hle, Nat.le_succ _⟩
  · rw [hk]
    simp only
    generalize hd : arp E pkt.tos _ = d
    have hempty : d.otherPath = none ∧ d.dcbIn = none := by
      rw [← hd, arp, Host.setOut_outMem_self]
      exact ⟨rfl, rfl⟩
    have hset := ((hp.bump.setOut_new h.brk_notMem default).setOut_new h.brk_notMem d).mono hle
    have hready : Host.Connected.Ready ((h.bump.setOut h.brk default).setOut h.brk d)
        h.bump.allocated h.brk := by
      refine .made (Nat.lt_succ_self _) ?_ ?_ <;> rw [Host.setOut_outMem_self]
      · exact hempty.1
      · exact hempty.2
    have hmade := insertCbOut_grown (E := E) hset hready
    have hle' : h.brk ≤
        (insertCbOut E ((h.bump.setOut h.brk default).setOut h.brk d) h.brk false).brk :=
      (Nat.le_succ _).trans hmade.brk
    split
    · exact ⟨hmade.connected, hle'⟩
    · exact ⟨hmade.connected.setIn_kept rfl fun ht => Or.inl ht, hle'⟩

theorem controlOutputSyn_grown (hp : h.Connected h.allocated) (pkt : ControlPacket) :
    Grown h (controlOutputSyn E h pkt).2.1 := by
  have hstay : Grown h h := ⟨hp, le_rfl⟩
  rw [controlOutputSyn]
  simp only
  split
  · split
    · exact hstay
    · split
      · exact hstay
      · rename_i old hold
        generalize pkt.announce (h.outMem old) (h.inOf (h.outMem old)) = pkt'
        obtain ⟨hmade, htab⟩ := insertCbControl_grown (E := E) hp pkt'
        cases hc : insertCbControl E h pkt' with
        | mk o rest =>
          obtain ⟨g, pkt''⟩ := rest
          rw [hc] at hmade htab
          cases o with
          | none => exact hmade
          | some r =>
            have hhold : g.hashOut.Holds old := by
              rw [htab]
              exact (h.lookupOut_eq_some hold).1
            exact hmade.trans (startLeftA_grown hmade.connected pkt'' r hhold)
  · split
    · exact hstay
    · obtain ⟨hmade, -⟩ := insertCbControl_grown (E := E) hp pkt
      cases hc : insertCbControl E h pkt with
      | mk o rest =>
        obtain ⟨g, pkt''⟩ := rest
        rw [hc] at hmade
        cases o with
        | none => exact hmade
        | some r => exact hmade.trans (controlInsertOut_grown hmade.connected pkt'' r)

/-- The right anchor begins to use the new path. -/
theorem replaceCbRightA_connected (hp : h.Connected U) (pkt : ControlPacket) :
    (replaceCbRightA E h pkt).1.Connected U ∧ (replaceCbRightA E h pkt).1.brk = h.brk := by
  rw [replaceCbRightA]
  split
  · exact ⟨hp, rfl⟩
  · split
    · rename_i old new _ _
      exact ⟨hp.setOut_kept (.of_state rfl ConnState.noConfusion (fun _ => Option.some_ne_none new)
        fun _ => rfl), rfl⟩
    · exact ⟨hp, rfl⟩

theorem ackOut_connected (hp : h.Connected U) (pkt : ControlPacket) :
    (ackOut E h pkt).1.Connected U ∧ (ackOut E h pkt).1.brk = h.brk := by
  rw [ackOut]
  split
  · exact ⟨hp, rfl⟩
  · rename_i r _
    split
    · exact ⟨hp, rfl⟩
    · split
      · split
        · exact ⟨hp, rfl⟩
        · split
          · exact ⟨hp, rfl⟩
          · exact replaceCbLeftA_connected hp pkt r
      · exact ⟨hp, rfl⟩

theorem ctlSaveRcvWindow_connected (hp : h.Connected U) (m : ControlMessage) :
    (ctlSaveRcvWindow E h m).2.Connected U ∧ (ctlSaveRcvWindow E h m).2.brk = h.brk := by
  have htp : ∀ {g : Host} x my other, g.Connected U →
      (g.setOut x { g.outMem x with otherTp := some other, myTp := some my }).Connected U :=
    fun _ _ _ hg => hg.setOut_kept (.of_same rfl rfl rfl rfl)
  rw [ctlSaveRcvWindow]
  split
  · exact ⟨hp, rfl⟩
  · split
    · exact ⟨hp, rfl⟩
    · split
      · exact ⟨hp, rfl⟩
      · split
        · exact ⟨hp, rfl⟩
        · split
          · exact ⟨hp, rfl⟩
          · exact ⟨htp _ _ _ (htp _ _ _ hp), rfl⟩

/-- **A control message leaves the host.** -/
theorem controlOutput_grown (hp : h.Connected h.allocated) (pkt : ControlPacket) :
    Grown h (controlOutput E h pkt).1 := by
  have hstay : Grown h h := ⟨hp, le_rfl⟩
  rw [controlOutput]
  split
  · exact hstay
  · split
    · exact hstay
    · split
      · exact hstay
      · split
        · obtain ⟨hc, hbrk⟩ := ctlSaveRcvWindow_connected (E := E) hp pkt.msg
          exact .of_brk hc hbrk
        · cases pkt.msg.mtype with
          | syn => exact controlOutputSyn_grown hp pkt
          | synAck =>
            simp only
            split
            · obtain ⟨hc, hbrk⟩ := replaceCbRightA_connected (E := E) hp pkt
              exact .of_brk hc hbrk
            · exact hstay
          | ack =>
            obtain ⟨hc, hbrk⟩ := ackOut_connected (E := E) hp pkt
            exact .of_brk hc hbrk
          | fin => exact hstay
          | stateTransferred => exact hstay
          | ackAck => exact hstay
          | unknown code => exact hstay

/-! ## Runs -/

theorem Host.Loaded.connected (hl : h.Loaded) : h.Connected h.allocated := by
  have hnone : ∀ {t : BucketTable Nat} {p}, t.entries = [] → ¬ t.Holds p := by
    rintro t p ht ⟨b, hb⟩
    rw [ht] at hb
    cases hb
  have hnot : ∀ p, ¬ h.Tabled p := by
    rintro p (ho | hpen | htag)
    · exact hnone hl.out ho
    · exact hnone hl.pen hpen
    · exact hnone hl.tag htag
  exact
    { out_mem := fun p ht => absurd ht (hnot p)
      in_mem := fun q hq => absurd hq (hnone hl.inp)
      begun := fun p ht => absurd ht (hnot p)
      linked := fun p _ ht => absurd ht (hnot p)
      back_mem := fun q _ hq => absurd hq (hnone hl.inp)
      two := fun q hq => absurd hq (hnone hl.inp) }

theorem addPolicy_grown (hp : h.Connected h.allocated) (filter : SkBuff → Bool) (sc : ServiceChain)
    (made : Bool) : Grown h (addPolicy h filter sc made) := by
  have hle : h.allocated ⊆ h.bump.allocated := Host.allocated_mono (Nat.le_succ _)
  rw [addPolicy]
  obtain hk | hk := h.kmalloc_cases
  · rw [hk]
    exact ⟨hp.bump.mono hle, Nat.le_succ _⟩
  · rw [hk]
    have hset := ((hp.bump.setSc h.brk { sc with pos := (h.bump.scMem h.brk).pos }).mono hle)
    simp only
    split
    · exact ⟨{ hset with }, Nat.le_succ _⟩
    · exact ⟨hset.kfree _, Nat.le_succ _⟩

/-- **One event keeps the blocks connected.** -/
theorem hostStep_connected (hp : h.Connected h.allocated) (ev : HostEvent) :
    (hostStep E h ev).Connected (hostStep E h ev).allocated := by
  cases ev with
  | leaves A pkt =>
    cases pkt with
    | frame f => exact (output_grown hp f.skb).connected
    | datagram hProto pkt =>
      rw [hostStep, dyscoOutput]
      split
      · exact hp
      · exact (controlOutput_grown hp pkt).connected
  | enters A pkt =>
    cases pkt with
    | frame f => exact (input_grown hp f.skb).connected
    | datagram hProto pkt =>
      rw [hostStep, dyscoInput]
      split
      · exact hp
      · exact (controlInput_grown hp pkt).connected
  | addPolicy filter sc made => exact (addPolicy_grown hp filter sc made).connected
  | delPolicies => exact { hp with }
  | socket k tp => exact { hp with }

/-- What the data path relies on: a block with another path is in one of the three states of a
reconfiguration, and an input block with two paths leads to an output block that is on the old path
or has another one. -/
structure Host.PathsSound (h : Host) : Prop where
  state : ∀ p, h.hashOut.Holds p → (h.outMem p).otherPath ≠ none →
    (h.outMem p).state = .synSent ∨ (h.outMem p).state = .synReceived ∨
      (h.outMem p).state = .established
  twoPaths : ∀ q, h.hashIn.Holds q → (h.inMem q).twoPaths = true →
    ∃ p, (h.inMem q).dcbOut = some p ∧
      ((h.outMem p).oldPath = false → (h.outMem p).otherPath ≠ none)

theorem Host.Connected.pathsSound (hp : h.Connected U) : h.PathsSound where
  state p ht hother := by
    have hne := hp.begun p (Or.inl ht) hother
    cases hs : (h.outMem p).state with
    | onePath => exact absurd hs hne
    | synSent => exact Or.inl rfl
    | synReceived => exact Or.inr (Or.inl rfl)
    | established => exact Or.inr (Or.inr rfl)
  twoPaths q hq htwo := by
    obtain ⟨p, hback, hpath⟩ := hp.two q hq htwo
    refine ⟨p, hback, fun hold => hpath.resolve_left fun ht => ?_⟩
    rw [hold] at ht
    cases ht

/-- **In every run from a host without blocks** the branches of the data path for blocks
that are half connected are not taken. -/
theorem pathsSound_ran (E : Env) (h : Host) (hl : h.Loaded) (evs : List HostEvent) :
    (ran (hostStep E) h evs).PathsSound := by
  have hall : AtEvery (hostStep E) (fun _ _ => True) h evs := fun _ _ _ => trivial
  have hp := AtEvery.invariant (I := fun g => g.Connected g.allocated) hall hl.connected
    (fun _ ev hg _ => hostStep_connected hg ev) List.prefix_rfl
  exact hp.pathsSound

/-- A `DYSCO_SYN` that leaves the host of a session that a SYN has begun. -/
def anchoringSyn : ControlPacket :=
  { (default : ControlPacket) with
    dest := dyscoControlPort, udpLen := htons 111#16,
    msg.leftSS := (chainedSyn 0#32).synPacket.ss.reverse }

/-- The SYN enters, and the host becomes the left anchor. -/
def anchorRun : List HostEvent :=
  [.enters default (.frame ⟨chainedSyn 0#32, by decide⟩),
    .leaves { (default : Env) with ifaddrs := [0#32] } (.datagram (htons ethPIp) anchoringSyn)]

/-- Both branches matter in this run: block 1 has another path, and input block 0 two paths. -/
theorem pathsSound_anchorRun : (ran (hostStep default) Host.fresh anchorRun).PathsSound ∧
    ((ran (hostStep default) Host.fresh anchorRun).outMem 1).otherPath ≠ none ∧
    ((ran (hostStep default) Host.fresh anchorRun).inMem 0).twoPaths = true :=
  ⟨pathsSound_ran default Host.fresh .fresh anchorRun, by decide +kernel, by decide +kernel⟩

end Dysco
