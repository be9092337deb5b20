import Dysco.LedgerSteps
import Dysco.Traversal

/-! # Policies

A user gives a host its policies over netlink: a message holds a service chain and a filter program,
and another one removes all policies.  A message is read as it was written
(`userKernelCom_payload`).  What the policies are at any time depends on these messages alone:
packets and control messages, whichever way they take through the module, neither add a policy nor
write to the chain of one (`SamePolicies`, one lemma for each function).  So a run of a host carries
out a plain list of filters and chains (`PolicyStore`), and `newest_policy` says which chain a
packet gets. -/
namespace Dysco
open EventRuns ByteOrder

variable {E : Env} {h g : Host}

/-! ## What packets leave of the policies -/

/-- The policies are the same, and no chain in memory that was in use has been written. -/
structure SamePolicies (h g : Host) : Prop where
  policies : g.policies = h.policies
  brk : h.brk ≤ g.brk
  scMem : ∀ s < h.brk, g.scMem s = h.scMem s

namespace SamePolicies
variable {k : Host}

theorem refl (h : Host) : SamePolicies h h := ⟨rfl, le_rfl, fun _ _ => rfl⟩

/-- What two steps in a row leave alone: memory that is in use before the first is in use before the
second. -/
theorem trans (hg : SamePolicies h g) (hk : SamePolicies g k) : SamePolicies h k where
  policies := hk.policies.trans hg.policies
  brk := hg.brk.trans hk.brk
  scMem s hs := (hk.scMem s (hs.trans_le hg.brk)).trans (hg.scMem s hs)

/-- An allocation takes memory that no policy has. -/
theorem bump (h : Host) : SamePolicies h h.bump := ⟨rfl, Nat.le_succ _, fun _ _ => rfl⟩

/-- Blocks live in memory of their own, apart from the chains that policies lead to. -/
theorem setOut (h : Host) (p : Nat) (d : CbOut) : SamePolicies h (h.setOut p d) :=
  ⟨rfl, le_rfl, fun _ _ => rfl⟩

theorem setIn (h : Host) (q : Nat) (d : CbIn) : SamePolicies h (h.setIn q d) :=
  ⟨rfl, le_rfl, fun _ _ => rfl⟩

end SamePolicies

/-- `dysco_insert_cb_out_reverse` allocates an input block and wires it. -/
theorem samePolicies_insertCbOutReverse (h : Host) (p : Nat) (two : Bool) :
    SamePolicies h (insertCbOutReverse E h p two).2 := by
  rw [insertCbOutReverse]
  obtain hk | hk := h.kzallocIn_cases <;> rw [hk] <;> exact ⟨rfl, Nat.le_succ _, fun _ _ => rfl⟩

/-- `dysco_insert_cb_out` files the block and may add the one of the other direction. -/
theorem samePolicies_insertCbOut (h : Host) (p : Nat) (two : Bool) :
    SamePolicies h (insertCbOut E h p two) := by
  rw [insertCbOut]
  have hrev := samePolicies_insertCbOutReverse (E := E) (h.insertOut E p) p two
  exact { hrev with }

/-- `dysco_create_cb_out` lets the new block share the chain of the policy. -/
theorem samePolicies_createCbOut (h : Host) (skb : SkBuff) (sc : Nat) :
    SamePolicies h (createCbOut E h skb sc).2 := by
  rw [createCbOut]
  obtain hk | hk := h.kzallocOut_cases <;> rw [hk]
  · exact .bump h
  · simp only
    split <;> exact ⟨rfl, Nat.le_succ _, fun _ _ => rfl⟩

/-- A SYN that leaves gets the chain of its block, which is read and not written. -/
theorem samePolicies_outSynWith (h : Host) (skb : SkBuff) (p : Nat) :
    SamePolicies h (outSynWith E h skb p).1 := by
  rw [outSynWith]
  simp only
  split
  · split <;> exact ⟨rfl, le_rfl, fun _ _ => rfl⟩
  · exact ⟨rfl, le_rfl, fun _ _ => rfl⟩

/-- So whether there is a block already, a policy makes one, or none does. -/
theorem samePolicies_outSyn (h : Host) (skb : SkBuff) (o : Option Nat) :
    SamePolicies h (outSyn E h skb o).1 := by
  cases o with
  | some p => exact samePolicies_outSynWith h skb p
  | none =>
    simp only [outSyn]
    split
    · exact .refl h
    · rename_i sc _
      have hmade := samePolicies_createCbOut (E := E) h skb sc
      cases hc : createCbOut E h skb sc with
      | mk o g =>
        rw [hc] at hmade
        cases o with
        | none => exact hmade
        | some p =>
          exact (hmade.trans (samePolicies_insertCbOut g p false)).trans
            (samePolicies_outSynWith _ skb p)

/-- A tag that is found takes its block out of the pending table. -/
theorem samePolicies_lookupPenTag (h : Host) (skb : SkBuff) :
    SamePolicies h (lookupPenTag E h skb).2 := by
  rw [lookupPenTag, lookupPenTagBy]
  simp only
  split
  · split <;> exact ⟨rfl, le_rfl, fun _ _ => rfl⟩
  · exact .refl h

/-- `dysco_out_handle_mb` gives the block a chain of its own, one hop shorter. -/
theorem samePolicies_outHandleMb (h : Host) (skb : SkBuff) (p : Nat) :
    SamePolicies h (outHandleMb E h skb p).1 := by
  rw [outHandleMb]
  simp only
  generalize parseTcpSynOptS skb _ = d
  have hmade := samePolicies_insertCbOut (E := E)
    ((((h.removePen E p).removeTag E p).allocateLocalPort.2).setOut p d) p false
  exact { hmade with }

/-- Translating writes to the block of the session only. -/
theorem samePolicies_outTranslate (h : Host) (skb : SkBuff) (p : Nat) :
    SamePolicies h (outTranslate E h skb p).1 := by
  obtain ⟨m, hm⟩ := outTranslate_marks E h skb p
  rw [hm]
  exact .setOut ..

/-- **The output hook**, whatever the packet. -/
theorem samePolicies_output (h : Host) (skb : SkBuff) : SamePolicies h (output E h skb).1 := by
  rw [output_unfold]
  split
  · exact .refl h
  · split
    · exact .refl h
    · split
      · rename_i p _
        rw [outputWith]
        split
        · exact samePolicies_outSyn h skb (some p)
        · exact samePolicies_outTranslate h _ p
      · split
        · exact samePolicies_outHandleMb h skb _
        · have htag := samePolicies_lookupPenTag (E := E) h skb
          cases hl : lookupPenTag E h skb with
          | mk o g =>
            rw [hl] at htag
            cases o with
            | none =>
              simp only
              split
              · exact htag.trans (samePolicies_outSyn g skb none)
              · exact htag
            | some p =>
              have htuple : SamePolicies g (updateFiveTuple g skb p) := .setOut ..
              exact (htag.trans htuple).trans (samePolicies_outHandleMb _ skb p)

/-! ### Packets that enter -/

/-- `dysco_insert_pending` copies the chain of the SYN to fresh memory. -/
theorem samePolicies_insertPending (h : Host) (sp : SynPacket) :
    SamePolicies h (insertPending E h sp).2 := by
  rw [insertPending]
  obtain hk | hk := h.kzallocOut_cases <;> rw [hk]
  · exact .bump h
  · simp only
    generalize hg : (h.bump.setOut h.brk default).setOut h.brk _ = g
    have hsame : SamePolicies h g := by
      rw [← hg]
      exact ⟨rfl, Nat.le_succ _, fun _ _ => rfl⟩
    have hlt : h.brk < g.brk := by
      rw [← hg]
      exact Nat.lt_succ_self _
    obtain hm | hm := g.kmalloc_cases <;> rw [hm]
    · exact hsame.trans ⟨rfl, Nat.le_succ _, fun _ _ => rfl⟩
    · refine hsame.trans ⟨rfl, Nat.le_succ _, fun s hs => ?_⟩
      exact Function.update_of_ne hs.ne ..

/-- `dysco_insert_cb_in_reverse` allocates an output block and no chain. -/
theorem samePolicies_insertCbInReverse (h : Host) (skb : SkBuff) (sp : SynPacket) :
    SamePolicies h (insertCbInReverse h skb sp).2 := by
  rw [insertCbInReverse]
  obtain hk | hk := h.kzallocOut_cases <;> rw [hk] <;> exact ⟨rfl, Nat.le_succ _, fun _ _ => rfl⟩

/-- `dysco_insert_cb_input` files both blocks of a session that comes in. -/
theorem samePolicies_insertCbInput (h : Host) (skb : SkBuff) (sp : SynPacket) :
    SamePolicies h (insertCbInput E h skb sp).2 := by
  rw [insertCbInput]
  obtain hk | hk := h.kzallocIn_cases <;> rw [hk]
  · exact .bump h
  · simp only
    generalize hg : (h.bump.setIn h.brk default).setIn h.brk _ = g
    have hsame : SamePolicies h g := by
      rw [← hg]
      exact ⟨rfl, Nat.le_succ _, fun _ _ => rfl⟩
    have hrev := samePolicies_insertCbInReverse g skb sp
    cases hm : insertCbInReverse g skb sp with
    | mk o g' =>
      rw [hm] at hrev
      cases o with
      | none => exact hsame.trans { hrev with }
      | some p =>
        have hpend := samePolicies_insertPending (E := E) g' sp
        refine (hsame.trans hrev).trans ?_
        simp only
        split
        · split <;> exact { hpend with }
        · exact ⟨rfl, le_rfl, fun _ _ => rfl⟩

/-- Taking the next tag. -/
theorem samePolicies_insertTag (h : Host) (skb : SkBuff) : SamePolicies h (insertTag h skb).1 :=
  ⟨rfl, le_rfl, fun _ _ => rfl⟩

/-- A chained SYN that comes in makes blocks and a pending copy. -/
theorem samePolicies_rxInitiationNew (h : Host) (skb : SkBuff) :
    SamePolicies h (rxInitiationNew E h skb).1 := by
  rw [rxInitiationNew]
  split
  · have hmade := samePolicies_insertCbInput (E := E) h skb skb.synPacket
    cases hi : insertCbInput E h skb skb.synPacket with
    | mk o g =>
      rw [hi] at hmade
      cases o with
      | none => exact hmade
      | some q => exact { hmade with }
  · exact .refl h

theorem samePolicies_setAckNumberOut (h : Host) (skb : SkBuff) (q : Nat) :
    SamePolicies h (setAckNumberOut E h skb q) := by
  rw [setAckNumberOut]
  simp only
  split <;> exact ⟨rfl, le_rfl, fun _ _ => rfl⟩

/-- The two-path handlers write to blocks that are there. -/
theorem samePolicies_inTwoPathsAck (h : Host) (skb : SkBuff) (q : Nat) :
    SamePolicies h (inTwoPathsAck h skb q) := by
  simp only [inTwoPathsAck]
  repeat' split
  all_goals exact ⟨rfl, le_rfl, fun _ _ => rfl⟩

theorem samePolicies_inTwoPathsDataSeg (h : Host) (skb : SkBuff) (q : Nat) :
    SamePolicies h (inTwoPathsDataSeg h skb q).1 := by
  simp only [inTwoPathsDataSeg]
  repeat' split
  all_goals exact ⟨rfl, le_rfl, fun _ _ => rfl⟩

theorem samePolicies_inputSegment (h : Host) (skb : SkBuff) (q : Nat) :
    SamePolicies h (inputSegment h skb q).1 := by
  have hpaths : SamePolicies h (if (h.inMem q).twoPaths then
      if 0#16 < skb.segSz then inTwoPathsDataSeg h skb q else (inTwoPathsAck h skb q, true)
      else (h, true)).1 := by
    split
    · split
      · exact samePolicies_inTwoPathsDataSeg h skb q
      · exact samePolicies_inTwoPathsAck h skb q
    · exact .refl h
  rw [inputSegment]
  generalize (if (h.inMem q).twoPaths then
      if 0#16 < skb.segSz then inTwoPathsDataSeg h skb q else (inTwoPathsAck h skb q, true)
      else (h, true)) = x at hpaths ⊢
  simp only
  split <;> exact hpaths

/-- **The input hook**, whatever the packet. -/
theorem samePolicies_input (h : Host) (skb : SkBuff) : SamePolicies h (input E h skb).1 := by
  rw [input]
  split
  · exact .refl h
  · split
    · exact .refl h
    · split
      · split
        · exact samePolicies_rxInitiationNew h skb
        · exact .refl h
      · rename_i q _
        split
        · split
          · exact (SamePolicies.setIn h q _).trans (samePolicies_setAckNumberOut _ skb q)
          · exact samePolicies_insertTag h (removeSc skb)
        · exact samePolicies_inputSegment h skb q

/-! ### Messages that enter -/

/-- `dysco_control_config_rightA` allocates the blocks of the new path. -/
theorem samePolicies_controlConfigRightA (h : Host) (r : Nat) (m : ControlMessage) (q p : Nat) :
    SamePolicies h (controlConfigRightA E h r m q p).2 := by
  rw [controlConfigRightA]
  split
  · exact ⟨rfl, le_rfl, fun _ _ => rfl⟩
  · simp only
    split <;> exact ⟨rfl, le_rfl, fun _ _ => rfl⟩

theorem samePolicies_controlReconfigIn (h : Host) (pkt : ControlPacket) (r : Nat) :
    SamePolicies h (controlReconfigIn E h pkt r).2 := by
  rw [controlReconfigIn]
  obtain hk | hk := h.kmalloc_cases <;> rw [hk]
  · exact ⟨rfl, Nat.le_succ _, fun _ _ => rfl⟩
  · simp only
    generalize hg : h.bump.setIn h.brk _ = g
    have hsame : SamePolicies h g := by
      rw [← hg]
      exact ⟨rfl, Nat.le_succ _, fun _ _ => rfl⟩
    rw [buildCbInReverse]
    obtain hm | hm := g.kzallocOut_cases <;> rw [hm]
    · exact hsame.trans ⟨rfl, Nat.le_succ _, fun _ _ => rfl⟩
    · simp only
      generalize hk : Host.setIn (Host.setOut _ _ _) _ _ = k
      have hsame' : SamePolicies g k := by
        rw [← hk]
        exact ⟨rfl, Nat.le_succ _, fun _ _ => rfl⟩
      refine (hsame.trans hsame').trans ?_
      split
      · have hright := samePolicies_controlConfigRightA (E := E) k r pkt.msg h.brk g.brk
        cases hc : controlConfigRightA E k r pkt.msg h.brk g.brk with
        | mk ok l =>
          rw [hc] at hright
          cases ok with
          | false => exact hright
          | true => exact { hright with }
      · exact ⟨rfl, le_rfl, fun _ _ => rfl⟩

theorem samePolicies_replaceCbLeftA (h : Host) (pkt : ControlPacket) (r : Nat) :
    SamePolicies h (replaceCbLeftA h pkt r).1 := by
  rw [replaceCbLeftA]
  split
  · exact .refl h
  · exact ⟨rfl, le_rfl, fun _ _ => rfl⟩

theorem samePolicies_stateTransferredIn (h : Host) (pkt : ControlPacket) :
    SamePolicies h (stateTransferredIn E h pkt).1 := by
  rw [stateTransferredIn]
  split
  · exact .refl h
  · split
    · exact samePolicies_replaceCbLeftA h pkt _
    · split
      · split <;> exact ⟨rfl, le_rfl, fun _ _ => rfl⟩
      · exact .refl h

/-- A `DYSCO_SYN` at an anchor or on its way. -/
theorem samePolicies_synIn (h : Host) (pkt : ControlPacket) : SamePolicies h (synIn E h pkt).2 := by
  rw [synIn]
  split
  · exact .refl h
  · rw [insertRcbControlInput]
    obtain hk | hk := h.kmalloc_cases <;> rw [hk]
    · exact .bump h
    · have hmade := samePolicies_controlReconfigIn (E := E)
        ((h.bump.setRcb h.brk ((h.bump.rcbMem h.brk).ofSynIn pkt)).insertReconfig E h.brk) pkt h.brk
      exact (SamePolicies.bump h).trans { hmade with }

/-- **Control messages that come in.** -/
theorem samePolicies_controlInput (h : Host) (pkt : ControlPacket) :
    SamePolicies h (controlInput E h pkt).1 := by
  rw [controlInput]
  split
  · exact .refl h
  split
  · exact .refl h
  split
  · exact samePolicies_synIn h pkt
  · simp only [synAckIn]
    repeat' split
    all_goals exact ⟨rfl, le_rfl, fun _ _ => rfl⟩
  · simp only [ackIn]
    repeat' split
    all_goals exact ⟨rfl, le_rfl, fun _ _ => rfl⟩
  · exact samePolicies_stateTransferredIn h pkt
  all_goals exact .refl h

/-! ### Messages that leave -/

theorem samePolicies_insertCbControl (h : Host) (pkt : ControlPacket) :
    SamePolicies h (insertCbControl E h pkt).2.1 := by
  rw [insertCbControl]
  obtain hk | hk := h.kmalloc_cases <;> rw [hk] <;> exact ⟨rfl, Nat.le_succ _, fun _ _ => rfl⟩

theorem samePolicies_controlInsertOut (h : Host) (pkt : ControlPacket) (r : Nat) :
    SamePolicies h (controlInsertOut E h pkt r) := by
  rw [controlInsertOut]
  obtain hk | hk := h.kzallocOut_cases <;> rw [hk]
  · exact .bump h
  · simp only
    generalize hg : (h.bump.setOut h.brk default).setOut h.brk _ = g
    have hsame : SamePolicies h g := by
      rw [← hg]
      exact ⟨rfl, Nat.le_succ _, fun _ _ => rfl⟩
    have hboth := hsame.trans (samePolicies_insertCbOut (E := E) g h.brk false)
    split
    · exact hboth
    · exact { hboth with }

/-- `dysco_control_start_leftA` allocates the blocks of the new path, filled from the old ones. -/
theorem samePolicies_startLeftA (h : Host) (pkt : ControlPacket) (r old : Nat) :
    SamePolicies h (startLeftA E h pkt r old).2 := by
  rw [startLeftA]
  obtain hk | hk := h.kzallocOut_cases <;> rw [hk]
  · exact .bump h
  · simp only
    generalize hg : Host.setOut (Host.setRcb _ _ _) h.brk _ = g
    have hsame : SamePolicies h g := by
      rw [← hg]
      exact ⟨rfl, Nat.le_succ _, fun _ _ => rfl⟩
    have hrev := hsame.trans (samePolicies_insertCbOutReverse (E := E) g h.brk true)
    cases hi : insertCbOutReverse E g h.brk true with
    | mk o k =>
      rw [hi] at hrev
      simp only
      split <;> split <;> exact { hrev with }

/-- A `DYSCO_SYN` that leaves, at the left anchor or on its way. -/
theorem samePolicies_controlOutputSyn (h : Host) (pkt : ControlPacket) :
    SamePolicies h (controlOutputSyn E h pkt).2.1 := by
  rw [controlOutputSyn]
  simp only
  split
  · split
    · exact .refl h
    · split
      · exact .refl h
      · rename_i old _
        have hmade := samePolicies_insertCbControl (E := E) h
          (pkt.announce (h.outMem old) (h.inOf (h.outMem old)))
        split
        · rename_i heq
          rw [heq] at hmade
          exact hmade
        · rename_i r g pkt' heq
          rw [heq] at hmade
          exact hmade.trans (samePolicies_startLeftA g pkt' r old)
  · split
    · exact .refl h
    · have hmade := samePolicies_insertCbControl (E := E) h pkt
      split
      · rename_i heq
        rw [heq] at hmade
        exact hmade
      · rename_i r g pkt' heq
        rw [heq] at hmade
        exact hmade.trans (samePolicies_controlInsertOut g pkt' r)

theorem samePolicies_ackOut (h : Host) (pkt : ControlPacket) :
    SamePolicies h (ackOut E h pkt).1 := by
  rw [ackOut]
  split
  · exact .refl h
  · split
    · exact .refl h
    · split
      · split
        · exact .refl h
        · split
          · exact .refl h
          · exact samePolicies_replaceCbLeftA h pkt _
      · exact .refl h

theorem samePolicies_replaceCbRightA (h : Host) (pkt : ControlPacket) :
    SamePolicies h (replaceCbRightA E h pkt).1 := by
  rw [replaceCbRightA]
  split
  · exact .refl h
  · split <;> exact ⟨rfl, le_rfl, fun _ _ => rfl⟩

theorem samePolicies_ctlSaveRcvWindow (h : Host) (m : ControlMessage) :
    SamePolicies h (ctlSaveRcvWindow E h m).2 := by
  simp only [ctlSaveRcvWindow]
  repeat' split
  all_goals exact ⟨rfl, le_rfl, fun _ _ => rfl⟩

/-- **Control messages that leave.** -/
theorem samePolicies_controlOutput (h : Host) (pkt : ControlPacket) :
    SamePolicies h (controlOutput E h pkt).1 := by
  rw [controlOutput]
  split
  · exact .refl h
  split
  · exact .refl h
  split
  · exact .refl h
  split
  · exact samePolicies_ctlSaveRcvWindow h pkt.msg
  split
  · exact samePolicies_controlOutputSyn h pkt
  · split
    · exact samePolicies_replaceCbRightA h pkt
    · exact .refl h
  · exact samePolicies_ackOut h pkt
  all_goals exact .refl h

/-! ## The store of policies -/

/-- Filters with their chains, the newest first. -/
abbrev PolicyStore := List ((SkBuff → Bool) × List U32)

/-- The chain for a packet: that of the newest policy that takes it. -/
def PolicyStore.chain (s : PolicyStore) (skb : SkBuff) : Option (List U32) :=
  (s.find? fun pol => pol.1 skb).map Prod.snd

/-- What is done to a store. -/
inductive StoreEvent where
  | add (filter : SkBuff → Bool) (hops : List U32)
  | clear

def PolicyStore.step (s : PolicyStore) : StoreEvent → PolicyStore
  | .add filter hops => (filter, hops) :: s
  | .clear => []

/-- The store that a host has. -/
def Host.store (h : Host) : PolicyStore :=
  h.policies.map fun pol => (pol.filter, (h.scMem pol.sc).hops)

/-- The chains of the policies are in memory that is in use. -/
def Host.PoliciesHeld (h : Host) : Prop := ∀ pol ∈ h.policies, pol.sc < h.brk

/-- **The policy of a packet is the store's.** -/
theorem matchPolicy_store (h : Host) (skb : SkBuff) :
    (matchPolicy h skb).map (fun s => (h.scMem s).hops) = PolicyStore.chain h.store skb := by
  rw [matchPolicy, PolicyStore.chain, Host.store, List.find?_map, Option.map_map, Option.map_map]
  rfl

namespace SamePolicies

/-- A chain at an address below the break is read as it was, so the store is the same. -/
theorem store (hs : SamePolicies h g) (hh : h.PoliciesHeld) : g.store = h.store := by
  rw [Host.store, Host.store, hs.policies]
  refine List.map_congr_left fun pol hpol => ?_
  rw [hs.scMem pol.sc (hh pol hpol)]

/-- The addresses of the chains stay below the break, which only grows. -/
theorem held (hs : SamePolicies h g) (hh : h.PoliciesHeld) : g.PoliciesHeld := by
  intro pol hpol
  rw [hs.policies] at hpol
  exact (hh pol hpol).trans_le hs.brk

end SamePolicies

/-- `dysco_add_policy` puts the policy in front, unless a filter or memory is missing. -/
theorem addPolicy_store (hh : h.PoliciesHeld) (filter : SkBuff → Bool) (sc : ServiceChain)
    (made : Bool) :
    (addPolicy h filter sc made).PoliciesHeld ∧ (addPolicy h filter sc made).store =
      if made && !h.oom h.brk then (filter, sc.hops) :: h.store else h.store := by
  have hbump := SamePolicies.bump h
  rw [addPolicy, Host.kmalloc]
  cases hoom : h.oom h.brk with
  | true =>
    simp only [if_true, Bool.not_true, Bool.and_false, Bool.false_eq_true, if_false]
    exact ⟨hbump.held hh, hbump.store hh⟩
  | false =>
    have hset : SamePolicies h (h.bump.setSc h.brk { sc with pos := (h.bump.scMem h.brk).pos }) :=
      ⟨rfl, Nat.le_succ _, fun s hs => Function.update_of_ne hs.ne ..⟩
    have hchain : ((h.bump.setSc h.brk { sc with pos := (h.bump.scMem h.brk).pos }).scMem
        h.brk).hops =
        sc.hops := by
      have hself : (h.bump.setSc h.brk { sc with pos := (h.bump.scMem h.brk).pos }).scMem h.brk =
          { sc with pos := (h.bump.scMem h.brk).pos } := Function.update_self ..
      rw [hself]
    simp only [Bool.false_eq_true, if_false, Bool.not_false, Bool.and_true]
    generalize hg : h.bump.setSc h.brk _ = g at hset hchain ⊢
    have hlt : h.brk < g.brk := by
      rw [← hg]
      exact Nat.lt_succ_self _
    cases made with
    | false => exact ⟨hset.held hh, hset.store hh⟩
    | true =>
      refine ⟨?_, ?_⟩
      · intro pol hpol
        obtain rfl | hpol := List.mem_cons.mp hpol
        · exact hlt
        · exact hset.held hh pol hpol
      · simp only [if_true]
        rw [← hset.store hh, ← hchain]
        rfl

/-! ## Messages from user space -/

/-- `struct sock_filter`. -/
structure SockFilter where
  code : U16
  jt : U8
  jf : U8
  k : U32
deriving DecidableEq, Repr

def SockFilter.bytes (f : SockFilter) : List U8 := bytes16 f.code ++ [f.jt, f.jf] ++ bytes32 f.k

/-- The instruction at offset `k`. -/
def readFilter (bs : List U8) (k : Nat) : SockFilter :=
  ⟨load16 bs k, byteAt bs (k + 2), byteAt bs (k + 3), load32 bs (k + 4)⟩

/-- The instructions at offset `k`, behind their number. -/
def readProgram (bs : List U8) (k : Nat) : List SockFilter :=
  (List.range (load16 bs k).toNat).map fun i => readFilter bs (k + 2 + 8 * i)

/-- `dysco_add_policy`, from the message.  There is no result where it writes through the pointer
that `kmalloc` answers for no bytes. -/
def dyscoAddPolicy (bpfProgCreate : List SockFilter → Option (SkBuff → Bool)) (h : Host)
    (mptr : List U8) (dps : Bool) : Option Host :=
  let len := load16 mptr 0
  let sc := readChain mptr 0
  -- `mem_sz` is zero for length -1, and too much for the other negative ones
  if len = -1#16 then if dps then none else some h
  else if len.msb then some h
  else
    match bpfProgCreate (readProgram mptr (4 + 4 * sc.hops.length)) with
    | some filter => some (addPolicy h filter sc dps)
    | none => some (addPolicy h (fun _ => false) sc false)

def dyscoPolicy : U16 := 9#16
def dyscoRemPolicy : U16 := 10#16

/-- `dysco_user_kernel_com`, as far as the host is concerned: the other messages ask for a dump or
do nothing. -/
def userKernelCom (bpfProgCreate : List SockFilter → Option (SkBuff → Bool)) (h : Host)
    (nlmsgType : U16) (payload : List U8) (dps : Bool) : Option Host :=
  if nlmsgType = dyscoPolicy then dyscoAddPolicy bpfProgCreate h payload dps
  else if nlmsgType = dyscoRemPolicy then some (delPolicies h)
  else some h

/-- What a user asks for: a policy, with lengths that fit their fields, to remove all policies, or
anything else, well formed or not. -/
inductive UserMessage where
  | policy (sc : ServiceChain) (program : List SockFilter) (hsc : sc.hops.length < 32768)
      (hprogram : program.length < 65536)
  | remPolicy
  | other (nlmsgType : U16) (payload : List U8)

namespace UserMessage

def nlmsgType : UserMessage → U16
  | policy .. => dyscoPolicy
  | remPolicy => dyscoRemPolicy
  | other nlmsgType _ => nlmsgType

/-- The message as it is sent. -/
def payload : UserMessage → List U8
  | policy sc program _ _ =>
    sc.bytes ++ (bytes16 (BitVec.ofNat 16 program.length) ++ program.flatMap SockFilter.bytes)
  | remPolicy => []
  | other _ payload => payload

end UserMessage

theorem SockFilter.length_bytes (f : SockFilter) : f.bytes.length = 8 := rfl

/-- An instruction is read from its own eight bytes. -/
theorem readFilter_append_right (as bs : List U8) (k : Nat) :
    readFilter (as ++ bs) (as.length + k) = readFilter bs k := by
  rw [readFilter, readFilter, load16_append_right]
  simp only [Nat.add_assoc, byteAt_append_right, load32_append_right]

/-- Reading an instruction back from its bytes. -/
theorem readFilter_bytes (f : SockFilter) (cs : List U8) : readFilter (f.bytes ++ cs) 0 = f := by
  have hcode : load16 (f.bytes ++ cs) 0 = f.code := by
    simpa [SockFilter.bytes] using load16_bytes16 [] ([f.jt, f.jf] ++ bytes32 f.k ++ cs) f.code
  have hk : load32 (f.bytes ++ cs) 4 = f.k := by
    simpa [SockFilter.bytes] using load32_bytes32 (bytes16 f.code ++ [f.jt, f.jf]) cs f.k
  rw [readFilter, hcode, hk]
  rfl

/-- By induction on the program, its instructions are read back one by one. -/
theorem readFilter_flatMap {program : List SockFilter} {i : Nat} (hi : i < program.length)
    (cs : List U8) :
    readFilter (program.flatMap SockFilter.bytes ++ cs) (8 * i) = program[i] := by
  induction program generalizing i with
  | nil => exact absurd hi (Nat.not_lt_zero i)
  | cons f program ih =>
    rw [List.flatMap_cons, List.append_assoc]
    cases i with
    | zero => exact readFilter_bytes f _
    | succ i =>
      have hk : 8 * (i + 1) = f.bytes.length + 8 * i := by
        rw [f.length_bytes]
        omega
      rw [hk, readFilter_append_right, ih (Nat.lt_of_succ_lt_succ hi), List.getElem_cons_succ]

/-- A program is read as it was written. -/
theorem readProgram_bytes (as cs : List U8) {program : List SockFilter}
    (hlen : program.length < 65536) :
    readProgram
      (as ++ (bytes16 (BitVec.ofNat 16 program.length) ++ (program.flatMap SockFilter.bytes ++ cs)))
      as.length = program := by
  have hnum : load16 (as ++ (bytes16 (BitVec.ofNat 16 program.length) ++
      (program.flatMap SockFilter.bytes ++ cs))) as.length = BitVec.ofNat 16 program.length :=
    load16_bytes16 as _ _
  have hcount : (BitVec.ofNat 16 program.length).toNat = program.length := by
    rw [BitVec.toNat_ofNat]
    exact Nat.mod_eq_of_lt hlen
  rw [readProgram, hnum, hcount]
  apply List.ext_getElem
  · rw [List.length_map, List.length_range]
  · intro i _ hi
    have hk : as.length + 2 + 8 * i = as.length +
        ((bytes16 (BitVec.ofNat 16 program.length)).length + 8 * i) := by
      rw [length_bytes16, Nat.add_assoc]
    rw [List.getElem_map, List.getElem_range, hk, readFilter_append_right, readFilter_append_right,
      readFilter_flatMap hi]

/-- **A policy message is read as it was written**, whatever follows it. -/
theorem userKernelCom_payload (bpf : List SockFilter → Option (SkBuff → Bool)) (h : Host)
    {sc : ServiceChain} {program : List SockFilter} (hsc : sc.hops.length < 32768)
    (hprogram : program.length < 65536) (rest : List U8) (dps : Bool) :
    userKernelCom bpf h dyscoPolicy ((UserMessage.policy sc program hsc hprogram).payload ++ rest)
        dps =
      match bpf program with
      | some filter => some (addPolicy h filter sc dps)
      | none => some (addPolicy h (fun _ => false) sc false) := by
  have hlen : sc.bytes.length = 4 + 4 * sc.hops.length := by
    rw [ServiceChain.bytes, List.length_append, List.length_append, length_flatMap_bytes32]
    rfl
  rw [userKernelCom, if_pos rfl, UserMessage.payload, List.append_assoc, List.append_assoc,
    dyscoAddPolicy]
  have hchain := readChain_bytes [] (bytes16 (BitVec.ofNat 16 program.length) ++
    (program.flatMap SockFilter.bytes ++ rest)) sc
  have hprog := readProgram_bytes sc.bytes rest hprogram
  have hnum : load16 (sc.bytes ++ (bytes16 (BitVec.ofNat 16 program.length) ++
      (program.flatMap SockFilter.bytes ++ rest))) 0 = sc.len := by
    rw [ServiceChain.bytes, List.append_assoc, List.append_assoc]
    exact load16_bytes16 [] _ sc.len
  have hpos : sc.len.msb = false := by
    rw [ServiceChain.len, BitVec.msb_eq_decide, BitVec.toNat_ofNat, Nat.mod_eq_of_lt sc.short]
    simpa using hsc
  have hne : sc.len ≠ -1#16 := by
    intro heq
    rw [heq] at hpos
    cases hpos
  rw [List.nil_append, List.length_nil] at hchain
  rw [hlen] at hprog
  rw [hnum, hchain, hprog]
  simp only [hne, hpos, if_false, Bool.false_eq_true]

/-! ## Runs -/

/-- What happens to a host whose policies come from a user: packets, sockets, and messages with what
lies behind them in memory. -/
inductive AgentEvent where
  | leaves (A : Env) (pkt : Packet)
  | enters (A : Env) (pkt : Packet)
  | socket (k : Nat) (tp : TcpSock)
  | message (m : UserMessage) (rest : List U8) (dps : Bool)

variable (bpf : List SockFilter → Option (SkBuff → Bool))

/-- An event; there is no result after a message that makes the module write astray. -/
def agentStep (E : Env) (h : Host) : AgentEvent → Option Host
  | .leaves A pkt => some (hostStep E h (.leaves A pkt))
  | .enters A pkt => some (hostStep E h (.enters A pkt))
  | .socket k tp => some (hostStep E h (.socket k tp))
  | .message m rest dps => userKernelCom bpf h m.nlmsgType (m.payload ++ rest) dps

def agentRan (E : Env) (h : Host) : List AgentEvent → Option Host
  | [] => some h
  | ev :: evs => (agentStep bpf E h ev).bind fun g => agentRan E g evs

/-- A filter and a chain are added if there is memory for the chain and for its record and the
filter can be made. -/
def addRequest (h : Host) (dps : Bool) (program : List SockFilter) (hops : List U32) :
    List StoreEvent :=
  match bpf program with
  | some filter => if dps && !h.oom h.brk then [.add filter hops] else []
  | none => []

/-- What a message does to the store.  Anything that comes as a policy is read as one, unless its
length is negative. -/
def UserMessage.request (h : Host) (rest : List U8) (dps : Bool) : UserMessage → List StoreEvent
  | policy sc program _ _ => addRequest bpf h dps program sc.hops
  | remPolicy => [.clear]
  | other nlmsgType payload =>
    let mptr := payload ++ rest
    let hops := (readChain mptr 0).hops
    if nlmsgType = dyscoPolicy then
      if (load16 mptr 0).msb then []
      else addRequest bpf h dps (readProgram mptr (4 + 4 * hops.length)) hops
    else if nlmsgType = dyscoRemPolicy then [.clear] else []

/-- What the messages of a run do to the store. -/
def storeEvents (E : Env) : Host → List AgentEvent → List StoreEvent
  | _, [] => []
  | h, ev :: evs =>
    (match ev with
      | .message m rest dps => m.request bpf h rest dps
      | _ => []) ++ (agentStep bpf E h ev).elim [] fun g => storeEvents E g evs

/-- A policy with a chain of length -1, if there is memory for its record. -/
def AgentEvent.Fatal : AgentEvent → Prop
  | .message m rest dps =>
    m.nlmsgType = dyscoPolicy ∧ load16 (m.payload ++ rest) 0 = -1#16 ∧ dps = true
  | _ => False

variable {bpf}

/-- A packet that leaves, through either hook. -/
theorem samePolicies_leaves (h : Host) (A : Env) (pkt : Packet) :
    SamePolicies h (hostStep E h (.leaves A pkt)) := by
  cases pkt with
  | frame f => exact samePolicies_output h f.skb
  | datagram hProto pkt =>
    rw [hostStep, dyscoOutput]
    split
    · exact .refl h
    · exact samePolicies_controlOutput h pkt

/-- A packet that comes in, through either hook. -/
theorem samePolicies_enters (h : Host) (A : Env) (pkt : Packet) :
    SamePolicies h (hostStep E h (.enters A pkt)) := by
  cases pkt with
  | frame f => exact samePolicies_input h f.skb
  | datagram hProto pkt =>
    rw [hostStep, dyscoInput]
    split
    · exact .refl h
    · exact samePolicies_controlInput h pkt

/-- `dysco_del_policies` leaves the empty store. -/
theorem delPolicies_store (h : Host) : (delPolicies h).PoliciesHeld ∧ (delPolicies h).store = [] :=
  ⟨fun _ hpol => absurd hpol List.not_mem_nil, rfl⟩

/-- Adding a policy is the step of the store that the request asks for, whether or not the program
is one. -/
theorem addRequest_store (hh : h.PoliciesHeld) (sc : ServiceChain) (program : List SockFilter)
    (dps : Bool) : ∃ k : Host, (match bpf program with
        | some filter => some (addPolicy h filter sc dps)
        | none => some (addPolicy h (fun _ => false) sc false)) = some k ∧ k.PoliciesHeld ∧
      k.store = (addRequest bpf h dps program sc.hops).foldl PolicyStore.step h.store := by
  rw [addRequest]
  cases bpf program with
  | none => exact ⟨_, rfl, addPolicy_store hh (fun _ => false) sc false⟩
  | some filter =>
    obtain ⟨hheld, hstore⟩ := addPolicy_store hh filter sc dps
    refine ⟨_, rfl, hheld, hstore.trans ?_⟩
    simp only
    split <;> rfl

/-- **A message does to the policies what it asks for**, if it does not make the module write
astray. -/
theorem userKernelCom_store (hh : h.PoliciesHeld) (m : UserMessage) (rest : List U8) (dps : Bool) :
    (AgentEvent.message m rest dps).Fatal ∧
        userKernelCom bpf h m.nlmsgType (m.payload ++ rest) dps = none ∨
      ¬ (AgentEvent.message m rest dps).Fatal ∧ ∃ k : Host,
        userKernelCom bpf h m.nlmsgType (m.payload ++ rest) dps = some k ∧ k.PoliciesHeld ∧
          k.store = (m.request bpf h rest dps).foldl PolicyStore.step h.store := by
  have hne : dyscoRemPolicy ≠ dyscoPolicy := by decide
  cases m with
  | policy sc program hsc hprogram =>
    obtain ⟨k, hk, hheld, hstore⟩ := @addRequest_store h bpf hh sc program dps
    have hrun := (userKernelCom_payload bpf h hsc hprogram rest dps).trans hk
    refine .inr ⟨?_, k, hrun, hheld, hstore⟩
    rintro ⟨-, hlen, rfl⟩
    rw [UserMessage.payload, List.append_assoc, ServiceChain.bytes, List.append_assoc,
      List.append_assoc] at hlen
    have hsame := (load16_bytes16 [] _ sc.len).symm.trans hlen
    have hnat := congrArg BitVec.toNat hsame
    rw [ServiceChain.len, BitVec.toNat_ofNat, Nat.mod_eq_of_lt sc.short] at hnat
    have hmax : (-1#16 : U16).toNat = 65535 := rfl
    omega
  | remPolicy =>
    rw [UserMessage.nlmsgType, userKernelCom, if_neg hne, if_pos rfl]
    exact .inr ⟨fun hf => hne hf.1, _, rfl, delPolicies_store h⟩
  | other nlmsgType payload =>
    have htype : (UserMessage.other nlmsgType payload).nlmsgType = nlmsgType := rfl
    have hbytes : (UserMessage.other nlmsgType payload).payload = payload := rfl
    rw [AgentEvent.Fatal, htype, hbytes, UserMessage.request, userKernelCom]
    by_cases hadd : nlmsgType = dyscoPolicy
    swap
    · rw [if_neg hadd, if_neg hadd]
      refine .inr ⟨fun hf => hadd hf.1, ?_⟩
      by_cases hrem : nlmsgType = dyscoRemPolicy
      · rw [if_pos hrem, if_pos hrem]
        exact ⟨_, rfl, delPolicies_store h⟩
      · rw [if_neg hrem, if_neg hrem]
        exact ⟨_, rfl, hh, rfl⟩
    rw [if_pos hadd, if_pos hadd, dyscoAddPolicy]
    by_cases hlen : load16 (payload ++ rest) 0 = -1#16
    · rw [if_pos hlen]
      cases dps with
      | true => exact .inl ⟨⟨hadd, hlen, rfl⟩, rfl⟩
      | false =>
        rw [hlen]
        exact .inr ⟨fun hf => Bool.false_ne_true hf.2.2, _, rfl, hh, rfl⟩
    · rw [if_neg hlen]
      refine .inr ⟨fun hf => hlen hf.2.1, ?_⟩
      by_cases hneg : (load16 (payload ++ rest) 0).msb = true
      · rw [if_pos hneg, if_pos hneg]
        exact ⟨_, rfl, hh, rfl⟩
      · rw [if_neg hneg, if_neg hneg]
        exact addRequest_store hh _ _ dps

/-- **One event.** -/
theorem agentStep_store (hh : h.PoliciesHeld) (ev : AgentEvent) :
    ev.Fatal ∧ agentStep bpf E h ev = none ∨ ¬ ev.Fatal ∧ ∃ k : Host,
      agentStep bpf E h ev = some k ∧ k.PoliciesHeld ∧
        ∀ evs, (storeEvents bpf E h (ev :: evs)).foldl PolicyStore.step h.store =
          (storeEvents bpf E k evs).foldl PolicyStore.step k.store := by
  cases ev with
  | leaves A pkt =>
    have hsame := samePolicies_leaves (E := E) h A pkt
    refine .inr ⟨id, _, rfl, hsame.held hh, fun evs => ?_⟩
    rw [hsame.store hh]
    rfl
  | enters A pkt =>
    have hsame := samePolicies_enters (E := E) h A pkt
    refine .inr ⟨id, _, rfl, hsame.held hh, fun evs => ?_⟩
    rw [hsame.store hh]
    rfl
  | socket k tp => exact .inr ⟨id, _, rfl, hh, fun _ => rfl⟩
  | message m rest dps =>
    obtain ⟨hfatal, hnone⟩ | ⟨hok, k, hk, hheld, hstore⟩ :=
      @userKernelCom_store h bpf hh m rest dps
    · exact .inl ⟨hfatal, hnone⟩
    · refine .inr ⟨hok, k, hk, hheld, fun evs => ?_⟩
      rw [storeEvents, agentStep, hk, List.foldl_append, hstore]
      rfl

/-- **A run**, from any host whose policies are in memory. -/
theorem agentRan_store (hh : h.PoliciesHeld) (evs : List AgentEvent) :
    (agentRan bpf E h evs = none ↔ ∃ ev ∈ evs, ev.Fatal) ∧
      ∀ g, agentRan bpf E h evs = some g →
        g.store = (storeEvents bpf E h evs).foldl PolicyStore.step h.store := by
  induction evs generalizing h with
  | nil =>
    refine ⟨iff_of_false (Option.some_ne_none h) (by simp), ?_⟩
    rintro g hg
    cases hg
    rfl
  | cons ev evs ih =>
    rw [agentRan]
    obtain ⟨hfatal, hnone⟩ | ⟨hok, k, hk, hheld, hstore⟩ :=
      @agentStep_store E h bpf hh ev
    · rw [hnone]
      refine ⟨iff_of_true rfl ⟨ev, List.mem_cons_self, hfatal⟩, ?_⟩
      rintro g hg
      cases hg
    · obtain ⟨hstops, hran⟩ := ih hheld
      rw [hk, Option.bind_some, hstops]
      refine ⟨?_, fun g hg => (hran g hg).trans (hstore evs).symm⟩
      simp [hok]

/-- **The newest policy decides.**  Whatever packets, control messages and netlink messages a host
has seen, the chain that it gives to a packet is that of the newest policy taking the packet, among
those that its user has added, with the hops that the user has sent, since the user last removed
them all.  Only a policy whose chain has length -1 stops the module. -/
theorem newest_policy (E : Env) (h : Host) (hl : h.policies = []) (evs : List AgentEvent) :
    (agentRan bpf E h evs = none ↔ ∃ ev ∈ evs, ev.Fatal) ∧
      ∀ g, agentRan bpf E h evs = some g → ∀ skb,
        (matchPolicy g skb).map (fun s => (g.scMem s).hops) =
          PolicyStore.chain ((storeEvents bpf E h evs).foldl PolicyStore.step []) skb := by
  have hheld : h.PoliciesHeld := by
    intro pol hpol
    rw [hl] at hpol
    cases hpol
  have hempty : h.store = [] := by rw [Host.store, hl, List.map_nil]
  obtain ⟨hstops, hran⟩ := @agentRan_store E h bpf hheld evs
  refine ⟨hstops, fun g hg skb => ?_⟩
  rw [matchPolicy_store, hran g hg, hempty]

/-- `ret #65535`, the program that takes every packet. -/
def takeAll : List SockFilter := [⟨6#16, 0#8, 0#8, 0xffff#32⟩]

/-- `bpf_prog_create`, which makes a filter of that program and refuses the empty one. -/
def bpfTakeAll (program : List SockFilter) : Option (SkBuff → Bool) :=
  if program = takeAll then some fun _ => true else none

/-- A policy, a SYN that it takes, a policy whose program is empty, and one with a negative
length. -/
def fourEvents : List AgentEvent :=
  [.message (.policy ⟨0#16, [0x0100000a#32], by decide⟩ takeAll (by decide) (by decide)) [] true,
    .leaves default (.frame ⟨plainSyn, by decide⟩),
    .message (.policy ⟨0#16, [0x0200000a#32], by decide⟩ [] (by decide) (by decide)) [] true,
    .message (.other dyscoPolicy [0xfe#8, 0xff#8, 0#8, 0#8]) [] true]

/-- The first policy decides; with length -1 the last message would have stopped the module. -/
theorem newest_policy_two :
    (∃ g, agentRan bpfTakeAll default Host.fresh fourEvents = some g ∧
      (matchPolicy g plainSyn).map (fun s => (g.scMem s).hops) = some [0x0100000a#32]) ∧
    agentRan bpfTakeAll default Host.fresh
      (fourEvents ++ [.message (.other dyscoPolicy [0xff#8, 0xff#8, 0#8, 0#8]) [] true]) =
      none := by
  refine ⟨⟨_, rfl,
      ((@newest_policy bpfTakeAll default Host.fresh rfl fourEvents).2 _ rfl plainSyn).trans rfl⟩,
    (newest_policy default Host.fresh rfl _).1.mpr ?_⟩
  exact ⟨_, List.mem_append_right _ (List.mem_singleton_self _), rfl, by decide, rfl⟩

end Dysco
