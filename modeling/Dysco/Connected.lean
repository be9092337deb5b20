import Dysco.LeftAnchor
import Dysco.SynPayload

/-! # Sessions with two paths: the blocks

Three handlers connect the blocks of a session's second path, one after the other: at the
left anchor the block of the new path is made and the old one marked; at the right anchor the block
of the new path comes first, and the old one is marked when the answer leaves.  The data path
reads what they have connected, and has branches for blocks that it finds half connected.

`Host.Connected` is the invariant that makes these branches unreachable, whatever the order of the
messages and the packets: a block with another path has left the state with one path; input
and output block of a session name each other; an input block with two paths has an output
block that is marked old or has another path.  The invariant is kept about a set of addresses
`U` that holds all blocks of the tables, so that blocks under construction are outside it.  Here are
its rules, and the data path, which keeps it.
-/
namespace Dysco

variable {E : Env} {h g : Host} {p q : Nat} {U V : Set Nat}

/-! ## The invariant -/

/-- The block is in one of the tables of output blocks. -/
def Host.Tabled (h : Host) (p : Nat) : Prop :=
  h.hashOut.Holds p ∨ h.hashPen.Holds p ∨ h.hashPenTag.Holds p

/-- A block with another path is in the course of a reconfiguration. -/
def CbOut.Begun (d : CbOut) : Prop := d.otherPath ≠ none → d.state ≠ .onePath

/-- A block of which it is known whether it is on the old path or on the new one. -/
def CbOut.OnSomePath (d : CbOut) : Prop := d.oldPath = true ∨ d.otherPath ≠ none

/-- The blocks in the tables are connected as they should be, and lie in `U`. -/
structure Host.Connected (h : Host) (U : Set Nat) : Prop where
  out_mem : ∀ p, h.Tabled p → p ∈ U
  in_mem : ∀ q, h.hashIn.Holds q → q ∈ U
  begun : ∀ p, h.Tabled p → (h.outMem p).Begun
  linked : ∀ p q, h.Tabled p → (h.outMem p).dcbIn = some q → q ∈ U ∧ (h.inMem q).dcbOut = some p
  back_mem : ∀ q p, h.hashIn.Holds q → (h.inMem q).dcbOut = some p → p ∈ U
  two : ∀ q, h.hashIn.Holds q → (h.inMem q).twoPaths = true →
    ∃ p, (h.inMem q).dcbOut = some p ∧ (h.outMem p).OnSomePath

/-- What may happen to a block that is in a table. -/
structure CbOut.Kept (d d' : CbOut) : Prop where
  dcbIn : d'.dcbIn = d.dcbIn
  begun : d.Begun → d'.Begun
  onSomePath : d.OnSomePath → d'.OnSomePath

/-- A write that has nothing to do with paths. -/
theorem CbOut.Kept.of_same {d d' : CbOut} (hin : d'.dcbIn = d.dcbIn)
    (hother : d'.otherPath = d.otherPath) (hold : d'.oldPath = d.oldPath)
    (hstate : d'.state = d.state) : d.Kept d' where
  dcbIn := hin
  begun hd := by rwa [CbOut.Begun, hother, hstate]
  onSomePath hd := by rwa [CbOut.OnSomePath, hother, hold]

/-- A step of a reconfiguration. -/
theorem CbOut.Kept.of_state {d d' : CbOut} (hin : d'.dcbIn = d.dcbIn) (hstate : d'.state ≠ .onePath)
    (hother : d.otherPath ≠ none → d'.otherPath ≠ none)
    (hold : d.oldPath = true → d'.oldPath = true) : d.Kept d' where
  dcbIn := hin
  begun _ _ := hstate
  onSomePath hd := hd.imp hold hother

/-- What two writes to a block in a row keep. -/
theorem CbOut.Kept.trans {d d' d'' : CbOut} (h1 : d.Kept d') (h2 : d'.Kept d'') : d.Kept d'' where
  dcbIn := h2.dcbIn.trans h1.dcbIn
  begun hd := h2.begun (h1.begun hd)
  onSomePath hd := h2.onSomePath (h1.onSomePath hd)

namespace Host.Connected

/-- More addresses may be in use than before. -/
theorem mono (hp : h.Connected U) (hUV : U ⊆ V) : h.Connected V :=
  { hp with
    out_mem := fun p ht => hUV (hp.out_mem p ht)
    in_mem := fun q hq => hUV (hp.in_mem q hq)
    linked := fun p q ht hd => ⟨hUV (hp.linked p q ht hd).1, (hp.linked p q ht hd).2⟩
    back_mem := fun q p hq hd => hUV (hp.back_mem q p hq hd) }

/-! ### Writes -/

theorem bump (hp : h.Connected U) : h.bump.Connected U := { hp with }
theorem kfree (hp : h.Connected U) (a : Nat) : (h.kfree a).Connected U := { hp with }

/-- Blocks of a reconfiguration are not what the data path follows. -/
theorem setRcb (hp : h.Connected U) (r : Nat) (d : CbReconfig) : (h.setRcb r d).Connected U :=
  { hp with }
theorem setSc (hp : h.Connected U) (s : Nat) (d : ServiceChain) : (h.setSc s d).Connected U :=
  { hp with }

/-- Nor is their table. -/
theorem insertReconfig (hp : h.Connected U) (r : Nat) : (h.insertReconfig E r).Connected U :=
  { hp with }
theorem removeReconfig (hp : h.Connected U) (r : Nat) : (h.removeReconfig E r).Connected U :=
  { hp with }
theorem allocateLocalPort (hp : h.Connected U) : h.allocateLocalPort.2.Connected U := { hp with }

/-- A block outside `U` is under construction. -/
theorem setOut_new (hp : h.Connected U) (hnew : p ∉ U) (d : CbOut) :
    (h.setOut p d).Connected U := by
  have hne : ∀ x, x ∈ U → x ≠ p := fun x hx heq => hnew (heq ▸ hx)
  have hmem : ∀ x, x ∈ U → (h.setOut p d).outMem x = h.outMem x := fun x hx =>
    Host.setOut_outMem_of_ne h (hne x hx) d
  refine { hp with begun := fun x hx => ?_, linked := fun x q hx => ?_, two := fun q hq htwo => ?_ }
  · rw [hmem x (hp.out_mem x hx)]
    exact hp.begun x hx
  · rw [hmem x (hp.out_mem x hx)]
    exact hp.linked x q hx
  · obtain ⟨x, hx, hpath⟩ := hp.two q hq htwo
    refine ⟨x, hx, ?_⟩
    rw [hmem x (hp.back_mem q x hq hx)]
    exact hpath

/-- A fresh input block is in no table, so it may hold anything. -/
theorem setIn_new (hp : h.Connected U) (hnew : q ∉ U) (d : CbIn) : (h.setIn q d).Connected U := by
  have hne : ∀ x, x ∈ U → x ≠ q := fun x hx heq => hnew (heq ▸ hx)
  have hmem : ∀ x, x ∈ U → (h.setIn q d).inMem x = h.inMem x := fun x hx =>
    Host.setIn_inMem_of_ne h (hne x hx) d
  refine { hp with linked := fun x y hx hd => ?_, back_mem := fun x y hx => ?_,
                   two := fun x hx => ?_ }
  · obtain ⟨hy, hlink⟩ := hp.linked x y hx hd
    rw [hmem y hy]
    exact ⟨hy, hlink⟩
  · rw [hmem x (hp.in_mem x hx)]
    exact hp.back_mem x y hx
  · rw [hmem x (hp.in_mem x hx)]
    exact hp.two x hx

/-- A write to any block, in a table or not, that keeps what the invariant reads. -/
theorem setOut_kept (hp : h.Connected U) {d : CbOut} (hk : (h.outMem p).Kept d) :
    (h.setOut p d).Connected U := by
  refine { hp with begun := fun x hx => ?_, linked := fun x q hx => ?_, two := fun q hq htwo => ?_ }
  · by_cases hxp : x = p
    · subst hxp
      rw [Host.setOut_outMem_self]
      exact hk.begun (hp.begun x hx)
    · rw [Host.setOut_outMem_of_ne h hxp]
      exact hp.begun x hx
  · by_cases hxp : x = p
    · subst hxp
      rw [Host.setOut_outMem_self, hk.dcbIn]
      exact hp.linked x q hx
    · rw [Host.setOut_outMem_of_ne h hxp]
      exact hp.linked x q hx
  · obtain ⟨x, hx, hpath⟩ := hp.two q hq htwo
    refine ⟨x, hx, ?_⟩
    by_cases hxp : x = p
    · subst hxp
      rw [Host.setOut_outMem_self]
      exact hk.onSomePath hpath
    · rw [Host.setOut_outMem_of_ne h hxp]
      exact hpath

/-- Connecting a block to an input block that names it. -/
theorem setOut_withDcbIn (hp : h.Connected U) {o : Option Nat}
    (ho : ∀ q, o = some q → q ∈ U ∧ (h.inMem q).dcbOut = some p) :
    (h.setOut p ((h.outMem p).withDcbIn o)).Connected U := by
  refine { hp with begun := fun x hx => ?_, linked := fun x q hx => ?_, two := fun q hq htwo => ?_ }
  · by_cases hxp : x = p
    · subst hxp
      rw [Host.setOut_outMem_self]
      exact hp.begun x hx
    · rw [Host.setOut_outMem_of_ne h hxp]
      exact hp.begun x hx
  · by_cases hxp : x = p
    · subst hxp
      rw [Host.setOut_outMem_self]
      exact ho q
    · rw [Host.setOut_outMem_of_ne h hxp]
      exact hp.linked x q hx
  · obtain ⟨x, hx, hpath⟩ := hp.two q hq htwo
    refine ⟨x, hx, ?_⟩
    by_cases hxp : x = p
    · subst hxp
      rw [Host.setOut_outMem_self]
      exact hpath
    · rw [Host.setOut_outMem_of_ne h hxp]
      exact hpath

/-- A write to any input block that connects it as before.  It may get two paths if its output
block is on one. -/
theorem setIn_kept (hp : h.Connected U) {d : CbIn} (hout : d.dcbOut = (h.inMem q).dcbOut)
    (htwo : d.twoPaths = true → (h.inMem q).twoPaths = true ∨
      ∃ p, d.dcbOut = some p ∧ (h.outMem p).OnSomePath) : (h.setIn q d).Connected U := by
  refine { hp with linked := fun x y hx hd => ?_, back_mem := fun x y hx => ?_,
                   two := fun x hx => ?_ }
  · obtain ⟨hy, hlink⟩ := hp.linked x y hx hd
    refine ⟨hy, ?_⟩
    by_cases hyq : y = q
    · subst hyq
      rw [Host.setIn_inMem_self, hout]
      exact hlink
    · rw [Host.setIn_inMem_of_ne h hyq]
      exact hlink
  · by_cases hxq : x = q
    · subst hxq
      rw [Host.setIn_inMem_self, hout]
      exact hp.back_mem x y hx
    · rw [Host.setIn_inMem_of_ne h hxq]
      exact hp.back_mem x y hx
  · by_cases hxq : x = q
    · subst hxq
      rw [Host.setIn_inMem_self]
      intro ht
      obtain hbefore | hpath := htwo ht
      · rw [hout]
        exact hp.two x hx hbefore
      · exact hpath
    · rw [Host.setIn_inMem_of_ne h hxq]
      exact hp.two x hx

/-! ### Tables -/

/-- A block that may be put into a table. -/
structure Ready (h : Host) (U : Set Nat) (p : Nat) : Prop where
  mem : p ∈ U
  begun : (h.outMem p).Begun
  linked : ∀ q, (h.outMem p).dcbIn = some q → q ∈ U ∧ (h.inMem q).dcbOut = some p

/-- One more block gets into a table: it has to be ready, and all else is as it was. -/
theorem of_tabled (hp : h.Connected U) (hr : Ready h U p)
    (hg : ∀ x, g.Tabled x → x = p ∨ h.Tabled x) (hout : g.outMem = h.outMem)
    (hin : g.inMem = h.inMem) (htab : g.hashIn = h.hashIn) : g.Connected U := by
  refine ⟨fun x hx => ?_, ?_, fun x hx => ?_, fun x q hx => ?_, ?_, ?_⟩
  · rcases hg x hx with rfl | hx
    · exact hr.mem
    · exact hp.out_mem x hx
  · rw [htab]
    exact hp.in_mem
  · rw [hout]
    rcases hg x hx with rfl | hx
    · exact hr.begun
    · exact hp.begun x hx
  · rw [hout, hin]
    rcases hg x hx with rfl | hx
    · exact hr.linked q
    · exact hp.linked x q hx
  · rw [htab, hin]
    exact hp.back_mem
  · rw [htab, hin, hout]
    exact hp.two

/-- A ready block may go into the output table. -/
theorem insertOut (hp : h.Connected U) (hr : Ready h U p) : (h.insertOut E p).Connected U :=
  hp.of_tabled hr (fun _ hx => hx.elim (fun ho => (BucketTable.holds_insert.mp ho).imp id Or.inl)
    fun hx => Or.inr (Or.inr hx)) rfl rfl rfl

/-- It may go into the pending tables. -/
theorem insertPen (hp : h.Connected U) (hr : Ready h U p) : (h.insertPen E p).Connected U :=
  hp.of_tabled hr (fun _ hx => hx.elim (fun ho => Or.inr (Or.inl ho)) fun hx =>
    hx.elim (fun hpen => (BucketTable.holds_insert.mp hpen).imp id fun h1 => Or.inr (Or.inl h1))
      fun htag => Or.inr (Or.inr (Or.inr htag))) rfl rfl rfl

theorem insertTag (hp : h.Connected U) (hr : Ready h U p) : (h.insertTag E p).Connected U :=
  hp.of_tabled hr (fun _ hx => hx.elim (fun ho => Or.inr (Or.inl ho)) fun hx =>
    hx.elim (fun hpen => Or.inr (Or.inr (Or.inl hpen)))
      fun htag => (BucketTable.holds_insert.mp htag).imp id fun h1 => Or.inr (Or.inr h1))
        rfl rfl rfl

/-- A block that is in a table may be put into another. -/
theorem ready (hp : h.Connected U) (ht : h.Tabled p) : Ready h U p :=
  ⟨hp.out_mem p ht, hp.begun p ht, fun q hq => hp.linked p q ht hq⟩

/-- What leaves a table is asked for nothing any more. -/
theorem of_subset (hp : h.Connected U) (hg : ∀ x, g.Tabled x → h.Tabled x)
    (hout : g.outMem = h.outMem) (hin : g.inMem = h.inMem) (htab : g.hashIn = h.hashIn) :
    g.Connected U := by
  refine ⟨fun x hx => hp.out_mem x (hg x hx), ?_, fun x hx => ?_, fun x q hx => ?_, ?_, ?_⟩
  · rw [htab]
    exact hp.in_mem
  · rw [hout]
    exact hp.begun x (hg x hx)
  · rw [hout, hin]
    exact hp.linked x q (hg x hx)
  · rw [htab, hin]
    exact hp.back_mem
  · rw [htab, hin, hout]
    exact hp.two

theorem removePen (hp : h.Connected U) (a : Nat) : (h.removePen E a).Connected U :=
  hp.of_subset (fun _ hx => hx.imp id (Or.imp BucketTable.holds_of_remove id)) rfl rfl rfl

theorem removeTag (hp : h.Connected U) (a : Nat) : (h.removeTag E a).Connected U :=
  hp.of_subset (fun _ hx => hx.imp id (Or.imp id BucketTable.holds_of_remove)) rfl rfl rfl

/-- An input block may go into the table if it leads to a block in use, and to one that has a path
when it says that there are two. -/
theorem insertIn (hp : h.Connected U) (hq : q ∈ U)
    (hback : ∀ p, (h.inMem q).dcbOut = some p → p ∈ U)
    (htwo : (h.inMem q).twoPaths = true →
      ∃ p, (h.inMem q).dcbOut = some p ∧ (h.outMem p).OnSomePath) :
    (h.insertIn E q).Connected U := by
  refine { hp with in_mem := fun x hx => ?_, back_mem := fun x p hx => ?_, two := fun x hx => ?_ }
  all_goals rcases BucketTable.holds_insert.mp hx with rfl | hx
  · exact hq
  · exact hp.in_mem x hx
  · exact hback p
  · exact hp.back_mem x p hx
  · exact htwo
  · exact hp.two x hx

end Host.Connected

/-! ## Making blocks -/

/-- An allocation fails or gives the next address, and either way the next one is another. -/
theorem Host.kmalloc_cases (h : Host) :
    h.kmalloc = (none, h.bump) ∨ h.kmalloc = (some h.brk, h.bump) := by
  rw [Host.kmalloc]
  split
  · exact Or.inl rfl
  · exact Or.inr rfl

theorem Host.kzallocOut_cases (h : Host) : h.kzallocOut = (none, h.bump) ∨
    h.kzallocOut = (some h.brk, h.bump.setOut h.brk default) := by
  rw [Host.kzallocOut]
  split
  · exact Or.inl rfl
  · exact Or.inr rfl

theorem Host.kzallocIn_cases (h : Host) : h.kzallocIn = (none, h.bump) ∨
    h.kzallocIn = (some h.brk, h.bump.setIn h.brk default) := by
  rw [Host.kzallocIn]
  split
  · exact Or.inl rfl
  · exact Or.inr rfl

/-- What has been allocated. -/
abbrev Host.allocated (h : Host) : Set Nat := Set.Iio h.brk

/-- The address that the next allocation gives is not in use. -/
theorem Host.brk_notMem (h : Host) : h.brk ∉ h.allocated := fun hlt => Nat.lt_irrefl _ hlt

theorem Host.allocated_mono (hle : h.brk ≤ g.brk) : h.allocated ⊆ g.allocated :=
  fun _ hx => Nat.lt_of_lt_of_le hx hle

/-- What a function that makes blocks leaves behind. -/
structure Grown (h g : Host) : Prop where
  connected : g.Connected g.allocated
  brk : h.brk ≤ g.brk

/-- Two steps in a row that leave blocks connected and addresses in use. -/
theorem Grown.trans {k : Host} (h1 : Grown h g) (h2 : Grown g k) : Grown h k :=
  ⟨h2.connected, h1.brk.trans h2.brk⟩

/-- A write that makes no block. -/
theorem Grown.of_brk (hp : g.Connected h.allocated) (hbrk : g.brk = h.brk) : Grown h g :=
  ⟨by rwa [Host.allocated, hbrk], hbrk.ge⟩

/-- What `insertCbOutReverse` adds to a host whose blocks are connected. -/
structure Reversed (h g : Host) (p : Nat) (o : Option Nat) : Prop extends Grown h g where
  outMem : ∃ o', g.outMem = Function.update h.outMem p ((h.outMem p).withDcbIn o')
  named : ∀ q, o = some q → q ∈ g.allocated ∧ (g.inMem q).dcbOut = some p
  tabled : ∀ x, g.Tabled x ↔ h.Tabled x

/-- The block is filled in before the output block names it, and put into the table last. -/
theorem insertCbOutReverse_connected (hp : h.Connected h.allocated) (hlt : p < h.brk)
    {twoPaths : Bool} (hpath : twoPaths = true → (h.outMem p).OnSomePath) {o : Option Nat}
    (hi : insertCbOutReverse E h p twoPaths = (o, g)) : Reversed h g p o := by
  rw [insertCbOutReverse] at hi
  obtain hk | hk := h.kzallocIn_cases
  · rw [hk] at hi
    cases hi
    have hself : h.outMem = Function.update h.outMem p
        ((h.outMem p).withDcbIn (h.outMem p).dcbIn) := (Function.update_eq_self p _).symm
    exact { connected := hp.bump.mono (Host.allocated_mono (Nat.le_succ _))
            brk := Nat.le_succ _
            outMem := ⟨_, hself⟩
            named := fun q hq => nomatch hq
            tabled := fun x => Iff.rfl }
  · rw [hk] at hi
    cases hi
    generalize hd : ((h.bump.setIn h.brk default).outMem p).reverseIn p twoPaths = d
    have hback : d.dcbOut = some p := by rw [← hd]; rfl
    have htwo : d.twoPaths = twoPaths := by rw [← hd]; rfl
    have hnew : Host.brk h ∉ h.allocated := h.brk_notMem
    have hq : h.brk ∈ (h.bump).allocated := Nat.lt_succ_self _
    have hmade : ((h.bump.setIn h.brk default).setIn h.brk d).Connected h.bump.allocated :=
      ((hp.bump.setIn_new hnew _).setIn_new hnew _).mono (Host.allocated_mono (Nat.le_succ _))
    have hlink := hmade.setOut_withDcbIn (p := p) (o := some h.brk) fun q hq' => by
      cases hq'
      exact ⟨hq, by rw [Host.setIn_inMem_self, hback]⟩
    exact { connected := hlink.insertIn hq
              (fun x hx => by
                rw [Host.setOut_inMem, Host.setIn_inMem_self, hback] at hx
                cases hx
                exact Nat.lt_succ_of_lt hlt)
              (fun ht => by
                rw [Host.setOut_inMem, Host.setIn_inMem_self, htwo] at ht
                rw [Host.setOut_inMem, Host.setIn_inMem_self]
                refine ⟨p, hback, ?_⟩
                rw [Host.setOut_outMem_self]
                exact hpath ht)
            brk := Nat.le_succ _
            outMem := ⟨_, rfl⟩
            named := fun q hq' => by
              cases hq'
              refine ⟨hq, ?_⟩
              rw [Host.insertIn_inMem, Host.setOut_inMem, Host.setIn_inMem_self]
              exact hback
            tabled := fun x => Iff.rfl }

/-- The two blocks of a session. -/
theorem insertCbOut_grown (hp : h.Connected h.allocated)
    (hr : Host.Connected.Ready h h.allocated p) : Grown h (insertCbOut E h p false) := by
  rw [insertCbOut]
  cases hi : insertCbOutReverse E (h.insertOut E p) p false with
  | mk o g =>
    have hrev := insertCbOutReverse_connected (hp.insertOut hr) (by exact hr.mem)
      (fun hf => Bool.noConfusion hf) hi
    exact ⟨hrev.connected.setOut_withDcbIn hrev.named, hrev.brk⟩

/-! ## The output path -/

/-- The options of a SYN say nothing about paths. -/
theorem CbOut.kept_parse (skb : SkBuff) (d : CbOut) : d.Kept (parseTcpSynOptS skb d) := by
  rw [parseTcpSynOptS_eq]
  exact .of_same rfl rfl rfl rfl

theorem CbOut.kept_arp (tos : U8) (d : CbOut) : d.Kept (arp E tos d) := .of_same rfl rfl rfl rfl

/-- Nor does a SYN+ACK that leaves. -/
theorem CbOut.kept_synAckOut (d : CbOut) (skb : SkBuff) : d.Kept (d.synAckOut skb) :=
  .of_same rfl rfl rfl rfl

/-- Nor does a SYN+ACK that comes in. -/
theorem CbOut.kept_synAckIn (d : CbOut) (skb : SkBuff) (i : CbIn) : d.Kept (d.synAckIn skb i) := by
  rw [CbOut.synAckIn]
  generalize ntohl skb.ackSeq - 1#32 = a
  generalize ntohl skb.seq = s
  split <;> split <;> exact .of_same rfl rfl rfl rfl

/-- And it leaves the input block on its path. -/
theorem CbIn.synAckOut_paths (i : CbIn) (d : CbOut) :
    (i.synAckOut d).dcbOut = i.dcbOut ∧ (i.synAckOut d).twoPaths = i.twoPaths := by
  rw [CbIn.synAckOut]
  split <;> split <;> exact ⟨rfl, rfl⟩

/-- A SYN of a session that has its blocks. -/
theorem outSynWith_connected (hp : h.Connected U) (skb : SkBuff) (p : Nat) :
    (outSynWith E h skb p).1.Connected U ∧ (outSynWith E h skb p).1.brk = h.brk := by
  rw [outSynWith]
  generalize hd0 : { h.outMem p with seqCutoff := ntohl skb.seq } = d0
  have hk0 : (h.outMem p).Kept d0 := by rw [← hd0]; exact .of_same rfl rfl rfl rfl
  have hk1 := hk0.trans (CbOut.kept_parse skb d0)
  generalize parseTcpSynOptS skb d0 = d1 at hk1 ⊢
  have hp1 := hp.setOut_kept hk1
  simp only
  split
  · split
    · exact ⟨hp1, rfl⟩
    · rename_i q _
      have hk2 : ((h.setOut p d1).outMem p).Kept (d1.synAckOut skb) := by
        rw [Host.setOut_outMem_self]
        exact d1.kept_synAckOut skb
      obtain ⟨hout, htwo⟩ := CbIn.synAckOut_paths
        (((h.setOut p d1).setOut p (d1.synAckOut skb)).inMem q) (d1.synAckOut skb)
      exact ⟨(hp1.setOut_kept hk2).setIn_kept hout fun ht => Or.inl (htwo.symm.trans ht), rfl⟩
  · refine ⟨hp1.setOut_kept ?_, rfl⟩
    rw [Host.setOut_outMem_self]
    split
    · exact d1.kept_arp skb.tos
    · exact .of_same rfl rfl rfl rfl

/-- A write that keeps a block ready for a table. -/
theorem Host.Connected.Ready.setOut (hr : Host.Connected.Ready h U p) {d : CbOut}
    (hk : (h.outMem p).Kept d) : Host.Connected.Ready (h.setOut p d) U p where
  mem := hr.mem
  begun := by
    rw [Host.setOut_outMem_self]
    exact hk.begun hr.begun
  linked q hq := by
    rw [Host.setOut_outMem_self, hk.dcbIn] at hq
    exact hr.linked q hq

/-- A block just made that names no other. -/
theorem Host.Connected.Ready.made (hlt : p ∈ U) (hother : (h.outMem p).otherPath = none)
    (hin : (h.outMem p).dcbIn = none) : Host.Connected.Ready h U p where
  mem := hlt
  begun hne := absurd hother hne
  linked q hq := by
    rw [hin] at hq
    cases hq

/-- `dysco_create_cb_out` makes a block that is ready for the table. -/
theorem createCbOut_grown (hp : h.Connected h.allocated) {skb : SkBuff} {sc : Nat} {o : Option Nat}
    (hc : createCbOut E h skb sc = (o, g)) :
    Grown h g ∧ ∀ p, o = some p → Host.Connected.Ready g g.allocated p := by
  have hbump : h.bump.Connected h.bump.allocated :=
    hp.bump.mono (Host.allocated_mono (Nat.le_succ _))
  have hle : h.allocated ⊆ h.bump.allocated := Host.allocated_mono (Nat.le_succ _)
  have hzero := hp.bump.setOut_new h.brk_notMem default
  rw [createCbOut] at hc
  obtain hk | hk := h.kzallocOut_cases
  · rw [hk] at hc
    cases hc
    exact ⟨⟨hbump, Nat.le_succ _⟩, fun p hp => nomatch hp⟩
  · rw [hk] at hc
    simp only at hc
    split at hc
    · cases hc
      exact ⟨⟨((hzero.setOut_new h.brk_notMem _).mono hle).kfree _, Nat.le_succ _⟩,
        fun p hp => nomatch hp⟩
    · cases hc
      have hmade := hzero.allocateLocalPort.setOut_new h.brk_notMem
      refine ⟨⟨(hmade _).mono hle, Nat.le_succ _⟩, fun p hp => ?_⟩
      cases hp
      refine .made (Nat.lt_succ_self _) ?_ ?_ <;>
        rw [Host.setOut_outMem_self, arp, Host.setOut_outMem_self] <;> rfl

/-- A block that is found by its tag is in a table, and stays as it was but for its options. -/
theorem lookupPenTag_connected (hp : h.Connected U) {skb : SkBuff} {o : Option Nat}
    (hl : lookupPenTag E h skb = (o, g)) :
    g.Connected U ∧ g.brk = h.brk ∧ ∀ p, o = some p → g.Tabled p := by
  rw [lookupPenTag, lookupPenTagBy] at hl
  simp only at hl
  split at hl
  · split at hl
    · cases hl
      exact ⟨hp, rfl, fun p hp => by cases hp⟩
    · rename_i p hfound
      cases hl
      refine ⟨hp.setOut_kept (.of_same rfl rfl rfl rfl), rfl, fun x hx => ?_⟩
      cases hx
      exact Or.inr (Or.inr (BucketTable.lookup_eq_some hfound).1)
  · cases hl
    exact ⟨hp, rfl, fun p hp => by cases hp⟩

/-- A pending SYN leaves the middlebox. -/
theorem outHandleMb_grown (hp : h.Connected h.allocated) (ht : h.Tabled p) (skb : SkBuff) :
    Grown h (outHandleMb E h skb p).1 := by
  rw [outHandleMb]
  simp only
  generalize hd : parseTcpSynOptS skb _ = d
  have hk : (h.outMem p).Kept d := by
    rw [← hd]
    refine .trans ?_ (CbOut.kept_parse skb _)
    split <;> exact .of_same rfl rfl rfl rfl
  have hready : Host.Connected.Ready ((h.removePen E p).removeTag E p).allocateLocalPort.2
      h.allocated p := { hp.ready ht with }
  have hp1 := ((hp.removePen (E := E) p).removeTag (E := E) p).allocateLocalPort
  have hmade := insertCbOut_grown (E := E) (hp1.setOut_kept hk) (hready.setOut hk)
  exact ⟨hmade.connected, hmade.brk⟩

/-- The packet's own block may get a new cutoff, nothing else. -/
theorem outTranslate_connected (hp : h.Connected U) (skb : SkBuff) (p : Nat) :
    (outTranslate E h skb p).1.Connected U ∧ (outTranslate E h skb p).1.brk = h.brk := by
  obtain ⟨m, hm⟩ := outTranslate_marks E h skb p
  rw [hm]
  exact ⟨hp.setOut_kept (.of_same rfl rfl rfl rfl), rfl⟩

/-- A SYN that leaves may make the two blocks of its session. -/
theorem outSyn_grown (hp : h.Connected h.allocated) (skb : SkBuff) (o : Option Nat) :
    Grown h (outSyn E h skb o).1 := by
  cases o with
  | some p =>
    obtain ⟨hc, hbrk⟩ := outSynWith_connected (E := E) hp skb p
    exact .of_brk hc hbrk
  | none =>
    simp only [outSyn]
    cases matchPolicy h skb with
    | none => exact ⟨hp, le_rfl⟩
    | some sc =>
      cases hc : createCbOut E h skb sc with
      | mk o g =>
        obtain ⟨hmade, hready⟩ := createCbOut_grown hp hc
        cases o with
        | none => simpa only [hc] using hmade
        | some p =>
          have hboth := insertCbOut_grown (E := E) hmade.connected (hready p rfl)
          obtain ⟨hsyn, hbrk⟩ := outSynWith_connected (E := E) hboth.connected skb p
          simpa only [hc] using (hmade.trans hboth).trans (.of_brk hsyn hbrk)

/-- **A TCP packet leaves the host.** -/
theorem output_grown (hp : h.Connected h.allocated) (skb : SkBuff) :
    Grown h (output E h skb).1 := by
  have hstay : Grown h h := ⟨hp, le_rfl⟩
  rw [output_unfold]
  split
  · exact hstay
  · split
    · exact hstay
    · split
      · rename_i p _
        rw [outputWith]
        split
        · exact outSyn_grown hp skb (some p)
        · obtain ⟨hc, hbrk⟩ := outTranslate_connected (E := E) hp _ p
          exact .of_brk hc hbrk
      · split
        · rename_i p hpen
          exact outHandleMb_grown hp (Or.inr (Or.inl (BucketTable.lookup_eq_some hpen).1)) skb
        · cases hl : lookupPenTag E h skb with
          | mk o g =>
            obtain ⟨hc, hbrk, ht⟩ := lookupPenTag_connected hp hl
            have hg : Grown h g := .of_brk hc hbrk
            cases o with
            | none =>
              simp only
              split
              · exact hg.trans (outSyn_grown hg.connected skb none)
              · exact hg
            | some p =>
              have htuple : Grown g (updateFiveTuple g skb p) :=
                .of_brk (hg.connected.setOut_kept (.of_same rfl rfl rfl rfl)) rfl
              exact (hg.trans htuple).trans (outHandleMb_grown htuple.connected (ht p rfl) skb)

/-! ## The input path -/

/-- What making a pending block leaves behind: one block more may be in the tables. -/
structure Pended (h g : Host) (U : Set Nat) : Prop where
  connected : g.Connected (insert h.brk U)
  brk : h.brk < g.brk
  inMem : g.inMem = h.inMem
  outMem : ∀ x, x ≠ h.brk → g.outMem x = h.outMem x

/-- `dysco_insert_pending` makes a ready block and files it. -/
theorem insertPending_pended (hp : h.Connected U) (hnew : h.brk ∉ U) (sp : SynPacket) :
    Pended h (insertPending E h sp).2 U := by
  have hsub : U ⊆ insert h.brk U := Set.subset_insert _ _
  rw [insertPending]
  obtain hk | hk := h.kzallocOut_cases
  · rw [hk]
    exact ⟨hp.bump.mono hsub, Nat.lt_succ_self _, rfl, fun _ _ => rfl⟩
  · rw [hk]
    simp only
    generalize hd : ({ (h.bump.setOut h.brk default).outMem h.brk with super := sp.ss } : CbOut) = d
    have hempty : d.dcbIn = none ∧ d.otherPath = none := by
      rw [← hd, Host.setOut_outMem_self]
      exact ⟨rfl, rfl⟩
    have hset := (hp.bump.setOut_new hnew default).setOut_new hnew d
    have hother : ∀ x, x ≠ h.brk →
        ((h.bump.setOut h.brk default).setOut h.brk d).outMem x = h.outMem x := fun x hx => by
      rw [Host.setOut_outMem_of_ne _ hx, Host.setOut_outMem_of_ne _ hx, Host.bump_outMem]
    have hself := (h.bump.setOut h.brk default).setOut_outMem_self (p := h.brk) d
    have hbrk : h.brk < ((h.bump.setOut h.brk default).setOut h.brk d).brk := Nat.lt_succ_self _
    have hin : ((h.bump.setOut h.brk default).setOut h.brk d).inMem = h.inMem := rfl
    generalize (h.bump.setOut h.brk default).setOut h.brk d = g at hset hother hself hbrk hin ⊢
    obtain hk | hk := g.kmalloc_cases
    · rw [hk]
      exact ⟨(hset.bump.kfree _).mono hsub, Nat.lt_succ_of_lt hbrk, hin, hother⟩
    · rw [hk]
      simp only
      generalize hd' : ({ (g.bump.setSc g.brk _).outMem h.brk with
        sc := some g.brk, freeSc := true } : CbOut) = d'
      have hempty' : d'.dcbIn = none ∧ d'.otherPath = none := by
        rw [← hd']
        change (g.outMem h.brk).dcbIn = none ∧ (g.outMem h.brk).otherPath = none
        rwa [hself]
      have hset' :=
        ((hset.bump.setSc g.brk (sp.sc.rest (g.scMem g.brk))).setOut_new hnew d').mono hsub
      have hready : Host.Connected.Ready
          ((g.bump.setSc g.brk (sp.sc.rest (g.scMem g.brk))).setOut h.brk d')
          (insert h.brk U) h.brk := by
        refine .made (Set.mem_insert _ _) ?_ ?_ <;> rw [Host.setOut_outMem_self]
        · exact hempty'.2
        · exact hempty'.1
      refine ⟨(hset'.insertPen hready).insertTag { hready with }, Nat.lt_succ_of_lt hbrk, hin,
        fun x hx => ?_⟩
      exact (Host.setOut_outMem_of_ne _ hx _).trans (hother x hx)

/-- The options of a SYN leave an input block on its path. -/
theorem CbIn.parse_paths (skb : SkBuff) (d : CbIn) :
    (parseTcpSynOptR skb d).dcbOut = d.dcbOut ∧ (parseTcpSynOptR skb d).twoPaths = d.twoPaths := by
  have hone : ∀ (d : CbIn) o, (parseOptR skb d o).dcbOut = d.dcbOut ∧
      (parseOptR skb d o).twoPaths = d.twoPaths := by
    intro d o
    rw [parseOptR]
    generalize skb.be32 o.ptr = ts
    generalize skb.be32 (o.ptr + 4) = tsr
    generalize skb.wscale o.ptr = ws
    split
    · split <;> exact ⟨rfl, rfl⟩
    · split
      · split <;> exact ⟨rfl, rfl⟩
      · split
        · split <;> exact ⟨rfl, rfl⟩
        · exact ⟨rfl, rfl⟩
  have hfold : ∀ (os : List TcpOption) (d : CbIn),
      (os.foldl (parseOptR skb) d).dcbOut = d.dcbOut ∧
        (os.foldl (parseOptR skb) d).twoPaths = d.twoPaths := by
    intro os
    induction os with
    | nil => exact fun _ => ⟨rfl, rfl⟩
    | cons o os ih =>
      intro d
      obtain ⟨hout, htwo⟩ := ih (parseOptR skb d o)
      exact ⟨hout.trans (hone d o).1, htwo.trans (hone d o).2⟩
  exact hfold skb.options { d with sackOk := false }

/-- Two blocks just made are connected and put into their tables.  Neither has another path. -/
theorem Host.Connected.insertBoth (hp : h.Connected U) (hUV : U ⊆ V) (hq : q ∉ U) (hpU : p ∉ U)
    (hqV : q ∈ V) (hpV : p ∈ V) (hone : (h.inMem q).twoPaths = false)
    (hnew : (h.outMem p).otherPath = none) :
    ((((h.setIn q ((h.inMem q).withDcbOut p)).setOut p
      (((h.setIn q ((h.inMem q).withDcbOut p)).outMem p).withDcbIn (some q))).insertIn E
      q).insertOut
        E p).Connected V := by
  have hp1 := ((hp.setIn_new hq ((h.inMem q).withDcbOut p)).setOut_new hpU
    (((h.setIn q ((h.inMem q).withDcbOut p)).outMem p).withDcbIn (some q))).mono hUV
  have hin : ((h.setIn q ((h.inMem q).withDcbOut p)).setOut p
      (((h.setIn q ((h.inMem q).withDcbOut p)).outMem p).withDcbIn (some q))).inMem q =
      (h.inMem q).withDcbOut p := Host.setIn_inMem_self ..
  have hout : ((h.setIn q ((h.inMem q).withDcbOut p)).setOut p
      (((h.setIn q ((h.inMem q).withDcbOut p)).outMem p).withDcbIn (some q))).outMem p =
      (h.outMem p).withDcbIn (some q) := Host.setOut_outMem_self ..
  generalize (h.setIn q ((h.inMem q).withDcbOut p)).setOut p
    (((h.setIn q ((h.inMem q).withDcbOut p)).outMem p).withDcbIn (some q)) = g at hp1 hin hout ⊢
  have hp2 : (g.insertIn E q).Connected V := hp1.insertIn hqV
    (fun x hx => by
      rw [hin] at hx
      cases hx
      exact hpV)
    (fun ht => by
      rw [hin] at ht
      exact absurd (ht.symm.trans hone) Bool.noConfusion)
  refine hp2.insertOut ⟨hpV, fun hne => ?_, fun x hx => ?_⟩
  · rw [Host.insertIn_outMem, hout] at hne
    exact absurd hnew hne
  · rw [Host.insertIn_outMem, hout] at hx
    cases hx
    refine ⟨hqV, ?_⟩
    rw [Host.insertIn_inMem, hin]
    rfl

/-- The blocks of a SYN with a chain.  Both stay outside the tables while the pending block is
made, and name each other before they are put into them. -/
theorem insertCbInput_grown (hp : h.Connected h.allocated) (skb : SkBuff) (sp : SynPacket) :
    Grown h (insertCbInput E h skb sp).2 := by
  rw [insertCbInput]
  obtain hk | hk := h.kzallocIn_cases
  · rw [hk]
    exact ⟨hp.bump.mono (Host.allocated_mono (Nat.le_succ _)), Nat.le_succ _⟩
  · rw [hk]
    simp only
    generalize hd : ({ (h.bump.setIn h.brk default).inMem h.brk with
      sub := skb.session, super := sp.ss, twoPaths := false, skbIif := skb.skbIif,
      seqDelta := 0#32, ackDelta := 0#32 } : CbIn) = d
    have hone : d.twoPaths = false := by rw [← hd]
    have hp1 := (hp.bump.setIn_new h.brk_notMem default).setIn_new h.brk_notMem d
    have hbrk : ((h.bump.setIn h.brk default).setIn h.brk d).brk = h.brk + 1 := rfl
    have hself := (h.bump.setIn h.brk default).setIn_inMem_self (p := h.brk) d
    generalize (h.bump.setIn h.brk default).setIn h.brk d = g at hp1 hbrk hself ⊢
    have hnew : g.brk ∉ h.allocated := by
      rw [hbrk]
      exact Nat.not_lt.mpr (Nat.le_succ _)
    rw [insertCbInReverse]
    obtain hk | hk := g.kzallocOut_cases
    · rw [hk]
      have hle : h.brk ≤ g.brk + 1 := by omega
      exact ⟨(hp1.bump.kfree _).mono (Host.allocated_mono hle), hle⟩
    · rw [hk]
      simp only
      generalize hd' : ({ (g.bump.setOut g.brk default).outMem g.brk with
        super := sp.ss.reverse, sub := skb.session.reverse, inIack := ntohl skb.seq,
        outIack := ntohl skb.seq, otherPath := none, oldPath := false, validAckCut := false,
        useNpSeq := false, useNpAck := false, ackCutoff := 0#32, ackCtr := 0#32,
        state := .onePath, nhMac := skb.hSource } : CbOut) = d'
      have hother : d'.otherPath = none := by rw [← hd']
      have hp2 := (hp1.bump.setOut_new hnew default).setOut_new hnew d'
      have hbrk' : ((g.bump.setOut g.brk default).setOut g.brk d').brk = h.brk + 2 :=
        congrArg (· + 1) hbrk
      have hselfO := (g.bump.setOut g.brk default).setOut_outMem_self (p := g.brk) d'
      have hselfI : ((g.bump.setOut g.brk default).setOut g.brk d').inMem h.brk = d := hself
      generalize (g.bump.setOut g.brk default).setOut g.brk d' = k at hp2 hbrk' hselfO hselfI ⊢
      have hpend : ∀ ok k', (if 1 < sp.sc.hops.length then insertPending E k sp else (true, k)) =
          (ok, k') → k.brk ≤ k'.brk ∧ k'.inMem = k.inMem ∧
          (∀ x, x ≠ k.brk → k'.outMem x = k.outMem x) ∧
            ∃ W, k'.Connected W ∧ W ⊆ insert k.brk h.allocated ∧ W ⊆ k'.allocated := by
        intro ok k' hk'
        have hsub : h.allocated ⊆ k.allocated := Host.allocated_mono (by omega)
        split at hk'
        · have hnew' : k.brk ∉ h.allocated := by
            rw [hbrk']
            exact Nat.not_lt.mpr (by omega)
          have hadd := insertPending_pended (E := E) hp2 hnew' sp
          rw [hk'] at hadd
          refine ⟨hadd.brk.le, hadd.inMem, hadd.outMem, _, hadd.connected, subset_rfl, ?_⟩
          exact Set.insert_subset hadd.brk (hsub.trans (Host.allocated_mono hadd.brk.le))
        · cases hk'
          exact ⟨le_rfl, rfl, fun _ _ => rfl, _, hp2, Set.subset_insert _ _, hsub⟩
      cases hk' : (if 1 < sp.sc.hops.length then insertPending E k sp else (true, k)) with
      | mk ok k' =>
        obtain ⟨hle, hin, hout, W, hW, hsub, hall⟩ := hpend ok k' hk'
        cases ok with
        | false =>
          simp only [Bool.false_eq_true, if_false]
          exact ⟨((hW.mono hall).kfree _).kfree _, by exact (by omega : h.brk ≤ k'.brk)⟩
        | true =>
          simp only [if_true]
          have hq : h.brk ∉ W := fun hx => by
            rcases hsub hx with heq | hlt
            · omega
            · exact h.brk_notMem hlt
          have hpW : g.brk ∉ W := fun hx => by
            rcases hsub hx with heq | hlt
            · omega
            · exact hnew hlt
          refine ⟨hW.insertBoth hall hq hpW (by exact (by omega : h.brk < k'.brk))
            (by exact (by omega : g.brk < k'.brk)) ?_ ?_, by exact (by omega : h.brk ≤ k'.brk)⟩
          · rw [hin, hselfI, hone]
          · rw [hout _ (by omega), hselfO, hother]

theorem Host.Connected.insertTagOption (hp : h.Connected U) (skb : SkBuff) :
    (Dysco.insertTag h skb).1.Connected U := { hp with }

/-- A chained SYN that comes in may make three blocks. -/
theorem rxInitiationNew_grown (hp : h.Connected h.allocated) (skb : SkBuff) :
    Grown h (rxInitiationNew E h skb).1 := by
  rw [rxInitiationNew]
  split
  · have hmade := insertCbInput_grown (E := E) hp skb skb.synPacket
    cases hi : insertCbInput E h skb skb.synPacket with
    | mk o g =>
      rw [hi] at hmade
      cases o with
      | none => exact hmade
      | some q =>
        obtain ⟨hout, htwo⟩ := CbIn.parse_paths skb (g.inMem q)
        have hset := hmade.connected.setIn_kept hout fun ht => Or.inl (htwo.symm.trans ht)
        exact ⟨hset.insertTagOption (removeSc skb), hmade.brk⟩
  · exact ⟨hp, le_rfl⟩

/-- A SYN+ACK that comes in allocates nothing. -/
theorem setAckNumberOut_connected (hp : h.Connected U) (skb : SkBuff) (q : Nat) :
    (setAckNumberOut E h skb q).Connected U ∧ (setAckNumberOut E h skb q).brk = h.brk := by
  rw [setAckNumberOut]
  have hp1 : (h.setIn q ((h.inMem q).synAckIn skb)).Connected U :=
    hp.setIn_kept rfl fun ht => Or.inl ht
  generalize hg : h.setIn q ((h.inMem q).synAckIn skb) = g at hp1
  have hbrk : g.brk = h.brk := by rw [← hg]; rfl
  simp only
  split
  · exact ⟨hp1, hbrk⟩
  · rename_i p _
    obtain ⟨hout, htwo⟩ := CbIn.parse_paths skb (g.inMem q)
    have hp2 := hp1.setIn_kept hout fun ht => Or.inl (htwo.symm.trans ht)
    exact ⟨hp2.setOut_kept (CbOut.kept_synAckIn _ skb _), hbrk⟩

/-- An ack may take the two paths from the input block, and switch data to the new path. -/
theorem inTwoPathsAck_connected (hp : h.Connected U) (skb : SkBuff) (q : Nat) :
    (inTwoPathsAck h skb q).Connected U ∧ (inTwoPathsAck h skb q).brk = h.brk := by
  have hone : ∀ {g : Host}, g.Connected U → g.inMem = h.inMem → g.brk = h.brk →
      (g.setIn q ((h.inMem q).withTwoPaths false)).Connected U ∧
        (g.setIn q ((h.inMem q).withTwoPaths false)).brk = h.brk := by
    intro g hg hin hbrk
    refine ⟨hg.setIn_kept ?_ fun ht => Bool.noConfusion ht, hbrk⟩
    rw [hin]
    rfl
  have hswitch : ∀ x, (h.setOut x (h.outMem x).withUseNpSeq).Connected U := fun x =>
    hp.setOut_kept (.of_same rfl rfl rfl rfl)
  rw [inTwoPathsAck]
  simp only
  split
  · exact ⟨hp, rfl⟩
  · rename_i p _
    split
    · split
      · split
        · exact hone hp rfl rfl
        · exact ⟨hp, rfl⟩
      · split
        · exact hone (hswitch p) rfl rfl
        · exact ⟨hp, rfl⟩
    · split
      · exact ⟨hp, rfl⟩
      · rename_i old _
        split
        · exact hone hp rfl rfl
        · split
          · exact hone (hswitch old) rfl rfl
          · exact ⟨hp, rfl⟩

/-- Data on the new path may lower the cutoff of the old one, and that is all. -/
theorem inTwoPathsDataSeg_connected (hp : h.Connected U) (skb : SkBuff) (q : Nat) :
    (inTwoPathsDataSeg h skb q).1.Connected U ∧ (inTwoPathsDataSeg h skb q).1.brk = h.brk := by
  have hlower : ∀ (d : CbOut) seq, d.Kept (d.lowerAckCutoff seq) := by
    intro d seq
    rw [CbOut.lowerAckCutoff]
    split
    · split <;> exact .of_same rfl rfl rfl rfl
    · exact .of_same rfl rfl rfl rfl
  rw [inTwoPathsDataSeg]
  split
  · exact ⟨hp, rfl⟩
  · simp only
    split
    · exact ⟨hp, rfl⟩
    · split
      · exact ⟨hp, rfl⟩
      · split
        · exact ⟨hp.setOut_kept (hlower _ _), rfl⟩
        · exact ⟨hp, rfl⟩

/-- So a segment that comes in leaves all blocks connected. -/
theorem inputSegment_connected (hp : h.Connected U) (skb : SkBuff) (q : Nat) :
    (inputSegment h skb q).1.Connected U ∧ (inputSegment h skb q).1.brk = h.brk := by
  rw [inputSegment]
  have hseen : ∀ g ok, (if (h.inMem q).twoPaths then
      if 0#16 < skb.segSz then inTwoPathsDataSeg h skb q else (inTwoPathsAck h skb q, true)
      else (h, true)) = (g, ok) → g.Connected U ∧ g.brk = h.brk := by
    intro g ok hg
    split at hg
    · split at hg
      · have hseg := inTwoPathsDataSeg_connected hp skb q
        rwa [hg] at hseg
      · cases hg
        exact inTwoPathsAck_connected hp skb q
    · cases hg
      exact ⟨hp, rfl⟩
  cases hg : (if (h.inMem q).twoPaths then
      if 0#16 < skb.segSz then inTwoPathsDataSeg h skb q else (inTwoPathsAck h skb q, true)
      else (h, true)) with
  | mk g ok =>
    simp only
    split <;> exact hseen g ok hg

/-- **A TCP packet enters the host.** -/
theorem input_grown (hp : h.Connected h.allocated) (skb : SkBuff) :
    Grown h (input E h skb).1 := by
  have hstay : Grown h h := ⟨hp, le_rfl⟩
  rw [input]
  split
  · exact hstay
  · split
    · exact hstay
    · split
      · split
        · exact rxInitiationNew_grown hp skb
        · exact hstay
      · rename_i q _
        split
        · split
          · have hiif : (h.setIn q { h.inMem q with skbIif := skb.skbIif }).Connected h.allocated :=
              hp.setIn_kept rfl fun ht => Or.inl ht
            obtain ⟨hc, hbrk⟩ := setAckNumberOut_connected (E := E) hiif skb q
            exact .of_brk hc hbrk
          · exact ⟨hp.insertTagOption (removeSc skb), le_rfl⟩
        · obtain ⟨hc, hbrk⟩ := inputSegment_connected hp skb q
          exact .of_brk hc hbrk

/-! ## A new path at a host on the way -/

/-- The two blocks are filled in, and the output block goes into its table. -/
theorem controlConfigMiddle_made (h : Host) (r q p : Nat) :
    ∃ i, controlConfigMiddle E h r q p = ((h.setIn q i).setOut p
        { h.outMem p with sackOk := (h.rcbMem r).sackOk.getLsbD 0 }).insertOut E p ∧
      i.dcbOut = (h.inMem q).dcbOut ∧ i.twoPaths = (h.inMem q).twoPaths := by
  refine ⟨_, rfl, ?_, ?_⟩ <;> split <;> split <;> rfl

end Dysco
