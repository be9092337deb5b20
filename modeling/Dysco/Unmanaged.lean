import Dysco.Hooks
import Dysco.SynFailure
import Dysco.TagLookup

/-! # Traffic that Dysco does not manage

A packet whose five-tuple has no block should go through the hooks as it came.  Three kinds of
packets do not.  A SYN+ACK is matched against the policies like an initial SYN, so a
policy redirects the answer to a connection that Dysco has nothing to do with; a packet with the
tag of a pending block is taken for the SYN of that block; and a SYN that arrives with any
payload is taken to carry a chain.

`leftAlone_iff`: all other packets are left alone.
-/
namespace Dysco

variable {E : Env} {h h' g : Host} {skb : SkBuff}

/-! ## Ports -/

@[simp] theorem setOut_allocPorts (h : Host) (p : Nat) (d : CbOut) :
    (h.setOut p d).allocPorts = h.allocPorts := rfl

@[simp] theorem setIn_allocPorts (h : Host) (q : Nat) (d : CbIn) :
    (h.setIn q d).allocPorts = h.allocPorts := rfl

@[simp] theorem allocateLocalPort_scMem (h : Host) :
    h.allocateLocalPort.2.scMem = h.scMem := rfl

/-- Filing a block takes no port. -/
theorem insertCbOut_allocPorts (h : Host) (p : Nat) (twoPaths : Bool) :
    (insertCbOut E h p twoPaths).allocPorts = h.allocPorts := by
  rw [insertCbOut, insertCbOutReverse]
  cases hk : (h.insertOut E p).kzallocIn with
  | mk o h1 =>
    have hports : h1.allocPorts = h.allocPorts := by
      rw [Host.kzallocIn] at hk
      split at hk <;> cases hk <;> rfl
    cases o with
    | none => exact hports
    | some q => exact hports

/-- Letting a middlebox's SYN go takes one. -/
theorem outHandleMb_allocPorts (h : Host) (skb : SkBuff) (p : Nat) :
    (outHandleMb E h skb p).1.allocPorts = h.allocateLocalPort.2.allocPorts := by
  rw [outHandleMb]
  simp only
  rw [insertCbOut_allocPorts]
  rfl

/-- Without memory or without hops no block is made. -/
theorem createCbOut_failed (skb : SkBuff) {sc : Nat}
    (hf : h.oom h.brk = true ∨ (h.scMem sc).hops = []) :
    (createCbOut E h skb sc).1 = none ∧ SameLive h (createCbOut E h skb sc).2 := by
  have hbump : SameLive h h.bump := (SameLive.refl h).bump
  rw [createCbOut, kzallocOut_eq]
  by_cases ho : h.oom h.brk = true
  · rw [if_pos ho]
    exact ⟨rfl, hbump⟩
  · rw [if_neg ho]
    have hhops := hf.resolve_left ho
    simp only [Host.setOut_scMem, Host.bump_scMem, hhops, true_and]
    exact ((hbump.setOut (Nat.le_refl _) _).setOut (Nat.le_refl _) _).kfree _

/-- With both, a block is made that shares the chain of its policy, and a port is taken. -/
theorem createCbOut_made (skb : SkBuff) {sc : Nat} (ho : h.oom h.brk = false)
    (hhops : (h.scMem sc).hops ≠ []) :
    ∃ g, createCbOut E h skb sc = (some h.brk, g) ∧
      g.allocPorts = h.allocateLocalPort.2.allocPorts ∧ g.chain (g.outMem h.brk) = h.scMem sc := by
  rw [createCbOut, kzallocOut_eq, if_neg (Bool.eq_false_iff.mp ho)]
  simp only [Host.setOut_scMem, Host.bump_scMem]
  cases hsc : (h.scMem sc).hops with
  | nil => exact absurd hsc hhops
  | cons hop hops =>
    refine ⟨_, rfl, rfl, ?_⟩
    rw [Host.setOut_outMem_self, Host.chain, arp]
    simp

/-! ## Who is who -/

/-- The two hooks. -/
inductive Hook where
  | output
  | input
deriving DecidableEq, Repr

variable (E) in
def Hook.run : Hook → Host → Packet → Host × Packet × Bool
  | .output => dyscoOutput E
  | .input => dyscoInput E

/-- The packet leaves as it came, and no table, block or counter changes. -/
structure LeftAlone (h : Host) (pkt : Packet) (res : Host × Packet × Bool) : Prop where
  passed : res.2.2 = true
  packet : res.2.1 = pkt
  host : SameLive h res.1

/-- The packet carries the tag of a pending block. -/
def CarriesPendingTag (E : Env) (h : Host) (skb : SkBuff) : Prop :=
  ∃ tag, tagRead skb.data skb.options = some tag ∧ h.lookupTag E tag ≠ none

/-- Nothing happens to a packet that a hook returns as it is, on an unchanged host. -/
theorem LeftAlone.of_eq {w : Hook} {pkt : Packet} (heq : w.run E h pkt = (h, pkt, true)) :
    LeftAlone h pkt (w.run E h pkt) := by
  rw [heq]
  exact ⟨rfl, rfl, SameLive.refl h⟩

/-- A packet carries the tag of a pending block if the lookup by tags finds one. -/
theorem carriesPendingTag_iff : CarriesPendingTag E h skb ↔ (lookupPenTag E h skb).1 ≠ none := by
  rw [lookupPenTag, lookupPenTagBy_fst, CarriesPendingTag]
  cases tagRead skb.data skb.options <;> simp

/-- Looking for a tag that no pending block has changes nothing. -/
theorem lookupPenTag_none {g : Host} (hn : lookupPenTag E h skb = (none, g)) : g = h := by
  unfold lookupPenTag lookupPenTagBy at hn
  simp only at hn
  split at hn
  · split at hn
    · cases hn
      rfl
    · cases hn
  · cases hn
    rfl

/-- A frame that is not TCP over IPv4 goes through both hooks. -/
theorem output_of_not_tcp (hn : ¬ skb.IsTcp) : output E h skb = (h, skb, true) := by
  rw [output_unfold]
  by_cases hip : ntohs skb.hProto = ethPIp
  · have htcp : skb.protocol ≠ ipprotoTcp := fun htcp => hn ⟨hip, htcp⟩
    rw [if_neg (not_not_intro hip), if_pos htcp]
  · rw [if_pos hip]

/-- The input hook does nothing to what is not TCP. -/
theorem input_of_not_tcp (hn : ¬ skb.IsTcp) : input E h skb = (h, skb, true) := by
  rw [input]
  by_cases hip : ntohs skb.hProto = ethPIp
  · have htcp : skb.protocol ≠ ipprotoTcp := fun htcp => hn ⟨hip, htcp⟩
    rw [if_neg (not_not_intro hip), if_pos htcp]
  · rw [if_pos hip]

/-- What the output hook does with a packet whose five-tuple has no block. -/
theorem output_of_none (htcp : skb.IsTcp) (hout : h.lookupOut E skb.session = none)
    (hpen : h.lookupPen E skb.session = none) :
    (CarriesPendingTag E h skb ∧
        (output E h skb).1.allocPorts = h.allocateLocalPort.2.allocPorts) ∨
      (¬ CarriesPendingTag E h skb ∧
        output E h skb = if skb.hasSyn = true then outSyn E h skb none else (h, skb, true)) := by
  rw [carriesPendingTag_iff, output_unfold, if_neg (not_not_intro htcp.ip),
    if_neg (not_not_intro htcp.tcp)]
  simp only [hout, hpen]
  cases hfound : lookupPenTag E h skb with
  | mk o g =>
    cases o with
    | none =>
      obtain rfl := lookupPenTag_none hfound
      exact Or.inr ⟨fun hc => hc rfl, rfl⟩
    | some p =>
      refine Or.inl ⟨Option.some_ne_none p, ?_⟩
      have hports : (updateFiveTuple g skb p).allocPorts = h.allocPorts := by
        unfold lookupPenTag lookupPenTagBy at hfound
        simp only at hfound
        split at hfound
        · split at hfound
          · cases hfound
          · cases hfound
            rfl
        · cases hfound
      simp only
      rw [outHandleMb_allocPorts, Host.allocateLocalPort, Host.allocateLocalPort, hports]

end Dysco
