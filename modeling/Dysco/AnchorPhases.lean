import Dysco.AnchorCutoffs

/-! # The order of the switch

The left anchor switches only when the right one has begun to use the new path, and the right one
switches only after the left one, whatever the network does with their messages
(`anchors_in_order`). So no anchor is ever on the new path alone. -/
namespace Dysco
open TransitionSystem BucketTable

/-- A block with both paths whose anchor has begun to use the new one. -/
structure CbOut.Underway (d : CbOut) : Prop where
  both : ∃ n, d.otherPath = some n
  state : d.state = .synReceived ∨ d.state = .established

theorem CbOut.Underway.stays {d d' : CbOut} (hd : d.Underway) (hs : d.Stays d')
    (hw : d'.wiring = d.wiring) : d'.Underway where
  both := by
    have hother : d'.wiring.otherPath = d.wiring.otherPath := congrArg CbOut.otherPath hw
    obtain ⟨n, hn⟩ := hd.both
    exact ⟨n, hother.trans hn⟩
  state := by
    rw [hs.state]
    exact hd.state

/-- What the left anchor has heard of, the right one has begun. -/
structure Reconfiguration.InOrder (c : Reconfiguration) (d : Deal) (s : Anchors) : Prop where
  said : ∀ pkt ∈ s.control, pkt.msg.mtype = .synAck → (c.block s .right).Underway
  heard : s.heard .left = true → (c.block s .right).Underway
  switched : (d.leftBlock s).state = .established → s.heard .left = true

section Order
variable {c : Reconfiguration} {d : Deal} {s t : Anchors} {x : Anchor} {g : Host} {skb : SkBuff}
  {pkt : ControlPacket}

/-- A move that says nothing new. -/
theorem Reconfiguration.InOrder.keep (ho : c.InOrder d s)
    (hright : (c.block s .right).Underway → (c.block t .right).Underway)
    (hleft : (d.leftBlock t).state = (d.leftBlock s).state) (hheard : t.heard = s.heard)
    (hcontrol : ∀ pkt ∈ t.control, pkt.msg.mtype = .synAck → pkt ∈ s.control) : c.InOrder d t where
  said pkt hp hm := hright (ho.said pkt (hcontrol pkt hp hm) hm)
  heard ht := hright (ho.heard (by rw [← hheard]; exact ht))
  switched hest := by
    rw [hheard]
    exact ho.switched (hleft.symm.trans hest)

/-- A segment that leaves or arrives at an anchor says nothing new. -/
theorem Reconfiguration.InOrder.moved (ho : c.InOrder d s) (hs : c.Sound d s)
    (hhost : t.host = Function.update s.host x g) (hg : SameWiring (s.host x) g)
    (hstays : ∀ o, ((s.host x).outMem o).Stays (g.outMem o)) (hheard : t.heard = s.heard)
    (hcontrol : t.control = s.control) : c.InOrder d t := by
  have hmem : ∀ pkt ∈ t.control, pkt.msg.mtype = .synAck → pkt ∈ s.control :=
    fun p hp _ => hcontrol ▸ hp
  cases x with
  | left =>
    have hr : t.host .right = s.host .right := by
      rw [hhost]
      simp only [Function.update_of_ne (show Anchor.right ≠ .left by decide)]
    have hl : t.host .left = g := by rw [hhost, Function.update_self]
    refine ho.keep (fun hb => ?_) ?_ hheard hmem
    · rw [Reconfiguration.block_congr hr]
      exact hb
    · rw [Deal.leftBlock, hl]
      exact (hstays d.l.old).state
  | right =>
    have hl : t.host .left = s.host .left := by
      rw [hhost]
      simp only [Function.update_of_ne (show Anchor.left ≠ .right by decide)]
    have hr : t.host .right = g := by rw [hhost, Function.update_self]
    obtain ⟨o, hlook, -⟩ := hs.hosts.session .right
    refine ho.keep (fun hb => ?_) ?_ hheard hmem
    · rw [Reconfiguration.block_of_host hr ((hg.lookupOut _).trans hlook)]
      rw [Reconfiguration.block_eq hlook] at hb
      exact hb.stays (hstays o) (hg.out o)
    · rw [Deal.leftBlock, hl, Deal.leftBlock]

/-- A message leaves. -/
theorem Reconfiguration.InOrder.speaks (ho : c.InOrder d s) (hs : c.Sound d s)
    (hp : c.Speaks s x pkt) : c.InOrder d (c.effect s (.speaks x pkt)) := by
  obtain ⟨hok, he⟩ := hs.hosts.passes hp
  have hmtype : (controlOutput (c.env x) (s.host x) pkt).2.1.msg.mtype = pkt.msg.mtype :=
    congrArg (fun e => e.2.1) he
  have hmem : ∀ p ∈ (c.effect s (.speaks x pkt)).control, p.msg.mtype = .synAck →
      pkt.msg.mtype ≠ .synAck → p ∈ s.control := by
    intro p hp' hm hne
    rw [effect] at hp'
    simp only [hok, if_true] at hp'
    rcases List.mem_cons.mp hp' with rfl | hold
    · exact absurd (hmtype.symm.trans hm) hne
    · exact hold
  rcases hp.kinds with ⟨rfl, hm⟩ | ⟨rfl, hm, hheard⟩ | ⟨rfl, hm, hheard⟩
  · have hr : (c.effect s (.speaks .left pkt)).host .right = s.host .right :=
      speaks_host_of_ne Anchor.left_ne_right.symm
    obtain ⟨rcb, -, hout⟩ := hs.hosts.left.syn_again hp.names hp.saddr
    have hl : (c.effect s (.speaks .left pkt)).host .left = s.host .left := by
      rw [speaks_host, controlOutput_syn hp.toHandled hm, hout]
    refine ho.keep (fun hb => ?_) ?_ rfl fun p hp' hm' => hmem p hp' hm' (by rw [hm]; decide)
    · rw [block_congr hr]
      exact hb
    · rw [Deal.leftBlock, hl, Deal.leftBlock]
  · have hr : (c.effect s (.speaks .left pkt)).host .right = s.host .right :=
      speaks_host_of_ne Anchor.left_ne_right.symm
    have hbegun : (c.block (c.effect s (.speaks .left pkt)) .right).Underway := by
      rw [block_congr hr]
      exact ho.heard hheard
    exact ⟨fun _ _ _ => hbegun, fun _ => hbegun, fun _ => hheard⟩
  · obtain ⟨b, hr⟩ := hs.hosts.right hheard
    have hhost : (c.effect s (.speaks .right pkt)).host .right =
        (replaceCbRightA (c.env .right) (s.host .right) pkt).1 := by
      rw [speaks_host, controlOutput_synAck hp.toHandled hm
        (hp.saddr.trans hp.names.rightA.symm)]
    have hbegun : (c.block (c.effect s (.speaks .right pkt)) .right).Underway := by
      rw [block_of_host hhost (hr.replaced hp.names.super).look,
        hr.replaceCbRightA_eq hp.names.super, Host.setOut_outMem_self]
      exact ⟨⟨_, rfl⟩, Or.inl rfl⟩
    refine ⟨fun _ _ _ => hbegun, fun _ => hbegun, fun hest => ?_⟩
    have hl : d.leftBlock (c.effect s (.speaks .right pkt)) = d.leftBlock s := by
      rw [Deal.leftBlock, speaks_host_of_ne Anchor.left_ne_right, Deal.leftBlock]
    rw [hl] at hest
    exact ho.switched hest

/-- A message arrives. -/
theorem Reconfiguration.InOrder.hears (ho : c.InOrder d s) (hs : c.Sound d s)
    (hmem : pkt ∈ s.control) (hto : pkt.daddr = c.addr x) :
    c.InOrder d (c.effect s (.hears x pkt)) := by
  have hp := hs.control pkt hmem
  cases x with
  | left =>
    have hm : pkt.msg.mtype = .synAck := by
      rcases hp.kind with ⟨-, hd, -⟩ | ⟨hd, -⟩ | ⟨-, hm, -⟩
      · exact absurd (hto.symm.trans hd) c.apart
      · exact absurd (hto.symm.trans hd) c.apart
      · exact hm
    have hr : (c.effect s (.hears .left pkt)).host .right = s.host .right :=
      hears_host_of_ne Anchor.left_ne_right.symm
    have hbegun : (c.block (c.effect s (.hears .left pkt)) .right).Underway := by
      rw [block_congr hr]
      exact ho.said pkt hmem hm
    have hheard : (c.effect s (.hears .left pkt)).heard .left = true := by
      simp only [effect_hears, hm, Anchor.awaits, if_true, Function.update_self]
    exact ⟨fun _ _ _ => hbegun, fun _ => hbegun, fun _ => hheard⟩
  | right =>
    have hleft : d.leftBlock (c.effect s (.hears .right pkt)) = d.leftBlock s := by
      rw [Deal.leftBlock, hears_host_of_ne Anchor.left_ne_right, Deal.leftBlock]
    have hheard : (c.effect s (.hears .right pkt)).heard .left = s.heard .left := by
      simp only [effect_hears]
      split
      · exact Function.update_of_ne (by decide) _ _
      · rfl
    have hright : (c.block s .right).Underway →
        (c.block (c.effect s (.hears .right pkt)) .right).Underway := by
      intro hb
      rcases hp.kind with ⟨-, -, hm, -⟩ | ⟨-, hm, hh⟩ | ⟨hd, -⟩
      · rw [hs.block_hears_syn hmem hm]
        exact hb
      · obtain ⟨b, hr⟩ := hs.hosts.right (hs.order hh)
        obtain ⟨r, hlook, hold, -⟩ := hr.filed
        obtain ⟨n, hn⟩ := hb.both
        have hhost : (c.effect s (.hears .right pkt)).host .right =
            (ackIn (c.env .right) (s.host .right) pkt).1 := by
          rw [hears_host, controlInput_ack hp.toEnters hm]
        have hg := sameWiring_ackIn (E := c.env .right) (s.host .right) pkt
        rw [← hp.names.super] at hlook
        rw [block_eq hr.look] at hn
        rw [block_of_host hhost ((hg.lookupOut _).trans hr.look)]
        exact ⟨⟨n, (hg.outField CbOut.otherPath b.old).trans hn⟩, Or.inr
          (ackIn_established hlook (hp.names.rightA.trans hto.symm) hold hr.plain hn)⟩
      · exact absurd (hd.symm.trans hto) c.apart
    refine ⟨fun p hp' hm => hright (ho.said p hp' hm), fun hh => ?_, fun hest => ?_⟩
    · rw [hheard] at hh
      exact hright (ho.heard hh)
    · rw [hheard]
      rw [hleft] at hest
      exact ho.switched hest

theorem Reconfiguration.InOrder.step {l : AnchorMove} (ho : c.InOrder d s) (hs : c.Sound d s)
    (hl : c.Enabled s l) : c.InOrder d (c.effect s l) := by
  cases l with
  | speaks x pkt => exact ho.speaks hs hl
  | hears x pkt => exact ho.hears hs hl.1 hl.2
  | sends x skb =>
    obtain ⟨o, hlook, -⟩ := hs.hosts.session x
    exact ho.moved hs rfl (sameWiring_output hlook hl) (output_stays hlook hl) rfl rfl
  | takes x skb =>
    obtain ⟨-, hseg, -⟩ := hs.wire x.other skb hl.1 (by rw [Anchor.other_other]; exact hl.2)
    exact ho.moved (x := x) hs rfl (sameWiring_input hseg.toIsTcp hseg.notSyn)
      (fun o => (input_stays hseg.toIsTcp hseg.notSyn o).1) rfl rfl
  | foreign x skb =>
    obtain ⟨htcp, hsyn, -⟩ := hl
    exact ho.moved (x := x) hs rfl (sameWiring_input htcp hsyn)
      (fun o => (input_stays htcp hsyn o).1) rfl rfl

theorem Reconfiguration.inOrder_init (hs : c.system.init s) (hd : c.Sound d s) : c.InOrder d s := by
  obtain ⟨s₀, pkt, hstill, -, -, rfl⟩ := hs
  have hstart := hd.hosts.starting (hstill.heard .right)
  refine ⟨fun p hp hm => ?_, fun hheard => ?_, fun hest => ?_⟩
  · rcases (hd.control p hp).kind with ⟨-, -, hm', -⟩ | ⟨-, hm', -⟩ | ⟨-, -, hheard⟩
    · rw [hm'] at hm
      cases hm
    · rw [hm'] at hm
      cases hm
    · have hnot : s₀.heard .right = true := hheard
      rw [hstill.heard] at hnot
      cases hnot
  · have hnot : s₀.heard .left = true := hheard
    rw [hstill.heard] at hnot
    cases hnot
  · have hsent := (congrArg Prod.fst hstart).symm.trans hest
    cases hsent

end Order

/-- **The anchors switch in order.**  Over any run the left anchor is adding the new path or has
switched; if it has switched, the right one has both paths and has begun to use the new one; and if
the right one has switched, so has the left one. -/
theorem anchors_in_order (c : Reconfiguration) {s t : Anchors} {ls : List AnchorMove}
    (hs : c.system.init s) (ht : c.system.Steps s ls t) :
    ((c.block t .left).state = .synSent ∨ (c.block t .left).state = .established) ∧
      ((c.block t .left).state = .established → (c.block t .right).Underway) ∧
      ((c.block t .right).state = .established → (c.block t .left).state = .established) := by
  obtain ⟨d, hd⟩ := c.sound_init hs
  have hall : c.Sound d t ∧ c.InOrder d t := by
    refine ht.invariant (P := fun s => c.Sound d s ∧ c.InOrder d s) ?_ ⟨hd, c.inOrder_init hs hd⟩
    rintro s l t ⟨hs, ho⟩ ⟨hl, rfl⟩
    exact ⟨hs.step hl, ho.step hs hl⟩
  obtain ⟨hsound, horder⟩ := hall
  obtain ⟨-, hagreed⟩ := c.agreed_steps hs hd ht
  have hblock : c.block t .left = d.leftBlock t := Reconfiguration.block_eq hsound.hosts.left.look
  rw [hblock]
  exact ⟨hagreed.phase, fun hest => horder.heard (horder.switched hest),
    fun hest => (hagreed.right hest).1⟩

theorem anchors_in_order_removal :
    ((removal.block (removalRun 8) .left).state = .synSent ∨
        (removal.block (removalRun 8) .left).state = .established) ∧
      ((removal.block (removalRun 8) .left).state = .established →
        (removal.block (removalRun 8) .right).Underway) ∧
      ((removal.block (removalRun 8) .right).state = .established →
        (removal.block (removalRun 8) .left).state = .established) := by
  obtain ⟨ls, hsteps⟩ := removal_switches
  exact anchors_in_order removal removal_init hsteps

end Dysco
