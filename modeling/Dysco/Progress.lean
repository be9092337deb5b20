import Dysco.ControlMoves
import Dysco.EventRuns

/-! # The progress of a reconfiguration

The handlers of the left anchor, and those for messages that enter, recognise a message that
comes again; `dysco_replace_cb_rightA` does not.  So a `DYSCO_SYN_ACK` that leaves again
once the block of the old path is established takes it back, with state transfer the segments
too, and this is the only way back (`progressKept_iff`).
-/
namespace Dysco
open ByteOrder EventRuns

variable {E : Env} {h h' h'' : Host} {o : Nat} {w : Prop}

/-! ## The path of a segment -/

/-- A segment that leaves does not move its block. -/
theorem outTranslate_moves (h : Host) (skb : SkBuff) :
    Moves w o h (outTranslate E h skb o).1 ∧
      ((outTranslate E h skb o).1.outMem o).state = (h.outMem o).state := by
  obtain ⟨d, heq, hd⟩ := outTranslate_writes E h skb o
  rw [heq, Host.setOut_outMem_self]
  refine ⟨⟨Nat.le_refl _, ?_, fun _ hn => Or.inl hn, Or.inl ?_⟩, hd.state⟩
  · rw [Host.setOut_outMem_self, hd.stateT]
    exact id
  · rw [Host.setOut_outMem_self, hd.otherPath]

/-- A session on one path uses that path. -/
theorem outTranslate_one {p : Nat} (hone : (h.outMem p).otherPath = none) (skb : SkBuff) :
    (outTranslate E h skb p).2.2 = p := by
  rw [outTranslate]
  simp only [hone]

/-- With state transfer a session with two paths uses the new one exactly while it is
established. -/
theorem outTranslate_stateT {p other : Nat} (hother : (h.outMem p).otherPath = some other)
    (ht : (h.outMem p).stateT = true) (skb : SkBuff) :
    (outTranslate E h skb p).2.2 = if (h.outMem p).state = .established then other else p := by
  rw [outTranslate]
  simp only [hother]
  rw [pickPath]
  cases hs : (h.outMem p).state <;>
    simp only [pickPathSeq, pickPathAck, ht, hs, if_true, reduceCtorEq, if_false] <;>
    split <;> rfl

/-! ## Runs -/

/-- Block `o` of a session on one path, before a reconfiguration of session `ss` begins. -/
structure Untouched (E : Env) (h : Host) (ss : TcpSession) (o : Nat) : Prop where
  allocated : o < h.brk
  unfiled : h.lookupReconfig E ss = none
  state : (h.outMem o).state = .onePath
  otherPath : (h.outMem o).otherPath = none
  unnamed : ¬ h.Names o

/-- What holds of that block in every run of the reconfiguration. -/
structure Kept (E : Env) (h : Host) (ss : TcpSession) (w : Prop) (o : Nat) : Prop where
  allocated : o < h.brk
  state : h.lookupReconfig E ss = none → (h.outMem o).state = .onePath
  named : w → h.Names o → (h.outMem o).stateT = true
  marked : w → (h.outMem o).otherPath ≠ none → (h.outMem o).stateT = true

variable {ss : TcpSession} {ev : AnchorEvent} {evs : List AnchorEvent}

theorem Untouched.kept (hu : Untouched E h ss o) : Kept E h ss w o :=
  ⟨hu.allocated, fun _ => hu.state, fun _ hn => absurd hn hu.unnamed,
    fun _ hp => absurd hu.otherPath hp⟩

/-- What an event does to the block. -/
theorem Kept.moves (hk : Kept E h ss w o) (hev : ev.Belongs ss w) :
    Moves w o h (anchorStep E o h ev) ∧
      ((h.outMem o).state.Advances ((anchorStep E o h ev).outMem o).state ↔
        ¬ ev.Repeats E h o) := by
  cases ev with
  | enters pkt =>
    have hf := controlInput_forward (E := E) hk.allocated hev.withState.mpr
    exact ⟨hf.toMoves, fun _ => id, fun _ => hf.advances⟩
  | leaves pkt =>
    obtain ⟨hc, hadv⟩ := controlOutput_moves (E := E) hk.allocated hev.withState.mpr
      (by rw [hev.super]; exact hk.state)
    exact ⟨hc.toMoves, hadv⟩
  | segment skb =>
    obtain ⟨hm, hs⟩ := outTranslate_moves (E := E) (w := w) (o := o) h skb
    exact ⟨hm, fun _ => id, fun _ => Or.inl hs.symm⟩

/-- Without a reconfiguration block the block of the old path stays as it is. -/
theorem Kept.state_step (hk : Kept E h ss w o) (hev : ev.Belongs ss w)
    (hnone : (anchorStep E o h ev).lookupReconfig E ss = none) :
    ((anchorStep E o h ev).outMem o).state = .onePath := by
  cases ev with
  | enters pkt =>
    obtain ⟨hfiled, hquiet⟩ := controlInput_filed (E := E) hk.allocated hev.withState.mpr
    rw [hev.super] at hfiled hquiet
    have hbefore : h.lookupReconfig E ss = none := by_contra fun hs => hfiled hs hnone
    exact (hquiet hbefore).state.trans (hk.state hbefore)
  | leaves pkt =>
    have hfiled := controlOutput_filed (E := E) (w := w) (o := o) (h := h)
      (hev.leftSS.trans hev.super.symm)
    rw [hev.super] at hfiled
    obtain ⟨hbefore, hquiet⟩ := hfiled.resolve_left fun hs => hs hnone
    exact hquiet.state.trans (hk.state hbefore)
  | segment skb =>
    obtain ⟨d, heq, hd⟩ := outTranslate_writes E h skb o
    have hlook : (anchorStep E o h (.segment skb)).lookupReconfig E ss =
        h.lookupReconfig E ss := by
      rw [anchorStep, heq]
      rfl
    exact (outTranslate_moves (w := w) h skb).2.trans (hk.state (hlook.symm.trans hnone))

/-- **One event keeps it.** -/
theorem Kept.step (hk : Kept E h ss w o) (hev : ev.Belongs ss w) :
    Kept E (anchorStep E o h ev) ss w o := by
  obtain ⟨hm, -⟩ := hk.moves hev
  have hmark : w → h.Names o ∨ ((anchorStep E o h ev).outMem o).stateT = true →
      ((anchorStep E o h ev).outMem o).stateT = true := by
    rintro hw (hn | ht)
    · exact hm.stateT (hk.named hw hn)
    · exact ht
  refine ⟨hk.allocated.trans_le hm.brk, hk.state_step hev, fun hw hn => hmark hw (hm.names hw hn),
    fun hw hp => ?_⟩
  rcases hm.otherPath with heq | ⟨-, hn⟩
  · rw [heq] at hp
    exact hm.stateT (hk.marked hw hp)
  · exact hmark hw (hn hw)

/-- A block that is established stays on its new path. -/
theorem Kept.established (hk : Kept E h ss w o) (hev : ev.Belongs ss w)
    (hno : ¬ ev.Repeats E h o) (hest : (h.outMem o).state = .established) :
    ((anchorStep E o h ev).outMem o).state = .established ∧
      ((anchorStep E o h ev).outMem o).otherPath = (h.outMem o).otherPath := by
  obtain ⟨hm, hadv⟩ := hk.moves hev
  have hstate : ((anchorStep E o h ev).outMem o).state = .established := by
    rcases hadv.mpr hno with heq | hone | hest'
    · rw [← heq, hest]
    · rw [hest] at hone
      cases hone
    · exact hest'
  exact ⟨hstate, hm.otherPath.resolve_right fun hc => hc.1 hstate⟩

/-- In a run of a reconfiguration the block of the old path only moves forward, and with state
transfer no segment takes the old path after one has taken the new path. -/
structure ProgressKept (E : Env) (h : Host) (w : Prop) (o : Nat) (evs : List AnchorEvent) :
    Prop where
  forward : ∀ xs ys, xs ++ ys <+: evs →
    ((ran (anchorStep E o) h xs).outMem o).state.Advances
      ((ran (anchorStep E o) h (xs ++ ys)).outMem o).state
  switched : w → ∀ xs ys, xs ++ ys <+: evs → ∀ skb skb',
    (outTranslate E (ran (anchorStep E o) h xs) skb o).2.2 ≠ o →
      (outTranslate E (ran (anchorStep E o) h (xs ++ ys)) skb' o).2.2 ≠ o

/-- Once the block is established it stays so, on the same other path. -/
def StaysOnPath (o : Nat) (h h' : Host) : Prop :=
  (h.outMem o).state = .established →
    (h'.outMem o).state = .established ∧ (h'.outMem o).otherPath = (h.outMem o).otherPath

theorem StaysOnPath.trans (a : StaysOnPath o h h') (b : StaysOnPath o h' h'') :
    StaysOnPath o h h'' := by
  intro hs
  obtain ⟨hs', hp'⟩ := a hs
  obtain ⟨hs'', hp''⟩ := b hs'
  exact ⟨hs'', hp''.trans hp'⟩

/-- **Progress is kept exactly in the runs** in which no `DYSCO_SYN_ACK` leaves the right anchor
once its block has been established. -/
theorem progressKept_iff (hu : Untouched E h ss o) (hevs : ∀ ev ∈ evs, ev.Belongs ss w) :
    ProgressKept E h w o evs ↔
      AtEvery (anchorStep E o) (fun h ev => ¬ ev.Repeats E h o) h evs := by
  have hbelongs : AtEvery (anchorStep E o) (fun h ev => Kept E h ss w o ∧ ev.Belongs ss w) h evs :=
    (AtEvery.of_forall hevs).with_invariant (I := fun h => Kept E h ss w o) hu.kept
      fun _ _ hk hev => hk.step hev
  have hkept : ∀ xs, xs <+: evs → Kept E (ran (anchorStep E o) h xs) ss w o :=
    fun xs => (AtEvery.of_forall hevs).invariant (I := fun h => Kept E h ss w o) hu.kept
      fun _ _ hk hev => hk.step hev
  constructor
  · intro hp xs ev hpre
    obtain ⟨hk, hev⟩ := hbelongs xs ev hpre
    have hadv := hp.forward xs [ev] hpre
    rw [ran_append_singleton] at hadv
    exact (hk.moves hev).2.mp hadv
  · intro hno
    have hall := hbelongs.and hno
    constructor
    · intro xs ys hpre
      refine hall.related (R := fun h h' => (h.outMem o).state.Advances (h'.outMem o).state)
        (fun _ => ConnState.Advances.refl _) (fun _ _ _ => ConnState.Advances.trans) ?_ hpre
      rintro t ev ⟨⟨hk, hev⟩, hr⟩
      exact (hk.moves hev).2.mpr hr
    · intro hw xs ys hpre skb skb' hnew
      have hxs : xs <+: evs := (List.prefix_append xs ys).trans hpre
      obtain ⟨other, hother⟩ :
          ∃ other, ((ran (anchorStep E o) h xs).outMem o).otherPath = some other :=
        Option.ne_none_iff_exists'.mp fun hone => hnew (outTranslate_one hone skb)
      have ht := (hkept xs hxs).marked hw (by rw [hother]; exact nofun)
      rw [outTranslate_stateT hother ht] at hnew
      have hest : ((ran (anchorStep E o) h xs).outMem o).state = .established :=
        by_contra fun hs => hnew (if_neg hs)
      rw [if_pos hest] at hnew
      have hstays : StaysOnPath o (ran (anchorStep E o) h xs)
          (ran (anchorStep E o) h (xs ++ ys)) := by
        refine hall.related (fun _ hs => ⟨hs, rfl⟩) (fun _ _ _ => StaysOnPath.trans) ?_ hpre
        rintro t ev ⟨⟨hk, hev⟩, hr⟩
        exact hk.established hev hr
      obtain ⟨hs, hp⟩ := hstays hest
      rw [hother] at hp
      rw [outTranslate_stateT hp ((hkept _ hpre).marked hw (by rw [hp]; exact nofun)), if_pos hs]
      exact hnew

/-- The right anchor, 10.0.0.3, with the block of a session at address 0. -/
def anchorHost : Host := { Host.fresh with brk := 1, hashOut := ⟨[(0, 0)]⟩ }
def anchorEnv : Env := { (default : Env) with ifaddrs := [0x0300000a#32] }

/-- A message between 10.0.0.1 and 10.0.0.3. -/
def anchorMessage (mtype : MessageType) (semantic : U16) (saddr daddr : U32) : ControlPacket :=
  { (default : ControlPacket) with
    saddr := saddr, daddr := daddr, dest := dyscoControlPort, udpLen := htons 111#16
    msg.mtype := mtype, msg.semantic := semantic
    msg.leftA := 0x0100000a#32, msg.rightA := 0x0300000a#32 }

/-- That message on its way to the right anchor, and from it. -/
def toAnchor (mtype : MessageType) (semantic : U16) : AnchorEvent :=
  .enters (anchorMessage mtype semantic 0x0100000a#32 0x0300000a#32)
def fromAnchor (mtype : MessageType) (semantic : U16) : AnchorEvent :=
  .leaves (anchorMessage mtype semantic 0x0300000a#32 0x0100000a#32)

theorem anchorHost_untouched : Untouched anchorEnv anchorHost default 0 :=
  ⟨Nat.zero_lt_one, rfl, rfl, rfl, fun ⟨_, hr⟩ => nomatch hr⟩

/-- The handshake, each message once. -/
theorem progressKept_handshake : ProgressKept anchorEnv anchorHost False 0
    [toAnchor .syn 0#16, fromAnchor .synAck 0#16, toAnchor .ack 0#16] := by
  refine (progressKept_iff anchorHost_untouched ?_).mpr ?_
  · intro ev hev
    have hplain : ∀ mtype saddr daddr,
        (anchorMessage mtype 0#16 saddr daddr).msg.Belongs default False :=
      fun _ _ _ => ⟨rfl, rfl, iff_of_false (show ¬ ntohs 0#16 = stateTransfer by decide) id⟩
    simp only [List.mem_cons, List.not_mem_nil, or_false] at hev
    rcases hev with rfl | rfl | rfl <;> exact hplain _ _ _
  · rintro xs ev ⟨zs, hzs⟩ hr
    rcases xs with _ | ⟨x, _ | ⟨y, xs⟩⟩
    · obtain ⟨rfl, -⟩ := List.cons.inj hzs
      exact hr
    · obtain ⟨rfl, hzs'⟩ := List.cons.inj hzs
      obtain ⟨rfl, -⟩ := List.cons.inj hzs'
      exact absurd hr.2 (by decide +kernel)
    · obtain ⟨-, hzs'⟩ := List.cons.inj hzs
      obtain ⟨-, hzs''⟩ := List.cons.inj hzs'
      rcases xs with _ | ⟨z, xs⟩
      · obtain ⟨rfl, -⟩ := List.cons.inj hzs''
        exact hr
      · obtain ⟨-, hnil⟩ := List.cons.inj hzs''
        cases xs <;> cases hnil

/-- With state transfer, the `DYSCO_SYN_ACK` sent again after the switch takes the segments back
to the old path. -/
theorem not_progressKept : ¬ ∀ (E : Env) (h : Host) (ss : TcpSession) (w : Prop) (o : Nat)
    (evs : List AnchorEvent), Untouched E h ss o → (∀ ev ∈ evs, ev.Belongs ss w) →
      ProgressKept E h w o evs := by
  intro hall
  have hbelongs : ∀ mtype saddr daddr,
      (anchorMessage mtype (htons 1#16) saddr daddr).msg.Belongs default True :=
    fun _ _ _ => ⟨rfl, rfl, iff_of_true (show ntohs (htons 1#16) = stateTransfer by decide) trivial⟩
  have hkept := hall anchorEnv anchorHost default True 0
    [toAnchor .syn (htons 1#16), fromAnchor .synAck (htons 1#16),
      toAnchor .stateTransferred (htons 1#16), fromAnchor .synAck (htons 1#16)]
    anchorHost_untouched (by
      intro ev hev
      simp only [List.mem_cons, List.not_mem_nil, or_false] at hev
      rcases hev with rfl | rfl | rfl | rfl <;> exact hbelongs _ _ _)
  have hback := hkept.switched trivial
    [toAnchor .syn (htons 1#16), fromAnchor .synAck (htons 1#16),
      toAnchor .stateTransferred (htons 1#16)]
    [fromAnchor .synAck (htons 1#16)] (List.prefix_refl _) default default (by decide +kernel)
  revert hback
  decide +kernel

end Dysco
