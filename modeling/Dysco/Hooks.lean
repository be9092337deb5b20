import Dysco.Control

/-! # The hooks and the drivers

A packet reaches `dysco_output` or `dysco_input` from a driver: from `veth`, or from the two
netfilter hooks.  UDP datagrams go on to the control functions.  A driver reads the result of
a hook as its own: `veth_xmit` takes zero to mean that the packet is gone, the netfilter hooks
answer zero with `NF_DROP`, upon which the stack frees the packet.

Whatever a function of the module does to a packet, it changes neither the protocol nor how often
the packet has been freed (`SkBuff.owner`); the two places that free one are visible in
`output_owner` and `input_owner`.
-/
namespace Dysco

variable (E : Env)

/-! ## What rewriting leaves alone -/

/-- The protocol of a packet, and how often it has been freed. -/
def SkBuff.owner (skb : SkBuff) : U8 × Nat := (skb.protocol, skb.frees)

section Owner
variable (skb : SkBuff)

@[simp] theorem inetProtoCsumReplace4_owner (a b : U32) (pseudohdr : Bool) :
    (inetProtoCsumReplace4 skb a b pseudohdr).owner = skb.owner := rfl

@[simp] theorem inetProtoCsumReplace2_owner (a b : U16) (pseudohdr : Bool) :
    (inetProtoCsumReplace2 skb a b pseudohdr).owner = skb.owner := rfl

@[simp] theorem dyscoInetProtoCsumReplace4_owner (a b : U32) (pseudohdr : Bool) :
    (dyscoInetProtoCsumReplace4 skb a b pseudohdr).owner = skb.owner := rfl

@[simp] theorem store_owner (k : Nat) (x : U32) : (skb.store k x).owner = skb.owner := rfl

@[simp] theorem replaceWord_owner (k : Nat) (f : U32 → U32) :
    (skb.replaceWord k f).owner = skb.owner := rfl

@[simp] theorem trim_owner (n : Nat) : (skb.trim n).owner = skb.owner := by
  rw [SkBuff.trim]
  split <;> rfl

@[simp] theorem overwrite_owner (bs : List U8) : (skb.overwrite bs).owner = skb.owner := by
  rw [SkBuff.overwrite]
  split <;> rfl

@[simp] theorem put_owner (bs : List U8) : (skb.put bs).owner = skb.owner :=
  overwrite_owner skb bs

/-- One SACK block writes option bytes, which are not what a hook owns. -/
theorem sackBlock_owner (delta : U32) (add : Bool) (lptr : Nat) :
    (sackBlock delta add skb lptr).owner = skb.owner := by
  rw [sackBlock]
  simp only [store_owner, dyscoInetProtoCsumReplace4_owner]

/-- By induction on the blocks, neither do several. -/
theorem sackBlocks_owner (delta : U32) (add : Bool) (n lptr : Nat) :
    (sackBlocks delta add n skb lptr).owner = skb.owner := by
  induction n generalizing skb lptr with
  | zero => rfl
  | succ n ih => rw [sackBlocks, ih, sackBlock_owner]

@[simp] theorem tcpSack_owner (delta : U32) (add : Bool) :
    (tcpSack skb delta add).owner = skb.owner := by
  rw [tcpSack]
  generalize skb.options = os
  induction os generalizing skb with
  | nil => rfl
  | cons o os ih =>
    rw [List.foldl_cons, ih]
    split
    · exact sackBlocks_owner ..
    · rfl

@[simp] theorem rewriteSeq_owner (delta : U32) (add : Bool) :
    (rewriteSeq skb delta add).owner = skb.owner := by
  rw [rewriteSeq]
  split <;> rfl

@[simp] theorem rewriteAck_owner (delta : U32) (add sackOk : Bool) :
    (rewriteAck skb delta add sackOk).owner = skb.owner := by
  have hkeep : ∀ s : SkBuff, ∀ x : U32, ({ s with ackSeq := x } : SkBuff).owner = s.owner :=
    fun _ _ => rfl
  rw [rewriteAck]
  split
  · rfl
  · rw [hkeep, dyscoInetProtoCsumReplace4_owner]
    split
    · exact tcpSack_owner ..
    · rfl

@[simp] theorem rewriteTs_owner (tsDelta : U32) (tsAdd : Bool) (tsrDelta : U32) (tsrAdd : Bool) :
    (rewriteTs skb tsDelta tsAdd tsrDelta tsrAdd).owner = skb.owner := by
  unfold rewriteTs
  cases getTsOption skb with
  | none => rfl
  | some ts =>
    simp only
    split <;> split <;> simp only [replaceWord_owner]

@[simp] theorem rewriteRcvWnd_owner (wsDelta wsIn wsOut : U16) :
    (rewriteRcvWnd skb wsDelta wsIn wsOut).owner = skb.owner := by
  rw [rewriteRcvWnd]
  split <;> rfl

@[simp] theorem fixTcpIpCsum_owner : (fixTcpIpCsum skb).owner = skb.owner := by
  rw [fixTcpIpCsum]
  simp only
  split <;> rfl

@[simp] theorem removeTag_owner : (removeTag skb).owner = skb.owner :=
  trim_owner skb dyscoTcpOptionLen

@[simp] theorem removeSc_owner : (removeSc skb).owner = skb.owner := by
  have hkeep : ∀ s : SkBuff, ∀ x : U16, ({ s with totLen := x } : SkBuff).owner = s.owner :=
    fun _ _ => rfl
  rw [removeSc, hkeep, trim_owner]

@[simp] theorem insertTag_owner (h : Host) : (insertTag h skb).2.owner = skb.owner :=
  put_owner skb (tagBytes h.dyscoTag)

@[simp] theorem outHdrRewrite_owner (dcb : CbOut) : (outHdrRewrite E skb dcb).owner = skb.owner :=
  rfl

@[simp] theorem outHdrRewriteCsum_owner (dcb : CbOut) :
    (outHdrRewriteCsum E skb dcb).owner = skb.owner := rfl

@[simp] theorem outRewrite_owner (dcb : CbOut) : (outRewrite skb dcb).owner = skb.owner := by
  rw [outRewrite, outRewriteSeq, outRewriteAck]
  split <;> split <;> simp [outRewriteTs, outRewriteRcvWnd]

@[simp] theorem inHdrRewrite_owner (dcb : CbIn) : (inHdrRewrite skb dcb).owner = skb.owner := by
  rw [inHdrRewrite]
  simp only
  split <;> rfl

@[simp] theorem inTupleRewriteCsum_owner (dcb : CbIn) :
    (inTupleRewriteCsum skb dcb).owner = skb.owner := rfl

@[simp] theorem inHdrRewriteCsum_owner (dcb : CbIn) :
    (inHdrRewriteCsum skb dcb).owner = skb.owner := by
  rw [inHdrRewriteCsum, inRewrite, inRewriteSeq, inRewriteAck]
  split <;> split <;> simp [inRewriteTs, inRewriteRcvWnd]

@[simp] theorem fixRcvWindow_owner (my other : TcpSock) :
    (fixRcvWindow skb my other).owner = skb.owner := by
  rw [fixRcvWindow]
  split <;> rfl

/-- `dysco_add_sc` writes to the packet it is given, and does not drop it. -/
theorem addSc_owner {skb' : SkBuff} {super : TcpSession} {sc : ServiceChain}
    (h : addSc skb super sc = some skb') : skb'.owner = skb.owner := by
  unfold addSc at h
  simp only at h
  split at h
  · cases h
  · have hput : (skb.put (super.bytes ++ sc.bytes)).owner = skb.owner := put_owner ..
    generalize skb.put (super.bytes ++ sc.bytes) = s at h hput
    split at h <;> (obtain rfl := Option.some.inj h; exact hput)

end Owner

/-- The owner of a packet after a hook has answered: freed if the answer is zero. -/
def SkBuff.ownerAfter (skb : SkBuff) (ret : Bool) : U8 × Nat :=
  if ret = true then skb.owner else skb.free.owner

/-- Dropping a packet does not change what kind it is. -/
theorem SkBuff.ownerAfter_protocol (skb : SkBuff) (ret : Bool) :
    (skb.ownerAfter ret).1 = skb.protocol := by
  cases ret <;> rfl

/-- It is freed once if the hook returns false, and else not at all. -/
theorem SkBuff.ownerAfter_frees (skb : SkBuff) (ret : Bool) :
    (skb.ownerAfter ret).2 = skb.frees + if ret = true then 0 else 1 := by
  cases ret <;> rfl

variable {E}

/-- `dysco_out_tx_init` drops a SYN for which there is no chain to add. -/
theorem outTxInit_owner (h : Host) (skb : SkBuff) (dcb : CbOut) :
    (outTxInit h skb dcb).1.owner = skb.ownerAfter (outTxInit h skb dcb).2 := by
  rw [outTxInit]
  cases hadd : addSc skb dcb.super (h.chain dcb) with
  | none => rfl
  | some skb' => exact (fixTcpIpCsum_owner skb').trans (addSc_owner skb hadd)

/-- A segment that is translated is never dropped. -/
theorem outTranslate_owner (h : Host) (skb : SkBuff) (p : Nat) :
    (outTranslate E h skb p).2.1.owner = skb.owner := by
  have hack : ∀ other, (pickPathAck h skb p other).2.1.owner = skb.owner := by
    intro other
    rw [pickPathAck]
    simp only
    repeat' split
    all_goals rfl
  have hpick : ∀ other, (pickPath h skb p other).2.1.owner = skb.owner := by
    intro other
    rw [pickPath]
    split
    all_goals first | rfl | (split; rfl; exact hack other)
  rw [outTranslate]
  cases hother : (h.outMem p).otherPath with
  | none => exact outHdrRewriteCsum_owner ..
  | some other =>
    simp only
    rw [outHdrRewriteCsum_owner, outRewrite_owner, hpick]

/-- A SYN for a block that there is goes through `dysco_out_tx_init`, and shares its fate. -/
theorem outSynWith_owner (h : Host) (skb : SkBuff) (p : Nat) :
    (outSynWith E h skb p).2.1.owner = skb.ownerAfter (outSynWith E h skb p).2.2 := by
  rw [outSynWith]
  simp only
  split
  · split
    · rfl
    · exact outHdrRewriteCsum_owner ..
  · rw [outTxInit_owner]
    rfl

/-- A SYN without a block is dropped only if its policy fits but memory fails. -/
theorem outSyn_owner (h : Host) (skb : SkBuff) (dcbOut : Option Nat) :
    (outSyn E h skb dcbOut).2.1.owner = skb.ownerAfter (outSyn E h skb dcbOut).2.2 := by
  cases dcbOut with
  | some p => exact outSynWith_owner h skb p
  | none =>
    simp only [outSyn]
    repeat' split
    all_goals first | exact outSynWith_owner .. | rfl

/-- What a middlebox sends on is never dropped. -/
theorem outHandleMb_owner (h : Host) (skb : SkBuff) (p : Nat) :
    (outHandleMb E h skb p).2.owner = skb.owner := by
  have hadd : ∀ (s : SkBuff) (super : TcpSession) (sc : ServiceChain),
      ((addSc s super sc).getD s).owner = s.owner := by
    intro s super sc
    cases ha : addSc s super sc with
    | none => rfl
    | some s' => exact addSc_owner s ha
  have htag : ∀ (s : SkBuff) (tagOk : Bool), (if tagOk then removeTag s else s).owner =
      s.owner := by
    intro s tagOk
    split
    · exact removeTag_owner s
    · rfl
  rw [outHandleMb]
  simp only
  rw [fixTcpIpCsum_owner, hadd, htag, outHdrRewrite_owner]

/-- So the output hook drops what it returns false for, and nothing else. -/
theorem outputWith_owner (h : Host) (skb : SkBuff) (p : Nat) :
    (outputWith E h skb p).2.1.owner =
      skb.ownerAfter (outputWith E h skb p).2.2 := by
  rw [outputWith]
  split
  · exact outSyn_owner ..
  · simp only
    rw [outTranslate_owner]
    split
    · split
      · exact fixRcvWindow_owner ..
      · rfl
    · rfl

/-- **The output hook frees a packet exactly if** it answers zero. -/
theorem output_owner (h : Host) (skb : SkBuff) :
    (output E h skb).2.1.owner = skb.ownerAfter (output E h skb).2.2 := by
  rw [output_unfold]
  by_cases hproto : ntohs skb.hProto ≠ ethPIp
  · rw [if_pos hproto]
    rfl
  by_cases htcp : skb.protocol ≠ ipprotoTcp
  · rw [if_neg hproto, if_pos htcp]
    rfl
  rw [if_neg hproto, if_neg htcp]
  cases h.lookupOut E skb.session with
  | some p => exact outputWith_owner h skb p
  | none =>
    cases h.lookupPen E skb.session with
    | some p => exact outHandleMb_owner h skb p
    | none =>
      obtain ⟨o, h1⟩ := lookupPenTag E h skb
      cases o with
      | some p => exact outHandleMb_owner ..
      | none =>
        simp only
        split
        · exact outSyn_owner h1 skb none
        · rfl

/-- A chained SYN is dropped when one of its three allocations fails. -/
theorem rxInitiationNew_owner (h : Host) (skb : SkBuff) :
    (rxInitiationNew E h skb).2.1.owner = skb.ownerAfter (rxInitiationNew E h skb).2.2 := by
  rw [rxInitiationNew]
  split
  · split
    · rfl
    · simp only
      rw [inHdrRewrite_owner, insertTag_owner, removeSc_owner]
      rfl
  · rfl

/-- A segment that comes in is never dropped. -/
theorem inputSegment_owner (h : Host) (skb : SkBuff) (q : Nat) :
    (inputSegment h skb q).2.owner = skb.owner := by
  have hif : ∀ (ok : Bool) (g : Host),
      (if ok then (g, inHdrRewriteCsum skb (g.inMem q)) else (g, skb)).2.owner = skb.owner := by
    intro ok g
    split
    · exact inHdrRewriteCsum_owner ..
    · rfl
  exact hif _ _

/-- **The input hook frees a packet exactly if** it answers zero. -/
theorem input_owner (h : Host) (skb : SkBuff) :
    (input E h skb).2.1.owner = skb.ownerAfter (input E h skb).2.2 := by
  unfold input
  by_cases hproto : ntohs skb.hProto ≠ ethPIp
  · rw [if_pos hproto]
    rfl
  by_cases htcp : skb.protocol ≠ ipprotoTcp
  · rw [if_neg hproto, if_pos htcp]
    rfl
  rw [if_neg hproto, if_neg htcp]
  cases h.lookupIn E skb.session with
  | none =>
    simp only
    split
    · exact rxInitiationNew_owner h skb
    · rfl
  | some q =>
    simp only
    split
    · split
      · exact inHdrRewriteCsum_owner ..
      · rw [inHdrRewrite_owner, insertTag_owner, removeSc_owner]
        rfl
    · exact inputSegment_owner h skb q

/-! ## Packets -/

/-- A frame that holds no UDP datagram. -/
structure Frame where
  skb : SkBuff
  notUdp : skb.protocol ≠ ipprotoUdp

/-- A packet in an Ethernet frame.  What follows the header of a datagram is kept as the control
message that it may be. -/
inductive Packet where
  | frame (f : Frame)
  | datagram (hProto : U16) (pkt : ControlPacket)

namespace Packet

def hSource : Packet → Mac
  | .frame f => f.skb.hSource
  | .datagram _ pkt => pkt.hSource

def daddr : Packet → U32
  | .frame f => f.skb.daddr
  | .datagram _ pkt => pkt.daddr

/-- How often the packet has been freed; the control functions free nothing. -/
def frees : Packet → Nat
  | .frame f => f.skb.frees
  | .datagram _ _ => 0

/-- The packet with an Ethernet type. -/
def withProto (proto : U16) : Packet → Packet
  | .frame f => .frame ⟨{ f.skb with hProto := proto }, f.notUdp⟩
  | .datagram _ pkt => .datagram proto pkt

end Packet

/-! ## The hooks, for any packet -/

variable (E)

/-- What `dysco_output` leaves of a frame. -/
def Frame.sent (f : Frame) (h : Host) : Frame where
  skb := (output E h f.skb).2.1
  notUdp := fun hudp => f.notUdp <|
    (congrArg Prod.fst (output_owner h f.skb) |>.trans
    (f.skb.ownerAfter_protocol _)).symm.trans hudp

/-- What `dysco_input` leaves of a frame. -/
def Frame.received (f : Frame) (h : Host) : Frame where
  skb := (input E h f.skb).2.1
  notUdp := fun hudp => f.notUdp <|
    (congrArg Prod.fst (input_owner h f.skb) |>.trans (f.skb.ownerAfter_protocol _)).symm.trans hudp

/-- `dysco_output`; the result is false for zero. -/
def dyscoOutput (h : Host) : Packet → Host × Packet × Bool
  | .frame f => ((output E h f.skb).1, .frame (f.sent E h), (output E h f.skb).2.2)
  | .datagram hProto pkt =>
    if ntohs hProto ≠ ethPIp then (h, .datagram hProto pkt, true)
    else
      let (h, pkt, ret) := controlOutput E h pkt
      (h, .datagram hProto pkt, ret)

/-- `dysco_input`; the result is false for `RX_HANDLER_CONSUMED`, which is zero. -/
def dyscoInput (h : Host) : Packet → Host × Packet × Bool
  | .frame f => ((input E h f.skb).1, .frame (f.received E h), (input E h f.skb).2.2)
  | .datagram hProto pkt =>
    if ntohs hProto ≠ ethPIp then (h, .datagram hProto pkt, true)
    else
      -- the result of the control function is not looked at
      let (h, pkt, _) := controlInput E h pkt
      (h, .datagram hProto pkt, true)

/-- **A hook that answers zero has freed a frame once, and not a datagram.** -/
theorem dyscoOutput_frees (h : Host) (pkt : Packet) :
    (dyscoOutput E h pkt).2.1.frees = pkt.frees +
      match pkt with
      | .frame _ => if (dyscoOutput E h pkt).2.2 = true then 0 else 1
      | .datagram _ _ => 0 := by
  cases pkt with
  | frame f =>
    exact (congrArg Prod.snd (output_owner h f.skb)).trans (f.skb.ownerAfter_frees _)
  | datagram hProto pkt =>
    rw [dyscoOutput]
    split <;> rfl

/-- **The input hook** frees the packet exactly when it returns false. -/
theorem dyscoInput_frees (h : Host) (pkt : Packet) :
    (dyscoInput E h pkt).2.1.frees =
      pkt.frees + if (dyscoInput E h pkt).2.2 = true then 0 else 1 := by
  cases pkt with
  | frame f =>
    exact (congrArg Prod.snd (input_owner h f.skb)).trans (f.skb.ownerAfter_frees _)
  | datagram hProto pkt =>
    rw [dyscoInput]
    split <;> rfl

/-! ## The drivers -/

/-- What becomes of a packet: whether it is passed on, and how often it is freed. -/
structure Fate where
  passed : Bool
  frees : Nat
  /-- How often the copy is freed on which a handler has worked instead; it is never passed on. -/
  clone : Option Nat := none
deriving DecidableEq, Repr

/-- `dysco_nf_in`: a packet for an address of the device goes through the input hook.  The stack
frees a packet that is answered with `NF_DROP`. -/
def dyscoNfIn (h : Host) (pkt : Packet) : Host × Fate :=
  if pkt.daddr ∈ E.ifaddrs then
    let (h, pkt', ret) := dyscoInput E h pkt
    let freed := pkt'.frees - pkt.frees
    if ret then (h, { passed := true, frees := freed })
    else (h, { passed := false, frees := freed + 1 })
  else (h, { passed := true, frees := 0 })

/-- `dysco_nf_out`: netfilter has no Ethernet header, so one is put in front. -/
def dyscoNfOut (h : Host) (pkt : Packet) : Host × Fate :=
  let pkt := pkt.withProto (htons ethPIp)
  let (h, pkt', ret) := dyscoOutput E h pkt
  let freed := pkt'.frees - pkt.frees
  if ret then (h, { passed := true, frees := freed })
  else (h, { passed := false, frees := freed + 1 })

/-- `veth_xmit`: zero from the output hook ends it; without a peer the driver frees the packet. -/
def vethXmit (peer : Bool) (h : Host) (pkt : Packet) : Host × Fate :=
  let (h, pkt', ret) := dyscoOutput E h pkt
  let freed := pkt'.frees - pkt.frees
  if ret = false then (h, { passed := false, frees := freed })
  else if peer = false then (h, { passed := false, frees := freed + 1 })
  else (h, { passed := true, frees := freed })

/-- `is_valid_ether_addr`: neither zero nor a group address. -/
def isValidEtherAddr (mac : Mac) : Bool := !mac.getLsbD 0 && mac != 0#48

/-- The loop of `dysco_handle_frame` over the addresses of the device.  It goes on after an address
that matched, with the address that the packet has then. -/
def handleAddrs : List U32 → Host → Packet → Host × Packet × Bool
  | [], h, pkt => (h, pkt, true)
  | ifa :: ifas, h, pkt =>
    if pkt.daddr = ifa then
      let (h, pkt, ret) := dyscoInput E h pkt
      if ret then handleAddrs ifas h pkt else (h, pkt, false)
    else handleAddrs ifas h pkt

/-- What `skb_share_check` finds: a packet that nobody else holds, or one that is shared, of which
a clone can be had or not. -/
inductive Sharing where
  | own
  | shared (cloned : Bool)
deriving DecidableEq, Repr

/-- `dysco_handle_frame`, the receive handler of `veth`. -/
def dyscoHandleFrame (loopback : Bool) (sharing : Sharing) (h : Host) (pkt : Packet) :
    Host × Fate :=
  if loopback then (h, { passed := true, frees := 0 })
  else if !isValidEtherAddr pkt.hSource then (h, { passed := false, frees := 1 })
  else
    match sharing with
    | .own =>
      let (h, pkt', passed) := handleAddrs E E.ifaddrs h pkt
      (h, { passed, frees := pkt'.frees - pkt.frees })
    | .shared false => (h, { passed := false, frees := 1 })
    | .shared true =>
      -- the reference to the packet is dropped, and the clone is not stored back in `*pskb`
      let (h, clone, passed) := handleAddrs E E.ifaddrs h pkt
      (h, { passed, frees := 1, clone := some (clone.frees - pkt.frees) })

end Dysco
