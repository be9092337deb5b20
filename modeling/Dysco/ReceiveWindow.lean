import Dysco.Output

/-! # The receive window of spliced sockets

While two sockets are spliced, `dysco_fix_rcv_window` is to keep the sender from
filling the buffers between them: what it announces should leave room for the bytes
received and not yet copied in the window of the other socket.  The limits the
function computes from that window are overwritten at its end, and where its sequence
numbers have wrapped around it counts from the other socket's `copied_seq`.  What
is left of the throttling is `announced_fixRcvWindow`, and `throttled_iff` says when
that is enough.
-/
namespace Dysco
open ByteOrder

/-- The window a segment announces, in bytes. -/
def announced (skb : SkBuff) (tp : TcpSock) : Nat :=
  (ntohs skb.window).toNat * 2 ^ tp.rcvWscale.toNat

/-- The bytes a socket has buffered and not yet copied. -/
def TcpSock.buffered (tp : TcpSock) : U32 := tp.rcvNxt - tp.copiedSeq

/-- The bytes the function takes to be buffered. -/
def countedBuffer (my other : TcpSock) : U32 :=
  if my.copiedSeq ≤ my.rcvNxt then my.buffered else my.rcvNxt - other.copiedSeq

/-- What throttling should achieve: the window does not grow, it leaves room for what is
buffered in the window of the other socket, and it is closed once 16 KiB are buffered. -/
structure Throttled (skb : SkBuff) (my other : TcpSock) : Prop where
  le_old : announced (fixRcvWindow skb my other) my ≤ announced skb my
  le_room : announced (fixRcvWindow skb my other) my ≤
    other.sndWnd.toNat - my.buffered.toNat
  closed : 16384 < my.buffered.toNat → announced (fixRcvWindow skb my other) my = 0

/-! ## The announced window -/

theorem toNat_maxWndRec : maxWndRec.toNat = 16384 := rfl

/-- A window field shifted by a scale fits 32 bits. -/
theorem toNat_scaled (field : U16) {scale : Nat} (h : scale ≤ 14) :
    ((field.setWidth 32 : U32) <<< scale).toNat = field.toNat * 2 ^ scale := by
  have hfield := field.isLt
  have hpow : 2 ^ scale ≤ 2 ^ 14 := Nat.pow_le_pow_right (by decide) h
  have hlt : field.toNat * 2 ^ scale < 2 ^ 32 := by
    calc field.toNat * 2 ^ scale
        ≤ 65535 * 2 ^ 14 := Nat.mul_le_mul (by omega) hpow
      _ < 2 ^ 32 := by decide
  rw [BitVec.toNat_shiftLeft, BitVec.toNat_setWidth, Nat.shiftLeft_eq,
    Nat.mod_eq_of_lt (show field.toNat < 2 ^ 32 by omega), Nat.mod_eq_of_lt hlt]

/-- A multiple of the scale's unit below `2 ^ 16` units is announced as it is. -/
theorem toNat_unscaled {w : U32} {units scale : Nat} (hw : w.toNat = units * 2 ^ scale)
    (hunits : units < 65536) : ((w >>> scale).setWidth 16 : U16).toNat = units := by
  rw [BitVec.toNat_setWidth, BitVec.toNat_ushiftRight, Nat.shiftRight_eq_div_pow, hw,
    Nat.mul_div_cancel _ (Nat.two_pow_pos scale), Nat.mod_eq_of_lt hunits]

/-- The window the function settles on. -/
def settledWindow (skb : SkBuff) (my other : TcpSock) : Nat :=
  if 16384 < (countedBuffer my other).toNat then 0 else min (announced skb my) 16384

/-- The window settled on is a multiple of the scale's unit. -/
theorem exists_units (skb : SkBuff) (my other : TcpSock) (h : my.rcvWscale.toNat ≤ 14) :
    ∃ units, units < 65536 ∧ settledWindow skb my other = units * 2 ^ my.rcvWscale.toNat := by
  have hfield := (ntohs skb.window).isLt
  rw [settledWindow]
  by_cases hfull : 16384 < (countedBuffer my other).toNat
  · exact ⟨0, by decide, by rw [if_pos hfull, Nat.zero_mul]⟩
  rw [if_neg hfull]
  rcases Nat.le_total (announced skb my) 16384 with hle | hge
  · exact ⟨(ntohs skb.window).toNat, by omega, by rw [Nat.min_eq_left hle, announced]⟩
  · refine ⟨2 ^ (14 - my.rcvWscale.toNat), ?_, ?_⟩
    · calc 2 ^ (14 - my.rcvWscale.toNat)
          ≤ 2 ^ 14 := Nat.pow_le_pow_right (by decide) (Nat.sub_le _ _)
        _ < 65536 := by decide
    · rw [Nat.min_eq_right hge, ← Nat.pow_add, Nat.sub_add_cancel h]

/-- **What the function announces.** -/
theorem announced_fixRcvWindow {skb : SkBuff} {my : TcpSock} (other : TcpSock)
    (hwin : skb.window ≠ 0#16) (hscale : my.rcvWscale.toNat ≤ 14) :
    announced (fixRcvWindow skb my other) my = settledWindow skb my other := by
  obtain ⟨units, hunits, hsettled⟩ := exists_units skb my other hscale
  have hold : ((ntohs skb.window).setWidth 32 <<< my.rcvWscale.toNat : U32).toNat =
      announced skb my := toNat_scaled _ hscale
  -- the value of `new_wnd` behind the two assignments at the end
  have hnew : (if maxWndRec < countedBuffer my other then 0#32
      else if (ntohs skb.window).setWidth 32 <<< my.rcvWscale.toNat < maxWndRec
        then (ntohs skb.window).setWidth 32 <<< my.rcvWscale.toNat
        else maxWndRec : U32).toNat = units * 2 ^ my.rcvWscale.toNat := by
    rw [← hsettled, settledWindow]
    simp only [BitVec.lt_def, hold, toNat_maxWndRec]
    by_cases hfull : 16384 < (countedBuffer my other).toNat
    · rw [if_pos hfull, if_pos hfull]
      rfl
    rw [if_neg hfull, if_neg hfull]
    by_cases hlt : announced skb my < 16384
    · rw [if_pos hlt, hold, Nat.min_eq_left (Nat.le_of_lt hlt)]
    · rw [if_neg hlt, toNat_maxWndRec, Nat.min_eq_right (Nat.le_of_not_lt hlt)]
  have hwindow : (ntohs (fixRcvWindow skb my other).window).toNat = units := by
    rw [fixRcvWindow, if_neg hwin]
    simp only [ntohs_htons]
    exact toNat_unscaled hnew hunits
  rw [announced, hwindow, hsettled]

/-! ## When that throttles -/

/-- **Throttling is sound exactly when** the counted bytes close the window, or the buffer holds
16 KiB at most and the other socket's window has room for it and for what is announced. -/
theorem throttled_iff {skb : SkBuff} {my : TcpSock} (other : TcpSock)
    (hwin : skb.window ≠ 0#16) (hscale : my.rcvWscale.toNat ≤ 14) :
    Throttled skb my other ↔
      16384 < (countedBuffer my other).toNat ∨
      my.buffered.toNat ≤ 16384 ∧
        min (announced skb my) 16384 ≤ other.sndWnd.toNat - my.buffered.toNat := by
  have hann := announced_fixRcvWindow other hwin hscale
  have hpos : 0 < announced skb my := by
    have hne : (ntohs skb.window).toNat ≠ 0 := by
      intro hz
      apply hwin
      have hword : ntohs skb.window = 0#16 := BitVec.eq_of_toNat_eq hz
      rw [← htons_ntohs skb.window, hword]
      rfl
    exact Nat.mul_pos (Nat.pos_of_ne_zero hne) (Nat.two_pow_pos _)
  rw [settledWindow] at hann
  by_cases hfull : 16384 < (countedBuffer my other).toNat
  · rw [if_pos hfull] at hann
    refine iff_of_true ⟨?_, ?_, fun _ => hann⟩ (Or.inl hfull)
    · rw [hann]
      exact Nat.zero_le _
    · rw [hann]
      exact Nat.zero_le _
  · rw [if_neg hfull] at hann
    rw [or_iff_right hfull]
    constructor
    · intro h
      have hroom := h.le_room
      have hclosed := h.closed
      rw [hann] at hroom hclosed
      exact ⟨Nat.le_of_not_lt fun hlt => by have := hclosed hlt; omega, hroom⟩
    · rintro ⟨hbuf, hroom⟩
      refine ⟨?_, ?_, fun hlt => absurd hlt (Nat.not_lt.mpr hbuf)⟩
      · rw [hann]
        exact Nat.min_le_left _ _
      · rw [hann]
        exact hroom

/-- An empty buffer behind a wide window: the announced 16 KiB have room. -/
theorem throttled_empty :
    Throttled { (default : SkBuff) with window := 0xffff#16 } default
      { (default : TcpSock) with sndWnd := 65535#32 } := by
  have hscale : (default : TcpSock).rcvWscale.toNat ≤ 14 := by decide
  exact (throttled_iff _ (by decide) hscale).mpr (Or.inr ⟨by decide +kernel, by decide +kernel⟩)

/-- The other socket may send a hundred bytes, and 16 KiB are announced. -/
theorem not_throttled : ¬ ∀ (skb : SkBuff) (my other : TcpSock), skb.window ≠ 0#16 →
    my.rcvWscale.toNat ≤ 14 → Throttled skb my other := by
  intro h
  have hroom := (h { (default : SkBuff) with window := 0xffff#16 } default
    { (default : TcpSock) with sndWnd := 100#32 } (by decide) (by decide)).le_room
  revert hroom
  decide +kernel

end Dysco
