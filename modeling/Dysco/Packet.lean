import Dysco.SerialNumber
import Dysco.ByteOrder

/-! # Packets

A TCP/IPv4 packet as the kernel module sees it: an `sk_buff` with its Ethernet, IP
and TCP headers, field by field, and the bytes behind the fixed TCP header.  Every
header field holds the raw word in memory, that is, in network order on a
little-endian machine; `ntohl` and its companions are applied where the source
applies them.

The two checksums are computed from scratch here, over the words of the IP header
and over the pseudo-header and bytes of the TCP segment.  The kernel's checksum
helpers are the one's-complement operations of `OnesComplement`.
-/
namespace Dysco
open OnesComplement ByteOrder

abbrev U8 := BitVec 8
abbrev U16 := BitVec 16
abbrev U32 := BitVec 32
abbrev U64 := BitVec 64
/-- A MAC address. -/
abbrev Mac := BitVec 48

instance : LawfulBEq U32 := inferInstance

abbrev ntohl (x : U32) : U32 := swap32 x
abbrev htonl (x : U32) : U32 := swap32 x
abbrev ntohs (x : U16) : U16 := swap16 x
abbrev htons (x : U16) : U16 := swap16 x

@[simp] theorem htonl_ntohl (x : U32) : htonl (ntohl x) = x := swap32_swap32 x
@[simp] theorem ntohl_htonl (x : U32) : ntohl (htonl x) = x := swap32_swap32 x
@[simp] theorem htons_ntohs (x : U16) : htons (ntohs x) = x := swap16_swap16 x
@[simp] theorem ntohs_htons (x : U16) : ntohs (htons x) = x := swap16_swap16 x

/-- `before` and `after` of the kernel's TCP code. -/
abbrev before (a b : U32) : Bool := SerialNumber.before a b
abbrev after (a b : U32) : Bool := SerialNumber.after a b

/-- How far the hardware has dealt with a packet's checksum. -/
inductive IpSummed where
  | checksumNone
  | checksumUnnecessary
  | checksumComplete
  | checksumPartial
deriving DecidableEq, Repr, Inhabited

/-- A packet on its way through the module. -/
structure SkBuff where
  hDest : Mac
  hSource : Mac
  hProto : U16
  tos : U8
  totLen : U16
  id : U16
  fragOff : U16
  ttl : U8
  protocol : U8
  ipCheck : U16
  saddr : U32
  daddr : U32
  /-- The words of the IP options. -/
  ipOptions : List U32
  source : U16
  dest : U16
  seq : U32
  ackSeq : U32
  doff : BitVec 4
  /-- The reserved bits next to the data offset. -/
  res1 : BitVec 4
  flags : U8
  window : U16
  check : U16
  urgPtr : U16
  /-- The bytes from the end of the fixed TCP header to the tail: options, then payload. -/
  data : List U8
  /-- How many bytes of the headers lie behind the tail, once `skb_trim` has cut into them. -/
  cut : Nat
  /-- What memory holds behind the tail of a packet that arrives. -/
  behind : List U8
  ipSummed : IpSummed
  /-- The checksum computed by the device, for `checksumComplete`. -/
  csum : U32
  tailroom : Nat
  skbIif : U32
  /-- How often the packet has been handed to `kfree_skb`. -/
  frees : Nat
deriving DecidableEq, Repr, Inhabited

def tcphdrFin : U8 := 0x01#8
def tcphdrSyn : U8 := 0x02#8
def tcphdrAck : U8 := 0x10#8

def ethPIp : U16 := 0x0800#16

def ipprotoTcp : U8 := 6#8
def ipprotoUdp : U8 := 17#8

namespace SkBuff

/-- The header length of the IP header, in words. -/
def ihl (skb : SkBuff) : Nat := 5 + skb.ipOptions.length

def hasFin (skb : SkBuff) : Bool := skb.flags &&& tcphdrFin != 0#8
def hasSyn (skb : SkBuff) : Bool := skb.flags &&& tcphdrSyn != 0#8
def hasAck (skb : SkBuff) : Bool := skb.flags &&& tcphdrAck != 0#8

/-- `skb->len` on the input path, where `skb->data` is at the IP header. -/
def len (skb : SkBuff) : Nat := skb.ihl * 4 + 20 + skb.data.length - skb.cut

/-- The length of the TCP segment according to the IP header. -/
def tcpLen (skb : SkBuff) : Nat := (ntohs skb.totLen).toNat - skb.ihl * 4

/-- The length of the option area according to the data offset. -/
def optLen (skb : SkBuff) : Nat := skb.doff.toNat * 4 - 20

/-- The size of the payload, as the 16-bit number the module computes. -/
def segSz (skb : SkBuff) : U16 :=
  ntohs skb.totLen - BitVec.ofNat 16 (skb.ihl * 4) - BitVec.ofNat 16 (skb.doff.toNat * 4)

/-- The sequence number behind the last byte of the segment. -/
def endSeq (skb : SkBuff) : U32 := ntohl skb.seq + skb.segSz.setWidth 32

/-- `skb_trim(skb, skb->len - n)`: cutting `n` bytes off the tail, headers and all.  If the packet
is not that long, the difference wraps and nothing is cut. -/
def trim (skb : SkBuff) (n : Nat) : SkBuff :=
  if skb.len < n then skb
  else
    { skb with
      data := skb.data.take (skb.data.length - n)
      cut := skb.cut + (n - skb.data.length)
      tailroom := skb.tailroom + n }

/-- `kfree_skb`. -/
def free (skb : SkBuff) : SkBuff := { skb with frees := skb.frees + 1 }

/-! ## Checksums from scratch -/

/-- The two 16-bit words of a 32-bit word. -/
def halves (x : U32) : List U16 := [x.setWidth 16, (x >>> 16).setWidth 16]

/-- The words of the IP header, with `check` in the place of the checksum. -/
def ipWords (skb : SkBuff) (check : U16) : List U16 :=
  [word16 (BitVec.ofNat 8 (64 + skb.ihl)) skb.tos, skb.totLen, skb.id, skb.fragOff,
    word16 skb.ttl skb.protocol, check] ++
  halves skb.saddr ++ halves skb.daddr ++ skb.ipOptions.flatMap halves

/-- The bytes of the fixed TCP header, with `check` in the place of the checksum. -/
def tcpHeader (skb : SkBuff) (check : U16) : List U8 :=
  bytes16 skb.source ++ (bytes16 skb.dest ++ (bytes32 skb.seq ++ (bytes32 skb.ackSeq ++
  ([(skb.doff.setWidth 8 <<< 4) ||| skb.res1.setWidth 8, skb.flags] ++
  (bytes16 skb.window ++ (bytes16 check ++ bytes16 skb.urgPtr))))))

/-- The bytes of the TCP segment. -/
def tcpBytes (skb : SkBuff) (check : U16) : List U8 := skb.tcpHeader check ++ skb.data

/-! ## Bytes at the tail -/

/-- The bytes of the IP header. -/
def ipHeader (skb : SkBuff) : List U8 :=
  [BitVec.ofNat 8 (64 + skb.ihl), skb.tos] ++ (bytes16 skb.totLen ++ (bytes16 skb.id ++
  (bytes16 skb.fragOff ++ ([skb.ttl, skb.protocol] ++ (bytes16 skb.ipCheck ++
  (bytes32 skb.saddr ++ (bytes32 skb.daddr ++ skb.ipOptions.flatMap bytes32)))))))

/-- The headers read from memory, but for what tells one kind of packet from another: the version,
the length of the IP header and the protocol stay as they are. -/
def readHeaders (skb : SkBuff) (bs : List U8) : SkBuff :=
  let th := skb.ihl * 4
  { skb with
    tos := byteAt bs 1
    totLen := load16 bs 2
    id := load16 bs 4
    fragOff := load16 bs 6
    ttl := byteAt bs 8
    ipCheck := load16 bs 10
    saddr := load32 bs 12
    daddr := load32 bs 16
    ipOptions := (List.range skb.ipOptions.length).map fun i => load32 bs (20 + 4 * i)
    source := load16 bs th
    dest := load16 bs (th + 2)
    seq := load32 bs (th + 4)
    ackSeq := load32 bs (th + 8)
    doff := (byteAt bs (th + 12) >>> 4).setWidth 4
    res1 := (byteAt bs (th + 12)).setWidth 4
    flags := byteAt bs (th + 13)
    window := load16 bs (th + 14)
    check := load16 bs (th + 16)
    urgPtr := load16 bs (th + 18) }

/-- Bytes written over the headers, from the tail on, where the packet has been cut into them. -/
def overwrite (skb : SkBuff) (bs : List U8) : SkBuff :=
  if skb.cut = 0 then skb
  else
    let headers := skb.ipHeader ++ skb.tcpHeader skb.check
    let tail := headers.length - skb.cut
    skb.readHeaders (headers.take tail ++ bs.take skb.cut ++ headers.drop (tail + bs.length))

/-- `skb_put`: appending bytes at the tail. -/
def put (skb : SkBuff) (bs : List U8) : SkBuff :=
  { skb.overwrite bs with
    data := skb.data ++ bs.drop skb.cut
    cut := skb.cut - bs.length
    tailroom := skb.tailroom - bs.length }

/-- Behind whole headers, the bytes are appended to the data. -/
theorem put_of_whole {skb : SkBuff} (hw : skb.cut = 0) (bs : List U8) :
    skb.put bs =
      { skb with data := skb.data ++ bs, tailroom := skb.tailroom - bs.length } := by
  rw [put, overwrite, if_pos hw, hw, Nat.zero_sub, List.drop_zero, ← hw]

@[simp] theorem ihl_overwrite (skb : SkBuff) (bs : List U8) : (skb.overwrite bs).ihl = skb.ihl := by
  rw [overwrite]
  split
  · rfl
  · simp [readHeaders, ihl]

/-- A packet grows by what is put at its tail. -/
theorem len_put {skb : SkBuff} (hcut : skb.cut ≤ skb.ihl * 4 + 20 + skb.data.length)
    (bs : List U8) : (skb.put bs).len = skb.len + bs.length := by
  have hihl : (skb.put bs).ihl = skb.ihl := ihl_overwrite skb bs
  have hdata : (skb.put bs).data = skb.data ++ bs.drop skb.cut := rfl
  have hcut' : (skb.put bs).cut = skb.cut - bs.length := rfl
  rw [len, len, hihl, hdata, hcut', List.length_append, List.length_drop]
  omega

/-- A packet that is long enough is cut to the length that is asked for. -/
theorem len_trim {skb : SkBuff} {n : Nat} (hlen : ¬ skb.len < n) :
    (skb.trim n).len = skb.len - n := by
  rw [trim, if_neg hlen, len, len, List.length_take, ihl, ihl]
  simp only
  omega

/-- The cut ends at the first byte of the packet. -/
theorem cut_trim_le {skb : SkBuff} (hcut : skb.cut ≤ skb.ihl * 4 + 20 + skb.data.length) (n : Nat) :
    (skb.trim n).cut ≤ (skb.trim n).ihl * 4 + 20 + (skb.trim n).data.length := by
  rw [trim]
  split
  · exact hcut
  · rename_i hlen
    rw [len] at hlen
    rw [ihl] at hcut hlen ⊢
    simp only [List.length_take]
    omega

/-- What is cut from a packet that has it behind its headers. -/
theorem trim_of_le {skb : SkBuff} {n : Nat} (hn : n ≤ skb.data.length)
    (hlen : ¬ skb.len < n) : skb.trim n =
      { skb with data := skb.data.take (skb.data.length - n), tailroom := skb.tailroom + n } := by
  rw [trim, if_neg hlen, Nat.sub_eq_zero_of_le hn, Nat.add_zero]

end SkBuff

/-- `csum_fold`: the checksum that stands for a sum. -/
def csumFold (sum : U32) : U16 := ~~~fold sum

/-- `csum_unfold`. -/
def csumUnfold (check : U16) : U32 := check.setWidth 32

/-- `csum_add`. -/
def csumAdd (a b : U32) : U32 := addc a b

/-- `csum_sub`. -/
def csumSub (a b : U32) : U32 := csumAdd a (~~~b)

/-- `csum_partial`: the sum of a string of bytes on top of another sum. -/
def csumPartial (bs : List U8) (sum : U32) : U32 := sumWords (words bs) sum

/-- `csum_tcpudp_nofold`: the sum of the pseudo-header. -/
def csumTcpudpNofold (saddr daddr : U32) (len : Nat) (proto : U8) (sum : U32) : U32 :=
  csumAdd (csumAdd (csumAdd sum saddr) daddr) ((BitVec.ofNat 32 len + proto.setWidth 32) <<< 8)

/-- `ip_fast_csum`: the checksum of the words of an IP header. -/
def ipFastCsum (ws : List U16) : U16 := csumFold (sumWords ws 0#32)

/-- `tcp_v4_check`. -/
def tcpV4Check (len : Nat) (saddr daddr : U32) (base : U32) : U16 :=
  csumFold (csumTcpudpNofold saddr daddr len ipprotoTcp base)

namespace SkBuff

/-- The IP header checksum, computed from scratch. -/
def ipChecksum (skb : SkBuff) : U16 := ipFastCsum (skb.ipWords 0#16)

/-- The sum of the pseudo-header of the TCP segment. -/
def pseudoSum (skb : SkBuff) : U32 :=
  csumTcpudpNofold skb.saddr skb.daddr skb.tcpLen ipprotoTcp 0#32

/-- The TCP checksum, computed from scratch. -/
def tcpChecksum (skb : SkBuff) : U16 :=
  csumFold (csumPartial ((skb.tcpBytes 0#16).take skb.tcpLen) skb.pseudoSum)

/-- The receiver's test of the IP header: its words, checksum included, sum to zero. -/
def IpVerifies (skb : SkBuff) : Prop := ipFastCsum (skb.ipWords skb.ipCheck) = 0#16

/-- The receiver's test of the TCP segment. -/
def TcpVerifies (skb : SkBuff) : Prop :=
  csumFold (csumPartial ((skb.tcpBytes skb.check).take skb.tcpLen) skb.pseudoSum) = 0#16

instance (skb : SkBuff) : Decidable skb.IpVerifies := inferInstanceAs (Decidable (_ = _))
instance (skb : SkBuff) : Decidable skb.TcpVerifies := inferInstanceAs (Decidable (_ = _))

end SkBuff
end Dysco
