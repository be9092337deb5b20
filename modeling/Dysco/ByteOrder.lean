import Mathlib.Tactic.IntervalCases
import Dysco.OnesComplement

/-! # Bytes, words and byte order

A little-endian machine reads a 32-bit word from four consecutive bytes, lowest
byte first (`load32`), and writes it back the same way (`store32`).  Network order
is the reverse, so converting between the two swaps the bytes (`swap16`, `swap32`);
swapping twice changes nothing.

`byteSum_store32` says what a write does to the one's-complement sum of the string
it writes into: the sum changes by the difference of the two words, times the
weight of the offset.
-/
namespace ByteOrder
open OnesComplement

/-! ## Swapping -/

/-- The two bytes of a 16-bit word, exchanged. -/
def swap16 (x : BitVec 16) : BitVec 16 :=
  BitVec.ofNat 16 (x.toNat % 256 * 256 + x.toNat / 256)

/-- The four bytes of a 32-bit word, in reverse order. -/
def swap32 (x : BitVec 32) : BitVec 32 :=
  x.extractLsb' 0 8 ++ x.extractLsb' 8 8 ++ x.extractLsb' 16 8 ++ x.extractLsb' 24 8

theorem toNat_append_eq {m n : Nat} (hi : BitVec m) (lo : BitVec n) :
    (hi ++ lo).toNat = 2 ^ n * hi.toNat + lo.toNat := by
  rw [BitVec.toNat_append, ← Nat.shiftLeft_add_eq_or_of_lt lo.isLt, Nat.shiftLeft_eq,
    Nat.mul_comm]

theorem toNat_swap16 {x : BitVec 16} {a b : Nat} (ha : a < 256) (hx : x.toNat = a + 256 * b) :
    (swap16 x).toNat = b + 256 * a := by
  have h0 : x.toNat % 256 = a := by omega
  have h1 : x.toNat / 256 = b := by omega
  rw [swap16, h0, h1, BitVec.toNat_ofNat]
  omega

@[simp] theorem swap16_swap16 (x : BitVec 16) : swap16 (swap16 x) = x := by
  have hlo : x.toNat % 256 < 256 := by omega
  have hhi : x.toNat / 256 < 256 := by
    have := x.isLt
    omega
  have hx : x.toNat = x.toNat % 256 + 256 * (x.toNat / 256) := by omega
  apply BitVec.eq_of_toNat_eq
  rw [toNat_swap16 hhi (toNat_swap16 hlo hx), ← hx]

/-- A 32-bit number is its four bytes. -/
theorem exists_bytes (x : BitVec 32) : ∃ a b c d : Nat, a < 256 ∧ b < 256 ∧ c < 256 ∧ d < 256 ∧
    x.toNat = a + 256 * b + 65536 * c + 16777216 * d := by
  have := x.isLt
  refine ⟨x.toNat % 256, x.toNat / 256 % 256, x.toNat / 65536 % 256, x.toNat / 16777216,
    ?_, ?_, ?_, ?_, ?_⟩ <;> omega

theorem toNat_swap32 {x : BitVec 32} {a b c d : Nat} (ha : a < 256) (hb : b < 256) (hc : c < 256)
    (_ : d < 256) (hx : x.toNat = a + 256 * b + 65536 * c + 16777216 * d) :
    (swap32 x).toNat = d + 256 * c + 65536 * b + 16777216 * a := by
  have h0 : x.toNat % 256 = a := by omega
  have h1 : x.toNat / 256 % 256 = b := by omega
  have h2 : x.toNat / 65536 % 256 = c := by omega
  have h3 : x.toNat / 16777216 % 256 = d := by omega
  unfold swap32
  simp only [toNat_append_eq, BitVec.extractLsb'_toNat, Nat.shiftRight_eq_div_pow, Nat.reducePow,
    Nat.div_one, h0, h1, h2, h3]
  omega

@[simp] theorem swap32_swap32 (x : BitVec 32) : swap32 (swap32 x) = x := by
  obtain ⟨a, b, c, d, ha, hb, hc, hd, hx⟩ := exists_bytes x
  apply BitVec.eq_of_toNat_eq
  rw [toNat_swap32 hd hc hb ha (toNat_swap32 ha hb hc hd hx), hx]

/-! ## Reading and writing bytes -/

/-- Byte `i` of a word, the lowest first. -/
def byte {w : Nat} (x : BitVec w) (i : Nat) : BitVec 8 := BitVec.ofNat 8 (x.toNat / 256 ^ i)

/-- The byte at offset `k`; reading past the end yields zero. -/
def byteAt (bs : List (BitVec 8)) (k : Nat) : BitVec 8 := bs.getD k 0#8

/-- The 16-bit word at offset `k`. -/
def load16 (bs : List (BitVec 8)) (k : Nat) : BitVec 16 := word16 (byteAt bs k) (byteAt bs (k + 1))

/-- The 32-bit word at offset `k`. -/
def load32 (bs : List (BitVec 8)) (k : Nat) : BitVec 32 :=
  byteAt bs (k + 3) ++ byteAt bs (k + 2) ++ byteAt bs (k + 1) ++ byteAt bs k

/-- The bytes of a 16-bit word. -/
def bytes16 (x : BitVec 16) : List (BitVec 8) := [byte x 0, byte x 1]

/-- The bytes of a 32-bit word. -/
def bytes32 (x : BitVec 32) : List (BitVec 8) := [byte x 0, byte x 1, byte x 2, byte x 3]

/-- Writing the 32-bit word `x` at offset `k`. -/
def store32 (bs : List (BitVec 8)) (k : Nat) (x : BitVec 32) : List (BitVec 8) :=
  (((bs.set k (byte x 0)).set (k + 1) (byte x 1)).set (k + 2) (byte x 2)).set (k + 3) (byte x 3)

@[simp] theorem length_store32 (bs : List (BitVec 8)) (k : Nat) (x : BitVec 32) :
    (store32 bs k x).length = bs.length := by
  simp [store32]

@[simp] theorem length_bytes16 (x : BitVec 16) : (bytes16 x).length = 2 := rfl

@[simp] theorem length_bytes32 (x : BitVec 32) : (bytes32 x).length = 4 := rfl

theorem byteAt_append_left {bs : List (BitVec 8)} {k : Nat} (h : k < bs.length)
    (cs : List (BitVec 8)) : byteAt (bs ++ cs) k = byteAt bs k := by
  simp only [byteAt, List.getD_eq_getElem?_getD, List.getElem?_append_left h]

theorem byteAt_append_right (bs cs : List (BitVec 8)) (k : Nat) :
    byteAt (bs ++ cs) (bs.length + k) = byteAt cs k := by
  simp only [byteAt, List.getD_eq_getElem?_getD,
    List.getElem?_append_right (Nat.le_add_right _ _), Nat.add_sub_cancel_left]

theorem byteAt_drop (bs : List (BitVec 8)) (n k : Nat) :
    byteAt (bs.drop n) k = byteAt bs (n + k) := by
  simp only [byteAt, List.getD_eq_getElem?_getD, List.getElem?_drop]

theorem byteAt_set_ne {bs : List (BitVec 8)} {i k : Nat} (h : i ≠ k) (b : BitVec 8) :
    byteAt (bs.set i b) k = byteAt bs k := by
  simp only [byteAt, List.getD_eq_getElem?_getD, List.getElem?_set_ne h]

theorem byteAt_set_self {bs : List (BitVec 8)} {k : Nat} (h : k < bs.length) (b : BitVec 8) :
    byteAt (bs.set k b) k = b := by
  simp [byteAt, List.getD_eq_getElem?_getD, h]

/-- A write leaves the bytes outside its four alone. -/
theorem byteAt_store32_of_lt {bs : List (BitVec 8)} {i k : Nat} (h : i < k ∨ k + 4 ≤ i)
    (x : BitVec 32) : byteAt (store32 bs k x) i = byteAt bs i := by
  unfold store32
  rw [byteAt_set_ne (by omega), byteAt_set_ne (by omega), byteAt_set_ne (by omega),
    byteAt_set_ne (by omega)]

/-- A write leaves the words outside its four bytes alone. -/
theorem load32_store32_of_disjoint {bs : List (BitVec 8)} {i k : Nat}
    (h : i + 4 ≤ k ∨ k + 4 ≤ i) (x : BitVec 32) : load32 (store32 bs k x) i = load32 bs i := by
  unfold load32
  rw [byteAt_store32_of_lt (by omega), byteAt_store32_of_lt (by omega),
    byteAt_store32_of_lt (by omega), byteAt_store32_of_lt (by omega)]

theorem toNat_load32 (bs : List (BitVec 8)) (k : Nat) :
    (load32 bs k).toNat = (byteAt bs k).toNat + 256 * (byteAt bs (k + 1)).toNat +
      65536 * (byteAt bs (k + 2)).toNat + 16777216 * (byteAt bs (k + 3)).toNat := by
  unfold load32
  simp only [toNat_append_eq, Nat.reducePow]
  ring

/-- The word just written is the word read. -/
theorem load32_store32_self {bs : List (BitVec 8)} {k : Nat} (h : k + 4 ≤ bs.length)
    (x : BitVec 32) : load32 (store32 bs k x) k = x := by
  have h0 : byteAt (store32 bs k x) k = byte x 0 := by
    unfold store32
    rw [byteAt_set_ne (by omega), byteAt_set_ne (by omega), byteAt_set_ne (by omega),
      byteAt_set_self (by omega)]
  have h1 : byteAt (store32 bs k x) (k + 1) = byte x 1 := by
    unfold store32
    rw [byteAt_set_ne (by omega), byteAt_set_ne (by omega), byteAt_set_self (by simp; omega)]
  have h2 : byteAt (store32 bs k x) (k + 2) = byte x 2 := by
    unfold store32
    rw [byteAt_set_ne (by omega), byteAt_set_self (by simp; omega)]
  have h3 : byteAt (store32 bs k x) (k + 3) = byte x 3 := by
    unfold store32
    rw [byteAt_set_self (by simp; omega)]
  apply BitVec.eq_of_toNat_eq
  rw [toNat_load32, h0, h1, h2, h3]
  simp only [byte, BitVec.toNat_ofNat, Nat.reducePow, Nat.div_one]
  have := x.isLt
  omega

/-- The bytes of a word are read back as the word. -/
theorem load32_bytes32 (bs cs : List (BitVec 8)) (x : BitVec 32) :
    load32 (bs ++ (bytes32 x ++ cs)) bs.length = x := by
  apply BitVec.eq_of_toNat_eq
  have hk : ∀ i, byteAt (bs ++ (bytes32 x ++ cs)) (bs.length + i) = byteAt (bytes32 x ++ cs) i :=
    byteAt_append_right bs _
  have h0 := hk 0
  rw [Nat.add_zero] at h0
  rw [toNat_load32, h0, hk 1, hk 2, hk 3]
  simp only [bytes32, List.cons_append, byteAt, List.getD_cons_zero, List.getD_cons_succ, byte,
    BitVec.toNat_ofNat, Nat.reducePow, Nat.div_one]
  have := x.isLt
  omega

theorem load16_bytes16 (bs cs : List (BitVec 8)) (x : BitVec 16) :
    load16 (bs ++ (bytes16 x ++ cs)) bs.length = x := by
  apply BitVec.eq_of_toNat_eq
  have hk : ∀ i, byteAt (bs ++ (bytes16 x ++ cs)) (bs.length + i) = byteAt (bytes16 x ++ cs) i :=
    byteAt_append_right bs _
  have h0 := hk 0
  rw [Nat.add_zero] at h0
  rw [load16, toNat_word16, h0, hk 1]
  simp only [bytes16, List.cons_append, byteAt, List.getD_cons_zero, List.getD_cons_succ, byte,
    BitVec.toNat_ofNat, Nat.reducePow, Nat.div_one]
  have := x.isLt
  omega

/-! ## Writes and the one's-complement sum -/

theorem residue_load32 (bs : List (BitVec 8)) (k : Nat) :
    residue (load32 bs k) = residue (byteAt bs k) + 256 * residue (byteAt bs (k + 1)) +
      residue (byteAt bs (k + 2)) + 256 * residue (byteAt bs (k + 3)) := by
  unfold residue
  rw [toNat_load32]
  push_cast
  have h : (16777216 : ZMod 65535) = 256 * 65536 := by norm_num
  rw [h, cast_two_pow_16]
  ring

theorem byteSum_set (j : Nat) {bs : List (BitVec 8)} {k : Nat} (h : k < bs.length)
    (b : BitVec 8) : byteSum j (bs.set k b) =
      byteSum j bs + weight (j + k) * (residue b - residue (byteAt bs k)) := by
  induction bs generalizing j k with
  | nil => exact absurd h (Nat.not_lt_zero _)
  | cons c bs ih =>
    cases k with
    | zero =>
      simp only [List.set_cons_zero, byteSum, byteAt, List.getD_cons_zero, Nat.add_zero]
      ring
    | succ k =>
      have hk : k < bs.length := Nat.lt_of_succ_lt_succ h
      simp only [List.set_cons_succ, byteSum, byteAt, List.getD_cons_succ]
      rw [ih (j + 1) hk, show j + 1 + k = j + (k + 1) from by omega]
      simp only [byteAt]
      ring

/-- **A write moves the sum by the difference of the words**, weighted by the
offset it is made at. -/
theorem byteSum_store32 {bs : List (BitVec 8)} {k : Nat} (h : k + 4 ≤ bs.length)
    (x : BitVec 32) : byteSum 0 (store32 bs k x) =
      byteSum 0 bs + weight k * (residue x - residue (load32 bs k)) := by
  have hx := residue_load32 (store32 bs k x) k
  rw [load32_store32_self h] at hx
  have hb : ∀ i, i < 4 → byteAt (store32 bs k x) (k + i) = byte x i := by
    intro i hi
    unfold store32
    interval_cases i
    · rw [byteAt_set_ne (by omega), byteAt_set_ne (by omega), byteAt_set_ne (by omega),
        Nat.add_zero, byteAt_set_self (by omega)]
    · rw [byteAt_set_ne (by omega), byteAt_set_ne (by omega), byteAt_set_self (by simp; omega)]
    · rw [byteAt_set_ne (by omega), byteAt_set_self (by simp; omega)]
    · rw [byteAt_set_self (by simp; omega)]
  have h0 := hb 0 (by omega)
  rw [Nat.add_zero] at h0
  rw [h0, hb 1 (by omega), hb 2 (by omega), hb 3 (by omega)] at hx
  unfold store32
  rw [byteSum_set 0 (by simp; omega), byteSum_set 0 (by simp; omega),
    byteSum_set 0 (by simp; omega), byteSum_set 0 (by omega),
    byteAt_set_ne (by omega), byteAt_set_ne (by omega), byteAt_set_ne (by omega),
    byteAt_set_ne (by omega), byteAt_set_ne (by omega), byteAt_set_ne (by omega),
    residue_load32, hx]
  simp only [Nat.zero_add]
  rw [show k + 3 = k + 1 + 2 from rfl, weight_add_two, weight_add_two, weight_mul_256]
  ring

end ByteOrder
