import Mathlib.Data.BitVec
import Mathlib.Data.ZMod.Basic
import Mathlib.Tactic.Ring

/-! # One's-complement arithmetic

A one's-complement sum of 16-bit words is a sum modulo 65535 in which zero has
two representatives, `0x0000` and `0xFFFF`.  Every operation of such a sum
(end-around addition, complement, folding a wide accumulator into fewer bits) is
described here by two facts: what it does to the residue modulo 65535, and
when its result is zero.  Residues live in `ZMod 65535`, where the equations
between sums are ring equations; the zero facts pick the representative
(`eq_of_residue`).

The last section sums a string of bytes word by word.  A byte at an even offset
counts once, a byte at an odd offset 256 times, so a 32-bit word stored at an even
offset counts as itself and one stored at an odd offset 256 times as much
(`residue_word32`).
-/
namespace OnesComplement

/-- The residue of a number of any width. -/
def residue {w : Nat} (x : BitVec w) : ZMod 65535 := (x.toNat : ZMod 65535)

theorem cast_two_pow_16 : (65536 : ZMod 65535) = 1 := by
  have h : ((65536 : Nat) : ZMod 65535) = ((1 : Nat) : ZMod 65535) :=
    (ZMod.natCast_eq_natCast_iff _ _ _).mpr rfl
  simpa using h

theorem cast_two_pow_32 : (4294967296 : ZMod 65535) = 1 := by
  have h : ((4294967296 : Nat) : ZMod 65535) = ((1 : Nat) : ZMod 65535) :=
    (ZMod.natCast_eq_natCast_iff _ _ _).mpr rfl
  simpa using h

/-- Two numbers a multiple of 65535 apart have the same residue. -/
theorem cast_eq_of_mod {m n : Nat} (h : m % 65535 = n % 65535) :
    (m : ZMod 65535) = (n : ZMod 65535) :=
  (ZMod.natCast_eq_natCast_iff _ _ _).mpr h

@[simp] theorem residue_zero {w : Nat} : residue (0#w) = 0 := by
  simp [residue]

/-! ## Complements -/

theorem residue_not16 (x : BitVec 16) : residue (~~~x) = -residue x := by
  have h : (~~~x).toNat + x.toNat = 65535 := by
    rw [BitVec.toNat_not]
    have := x.isLt
    omega
  rw [eq_neg_iff_add_eq_zero, residue, residue, ← Nat.cast_add, h]
  exact (ZMod.natCast_eq_zero_iff _ _).mpr (Nat.dvd_refl _)

theorem residue_not32 (x : BitVec 32) : residue (~~~x) = -residue x := by
  have h : (~~~x).toNat + x.toNat = 65535 * 65537 := by
    rw [BitVec.toNat_not]
    have := x.isLt
    omega
  rw [eq_neg_iff_add_eq_zero, residue, residue, ← Nat.cast_add, h]
  exact (ZMod.natCast_eq_zero_iff _ _).mpr (Nat.dvd_mul_right _ _)

/-! ## End-around addition -/

/-- Addition that adds the carry out of the top bit back in at the bottom. -/
def addc (a b : BitVec 32) : BitVec 32 :=
  a + b + if a + b < b then 1#32 else 0#32

theorem toNat_addc (a b : BitVec 32) :
    (addc a b).toNat =
      if a.toNat + b.toNat < 4294967296 then a.toNat + b.toNat
      else a.toNat + b.toNat - 4294967295 := by
  have ha := a.isLt
  have hb := b.isLt
  have hsum : (a + b).toNat = (a.toNat + b.toNat) % 4294967296 := BitVec.toNat_add a b
  unfold addc
  by_cases hc : a.toNat + b.toNat < 4294967296
  · have hlt : ¬ a + b < b := by
      rw [BitVec.lt_def, hsum]
      omega
    rw [if_neg hlt, if_pos hc, BitVec.toNat_add, hsum]
    rw [BitVec.toNat_ofNat]
    omega
  · have hlt : a + b < b := by
      rw [BitVec.lt_def, hsum]
      omega
    rw [if_pos hlt, if_neg hc, BitVec.toNat_add, hsum]
    rw [BitVec.toNat_ofNat]
    omega

theorem residue_addc (a b : BitVec 32) : residue (addc a b) = residue a + residue b := by
  unfold residue
  rw [← Nat.cast_add]
  apply cast_eq_of_mod
  rw [toNat_addc]
  split <;> omega

/-- An end-around sum is zero only if both summands are. -/
theorem addc_eq_zero {a b : BitVec 32} : addc a b = 0#32 ↔ a = 0#32 ∧ b = 0#32 := by
  simp only [← BitVec.toNat_inj, BitVec.toNat_zero, toNat_addc]
  have ha := a.isLt
  have hb := b.isLt
  split <;> omega

/-! ## Folding -/

/-- Folding a 32-bit accumulator into 16 bits, in two steps so that no carry is
lost. -/
def fold (x : BitVec 32) : BitVec 16 :=
  let y := (x &&& 0xffff#32) + (x >>> 16)
  let z := (y &&& 0xffff#32) + (y >>> 16)
  z.setWidth 16

theorem toNat_low16 (x : BitVec 32) : (x &&& 0xffff#32).toNat = x.toNat % 65536 := by
  rw [BitVec.toNat_and]
  exact Nat.and_two_pow_sub_one_eq_mod x.toNat 16

theorem toNat_high16 (x : BitVec 32) : (x >>> 16).toNat = x.toNat / 65536 := by
  rw [BitVec.toNat_ushiftRight, Nat.shiftRight_eq_div_pow]

theorem toNat_fold (x : BitVec 32) :
    (fold x).toNat = ((x.toNat % 65536 + x.toNat / 65536) % 65536 +
      (x.toNat % 65536 + x.toNat / 65536) / 65536) := by
  have hx := x.isLt
  have hy : ((x &&& 0xffff#32) + (x >>> 16)).toNat = x.toNat % 65536 + x.toNat / 65536 := by
    rw [BitVec.toNat_add, toNat_low16, toNat_high16]
    omega
  simp only [fold, BitVec.toNat_setWidth, BitVec.toNat_add, toNat_low16, toNat_high16] at hy ⊢
  rw [hy]
  omega

theorem residue_fold (x : BitVec 32) : residue (fold x) = residue x := by
  unfold residue
  apply cast_eq_of_mod
  rw [toNat_fold]
  omega

/-- Folding keeps zero and non-zero apart. -/
theorem fold_eq_zero {x : BitVec 32} : fold x = 0#16 ↔ x = 0#32 := by
  simp only [← BitVec.toNat_inj, BitVec.toNat_zero, toNat_fold]
  omega

/-- Folding a 64-bit accumulator into 32 bits. -/
def fold64 (x : BitVec 64) : BitVec 32 :=
  let y := (x &&& 0xffffffff#64) + (x >>> 32)
  let z := (y &&& 0xffffffff#64) + (y >>> 32)
  z.setWidth 32

theorem toNat_low32 (x : BitVec 64) : (x &&& 0xffffffff#64).toNat = x.toNat % 4294967296 := by
  rw [BitVec.toNat_and]
  exact Nat.and_two_pow_sub_one_eq_mod x.toNat 32

theorem toNat_high32 (x : BitVec 64) : (x >>> 32).toNat = x.toNat / 4294967296 := by
  rw [BitVec.toNat_ushiftRight, Nat.shiftRight_eq_div_pow]

theorem toNat_fold64 (x : BitVec 64) :
    (fold64 x).toNat = ((x.toNat % 4294967296 + x.toNat / 4294967296) % 4294967296 +
      (x.toNat % 4294967296 + x.toNat / 4294967296) / 4294967296) := by
  have hx := x.isLt
  have hy : ((x &&& 0xffffffff#64) + (x >>> 32)).toNat =
      x.toNat % 4294967296 + x.toNat / 4294967296 := by
    rw [BitVec.toNat_add, toNat_low32, toNat_high32]
    omega
  simp only [fold64, BitVec.toNat_setWidth, BitVec.toNat_add, toNat_low32, toNat_high32] at hy ⊢
  rw [hy]
  omega

theorem residue_fold64 (x : BitVec 64) : residue (fold64 x) = residue x := by
  unfold residue
  apply cast_eq_of_mod
  rw [toNat_fold64]
  omega

theorem fold64_eq_zero {x : BitVec 64} : fold64 x = 0#32 ↔ x = 0#64 := by
  simp only [← BitVec.toNat_inj, BitVec.toNat_zero, toNat_fold64]
  omega

/-! ## Picking the representative -/

/-- A 16-bit value other than `0xFFFF` is determined by its residue. -/
theorem eq_of_residue {a b : BitVec 16} (ha : a ≠ 0xffff#16) (hb : b ≠ 0xffff#16)
    (h : residue a = residue b) : a = b := by
  have hmod := (ZMod.natCast_eq_natCast_iff _ _ _).mp h
  have ha' : a.toNat ≠ 65535 := fun he => ha (BitVec.eq_of_toNat_eq he)
  have hb' : b.toNat ≠ 65535 := fun he => hb (BitVec.eq_of_toNat_eq he)
  apply BitVec.eq_of_toNat_eq
  unfold Nat.ModEq at hmod
  have := a.isLt
  have := b.isLt
  omega

/-- So is a 16-bit value other than zero. -/
theorem eq_of_residue_of_ne_zero {a b : BitVec 16} (ha : a ≠ 0#16) (hb : b ≠ 0#16)
    (h : residue a = residue b) : a = b := by
  have hmod := (ZMod.natCast_eq_natCast_iff _ _ _).mp h
  have ha' : a.toNat ≠ 0 := fun he => ha (BitVec.eq_of_toNat_eq he)
  have hb' : b.toNat ≠ 0 := fun he => hb (BitVec.eq_of_toNat_eq he)
  apply BitVec.eq_of_toNat_eq
  unfold Nat.ModEq at hmod
  have := a.isLt
  have := b.isLt
  omega

/-- A complement is `0xFFFF` only if the value complemented is zero. -/
theorem not_eq_ffff {a : BitVec 16} : ~~~a = 0xffff#16 ↔ a = 0#16 := by
  simp only [← BitVec.toNat_inj, BitVec.toNat_not, BitVec.toNat_zero]
  have := a.isLt
  simp only [BitVec.reduceToNat]
  omega

/-! ## Summing words and bytes -/

/-- The 16-bit word with low byte `lo` and high byte `hi`. -/
def word16 (lo hi : BitVec 8) : BitVec 16 := BitVec.ofNat 16 (lo.toNat + 256 * hi.toNat)

theorem toNat_word16 (lo hi : BitVec 8) :
    (word16 lo hi).toNat = lo.toNat + 256 * hi.toNat := by
  have := lo.isLt
  have := hi.isLt
  rw [word16, BitVec.toNat_ofNat, Nat.mod_eq_of_lt (by omega)]

/-- A string of bytes as 16-bit words, the last one padded with a zero byte. -/
def words : List (BitVec 8) → List (BitVec 16)
  | [] => []
  | [b] => [word16 b 0#8]
  | b :: c :: bs => word16 b c :: words bs

/-- The end-around sum of a list of words, on top of `sum`. -/
def sumWords (ws : List (BitVec 16)) (sum : BitVec 32) : BitVec 32 :=
  ws.foldl (fun s w => addc s (w.setWidth 32)) sum

theorem residue_setWidth (w : BitVec 16) : residue (w.setWidth 32) = residue w := by
  unfold residue
  rw [BitVec.toNat_setWidth, Nat.mod_eq_of_lt]
  have := w.isLt
  omega

theorem residue_sumWords (ws : List (BitVec 16)) (sum : BitVec 32) :
    residue (sumWords ws sum) = residue sum + (ws.map residue).sum := by
  induction ws generalizing sum with
  | nil => simp [sumWords]
  | cons w ws ih =>
    have hstep : sumWords (w :: ws) sum = sumWords ws (addc sum (w.setWidth 32)) := rfl
    rw [hstep, ih, residue_addc, residue_setWidth, List.map_cons, List.sum_cons, add_assoc]

/-- A sum that starts from a non-zero value stays non-zero. -/
theorem sumWords_ne_zero (ws : List (BitVec 16)) {sum : BitVec 32} (h : sum ≠ 0#32) :
    sumWords ws sum ≠ 0#32 := by
  induction ws generalizing sum with
  | nil => exact h
  | cons w ws ih =>
    have hstep : addc sum (w.setWidth 32) ≠ 0#32 := fun hz => h (addc_eq_zero.mp hz).1
    exact ih hstep

/-- A sum with a non-zero word is non-zero. -/
theorem sumWords_ne_zero_of_mem {ws : List (BitVec 16)} {w : BitVec 16} (hmem : w ∈ ws)
    (hw : w ≠ 0#16) (sum : BitVec 32) : sumWords ws sum ≠ 0#32 := by
  induction ws generalizing sum with
  | nil => cases hmem
  | cons v ws ih =>
    rcases List.mem_cons.mp hmem with rfl | hmem
    · have hstep : addc sum (w.setWidth 32) ≠ 0#32 := by
        intro hz
        have hv := congrArg BitVec.toNat (addc_eq_zero.mp hz).2
        rw [BitVec.toNat_setWidth, BitVec.toNat_ofNat] at hv
        apply hw
        apply BitVec.eq_of_toNat_eq
        rw [BitVec.toNat_ofNat]
        have := w.isLt
        omega
      exact sumWords_ne_zero ws hstep
    · exact ih hmem _

/-- How often a byte at offset `k` counts: once if even, 256 times if odd. -/
def weight (k : Nat) : ZMod 65535 := if k % 2 = 0 then 1 else 256

/-- The weighted sum of a string of bytes whose first byte has offset `k`. -/
def byteSum : Nat → List (BitVec 8) → ZMod 65535
  | _, [] => 0
  | k, b :: bs => weight k * residue b + byteSum (k + 1) bs

theorem weight_add_two (k : Nat) : weight (k + 2) = weight k := by
  unfold weight
  rw [Nat.add_mod_right]

/-- Stepping two bytes on swaps the weight twice. -/
theorem weight_mul_256 (k : Nat) : weight (k + 1) = 256 * weight k := by
  unfold weight
  rcases Nat.mod_two_eq_zero_or_one k with h | h
  · rw [if_neg (show ¬ (k + 1) % 2 = 0 by omega), if_pos h, mul_one]
  · rw [if_pos (show (k + 1) % 2 = 0 by omega), if_neg (show ¬ k % 2 = 0 by omega)]
    have hsq : (256 : ZMod 65535) * 256 = 65536 := by norm_num
    rw [hsq, cast_two_pow_16]

theorem residue_word16 (lo hi : BitVec 8) :
    residue (word16 lo hi) = residue lo + 256 * residue hi := by
  unfold residue
  rw [toNat_word16]
  push_cast
  ring

theorem byteSum_add_two (k : Nat) (bs : List (BitVec 8)) : byteSum (k + 2) bs = byteSum k bs := by
  induction bs generalizing k with
  | nil => rfl
  | cons b bs ih =>
    simp only [byteSum]
    rw [weight_add_two, show k + 2 + 1 = (k + 1) + 2 from rfl, ih]

/-- Only the parity of the offset matters. -/
theorem byteSum_of_even {k : Nat} (h : k % 2 = 0) (bs : List (BitVec 8)) :
    byteSum k bs = byteSum 0 bs := by
  induction k using Nat.twoStepInduction with
  | zero => rfl
  | one => exact absurd h (by decide)
  | more k ih _ =>
    rw [byteSum_add_two]
    exact ih (by omega)

/-- Summing a string of bytes as words is their weighted sum. -/
theorem sum_words (bs : List (BitVec 8)) : ((words bs).map residue).sum = byteSum 0 bs := by
  induction bs using words.induct with
  | case1 => rfl
  | case2 b =>
    simp [words, byteSum, residue_word16, weight]
  | case3 b c bs ih =>
    simp only [words, List.map_cons, List.sum_cons, byteSum, ih, residue_word16]
    rw [byteSum_add_two 0 bs]
    simp only [weight]
    norm_num
    ring

theorem byteSum_append (k : Nat) (bs cs : List (BitVec 8)) :
    byteSum k (bs ++ cs) = byteSum k bs + byteSum (k + bs.length) cs := by
  induction bs generalizing k with
  | nil => simp [byteSum]
  | cons b bs ih =>
    simp only [List.cons_append, byteSum, ih, List.length_cons]
    rw [show k + 1 + bs.length = k + (bs.length + 1) from by omega]
    ring

end OnesComplement
