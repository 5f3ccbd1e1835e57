import Mathlib

/-!
# Integers as bytes

Fixed-width integers in big-endian order. `bigEndian n v` is the two's
complement of `v` in `n` bytes, `ofBigEndian` the number a byte string stands
for; each undoes the other (`ofBigEndian_bigEndian`, `bigEndian_ofBigEndian`),
and a value counts only modulo `256 ^ n` (`bigEndian_add`).
-/

namespace Ham.Lib

/-- The `n` low bytes of an integer in two's complement, the most significant
first. -/
def bigEndian : Nat → Int → List UInt8
  | 0, _ => []
  | n + 1, v => UInt8.ofInt (v / 256 ^ n) :: bigEndian n v

/-- The number that bytes stand for, the most significant first. -/
def ofBigEndian : List UInt8 → Nat
  | [] => 0
  | b :: bs => b.toNat * 256 ^ bs.length + ofBigEndian bs

@[simp] theorem length_bigEndian (n : Nat) (v : Int) : (bigEndian n v).length = n := by
  induction n with
  | zero => rfl
  | succ n ih => rw [bigEndian, List.length_cons, ih]

theorem ofInt_add_mul (v k : Int) : UInt8.ofInt (v + 256 * k) = UInt8.ofInt v := by
  unfold UInt8.ofInt
  rw [show (2 : Int) ^ 8 = 256 from rfl, Int.add_mul_emod_self_left]

theorem toNat_ofInt_natCast (m : Nat) : (UInt8.ofInt (m : Int)).toNat = m % 256 := by
  have hmod : Int.toNat ((m : Int) % 2 ^ 8) = m % 256 := by omega
  rw [UInt8.ofInt, hmod, UInt8.toNat_ofNat']
  omega

/-- The low bytes do not see a multiple of `256 ^ N` from `N` bytes on. -/
theorem bigEndian_add {n N : Nat} (h : n ≤ N) (v k : Int) :
    bigEndian n (v + 256 ^ N * k) = bigEndian n v := by
  induction n with
  | zero => rfl
  | succ n ih =>
      rw [bigEndian, bigEndian, ih (Nat.le_of_succ_le h)]
      congr 1
      have hpow : (256 : Int) ^ N * k = 256 ^ n * (256 * (256 ^ (N - n - 1) * k)) := by
        rw [← mul_assoc, ← mul_assoc, ← pow_succ, ← pow_add]
        congr 2
        omega
      rw [hpow, Int.add_mul_ediv_left _ _ (by positivity), ofInt_add_mul]

theorem ofBigEndian_lt (bs : List UInt8) : ofBigEndian bs < 256 ^ bs.length := by
  induction bs with
  | nil => exact Nat.one_pos
  | cons b bs ih =>
      have hb : b.toNat + 1 ≤ 256 := b.toNat_lt
      have hmul := Nat.mul_le_mul_right (256 ^ bs.length) hb
      rw [ofBigEndian, List.length_cons, Nat.pow_succ']
      rw [Nat.add_mul] at hmul
      omega

theorem ofBigEndian_bigEndian (n m : Nat) : ofBigEndian (bigEndian n (m : Int)) = m % 256 ^ n := by
  induction n with
  | zero => rw [bigEndian, ofBigEndian, pow_zero, Nat.mod_one]
  | succ n ih =>
      have hbyte : (UInt8.ofInt ((m : Int) / 256 ^ n)).toNat = m / 256 ^ n % 256 := by
        rw [← toNat_ofInt_natCast]
        norm_cast
      rw [bigEndian, ofBigEndian, ih, hbyte, length_bigEndian, Nat.mod_pow_succ]
      rw [Nat.mul_comm, Nat.add_comm]

theorem bigEndian_ofBigEndian (bs : List UInt8) :
    bigEndian bs.length (ofBigEndian bs : Int) = bs := by
  induction bs with
  | nil => rfl
  | cons b bs ih =>
      have hlt := ofBigEndian_lt bs
      have hval : ((ofBigEndian (b :: bs) : Nat) : Int) =
          (ofBigEndian bs : Int) + 256 ^ bs.length * (b.toNat : Int) := by
        rw [ofBigEndian]
        push_cast
        ring
      rw [List.length_cons, bigEndian, hval, bigEndian_add (Nat.le_refl _), ih]
      congr 1
      have hdiv : ((ofBigEndian bs : Int) + 256 ^ bs.length * (b.toNat : Int)) / 256 ^ bs.length =
          (b.toNat : Int) := by
        rw [Int.add_mul_ediv_left _ _ (by positivity), Int.ediv_eq_zero_of_lt (by positivity),
          Int.zero_add]
        exact_mod_cast hlt
      rw [hdiv]
      apply UInt8.toNat_inj.mp
      rw [toNat_ofInt_natCast]
      exact Nat.mod_eq_of_lt b.toNat_lt

/-- The signed and the unsigned reading of a machine word have the same bytes. -/
theorem bigEndian_toInt {n : Nat} (x : BitVec (8 * n)) :
    bigEndian n x.toInt = bigEndian n (x.toNat : Int) := by
  have hpow : ((2 ^ (8 * n) : Nat) : Int) = 256 ^ n := by
    rw [pow_mul]
    norm_num
  rw [BitVec.toInt_eq_toNat_cond, hpow]
  split
  · rfl
  · rw [show (x.toNat : Int) - 256 ^ n = x.toNat + 256 ^ n * (-1) by ring,
      bigEndian_add (Nat.le_refl n)]

end Ham.Lib
