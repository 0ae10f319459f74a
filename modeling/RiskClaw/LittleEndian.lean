import Mathlib.Data.Nat.ModEq
import Mathlib.Tactic.Ring

/-!
# Little-endian bytes of numbers

A number is cut into a fixed count of bytes, the lowest first, and read back.
What does not fit is dropped, so the round trip holds modulo the range of the
bytes.
-/

namespace RiskClaw.LittleEndian

/-- The `k` lowest bytes of a number, lowest first. -/
def toBytes : ℕ → ℕ → List UInt8
  | 0, _ => []
  | k + 1, n => UInt8.ofNat (n % 256) :: toBytes k (n / 256)

/-- The number with the given bytes. -/
def ofBytes : List UInt8 → ℕ
  | [] => 0
  | b :: bytes => b.toNat + 256 * ofBytes bytes

@[simp] theorem toBytes_length (k n : ℕ) : (toBytes k n).length = k := by
  induction k generalizing n with
  | zero => rfl
  | succ k ih => rw [toBytes, List.length_cons, ih]

theorem ofBytes_toBytes (k n : ℕ) : ofBytes (toBytes k n) = n % 256 ^ k := by
  induction k generalizing n with
  | zero =>
    rw [pow_zero, Nat.mod_one]
    rfl
  | succ k ih =>
    have hbyte : (UInt8.ofNat (n % 256)).toNat = n % 256 := by
      rw [UInt8.toNat_ofNat']
      omega
    rw [toBytes, ofBytes, hbyte, ih, pow_succ', Nat.mod_mul]

/-- A number that fits is read back. -/
theorem ofBytes_toBytes_of_lt {k n : ℕ} (h : n < 256 ^ k) : ofBytes (toBytes k n) = n := by
  rw [ofBytes_toBytes, Nat.mod_eq_of_lt h]

/-- Bytes are a number in their range. -/
theorem ofBytes_lt {k : ℕ} {bytes : List UInt8} (h : bytes.length = k) :
    ofBytes bytes < 256 ^ k := by
  induction bytes generalizing k with
  | nil =>
    subst h
    exact Nat.one_pos
  | cons b bytes ih =>
    subst h
    have hrest := ih rfl
    have hbyte := b.toNat_lt
    rw [ofBytes, List.length_cons, pow_succ']
    omega

/-- Bytes are those of their number. -/
theorem toBytes_ofBytes {k : ℕ} {bytes : List UInt8} (h : bytes.length = k) :
    toBytes k (ofBytes bytes) = bytes := by
  induction bytes generalizing k with
  | nil =>
    subst h
    rfl
  | cons b bytes ih =>
    subst h
    have hbyte : (b.toNat + 256 * ofBytes bytes) % 256 = b.toNat := by
      have := b.toNat_lt
      omega
    have hrest : (b.toNat + 256 * ofBytes bytes) / 256 = ofBytes bytes := by
      have := b.toNat_lt
      omega
    rw [List.length_cons, toBytes, ofBytes, hbyte, hrest, ih rfl, UInt8.ofNat_toNat]

end RiskClaw.LittleEndian
