import RiskClaw.LittleEndian
import Mathlib.Data.Int.ModEq

/-!
# The placeholder packing of a threshold

`encryptThreshold` of the onchain package puts the plain threshold into a
64-byte array, little-endian, and marks the array by a tag. The threshold is a
`bigint` and the store takes it modulo `2 ^ 64`, so the packing keeps exactly
the thresholds of the u64 range; it refuses none. The cluster key that the
function is passed is not read in this version.
-/

namespace RiskClaw.ThresholdPacking

open LittleEndian

/-- `bytes.set(source, offset)` for a source that fits. -/
def set (bytes source : List UInt8) (offset : ℕ) : List UInt8 :=
  bytes.take offset ++ source ++ bytes.drop (offset + source.length)

/-- `view.setBigUint64(offset, value, true)`: the value is stored modulo `2 ^ 64`. -/
def setBigUint64 (bytes : List UInt8) (offset : ℕ) (value : ℤ) : List UInt8 :=
  set bytes (toBytes 8 (value % 2 ^ 64).toNat) offset

/-- `view.getBigUint64(offset, true)` inside the view. -/
def getBigUint64 (bytes : List UInt8) (offset : ℕ) : ℤ :=
  (ofBytes ((bytes.drop offset).take 8) : ℕ)

/-- The structural tag, as the text encoder gives it. -/
def tag : List UInt8 := "RISKCLAW_V1_STUB".toUTF8.data.toList

/-- `encryptThreshold`, which resolves for every `bigint`. -/
def encryptThreshold (plaintext : ℤ) : List UInt8 :=
  let out := List.replicate 64 0
  let out := setBigUint64 out 0 plaintext
  set out tag 48

/-- `_testDecryptPlaceholder`, with the text of its error. -/
def testDecryptPlaceholder (ciphertext : List UInt8) : Except String ℤ :=
  if ciphertext.length ≠ 64 then
    .error ("expected 64-byte ciphertext, got " ++ toString ciphertext.length)
  else .ok (getBigUint64 ciphertext 0)

theorem tag_length : tag.length = 16 := by decide

/-- The source replaces as many bytes as it has, from the offset on. -/
theorem set_append (before old after : List UInt8) {source : List UInt8}
    (h : source.length = old.length) :
    set (before ++ old ++ after) source before.length = before ++ source ++ after := by
  have hdrop : (before ++ old ++ after).drop (before.length + source.length) = after := by
    rw [h, ← List.length_append, List.drop_left]
  rw [set, hdrop, List.append_assoc before old, List.take_left]

/-- The packed array: threshold, zeroes, tag. -/
theorem encryptThreshold_eq (p : ℤ) :
    encryptThreshold p = toBytes 8 (p % 2 ^ 64).toNat ++ List.replicate 40 0 ++ tag := by
  have hview : setBigUint64 (List.replicate 64 0) 0 p =
      toBytes 8 (p % 2 ^ 64).toNat ++ List.replicate 40 0 ++ List.replicate 16 0 := by
    have h := set_append [] (List.replicate 8 0) (List.replicate 56 0)
      (toBytes_length 8 (p % 2 ^ 64).toNat)
    rw [List.append_assoc]
    exact h
  have hlen : (toBytes 8 (p % 2 ^ 64).toNat ++ List.replicate 40 0).length = 48 := by
    rw [List.length_append, toBytes_length, List.length_replicate]
  have h := set_append (toBytes 8 (p % 2 ^ 64).toNat ++ List.replicate 40 0)
    (List.replicate 16 0) [] tag_length
  rw [hlen, List.append_nil, List.append_nil] at h
  rw [encryptThreshold, hview, h]

theorem encryptThreshold_length (p : ℤ) : (encryptThreshold p).length = 64 := by
  simp [encryptThreshold_eq, tag_length]

/-- The tag stands at the end of every packed array. -/
theorem encryptThreshold_tag (p : ℤ) : ((encryptThreshold p).drop 48).take 16 = tag := by
  rw [encryptThreshold_eq, List.drop_append, List.take_of_length_le] <;> simp [tag_length]

/-- Decoding gives the threshold modulo `2 ^ 64`. -/
theorem decrypt_encrypt (p : ℤ) :
    testDecryptPlaceholder (encryptThreshold p) = .ok (p % 2 ^ 64) := by
  have hpos : 0 ≤ p % 2 ^ 64 := Int.emod_nonneg _ (by decide)
  have hlt : (p % 2 ^ 64).toNat < 256 ^ 8 := by
    have := Int.emod_lt_of_pos p (b := 2 ^ 64) (by decide)
    omega
  have hread : ((encryptThreshold p).drop 0).take 8 = toBytes 8 (p % 2 ^ 64).toNat := by
    rw [encryptThreshold_eq, List.drop_zero, List.append_assoc]
    exact List.take_left' (toBytes_length _ _)
  rw [testDecryptPlaceholder, if_neg (not_not.mpr (encryptThreshold_length p)), getBigUint64,
    hread, ofBytes_toBytes_of_lt hlt, Int.toNat_of_nonneg hpos]

/-- Two thresholds have one ciphertext exactly when they agree modulo `2 ^ 64`. -/
theorem encryptThreshold_inj {p q : ℤ} :
    encryptThreshold p = encryptThreshold q ↔ p % 2 ^ 64 = q % 2 ^ 64 := by
  constructor
  · intro h
    have hd := (decrypt_encrypt p).symm.trans ((congrArg _ h).trans (decrypt_encrypt q))
    exact Except.ok.inj hd
  · intro h
    rw [encryptThreshold_eq, h, encryptThreshold_eq]

/-- The packing keeps a threshold: the array has its size and decodes to it. -/
def Kept (p : ℤ) : Prop :=
  (encryptThreshold p).length = 64 ∧ testDecryptPlaceholder (encryptThreshold p) = .ok p

/-- Exactly the thresholds of the u64 range are kept, and exactly those that
differ by a multiple of `2 ^ 64` share a ciphertext. -/
theorem threshold_kept_iff (p : ℤ) :
    (Kept p ↔ 0 ≤ p ∧ p < 2 ^ 64) ∧
    ∀ q, encryptThreshold p = encryptThreshold q ↔ p % 2 ^ 64 = q % 2 ^ 64 := by
  refine ⟨?_, fun q => encryptThreshold_inj⟩
  have hkept : Kept p ↔ p % 2 ^ 64 = p := by
    unfold Kept
    rw [decrypt_encrypt, Except.ok.injEq]
    exact and_iff_right (encryptThreshold_length p)
  rw [hkept]
  omega

/-- The thresholds `2 ^ 64` and `-1` are packed like `0` and like the largest
threshold of the range. -/
theorem threshold_wraps :
    ¬Kept (2 ^ 64) ∧ ¬Kept (-1) ∧
    encryptThreshold (2 ^ 64) = encryptThreshold 0 ∧
    testDecryptPlaceholder (encryptThreshold (2 ^ 64)) = .ok 0 ∧
    testDecryptPlaceholder (encryptThreshold (-1)) = .ok (2 ^ 64 - 1) := by
  have hzero := decrypt_encrypt (2 ^ 64)
  have hlast := decrypt_encrypt (-1)
  refine ⟨fun h => ?_, fun h => ?_, encryptThreshold_inj.mpr (by decide), hzero, hlast⟩
  · exact absurd (Except.ok.inj (hzero.symm.trans h.2)) (by decide)
  · exact absurd (Except.ok.inj (hlast.symm.trans h.2)) (by decide)

end RiskClaw.ThresholdPacking
