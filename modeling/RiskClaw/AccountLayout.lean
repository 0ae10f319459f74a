import RiskClaw.ThresholdPacking
import RiskClaw.RiskPolicyControl
import RiskClaw.SwigRateLimit
import RiskClaw.PolicyWrites

/-!
# Serialized accounts and their hand-written readers

The programs serialize an account as its discriminator and its fields in
declared order. The smoke script reads both accounts back by fixed offsets:
the ciphertext as a slice, the time of the last rebalance as a little-endian
`i64` turned into a JavaScript number. Composed with the packing of thresholds
the readers return what was written, for every reachable account.
-/

namespace RiskClaw.AccountLayout

open LittleEndian ThresholdPacking SolanaRuntime OnchainClient RiskPolicyProgram RiskPolicyControl
  PolicyWrites

/-- Borsh of an `i64`: two's complement, little-endian. -/
def borshI64 (n : Int64) : List UInt8 := toBytes 8 n.toUInt64.toNat

/-- Discriminator of a `RiskPolicy` account. -/
def riskPolicyDiscriminator : List UInt8 := [36, 66, 86, 72, 195, 245, 148, 55]

/-- Discriminator of a `LastRebalanced` account. -/
def lastRebalancedDiscriminator : List UInt8 := [100, 132, 246, 63, 85, 27, 102, 31]

/-- Data of a `RiskPolicy` account. -/
def policyData (p : RiskPolicy) : List UInt8 :=
  riskPolicyDiscriminator ++ p.owningMultisigVault.bytes.toList ++ p.ciphertextRef.toList ++
    p.arciumHandle.toList ++ p.policyHash.toList ++ borshI64 p.updatedAt ++
    borshI64 p.lastCheckAt ++ [p.bump]

/-- Data of a `LastRebalanced` account. -/
def lastRebalancedData (lr : SwigDelegation.LastRebalanced) : List UInt8 :=
  lastRebalancedDiscriminator ++ borshI64 lr.timestamp ++ [lr.bump]

/-- `bytes.slice(start, stop)` for `start ≤ stop`. -/
def slice (bytes : List UInt8) (start stop : ℕ) : List UInt8 :=
  (bytes.drop start).take (stop - start)

/-- The smoke script's reader of the stored ciphertext. -/
def onChainCiphertext (data : List UInt8) : List UInt8 := slice data (8 + 32) (8 + 32 + 64)

/-- `view.getBigInt64(0, true)` on a view of eight bytes. -/
def getBigInt64 (bytes : List UInt8) : ℤ := Int.bmod (ofBytes bytes) (2 ^ 64)

/-- The nearest integer to a quotient, to even on a tie. -/
def roundHalfEven (n d : ℕ) : ℕ :=
  if 2 * (n % d) < d ∨ (2 * (n % d) = d ∧ n / d % 2 = 0) then n / d else n / d + 1

/-- `Number(n)` for an `i64`: the nearest double, which has 53 significant bits. -/
def number (n : ℤ) : JsNumber :=
  let ulp := 2 ^ (n.natAbs.log2 - 52)
  .finite (n.sign * (roundHalfEven n.natAbs ulp * ulp : ℕ) : ℤ)

/-- The integer that `number` keeps of an integer. -/
def double (n : ℤ) : ℤ :=
  n.sign * (roundHalfEven n.natAbs (2 ^ (n.natAbs.log2 - 52)) * 2 ^ (n.natAbs.log2 - 52) : ℕ)

/-- `toNumber` of a `BN`, which throws from 2^53 on. -/
def toNumber (n : Int64) : Option ℤ := if n.toInt.natAbs < 2 ^ 53 then some n.toInt else none

/-- `n.toNumber() * 1000`. -/
def milliseconds (n : Int64) : Option ℤ := (toNumber n).map fun seconds => double (seconds * 1000)

/-- The latest second that a `Date` can hold. -/
def lastDate : ℤ := 8640000000000

/-- `new Date(n.toNumber() * 1000).toISOString()` does not throw. -/
def dated (n : Int64) : Bool :=
  (milliseconds n).any fun ms => decide (-(lastDate * 1000) ≤ ms ∧ ms ≤ lastDate * 1000)

/-- The smoke script's reader of the rebalance time; a view of eight bytes at
offset 8 cannot be made on shorter data. -/
def lastRebalancedTimestamp (data : List UInt8) : Option JsNumber :=
  if 8 + 8 ≤ data.length then some (number (getBigInt64 ((data.drop 8).take 8))) else none

/-- A slice between two parts is what stands between them. -/
theorem slice_append {before field : List UInt8} {start stop : ℕ}
    (hstart : before.length = start) (hstop : start + field.length = stop) (after : List UInt8) :
    slice (before ++ field ++ after) start stop = field := by
  subst hstart hstop
  rw [slice, List.append_assoc, List.drop_left, Nat.add_sub_cancel_left, List.take_left]

theorem borshI64_length (n : Int64) : (borshI64 n).length = 8 := toBytes_length _ _

/-- A serialized `i64` is read back. -/
theorem getBigInt64_borshI64 (n : Int64) : getBigInt64 (borshI64 n) = n.toInt := by
  have hlt : n.toUInt64.toNat < 256 ^ 8 := by
    have h := n.toUInt64.toNat_lt
    omega
  unfold getBigInt64 borshI64
  rw [ofBytes_toBytes_of_lt hlt, Int64.toInt, BitVec.toInt_eq_toNat_bmod]
  rfl

/-- Numbers below `2 ^ 53` are exact. -/
theorem number_of_lt {n : ℤ} (h : n.natAbs < 2 ^ 53) : number n = .finite n := by
  have hulp : n.natAbs.log2 - 52 = 0 := by
    have hlog : n.natAbs.log2 < 53 := by
      by_cases hzero : n.natAbs = 0
      · rw [hzero]
        decide
      · exact (Nat.log2_lt hzero).mpr h
    omega
  have hround : roundHalfEven n.natAbs 1 = n.natAbs := by
    simp [roundHalfEven, Nat.mod_one]
  have hvalue : n.sign * ((n.natAbs * 1 : ℕ) : ℤ) = n := by
    rw [Nat.mul_one, Int.sign_mul_natAbs]
  simp only [number, hulp, pow_zero, hround, hvalue]

theorem double_of_lt {n : ℤ} (h : n.natAbs < 2 ^ 53) : double n = n := by
  have hnumber : number n = .finite (double n) := rfl
  rw [number_of_lt h] at hnumber
  have hvalue : (n : ℚ) = double n := JsNumber.finite.inj hnumber
  exact (Int.cast_injective hvalue).symm

/-- Seconds that a date can hold are exact in milliseconds. -/
theorem milliseconds_of_le {n : Int64} (hlow : -lastDate ≤ n.toInt) (hhigh : n.toInt ≤ lastDate) :
    milliseconds n = some (n.toInt * 1000) := by
  unfold lastDate at hlow hhigh
  have hsafe : n.toInt.natAbs < 2 ^ 53 := by omega
  have hproduct : (n.toInt * 1000).natAbs < 2 ^ 53 := by omega
  rw [milliseconds, toNumber, if_pos hsafe, Option.map_some, double_of_lt hproduct]

theorem dated_of_le {n : Int64} (hlow : -lastDate ≤ n.toInt) (hhigh : n.toInt ≤ lastDate) :
    dated n = true := by
  rw [dated, milliseconds_of_le hlow hhigh]
  refine decide_eq_true ⟨?_, ?_⟩
  · omega
  · omega

theorem policyData_length (p : RiskPolicy) : (policyData p).length = 8 + 177 := by
  simp [policyData, riskPolicyDiscriminator, borshI64_length]

/-- The slice is the ciphertext field. -/
theorem onChainCiphertext_policyData (p : RiskPolicy) :
    onChainCiphertext (policyData p) = p.ciphertextRef.toList := by
  have hbefore :
      (riskPolicyDiscriminator ++ p.owningMultisigVault.bytes.toList).length = 8 + 32 := by
    simp [riskPolicyDiscriminator]
  have hfield : 8 + 32 + p.ciphertextRef.toList.length = 8 + 32 + 64 := by simp
  have h := slice_append hbefore hfield (p.arciumHandle.toList ++ p.policyHash.toList ++
    borshI64 p.updatedAt ++ borshI64 p.lastCheckAt ++ [p.bump])
  simpa only [onChainCiphertext, policyData, List.append_assoc] using h

/-- The reader of the rebalance time is exact below `2 ^ 53`. -/
theorem lastRebalancedTimestamp_data {lr : SwigDelegation.LastRebalanced}
    (h : lr.timestamp.toInt.natAbs < 2 ^ 53) :
    lastRebalancedTimestamp (lastRebalancedData lr) = some (.finite lr.timestamp.toInt) := by
  have hlen : 8 + 8 ≤ (lastRebalancedData lr).length := by
    simp [lastRebalancedData, lastRebalancedDiscriminator, borshI64_length]
  have hbefore : lastRebalancedDiscriminator.length = 8 := rfl
  have hstop : 8 + (borshI64 lr.timestamp).length = 16 := by rw [borshI64_length]
  have hfield : ((lastRebalancedData lr).drop 8).take 8 = borshI64 lr.timestamp :=
    slice_append hbefore hstop [lr.bump]
  rw [lastRebalancedTimestamp, if_pos hlen, hfield, getBigInt64_borshI64, number_of_lt h]

/-- What passes the client's checks is stored as it was submitted. -/
theorem setEncryptedPolicy_ciphertext {env : Environment} {client : RealClient}
    {ciphertext : List UInt8} {args : PolicyArgs}
    (h : setEncryptedPolicy env client ciphertext = .ok args) :
    args.ciphertextRef.toList = ciphertext := by
  unfold setEncryptedPolicy at h
  split_ifs at h with hready hlen
  · cases h
    rfl

/-- The account of a vault holds the bytes of the last accepted attempt. -/
theorem account_of_lastAccepted {pda : PdaScheme} {attempts : List Attempt} {vault : Pubkey}
    {a : Attempt} (h : lastAccepted vault (historyOf pda attempts) = some a) :
    accountsAfter pda attempts (pda.address vault) =
      some (stored pda vault a.args a.unixTimestamp) := by
  refine (represents_run pda attempts _ _).mpr ⟨vault, write a, ?_, rfl, rfl⟩
  rw [bookOf, h]
  rfl

theorem policyAttempt_args (pda : PdaScheme) (client : RealClient) (multisig : Pubkey)
    (existed : Bool) (args : PolicyArgs) (clock : Int64) :
    (policyAttempt pda client multisig existed args clock).args = args := by
  cases existed <;> rfl

/-- As long as an accepted submission of a packed threshold is the last one of
its vault, the account data has its declared length, its slice is the submitted
ciphertext, which decodes to the threshold and carries the tag; and the time of
every reachable rebalance anchor below `2 ^ 53` is read back. -/
theorem accounts_read_back (pda anchorPda : PdaScheme) (env : Environment) (client : RealClient)
    (attempts : List Attempt) (multisig : Pubkey) (existed : Bool) (args : PolicyArgs)
    (clock : Int64) (t : UInt64)
    (hargs : setEncryptedPolicy env client (encryptThreshold t.toNat) = .ok args)
    (hlast : lastAccepted multisig (historyOf pda attempts) =
      some (policyAttempt pda client multisig existed args clock)) :
    (∃ p, accountsAfter pda attempts (pda.address multisig) = some p ∧
      (policyData p).length = 8 + 177 ∧
      onChainCiphertext (policyData p) = encryptThreshold t.toNat ∧
      testDecryptPlaceholder (onChainCiphertext (policyData p)) = .ok t.toNat ∧
      slice (onChainCiphertext (policyData p)) 48 64 = tag) ∧
    ∀ calls address lr, SwigRateLimit.accountsAfter anchorPda calls address = some lr →
      lr.timestamp.toInt.natAbs < 2 ^ 53 →
      lastRebalancedTimestamp (lastRebalancedData lr) = some (.finite lr.timestamp.toInt) := by
  refine ⟨?_, fun calls address lr _ hlr => lastRebalancedTimestamp_data hlr⟩
  have hslice : ∀ p : RiskPolicy, p.ciphertextRef = args.ciphertextRef →
      onChainCiphertext (policyData p) = encryptThreshold t.toNat := by
    intro p hp
    rw [onChainCiphertext_policyData, hp, setEncryptedPolicy_ciphertext hargs]
  have hkept : (t.toNat : ℤ) % 2 ^ 64 = t.toNat := by
    have h := t.toNat_lt
    omega
  have hstored := account_of_lastAccepted hlast
  rw [policyAttempt_args] at hstored
  refine ⟨_, hstored, policyData_length _, hslice _ rfl, ?_, ?_⟩
  · rw [hslice _ rfl, decrypt_encrypt, hkept]
  · rw [hslice _ rfl]
    exact encryptThreshold_tag _

/-- The byte pair of the operator's threshold `9000`. -/
def demoThreshold : PolicyArgs :=
  ⟨⟨(encryptThreshold 9000).toArray, by decide⟩, .replicate 32 0⟩

/-- The operator's first write of that threshold. -/
def demoWrite : Attempt :=
  policyAttempt DevnetConfig.policyPda operatorClient DevnetConfig.operatorWallet false
    demoThreshold 100

/-- The operator's threshold is read back from its account, and the time of the
guardian's first rebalance from the anchor. -/
theorem accounts_read_back_demo :
    (∃ p, accountsAfter DevnetConfig.policyPda [demoWrite]
        (DevnetConfig.policyPda.address DevnetConfig.operatorWallet) = some p ∧
      testDecryptPlaceholder (onChainCiphertext (policyData p)) = .ok 9000) ∧
    lastRebalancedTimestamp (lastRebalancedData ⟨100, 254⟩) = some (.finite 100) := by
  have h := accounts_read_back DevnetConfig.policyPda DevnetConfig.lastRebalancedPda devnet
    operatorClient [demoWrite] DevnetConfig.operatorWallet false demoThreshold 100 9000 rfl rfl
  obtain ⟨⟨p, hp, -, -, hthreshold, -⟩, hanchor⟩ := h
  exact ⟨⟨p, hp, hthreshold⟩, hanchor
    [SwigRateLimit.demoCall 100 DevnetConfig.guardianAgent 5000] DevnetConfig.operatorAnchor
    ⟨100, 254⟩ (by decide) (by decide)⟩

end RiskClaw.AccountLayout
