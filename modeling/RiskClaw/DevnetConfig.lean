import RiskClaw.SolanaRuntime

/-!
# Addresses recorded for the devnet deployment

The shared devnet configuration and the recorded demo run name the operator's
wallet, its policy account and the agents' keys. They are kept as raw bytes,
with the two program-derived addresses that belong to them.
-/

namespace RiskClaw.DevnetConfig

open SolanaRuntime

/-- `FNThNjwxtdVSttM1Q9R81pKbiSF7jCzt8vE22A4PHrzN`. -/
def riskPolicyProgramId : Pubkey := ⟨#v[
  213, 130, 255, 213, 206, 231, 193, 25, 129, 21, 123, 64, 133, 135, 120, 47, 24, 240, 188,
  174, 98, 150, 157, 86, 204, 146, 76, 218, 28, 203, 37, 99]⟩

/-- `9ECtiz1EnfKnVDYFKn4GofXGeoCZHupqN2GPkcgL9zBo`. -/
def swigDelegationProgramId : Pubkey := ⟨#v[
  122, 63, 125, 244, 245, 186, 33, 104, 190, 75, 143, 196, 232, 129, 77, 12, 180, 204, 1, 77,
  204, 240, 190, 18, 127, 2, 107, 157, 38, 49, 234, 134]⟩

/-- The operator's wallet `Fzfjam6sgSjRSPNAZPZCpfwmRyAKvwSgZMvzLqcmsNnP`, which
signs as the vault of the demo policy. -/
def operatorWallet : Pubkey := ⟨#v[
  222, 201, 133, 27, 215, 4, 101, 93, 112, 18, 37, 120, 152, 41, 111, 249, 113, 193, 237, 43,
  72, 59, 44, 137, 208, 254, 164, 243, 63, 246, 220, 44]⟩

/-- The demo policy account `DpKAer9JUmzMfyJ3G3k3M7xGHp3WnGrg5Ppv1Uy5a1jB`. -/
def operatorPolicy : Pubkey := ⟨#v[
  190, 107, 20, 252, 211, 189, 45, 192, 225, 141, 152, 46, 190, 8, 2, 80, 164, 68, 195, 185,
  58, 56, 133, 22, 132, 28, 174, 14, 206, 163, 131, 182]⟩

/-- The rate-limit anchor of the demo policy, derived from its key. -/
def operatorAnchor : Pubkey := ⟨#v[
  142, 180, 33, 86, 41, 87, 52, 41, 120, 147, 153, 251, 163, 163, 142, 153, 75, 20, 245, 228,
  95, 125, 201, 139, 209, 141, 189, 29, 116, 195, 213, 251]⟩

/-- Signer of the execute zone, `Ajeq8tVnK9CDJGagRnV2LWghduSYaeFpevpu7VoMBHpW`. -/
def guardianAgent : Pubkey := ⟨#v[
  144, 166, 89, 203, 65, 31, 221, 253, 64, 213, 238, 120, 167, 80, 244, 51, 38, 146, 91, 7,
  129, 124, 34, 233, 175, 68, 89, 89, 49, 130, 62, 147]⟩

/-- Signer of the read zone, `EsRmSkrcjfoqEzgh4Wzbo56KqymTZ2NMMy1kxJtHHFRR`. -/
def observerAgent : Pubkey := ⟨#v[
  206, 18, 249, 75, 242, 130, 103, 155, 133, 53, 188, 33, 76, 106, 46, 247, 96, 112, 194, 46,
  2, 222, 242, 52, 236, 234, 133, 33, 116, 119, 182, 160]⟩

/-- Derivation under `("policy", vault)` as recorded for the operator. -/
def policyPda : PdaScheme := .ofDerivation operatorWallet operatorPolicy 254

/-- Derivation under `("last_rebalanced", policy)` as recorded for the operator. -/
def lastRebalancedPda : PdaScheme := .ofDerivation operatorPolicy operatorAnchor 254

end RiskClaw.DevnetConfig
