import RiskClaw.Base58
import RiskClaw.SolanaRuntime
import RiskClaw.AgentRegistration

/-!
# Texts of keys

The scripts, the client and the pages pass keys on as texts. What they rely on is
that web3.js reads the text of a key as this key, which base58 makes good.
-/

namespace RiskClaw.KeyTexts

open SolanaRuntime AgentRegistration

/-- The texts of keys in web3.js. -/
structure PubkeyTexts where
  /-- `toBase58`. -/
  toBase58 : Pubkey → Address
  /-- `new PublicKey(text)`, or the text of its exception. -/
  publicKey : String → Except String Pubkey
  /-- The text of a key is read as this key. -/
  publicKey_toBase58 : ∀ key, publicKey (toBase58 key).text = .ok key

theorem PubkeyTexts.toBase58_injective (keys : PubkeyTexts) : Function.Injective keys.toBase58 := by
  intro a b h
  have ha := keys.publicKey_toBase58 a
  rw [h, keys.publicKey_toBase58 b] at ha
  exact (Except.ok.inj ha).symm

/-- The texts of keys in base58. -/
def base58Texts : PubkeyTexts where
  toBase58 key :=
    ⟨String.ofList (Base58.encode key.bytes.toList), fun c hc => by
      rw [String.toList_ofList] at hc
      exact Base58.encode_mem _ c hc⟩
  publicKey text :=
    match Base58.decode text.toList with
    | none => .error "Error: Non-base58 character"
    | some bytes =>
      if h : bytes.toArray.size = 32 then .ok ⟨⟨bytes.toArray, h⟩⟩
      else .error "Error: Invalid public key input"
  publicKey_toBase58 key := by
    have hsize : key.bytes.toList.toArray.size = 32 := by simp
    rw [String.toList_ofList, Base58.decode_encode]
    dsimp only
    rw [dif_pos hsize]
    rfl

end RiskClaw.KeyTexts
