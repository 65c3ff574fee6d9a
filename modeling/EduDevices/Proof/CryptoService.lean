import EduDevices.Construction.CryptoDriver
import EduDevices.Proof.AesChaining
import EduDevices.Proof.AesStandard

namespace EduDevices

namespace Aes

/-- The block cipher of the standard permutes the blocks under every key. -/
noncomputable def standardCipher (key : AesBlock) : Equiv.Perm AesBlock :=
  .ofBijective (fun block => stateOf.symm (Fips197.cipher (stateOf key) (stateOf block))) <| by
    have known : (fun block => stateOf.symm (Fips197.cipher (stateOf key) (stateOf block))) =
        aesEncryptBlock (aesKeyExpand key) := by
      funext block
      rw [← stateOf_aesEncryptBlock, Equiv.symm_apply_apply]
    rw [known]
    exact Function.bijective_iff_has_inverse.mpr ⟨aesDecryptBlock (aesKeyExpand key),
      aesDecryptBlock_aesEncryptBlock _, aesEncryptBlock_aesDecryptBlock _⟩

theorem aesEncryptBlock_eq_standardCipher (key : AesBlock) :
    aesEncryptBlock (aesKeyExpand key) = standardCipher key := by
  funext block
  rw [standardCipher, Equiv.ofBijective_apply, ← stateOf_aesEncryptBlock, Equiv.symm_apply_apply]

/-- The inverse block function inverts the cipher of the standard. -/
theorem aesDecryptBlock_eq_standardCipher (key : AesBlock) :
    aesDecryptBlock (aesKeyExpand key) = (standardCipher key).symm := by
  funext block
  rw [Equiv.eq_symm_apply, ← aesEncryptBlock_eq_standardCipher, aesEncryptBlock_aesDecryptBlock]

end Aes

/-- What the host makes of the engine: a keyed cipher in the chaining mode, whose initial block
stays until the host sets another one. -/
structure CipherService where
  key : Option Aes.AesBlock
  iv : Aes.AesBlock

namespace CipherService

/-- Only texts of whole blocks are transformed. -/
noncomputable def encrypt (service : CipherService) (plaintext : List Byte) : Option (List Byte) :=
  if plaintext.length % 16 = 0 then
    service.key.map fun key => Aes.bytesOf (Chaining.encrypt (Aes.standardCipher key) Aes.xorBlock
      service.iv (Aes.blocksOf (plaintext.length / 16) plaintext))
  else none

noncomputable def decrypt (service : CipherService) (ciphertext : List Byte) : Option (List Byte) :=
  if ciphertext.length % 16 = 0 then
    service.key.map fun key => Aes.bytesOf (Chaining.decrypt (Aes.standardCipher key).symm
      Aes.xorBlock service.iv (Aes.blocksOf (ciphertext.length / 16) ciphertext))
  else none

noncomputable def call (service : CipherService) : CryptoCall → CryptoReply × CipherService
  | .setKey key => (.set, { service with key })
  | .setIv iv => (.set, { service with iv })
  | .encrypt plaintext => (.text (service.encrypt plaintext), service)
  | .decrypt ciphertext => (.text (service.decrypt ciphertext), service)

end CipherService

/-- A text fits in the page that the host has for it, and a key is set before it is used. -/
def CryptoCall.Allowed (service : CipherService) : CryptoCall → Prop
  | .encrypt text | .decrypt text => text.length ≤ 4096 ∧ service.key ≠ none
  | _ => True

end EduDevices
