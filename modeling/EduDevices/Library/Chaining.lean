import Mathlib.Data.List.Basic

namespace EduDevices.Chaining

variable {Block : Type*}

/-- Encryption mixes each block with the block that was written before it. -/
def encrypt (cipher : Block → Block) (mix : Block → Block → Block) :
    Block → List Block → List Block
  | _, [] => []
  | previous, block :: rest =>
      let written := cipher (mix block previous)
      written :: encrypt cipher mix written rest

/-- Decryption mixes each deciphered block with the block that was read before it. -/
def decrypt (decipher : Block → Block) (mix : Block → Block → Block) :
    Block → List Block → List Block
  | _, [] => []
  | previous, block :: rest =>
      mix (decipher block) previous :: decrypt decipher mix block rest

variable (cipher decipher : Block → Block) (mix : Block → Block → Block)

@[simp] theorem length_encrypt (previous : Block) (blocks : List Block) :
    (encrypt cipher mix previous blocks).length = blocks.length := by
  induction blocks generalizing previous with
  | nil => rfl
  | cons block rest ih => simp [encrypt, ih]

@[simp] theorem length_decrypt (previous : Block) (blocks : List Block) :
    (decrypt decipher mix previous blocks).length = blocks.length := by
  induction blocks generalizing previous with
  | nil => rfl
  | cons block rest ih => simp [decrypt, ih]

/-- The second part continues from the last block that the first part wrote. -/
theorem encrypt_append (previous : Block) (first second : List Block) :
    encrypt cipher mix previous (first ++ second) =
      encrypt cipher mix previous first ++
        encrypt cipher mix ((encrypt cipher mix previous first).getLastD previous) second := by
  induction first generalizing previous with
  | nil => rfl
  | cons block rest ih =>
      simp only [List.cons_append, encrypt, ih, List.getLastD_cons]

/-- The second part continues from the last block that the first part read. -/
theorem decrypt_append (previous : Block) (first second : List Block) :
    decrypt decipher mix previous (first ++ second) =
      decrypt decipher mix previous first ++
        decrypt decipher mix (first.getLastD previous) second := by
  induction first generalizing previous with
  | nil => rfl
  | cons block rest ih =>
      simp only [List.cons_append, decrypt, ih, List.getLastD_cons]

section

variable (cancels : ∀ first second, mix (mix first second) second = first)
include cancels

theorem decrypt_encrypt (inverts : ∀ block, decipher (cipher block) = block)
    (previous : Block) (blocks : List Block) :
    decrypt decipher mix previous (encrypt cipher mix previous blocks) = blocks := by
  induction blocks generalizing previous with
  | nil => rfl
  | cons block rest ih => simp only [encrypt, decrypt, inverts, cancels, ih]

theorem encrypt_decrypt (inverts : ∀ block, cipher (decipher block) = block)
    (previous : Block) (blocks : List Block) :
    encrypt cipher mix previous (decrypt decipher mix previous blocks) = blocks := by
  induction blocks generalizing previous with
  | nil => rfl
  | cons block rest ih => simp only [encrypt, decrypt, cancels, inverts, ih]

end

end EduDevices.Chaining
