import EduDevices.Proof.CryptoDriver

namespace EduDevices

open Refinement

/-- A message of whole blocks is encrypted to as many bytes, which decrypt to it again. -/
theorem CipherService.decrypt_encrypt {service : CipherService} (set : service.key ≠ none)
    {message : List Byte} (whole : message.length % 16 = 0) :
    ∃ ciphertext, service.encrypt message = some ciphertext ∧
      ciphertext.length = message.length ∧ service.decrypt ciphertext = some message := by
  obtain ⟨key, known⟩ := Option.ne_none_iff_exists'.mp set
  let count := message.length / 16
  let cipher := Aes.standardCipher key
  let written := Chaining.encrypt cipher Aes.xorBlock service.iv (Aes.blocksOf count message)
  have counted : message.length = count * 16 := by omega
  have blocks : written.length = count := by
    rw [Chaining.length_encrypt, Aes.length_blocksOf]
  have length : (Aes.bytesOf written).length = message.length := by
    rw [Aes.length_bytesOf, blocks, counted]
  have cut : Aes.blocksOf count (Aes.bytesOf written) = written := by
    conv_lhs => rw [← blocks]
    exact Aes.blocksOf_bytesOf written
  refine ⟨Aes.bytesOf written, ?_, length, ?_⟩
  · rw [encrypt, if_pos whole, known]
    rfl
  · have undone : Chaining.decrypt cipher.symm Aes.xorBlock service.iv written =
        Aes.blocksOf count message :=
      Chaining.decrypt_encrypt _ _ _ Aes.xorBlock_xorBlock cipher.symm_apply_apply _ _
    rw [decrypt, length, if_pos whole, known, cut]
    show some (Aes.bytesOf (Chaining.decrypt cipher.symm Aes.xorBlock service.iv written)) = _
    rw [undone, Aes.bytesOf_blocksOf count message counted]

section Session

variable (dma : Dma DmaDescriptor) (mapped : Mapped dma srcIova (2 * pageSize))
  (dev : CryptoDevice) (idle : dev.device.cryptoBusy = 0)
  (notifies : dev.device.parentObj.msixEnabled = true) (vector : dev.events.vector = 2)
  (drained : dev.events.Drained dev.guest)

include idle notifies vector drained

/-- An idle engine, of which no key is known, holds an initial block. -/
theorem keyed_idle : Keyed dev ⟨none, dev.device.cryptoIv⟩ :=
  ⟨⟨idle, notifies, vector, drained⟩, rfl, fun _ missing => nomatch missing⟩

include mapped

/-- A driver that makes any calls, and sets a key before it uses one, gets the answers of the
standard cipher in its chaining mode. -/
theorem cryptoDriver_serves (calls : List CryptoCall)
    (allowed : Guarded CryptoCall.Allowed CipherService.call ⟨none, dev.device.cryptoIv⟩ calls) :
    ∃ final, serve (CryptoDevice.call dma) dev calls =
        .ok ((perform CipherService.call ⟨none, dev.device.cryptoIv⟩ calls).1, final) ∧
      Keyed final (perform CipherService.call ⟨none, dev.device.cryptoIv⟩ calls).2 :=
  (cryptoDriver_refines mapped).serve (keyed_idle dev idle notifies vector drained) allowed

/-- What the driver encrypts, it decrypts again when it sets the key and the initial block as they
were, whatever calls come before and in between. -/
theorem cryptoDriver_decrypts (before between : List CryptoCall) (key iv : Aes.AesBlock)
    (message : List Byte) (whole : message.length % 16 = 0) (fits : message.length ≤ 4096)
    (allowed : Guarded CryptoCall.Allowed CipherService.call ⟨none, dev.device.cryptoIv⟩ before)
    (later : Guarded CryptoCall.Allowed CipherService.call ⟨some key, iv⟩ between) :
    ∃ replies ciphertext middle others final,
      serve (CryptoDevice.call dma) dev (before ++ [.setKey key, .setIv iv, .encrypt message]) =
          .ok (replies ++ [.text (some ciphertext)], middle) ∧
        serve (CryptoDevice.call dma) middle
            (between ++ [.setKey key, .setIv iv, .decrypt ciphertext]) =
          .ok (others ++ [.text (some message)], final) := by
  have set : (CipherService.mk (some key) iv).key ≠ none := Option.some_ne_none key
  obtain ⟨ciphertext, encrypted, length, decrypted⟩ := CipherService.decrypt_encrypt set whole
  have sending : Guarded CryptoCall.Allowed CipherService.call ⟨none, dev.device.cryptoIv⟩
      (before ++ [.setKey key, .setIv iv, .encrypt message]) :=
    guarded_append.mpr ⟨allowed, trivial, trivial, ⟨fits, set⟩, trivial⟩
  have receiving : Guarded CryptoCall.Allowed CipherService.call ⟨some key, iv⟩
      (between ++ [.setKey key, .setIv iv, .decrypt ciphertext]) :=
    guarded_append.mpr ⟨later, trivial, trivial, ⟨length.trans_le fits, set⟩, trivial⟩
  obtain ⟨middle, sent, still⟩ := (cryptoDriver_refines mapped).serve
    (keyed_idle dev idle notifies vector drained) sending
  rw [perform_append] at sent still
  obtain ⟨final, received, -⟩ := (cryptoDriver_refines mapped).serve still receiving
  rw [perform_append] at received
  simp only [perform_cons, perform_nil, CipherService.call, encrypted] at sent
  simp only [perform_cons, perform_nil, CipherService.call, decrypted] at received
  let replies := (perform CipherService.call ⟨none, dev.device.cryptoIv⟩ before).1
  let others := (perform CipherService.call ⟨some key, iv⟩ between).1
  refine ⟨replies ++ [.set, .set], ciphertext, middle, others ++ [.set, .set], final,
    sent.trans ?_, received.trans ?_⟩
  · rw [List.append_assoc]
    rfl
  · rw [List.append_assoc]
    rfl

end Session

/-- The text of five bytes is not taken, and the initial block holds until it is set again. -/
theorem cryptoDriver_serves_ragged :
    let dma : Dma DmaDescriptor := DmaPattern.reliable.dma fun _ _ => 0
    let dev : CryptoDevice := ⟨.zeroed ⟨true⟩, ⟨fun _ => 0, []⟩, ⟨2, 0⟩⟩
    let calls : List CryptoCall := [.setKey (Vector.replicate 16 7), .encrypt (List.replicate 32 1),
      .encrypt [1, 2, 3, 4, 5], .setIv (Vector.replicate 16 9), .decrypt (List.replicate 16 2)]
    ∃ final, serve (CryptoDevice.call dma) dev calls =
        .ok ((perform CipherService.call ⟨none, dev.device.cryptoIv⟩ calls).1, final) ∧
      Keyed final (perform CipherService.call ⟨none, dev.device.cryptoIv⟩ calls).2 := by
  intro dma dev calls
  refine cryptoDriver_serves dma (mapped_reliable _ _ _) dev rfl rfl rfl
    (EventFd.drained_read 2 dev.guest) calls ?_
  refine ⟨trivial, ⟨by decide, ?_⟩, ⟨by decide, ?_⟩, trivial, ⟨by decide, ?_⟩, trivial⟩ <;>
    exact Option.some_ne_none _

/-- A refused text in between does not disturb the exchange. -/
theorem cryptoDriver_decrypts_refused :
    let dma : Dma DmaDescriptor := DmaPattern.reliable.dma fun _ _ => 0
    let dev : CryptoDevice := ⟨.zeroed ⟨true⟩, ⟨fun _ => 0, []⟩, ⟨2, 0⟩⟩
    let key : Aes.AesBlock := Vector.replicate 16 7
    let iv : Aes.AesBlock := Vector.replicate 16 9
    ∃ replies ciphertext middle others final,
      serve (CryptoDevice.call dma) dev
          ([] ++ [.setKey key, .setIv iv, .encrypt (List.replicate 48 3)]) =
          .ok (replies ++ [.text (some ciphertext)], middle) ∧
        serve (CryptoDevice.call dma) middle
            ([.decrypt [1, 2], .setKey iv] ++ [.setKey key, .setIv iv, .decrypt ciphertext]) =
          .ok (others ++ [.text (some (List.replicate 48 3))], final) := by
  intro dma dev key iv
  refine cryptoDriver_decrypts dma (mapped_reliable _ _ _) dev rfl rfl rfl
    (EventFd.drained_read 2 dev.guest) [] _ key iv _
    (by decide) (by decide) trivial ⟨⟨by decide, ?_⟩, trivial, trivial⟩
  exact Option.some_ne_none _

end EduDevices
