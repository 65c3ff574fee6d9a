import EduDevices.Proof.AesInverse

namespace EduDevices.Aes

/-- The first blocks of a buffer. -/
def blocksOf (count : Nat) (buffer : List Byte) : List AesBlock :=
  (List.range count).map fun index => blockAt buffer (index * 16)

/-- The bytes of blocks that stand one after the other. -/
def bytesOf (blocks : List AesBlock) : List Byte := blocks.flatMap Vector.toList

@[simp] theorem length_blocksOf (count : Nat) (buffer : List Byte) :
    (blocksOf count buffer).length = count := by
  simp [blocksOf]

theorem blocksOf_succ (count : Nat) (buffer : List Byte) :
    blocksOf (count + 1) buffer = blocksOf count buffer ++ [blockAt buffer (count * 16)] := by
  simp [blocksOf, List.range_succ]

theorem bytesOf_cons (block : AesBlock) (rest : List AesBlock) :
    bytesOf (block :: rest) = block.toList ++ bytesOf rest := rfl

theorem bytesOf_append (first second : List AesBlock) :
    bytesOf (first ++ second) = bytesOf first ++ bytesOf second := by
  simp [bytesOf]

@[simp] theorem length_bytesOf (blocks : List AesBlock) :
    (bytesOf blocks).length = blocks.length * 16 := by
  induction blocks with
  | nil => rfl
  | cons block rest ih =>
      rw [bytesOf_cons, List.length_append, ih, Vector.length_toList, List.length_cons]
      omega

/-- A block at the start of a buffer is its first sixteen bytes. -/
theorem blockAt_toList_append (block : AesBlock) (rest : List Byte) :
    blockAt (block.toList ++ rest) 0 = block := by
  apply Vector.ext
  intro j inside
  have valid : j < block.toList.length := by simpa using inside
  simp [blockAt, List.getElem?_append_left valid, inside]

/-- A block of the rest of a buffer stands sixteen bytes later in the buffer. -/
theorem blockAt_append_add (block : AesBlock) (rest : List Byte) (i : Nat) :
    blockAt (block.toList ++ rest) (16 + i) = blockAt rest i := by
  apply Vector.ext
  intro j inside
  have later : block.toList.length ≤ 16 + i + j := by simp; omega
  have offset : 16 + i + j - block.toList.length = i + j := by simp; omega
  simp only [blockAt, Vector.getElem_ofFn, List.getD_eq_getElem?_getD,
    List.getElem?_append_right later, offset]

/-- Cutting the bytes of blocks into blocks gives the blocks back. -/
theorem blocksOf_bytesOf (blocks : List AesBlock) :
    blocksOf blocks.length (bytesOf blocks) = blocks := by
  induction blocks with
  | nil => rfl
  | cons block rest ih =>
      rw [bytesOf_cons, blocksOf, List.length_cons, List.range_succ_eq_map, List.map_cons,
        List.map_map, Nat.zero_mul, blockAt_toList_append]
      have shifted : (fun index => blockAt (block.toList ++ bytesOf rest) (index * 16)) ∘ Nat.succ =
          fun index => blockAt (bytesOf rest) (index * 16) := by
        funext index
        rw [Function.comp_apply, Nat.succ_mul, Nat.add_comm, blockAt_append_add]
      rw [shifted]
      exact congrArg (block :: ·) ih

/-- The bytes of the blocks of a whole number of blocks are the buffer. -/
theorem bytesOf_blocksOf (count : Nat) (buffer : List Byte)
    (whole : buffer.length = count * 16) : bytesOf (blocksOf count buffer) = buffer := by
  induction count generalizing buffer with
  | zero => exact (List.eq_nil_of_length_eq_zero (whole.trans (Nat.zero_mul 16))).symm
  | succ count ih =>
      have size : (buffer.take 16).length = 16 := by
        rw [List.length_take, whole]
        omega
      let first : AesBlock := ⟨(buffer.take 16).toArray, size⟩
      have split : first.toList ++ buffer.drop 16 = buffer := List.take_append_drop 16 buffer
      have rest := ih (buffer.drop 16) (by rw [List.length_drop, whole]; omega)
      conv_lhs => rw [← split]
      rw [blocksOf, List.range_succ_eq_map, List.map_cons, List.map_map, bytesOf_cons,
        Nat.zero_mul, blockAt_toList_append]
      have shifted : (fun index => blockAt (first.toList ++ buffer.drop 16) (index * 16)) ∘ Nat.succ =
          fun index => blockAt (buffer.drop 16) (index * 16) := by
        funext index
        rw [Function.comp_apply, Nat.succ_mul, Nat.add_comm, blockAt_append_add]
      rw [shifted]
      exact (congrArg (first.toList ++ ·) rest).trans split

/-- Whole blocks of two buffers are the blocks of the joined buffer. -/
theorem blocksOf_append {first second : List Byte} {count more : Nat}
    (whole : first.length = count * 16) (rest : second.length = more * 16) :
    blocksOf (count + more) (first ++ second) = blocksOf count first ++ blocksOf more second := by
  have joined : bytesOf (blocksOf count first ++ blocksOf more second) = first ++ second := by
    rw [bytesOf_append, bytesOf_blocksOf count first whole, bytesOf_blocksOf more second rest]
  have cut := blocksOf_bytesOf (blocksOf count first ++ blocksOf more second)
  rwa [joined, List.length_append, length_blocksOf, length_blocksOf] at cut

/-- The last sixteen bytes of a buffer. -/
def lastBlock (buffer : List Byte) : AesBlock := blockAt buffer (buffer.length - 16)

theorem lastBlock_bytesOf {blocks : List AesBlock} (nonempty : blocks ≠ []) (previous : AesBlock) :
    lastBlock (bytesOf blocks) = blocks.getLastD previous := by
  rcases List.eq_nil_or_concat blocks with rfl | ⟨initial, last, rfl⟩
  · exact absurd rfl nonempty
  · rw [List.concat_eq_append]
    have cut := blocksOf_bytesOf (initial ++ [last])
    have size : (bytesOf (initial ++ [last])).length - 16 = initial.length * 16 := by
      rw [length_bytesOf, List.length_append, List.length_singleton]
      omega
    rw [List.length_append, List.length_singleton, blocksOf_succ] at cut
    -- Comparing the lengths by definition would compare the blocks first.
    have tail := (List.append_inj' cut (by rw [List.length_singleton, List.length_singleton])).2
    rw [lastBlock, size, (List.cons.inj tail).1]
    simp

theorem xorBlock_xorBlock (first second : AesBlock) :
    xorBlock (xorBlock first second) second = first := by
  apply Vector.ext
  intro j inside
  simp only [xorBlock, Vector.getElem_ofFn, Fin.getElem_fin, BinaryField.xor_cancel_right]

/-- The encryption loop chains the blocks of its input through the block function. -/
theorem aesCbcEncrypt_chaining (rk : RoundKeys) (iv : AesBlock) (input : List Byte) (len : Nat) :
    aesCbcEncrypt rk iv input len = bytesOf (Chaining.encrypt (aesEncryptBlock rk) xorBlock iv
      (blocksOf ((len + 15) / 16) input)) := by
  -- The loop has written the chain of the blocks so far, and `prev` is its last block.
  refine (Execution.fold_invariant
    (fun count (state : AesBlock × List Byte) =>
      let chain := Chaining.encrypt (aesEncryptBlock rk) xorBlock iv (blocksOf count input)
      state.1 = chain.getLastD iv ∧ state.2 = bytesOf chain)
    _ _ _ ⟨rfl, rfl⟩ ?_).2
  rintro index inside ⟨prev, out⟩ ⟨rfl, rfl⟩
  rw [blocksOf_succ, Chaining.encrypt_append]
  refine ⟨?_, ?_⟩
  · simp [Chaining.encrypt]
  · rw [bytesOf_append]
    simp [Chaining.encrypt, bytesOf]

/-- The decryption loop chains the blocks of its input through the inverse block function. -/
theorem aesCbcDecrypt_chaining (rk : RoundKeys) (iv : AesBlock) (input : List Byte) (len : Nat) :
    aesCbcDecrypt rk iv input len = bytesOf (Chaining.decrypt (aesDecryptBlock rk) xorBlock iv
      (blocksOf ((len + 15) / 16) input)) := by
  refine (Execution.fold_invariant
    (fun count (state : AesBlock × List Byte) =>
      state.1 = (blocksOf count input).getLastD iv ∧
        state.2 = bytesOf (Chaining.decrypt (aesDecryptBlock rk) xorBlock iv (blocksOf count input)))
    _ _ _ ⟨rfl, rfl⟩ ?_).2
  rintro index inside ⟨prev, out⟩ ⟨rfl, rfl⟩
  rw [blocksOf_succ, Chaining.decrypt_append]
  refine ⟨?_, ?_⟩
  · simp
  · rw [bytesOf_append]
    simp [Chaining.decrypt, bytesOf]

/-- Encryption of whole blocks keeps the length. -/
theorem length_aesCbcEncrypt (rk : RoundKeys) (iv : AesBlock) (input : List Byte) (count : Nat) :
    (aesCbcEncrypt rk iv input (count * 16)).length = count * 16 := by
  rw [aesCbcEncrypt_chaining, length_bytesOf, Chaining.length_encrypt, length_blocksOf]
  omega

theorem length_aesCbcDecrypt (rk : RoundKeys) (iv : AesBlock) (input : List Byte) (count : Nat) :
    (aesCbcDecrypt rk iv input (count * 16)).length = count * 16 := by
  rw [aesCbcDecrypt_chaining, length_bytesOf, Chaining.length_decrypt, length_blocksOf]
  omega

/-- Encryption goes on from the last block that it wrote. -/
theorem aesCbcEncrypt_append (rk : RoundKeys) (iv : AesBlock) {first second : List Byte}
    {count more : Nat} (positive : 0 < count) (whole : first.length = count * 16)
    (rest : second.length = more * 16) :
    aesCbcEncrypt rk iv (first ++ second) ((count + more) * 16) =
      aesCbcEncrypt rk iv first (count * 16) ++
        aesCbcEncrypt rk (lastBlock (aesCbcEncrypt rk iv first (count * 16))) second
          (more * 16) := by
  have rounds (blocks : Nat) : (blocks * 16 + 15) / 16 = blocks := by omega
  have written : Chaining.encrypt (aesEncryptBlock rk) xorBlock iv (blocksOf count first) ≠ [] := by
    intro empty
    have length := congrArg List.length empty
    rw [Chaining.length_encrypt, length_blocksOf, List.length_nil] at length
    omega
  rw [aesCbcEncrypt_chaining, aesCbcEncrypt_chaining, aesCbcEncrypt_chaining, rounds, rounds, rounds,
    lastBlock_bytesOf written iv, blocksOf_append whole rest, Chaining.encrypt_append, bytesOf_append]

/-- Decryption goes on from the last block that it read. -/
theorem aesCbcDecrypt_append (rk : RoundKeys) (iv : AesBlock) {first second : List Byte}
    {count more : Nat} (positive : 0 < count) (whole : first.length = count * 16)
    (rest : second.length = more * 16) :
    aesCbcDecrypt rk iv (first ++ second) ((count + more) * 16) =
      aesCbcDecrypt rk iv first (count * 16) ++
        aesCbcDecrypt rk (lastBlock first) second (more * 16) := by
  have rounds (blocks : Nat) : (blocks * 16 + 15) / 16 = blocks := by omega
  have read : blocksOf count first ≠ [] := by
    intro empty
    have length := congrArg List.length empty
    rw [length_blocksOf, List.length_nil] at length
    omega
  have last : lastBlock first = (blocksOf count first).getLastD iv := by
    rw [← lastBlock_bytesOf read iv, bytesOf_blocksOf count first whole]
  rw [aesCbcDecrypt_chaining, aesCbcDecrypt_chaining, aesCbcDecrypt_chaining, rounds, rounds, rounds,
    last, blocksOf_append whole rest, Chaining.decrypt_append, bytesOf_append]

theorem aesCbcDecrypt_aesCbcEncrypt (rk : RoundKeys) (iv : AesBlock) (message : List Byte)
    (count : Nat) (whole : message.length = count * 16) :
    aesCbcDecrypt rk iv (aesCbcEncrypt rk iv message (count * 16)) (count * 16) = message := by
  have rounds : (count * 16 + 15) / 16 = count := by omega
  have cut := blocksOf_bytesOf
    (Chaining.encrypt (aesEncryptBlock rk) xorBlock iv (blocksOf count message))
  rw [Chaining.length_encrypt, length_blocksOf] at cut
  rw [aesCbcDecrypt_chaining, aesCbcEncrypt_chaining, rounds, cut,
    Chaining.decrypt_encrypt _ _ _ xorBlock_xorBlock (aesDecryptBlock_aesEncryptBlock rk),
    bytesOf_blocksOf count message whole]

theorem aesCbcEncrypt_aesCbcDecrypt (rk : RoundKeys) (iv : AesBlock) (message : List Byte)
    (count : Nat) (whole : message.length = count * 16) :
    aesCbcEncrypt rk iv (aesCbcDecrypt rk iv message (count * 16)) (count * 16) = message := by
  have rounds : (count * 16 + 15) / 16 = count := by omega
  have cut := blocksOf_bytesOf
    (Chaining.decrypt (aesDecryptBlock rk) xorBlock iv (blocksOf count message))
  rw [Chaining.length_decrypt, length_blocksOf] at cut
  rw [aesCbcEncrypt_chaining, aesCbcDecrypt_chaining, rounds, cut,
    Chaining.encrypt_decrypt _ _ _ xorBlock_xorBlock (aesEncryptBlock_aesDecryptBlock rk),
    bytesOf_blocksOf count message whole]

/-- Under any round keys the two chaining modes are inverse on whole blocks. -/
theorem aesCbc_inverse (rk : RoundKeys) (iv : AesBlock) (message : List Byte)
    (whole : 16 ∣ message.length) :
    aesCbcDecrypt rk iv (aesCbcEncrypt rk iv message message.length) message.length = message ∧
      aesCbcEncrypt rk iv (aesCbcDecrypt rk iv message message.length) message.length = message := by
  obtain ⟨count, size⟩ := whole
  have counted : message.length = count * 16 := by omega
  rw [counted]
  exact ⟨aesCbcDecrypt_aesCbcEncrypt rk iv message count counted,
    aesCbcEncrypt_aesCbcDecrypt rk iv message count counted⟩

theorem aesCbc_inverse_twoBlocks :
    let rk : RoundKeys := Vector.ofFn fun i => BitVec.ofNat 8 i
    let iv : AesBlock := Vector.ofFn fun i => BitVec.ofNat 8 i
    let message : List Byte := List.replicate 32 0x48
    16 ∣ message.length ∧
      aesCbcDecrypt rk iv (aesCbcEncrypt rk iv message message.length) message.length = message ∧
      aesCbcEncrypt rk iv (aesCbcDecrypt rk iv message message.length) message.length = message :=
  ⟨by simp, aesCbc_inverse _ _ _ (by simp)⟩

end EduDevices.Aes
