import EduDevices.Proof.AesInverse

namespace EduDevices.Aes

/-- The bits of a byte are the coordinates of its field element. -/
theorem equivFun_fieldElement (byte : Byte) :
    Fips197.powers.equivFun (fieldElement byte) =
      fun index : Fin 8 => if byte.getLsbD index then 1 else 0 := by
  rw [← LinearEquiv.eq_symm_apply, Module.Basis.equivFun_symm_apply,
    fieldElement, BinaryField.element_sum]
  apply Finset.sum_congr rfl
  intro index _
  rw [Fips197.powers_apply]

/-- The affine map undone on the bits of a table entry. -/
def unaffine (byte : Byte) : Byte :=
  let y := byte ^^^ 0x63
  (y.rotateLeft 1) ^^^ (y.rotateLeft 3) ^^^ (y.rotateLeft 6)

/-- Undoing the affine map on a table entry leaves the inverse of the index. -/
theorem multiply_unaffine (byte : Byte) (nonzero : byte ≠ 0) :
    BinaryField.multiply (0x1b : BitVec 8) byte (unaffine (aesSbox.get byte.toFin)) = 1 := by
  revert byte
  decide +kernel

theorem unaffine_zero : unaffine (aesSbox.get (0 : Byte).toFin) = 0 := by
  decide +kernel

theorem fieldElement_unaffine (byte : Byte) :
    fieldElement (unaffine (aesSbox.get byte.toFin)) = (fieldElement byte)⁻¹ := by
  by_cases zero : byte = 0
  · have zero_element : fieldElement 0 = 0 := BinaryField.element_zero Fips197.fieldPolynomial
    rw [zero, unaffine_zero, zero_element, inv_zero]
  · apply eq_inv_of_mul_eq_one_right
    rw [← BinaryField.element_multiply Fips197.fieldPolynomial_shape, multiply_unaffine byte zero]
    exact BinaryField.element_one Fips197.fieldPolynomial

/-- The affine map of the standard gives the byte back, bit by bit. -/
theorem affine_unaffine (byte : Byte) (row : Fin 8) :
    (Fips197.affineMatrix.mulVec
      (fun index : Fin 8 => if (unaffine byte).getLsbD index then (1 : ZMod 2) else 0) +
        Fips197.affineConstant) row = if byte.getLsbD row then 1 else 0 := by
  revert byte row
  decide +kernel

/-- The table is the substitution of the standard. -/
theorem fieldElement_aesSbox (byte : Byte) :
    fieldElement (aesSbox.get byte.toFin) = Fips197.subByte (fieldElement byte) := by
  rw [Fips197.subByte, ← fieldElement_unaffine, LinearEquiv.eq_symm_apply,
    equivFun_fieldElement, equivFun_fieldElement]
  funext row
  rw [affine_unaffine]

/-- The bytes of a block fill the state of the standard column by column. -/
noncomputable def stateOf : AesBlock ≃ Fips197.State where
  toFun block := Matrix.of fun r c => fieldElement block[c.val * 4 + r.val]
  invFun state := Vector.ofFn fun i =>
    (BinaryField.elementEquiv Fips197.fieldPolynomial_shape).symm
      (state ⟨i.val % 4, by omega⟩ ⟨i.val / 4, by omega⟩)
  left_inv block := by
    apply Vector.ext
    intro i inside
    rw [Vector.getElem_ofFn, Equiv.symm_apply_eq]
    have split : i / 4 * 4 + i % 4 = i := Nat.div_add_mod' i 4
    simp only [Matrix.of_apply, split]
    rfl
  right_inv state := by
    funext r c
    have row : (c.val * 4 + r.val) % 4 = r.val := by omega
    have column : (c.val * 4 + r.val) / 4 = c.val := by omega
    simp only [Matrix.of_apply, Vector.getElem_ofFn, row, column]
    exact (BinaryField.elementEquiv Fips197.fieldPolynomial_shape).apply_symm_apply (state r c)

theorem stateOf_apply (block : AesBlock) (r c : Fin 4) :
    stateOf block r c = fieldElement block[c.val * 4 + r.val] := rfl

theorem stateOf_subBytes (s : AesBlock) :
    stateOf (subBytes s) = Fips197.subBytes (stateOf s) := by
  funext r c
  rw [stateOf_apply, Fips197.subBytes, Matrix.map_apply, stateOf_apply, ← fieldElement_aesSbox]
  simp only [subBytes, Vector.getElem_map]
  rfl

theorem stateOf_shiftRows (s : AesBlock) :
    stateOf (shiftRows s) = Fips197.shiftRows (stateOf s) := by
  funext r c
  rw [stateOf_apply, Fips197.shiftRows, Matrix.of_apply, stateOf_apply, getElem_shiftRows]
  have source : (c.val * 4 + r.val + 4 * ((c.val * 4 + r.val) % 4)) % 16 =
      (c + r).val * 4 + r.val := by
    rw [Fin.val_add]
    omega
  simp only [source]

theorem stateOf_mixColumns (s : AesBlock) :
    stateOf (mixColumns s) = Fips197.mixColumns (stateOf s) := by
  funext r c
  rw [stateOf_apply, mixColumns, getElem_forColumns mixColumn s c r c.isLt r.isLt,
    Fips197.mixColumns, Matrix.mul_apply, Fin.sum_univ_four]
  simp only [stateOf_apply]
  fin_cases r
  all_goals
    simp [mixColumn, Fips197.mixMatrix, fieldElement_xtime]
    ring

/-- The first words of the round keys are the words of the standard's schedule. -/
def ScheduleHolds (key : AesBlock) (words : Nat) (rk : RoundKeys) : Prop :=
  ∀ i (inside : i < 44) (r : Fin 4), i < words →
    fieldElement rk[i * 4 + r.val] = Fips197.keyWord (stateOf key) i r

theorem stateOf_addRoundKey (key : AesBlock) (rk : RoundKeys) (holds : ScheduleHolds key 44 rk)
    (r : Nat) (valid : r ≤ 10) (s : AesBlock) :
    stateOf (addRoundKey rk r valid s) = Fips197.addRoundKey (stateOf key) r (stateOf s) := by
  funext row c
  rw [stateOf_apply, Fips197.addRoundKey, Matrix.add_apply, stateOf_apply, Fips197.roundKey,
    Matrix.of_apply, ← holds (4 * r + c.val) (by omega) row (by omega)]
  have position : r * 16 + (c.val * 4 + row.val) = (4 * r + c.val) * 4 + row.val := by omega
  simp only [addRoundKey, Vector.getElem_ofFn, Fin.getElem_fin, position]
  exact fieldElement_xor _ _

/-- The word that the expansion adds to the word four places back. -/
def scheduleTerm (rk : RoundKeys) (index : Nat) (inside : index < 40) : Vector Byte 4 :=
  let t0 := rk[(index + 3) * 4]
  let t1 := rk[(index + 3) * 4 + 1]
  let t2 := rk[(index + 3) * 4 + 2]
  let t3 := rk[(index + 3) * 4 + 3]
  if index % 4 = 0 then
    #v[aesSbox[t1.toNat] ^^^ rcon[index / 4], aesSbox[t2.toNat], aesSbox[t3.toNat],
      aesSbox[t0.toNat]]
  else #v[t0, t1, t2, t3]

/-- One round of the expansion writes one word and leaves the others. -/
theorem getElem_expandWord (rk : RoundKeys) (index : Nat) (inside : index < 40)
    (i j : Nat) (word : i < 44) (byte : j < 4) :
    (expandWord rk index inside)[i * 4 + j] =
      if i = index + 4 then rk[index * 4 + j] ^^^ (scheduleTerm rk index inside)[j]
      else rk[i * 4 + j] := by
  have period : (index + 4) % 4 = index % 4 := by omega
  have quotient : (index + 4) / 4 - 1 = index / 4 := by omega
  have before : index + 4 - 1 = index + 3 := by omega
  have back : index + 4 - 4 = index := by omega
  -- The bytes below the loop index are written, the others are still those of `rk`.
  have done := Execution.fold_invariant
    (fun count (v : RoundKeys) => ∀ i j (word : i < 44) (byte : j < 4),
      v[i * 4 + j] = if i = index + 4 ∧ j < count then
        rk[index * 4 + j] ^^^ (scheduleTerm rk index inside)[j] else rk[i * 4 + j])
    4 (fun j _ v => v.set ((index + 4) * 4 + j)
      (v[index * 4 + j] ^^^ (scheduleTerm rk index inside)[j])) rk
    (by intro i j word byte; simp)
    (by
      intro count within v known i j word byte
      have source := known index count (by omega) within
      rw [if_neg (by omega)] at source
      rw [Vector.getElem_set, source, known i j word byte]
      by_cases same : i = index + 4
      · subst same
        by_cases now : j = count
        · subst now
          simp
        · have reached : j < count + 1 ↔ j < count := by omega
          simp [Ne.symm now, reached]
      · have other : ¬ (index + 4) * 4 + count = i * 4 + j := by omega
        simp [other, same])
  have written := done i j word byte
  simp only [byte, and_true] at written
  simp only [expandWord, period, quotient, before, back]
  exact written

/-- The expanded key starts with the key itself. -/
theorem getElem_aesKeyExpand_key (key : AesBlock) (i : Nat) (inside : i < 16) :
    (aesKeyExpand key)[i] = key[i] := by
  refine Execution.fold_invariant (fun _ (rk : RoundKeys) => rk[i] = key[i]) 40
    (fun index inside rk => expandWord rk index inside) _ ?_ ?_
  · exact Vector.getElem_append_left inside
  · intro index within rk known
    have kept := getElem_expandWord rk index within (i / 4) (i % 4) (by omega) (by omega)
    rw [if_neg (by omega)] at kept
    simp only [Nat.div_add_mod'] at kept
    exact kept.trans known

/-- Different keys have different schedules. -/
theorem aesKeyExpand_injective : Function.Injective aesKeyExpand := by
  intro first second same
  apply Vector.ext
  intro i inside
  rw [← getElem_aesKeyExpand_key first i inside, ← getElem_aesKeyExpand_key second i inside]
  simp only [same]

/-- Each round constant is twice the one before. -/
theorem rcon_succ (round : Fin 9) : rcon[round.val + 1] = xtime rcon[round.val] := by
  revert round
  decide +kernel

theorem fieldElement_rcon (round : Nat) (inside : round < 10) :
    fieldElement rcon[round] = Fips197.x ^ round := by
  induction round with
  | zero =>
      rw [pow_zero]
      exact BinaryField.element_one Fips197.fieldPolynomial
  | succ round ih =>
      rw [rcon_succ ⟨round, by omega⟩, fieldElement_xtime, ih (by omega), pow_succ, mul_comm]

/-- The term is the rotated, substituted word with the round constant at each fourth word. -/
theorem fieldElement_scheduleTerm (key : AesBlock) (rk : RoundKeys) (index : Nat)
    (inside : index < 40)
    (last : ∀ r : Fin 4, fieldElement rk[(index + 3) * 4 + r.val] =
      Fips197.keyWord (stateOf key) (index + 3) r)
    (r : Fin 4) :
    fieldElement (scheduleTerm rk index inside)[r] =
      if index % 4 = 0 then
        (Fips197.subWord (Fips197.rotWord (Fips197.keyWord (stateOf key) (index + 3))) +
          Fips197.rcon (index / 4 + 1)) r
      else Fips197.keyWord (stateOf key) (index + 3) r := by
  have constant := fieldElement_rcon (index / 4) (by omega)
  by_cases first : index % 4 = 0
  · simp only [scheduleTerm, first, if_true, Pi.add_apply, Fips197.subWord, Fips197.rotWord,
      Fips197.rcon, Nat.add_sub_cancel]
    rw [← last, ← fieldElement_aesSbox]
    fin_cases r
    · exact (fieldElement_xor _ _).trans (congrArg (_ + ·) constant)
    · exact (add_zero _).symm
    · exact (add_zero _).symm
    · exact (add_zero _).symm
  · simp only [scheduleTerm, first, if_false]
    rw [← last]
    fin_cases r <;> rfl

/-- The expansion computes the schedule of the standard, word by word. -/
theorem aesKeyExpand_schedule (key : AesBlock) : ScheduleHolds key 44 (aesKeyExpand key) := by
  refine Execution.fold_invariant (fun count rk => ScheduleHolds key (count + 4) rk)
    40 (fun index inside rk => expandWord rk index inside) _ ?_ ?_
  · intro i inside r early
    have small : i < 4 := by omega
    rw [Fips197.keyWord_early _ i small]
    change _ = fieldElement key[i * 4 + r.val]
    have copied : (key ++ Vector.replicate 160 (0 : Byte))[i * 4 + r.val] = key[i * 4 + r.val] :=
      Vector.getElem_append_left (by omega)
    exact congrArg fieldElement copied
  · intro index inside rk holds i word r early
    have written := getElem_expandWord rk index inside i r.val word r.isLt
    by_cases same : i = index + 4
    · subst same
      have back : index + 4 - 4 = index := by omega
      have before : index + 4 - 1 = index + 3 := by omega
      have period : (index + 4) % 4 = index % 4 := by omega
      have round : (index + 4) / 4 = index / 4 + 1 := by omega
      have term := fieldElement_scheduleTerm key rk index inside
        (fun r => holds (index + 3) (by omega) r (by omega)) r
      rw [if_pos rfl] at written
      rw [written, fieldElement_xor, holds index (by omega) r (by omega)]
      refine (congrArg (_ + ·) term).trans ?_
      by_cases first : index % 4 = 0
      · rw [if_pos first, Fips197.keyWord_first _ (index + 4) (by omega) (by omega), back, before,
          round]
        rfl
      · rw [if_neg first, Fips197.keyWord_later _ (index + 4) (by omega) (by omega), back, before]
        rfl
    · rw [if_neg same] at written
      rw [written]
      exact holds i word r (by omega)

/-- On an expanded key the block function is the cipher of the standard. -/
theorem stateOf_aesEncryptBlock (key block : AesBlock) :
    stateOf (aesEncryptBlock (aesKeyExpand key) block) =
      Fips197.cipher (stateOf key) (stateOf block) := by
  have holds := aesKeyExpand_schedule key
  have rounds := Execution.fold_invariant
    (fun count s => stateOf s = Fips197.rounds (stateOf key) (stateOf block) count)
    9 (fun index inside s => addRoundKey (aesKeyExpand key) (index + 1) (by omega)
      (mixColumns (shiftRows (subBytes s))))
    (addRoundKey (aesKeyExpand key) 0 (by decide) block)
    (stateOf_addRoundKey key _ holds 0 _ block)
    (by
      intro index inside s known
      rw [stateOf_addRoundKey key _ holds, stateOf_mixColumns, stateOf_shiftRows,
        stateOf_subBytes, known]
      rfl)
  rw [aesEncryptBlock, stateOf_addRoundKey key _ holds, stateOf_shiftRows, stateOf_subBytes,
    rounds]
  rfl

/-- Under the byte encoding of states the device computes AES-128 of the standard. -/
theorem aesEncryptBlock_standard (key block : AesBlock) :
    aesEncryptBlock (aesKeyExpand key) block =
      stateOf.symm (Fips197.cipher (stateOf key) (stateOf block)) := by
  rw [Equiv.eq_symm_apply]
  exact stateOf_aesEncryptBlock key block

end EduDevices.Aes
