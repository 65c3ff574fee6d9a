import EduDevices.Construction.Aes
import EduDevices.Library.Chaining
import EduDevices.Library.Execution
import EduDevices.Library.Fips197

namespace EduDevices.Aes

/-- The source's shift and conditional constant is doubling modulo `x^8 + x^4 + x^3 + x + 1`. -/
theorem xtime_double (x : Byte) : xtime x = BinaryField.double (0x1b : Byte) x := by
  revert x
  decide +kernel

/-- The second table undoes the first. -/
theorem aesInvSbox_aesSbox (x : Byte) : aesInvSbox.get (aesSbox.get x.toFin).toFin = x := by
  revert x
  decide +kernel

/-- There are finitely many bytes, so the left inverse is a right inverse as well. -/
theorem aesSbox_aesInvSbox (x : Byte) : aesSbox.get (aesInvSbox.get x.toFin).toFin = x := by
  let sub (y : Byte) : Byte := aesSbox.get y.toFin
  have finite : Finite Byte := Finite.of_injective BitVec.toFin fun _ _ => BitVec.eq_of_toFin_eq
  have left : Function.LeftInverse (fun y : Byte => aesInvSbox.get y.toFin) sub := aesInvSbox_aesSbox
  have onto : Function.Surjective sub := Finite.surjective_of_injective left.injective
  exact left.rightInverse_of_surjective onto x

theorem invSubBytes_subBytes (s : AesBlock) : invSubBytes (subBytes s) = s := by
  apply Vector.ext
  intro i inside
  simp only [invSubBytes, subBytes, Vector.getElem_map]
  exact aesInvSbox_aesSbox s[i]

theorem subBytes_invSubBytes (s : AesBlock) : subBytes (invSubBytes s) = s := by
  apply Vector.ext
  intro i inside
  simp only [invSubBytes, subBytes, Vector.getElem_map]
  exact aesSbox_aesInvSbox s[i]

/-- Row `r` moves left by `r` columns. -/
theorem getElem_shiftRows (s : AesBlock) (i : Nat) (inside : i < 16) :
    (shiftRows s)[i] = s[(i + 4 * (i % 4)) % 16] := by
  simp only [shiftRows, Vector.getElem_set]
  interval_cases i <;> rfl

/-- Row `r` moves right by `r` columns. -/
theorem getElem_invShiftRows (s : AesBlock) (i : Nat) (inside : i < 16) :
    (invShiftRows s)[i] = s[(i + 12 * (i % 4)) % 16] := by
  simp only [invShiftRows, Vector.getElem_set]
  interval_cases i <;> rfl

theorem invShiftRows_shiftRows (s : AesBlock) : invShiftRows (shiftRows s) = s := by
  apply Vector.ext
  intro i inside
  rw [getElem_invShiftRows, getElem_shiftRows]
  congr 1
  omega

theorem shiftRows_invShiftRows (s : AesBlock) : shiftRows (invShiftRows s) = s := by
  apply Vector.ext
  intro i inside
  rw [getElem_shiftRows, getElem_invShiftRows]
  congr 1
  omega

/-- The column loop applies its function to each column of the block before the loop. -/
theorem getElem_forColumns (f : Byte → Byte → Byte → Byte → Vector Byte 4) (s : AesBlock)
    (i j : Nat) (column : i < 4) (row : j < 4) :
    (forColumns f s)[i * 4 + j] = (f s[i * 4] s[i * 4 + 1] s[i * 4 + 2] s[i * 4 + 3])[j] := by
  -- The columns below the loop index are done, the others are still those of `s`.
  have done := Execution.fold_invariant
    (fun count (v : AesBlock) => ∀ i j (column : i < 4) (row : j < 4),
      v[i * 4 + j] = if i < count then
        (f s[i * 4] s[i * 4 + 1] s[i * 4 + 2] s[i * 4 + 3])[j] else s[i * 4 + j])
    4 (fun i _ s =>
      let mixed := f s[i * 4] s[i * 4 + 1] s[i * 4 + 2] s[i * 4 + 3]
      let s := s.set (i * 4) mixed[0]
      let s := s.set (i * 4 + 1) mixed[1]
      let s := s.set (i * 4 + 2) mixed[2]
      s.set (i * 4 + 3) mixed[3]) s
    (by intro i j column row; simp)
    (by
      intro count inside v known i j column row
      have c0 := known count 0 inside (by decide)
      have c1 := known count 1 inside (by decide)
      have c2 := known count 2 inside (by decide)
      have c3 := known count 3 inside (by decide)
      simp only [Nat.add_zero, lt_irrefl, if_false] at c0 c1 c2 c3
      have old := known i j column row
      simp only [c0, c1, c2, c3, Vector.getElem_set]
      obtain below | rfl | above := Nat.lt_trichotomy i count
      · simp [show ¬ count * 4 + 3 = i * 4 + j by omega, show ¬ count * 4 + 2 = i * 4 + j by omega,
          show ¬ count * 4 + 1 = i * 4 + j by omega, show ¬ count * 4 = i * 4 + j by omega,
          old, below, show i < count + 1 by omega]
      · interval_cases j <;> simp
      · simp [show ¬ count * 4 + 3 = i * 4 + j by omega, show ¬ count * 4 + 2 = i * 4 + j by omega,
          show ¬ count * 4 + 1 = i * 4 + j by omega, show ¬ count * 4 = i * 4 + j by omega,
          old, show ¬ i < count by omega, show ¬ i < count + 1 by omega])
  rw [forColumns, done i j column row, if_pos column]

/-- A column function that undoes another undoes it in every column. -/
theorem forColumns_forColumns (undo f : Byte → Byte → Byte → Byte → Vector Byte 4)
    (cancels : ∀ a b cc d,
      undo (f a b cc d)[0] (f a b cc d)[1] (f a b cc d)[2] (f a b cc d)[3] = #v[a, b, cc, d])
    (s : AesBlock) : forColumns undo (forColumns f s) = s := by
  apply Vector.ext
  intro index inside
  obtain ⟨i, j, column, row, rfl⟩ : ∃ i j, i < 4 ∧ j < 4 ∧ index = i * 4 + j :=
    ⟨index / 4, index % 4, by omega, by omega, by omega⟩
  have first := getElem_forColumns f s i 0 column (by decide)
  simp only [Nat.add_zero] at first
  rw [getElem_forColumns undo _ i j column row, first, getElem_forColumns f s i 1 column (by decide),
    getElem_forColumns f s i 2 column (by decide), getElem_forColumns f s i 3 column (by decide)]
  simp only [cancels]
  interval_cases j <;> simp

/-- The field element that a byte stands for. -/
noncomputable abbrev fieldElement (byte : Byte) : Fips197.Element :=
  BinaryField.element Fips197.fieldPolynomial byte

theorem fieldElement_xor (x y : Byte) :
    fieldElement (x ^^^ y) = fieldElement x + fieldElement y :=
  BinaryField.element_xor Fips197.fieldPolynomial x y

theorem fieldElement_xtime (byte : Byte) :
    fieldElement (xtime byte) = Fips197.x * fieldElement byte := by
  rw [xtime_double]
  exact BinaryField.element_double Fips197.fieldPolynomial_shape byte

theorem fieldElement_injective : Function.Injective fieldElement :=
  BinaryField.element_injective Fips197.fieldPolynomial_shape

/-- In the field the two column matrices multiply to the identity modulo two. -/
theorem invMixColumn_mixColumn (a b cc d : Byte) :
    invMixColumn (mixColumn a b cc d)[0] (mixColumn a b cc d)[1] (mixColumn a b cc d)[2]
      (mixColumn a b cc d)[3] = #v[a, b, cc, d] := by
  have two := BinaryField.two_eq_zero Fips197.fieldPolynomial
  apply Vector.ext
  intro row inside
  apply fieldElement_injective
  interval_cases row
  all_goals
    simp only [invMixColumn, mixColumn, Vector.getElem_mk, List.getElem_toArray,
      List.getElem_cons_zero, List.getElem_cons_succ, fieldElement_xor, fieldElement_xtime]
    grind

theorem mixColumn_invMixColumn (a b cc d : Byte) :
    mixColumn (invMixColumn a b cc d)[0] (invMixColumn a b cc d)[1] (invMixColumn a b cc d)[2]
      (invMixColumn a b cc d)[3] = #v[a, b, cc, d] := by
  have two := BinaryField.two_eq_zero Fips197.fieldPolynomial
  apply Vector.ext
  intro row inside
  apply fieldElement_injective
  interval_cases row
  all_goals
    simp only [invMixColumn, mixColumn, Vector.getElem_mk, List.getElem_toArray,
      List.getElem_cons_zero, List.getElem_cons_succ, fieldElement_xor, fieldElement_xtime]
    grind

theorem invMixColumns_mixColumns (s : AesBlock) : invMixColumns (mixColumns s) = s :=
  forColumns_forColumns _ _ invMixColumn_mixColumn s

theorem mixColumns_invMixColumns (s : AesBlock) : mixColumns (invMixColumns s) = s :=
  forColumns_forColumns _ _ mixColumn_invMixColumn s

theorem addRoundKey_addRoundKey (rk : RoundKeys) (r : Nat) (valid : r ≤ 10) (s : AesBlock) :
    addRoundKey rk r valid (addRoundKey rk r valid s) = s := by
  apply Vector.ext
  intro i inside
  simp only [addRoundKey, Vector.getElem_ofFn, Fin.getElem_fin, BinaryField.xor_cancel_right]

/-- The two block functions are inverse for every array of round keys. -/
theorem aesDecryptBlock_aesEncryptBlock (rk : RoundKeys) (block : AesBlock) :
    aesDecryptBlock rk (aesEncryptBlock rk block) = block := by
  simp only [aesDecryptBlock, aesEncryptBlock, addRoundKey_addRoundKey]
  rw [Execution.foldRev_fold (fun s => shiftRows (subBytes s))]
  · simp only [invShiftRows_shiftRows, invSubBytes_subBytes, addRoundKey_addRoundKey]
  · intro index inside s
    simp only [invShiftRows_shiftRows, invSubBytes_subBytes, addRoundKey_addRoundKey,
      invMixColumns_mixColumns]

theorem aesEncryptBlock_aesDecryptBlock (rk : RoundKeys) (block : AesBlock) :
    aesEncryptBlock rk (aesDecryptBlock rk block) = block := by
  simp only [aesDecryptBlock, aesEncryptBlock, addRoundKey_addRoundKey]
  rw [Execution.fold_foldRev (fun s => invSubBytes (invShiftRows s))]
  · simp only [subBytes_invSubBytes, shiftRows_invShiftRows, addRoundKey_addRoundKey]
  · intro index inside s
    simp only [subBytes_invSubBytes, shiftRows_invShiftRows, mixColumns_invMixColumns,
      addRoundKey_addRoundKey]

end EduDevices.Aes
