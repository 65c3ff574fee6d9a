import EduDevices.Library.BinaryField
import Mathlib.LinearAlgebra.Matrix.Circulant
import Mathlib.RingTheory.AdjoinRoot
import Mathlib.Tactic

namespace EduDevices.Fips197
open Polynomial

/-- The field of the standard is the quotient by this polynomial. -/
noncomputable def fieldPolynomial : (ZMod 2)[X] := X ^ 8 + X ^ 4 + X ^ 3 + X + 1

theorem fieldPolynomial_shape :
    fieldPolynomial = X ^ (7 + 1) + BinaryField.wordPolynomial (0x1b : BitVec (7 + 1)) := by
  simp [fieldPolynomial, BinaryField.wordPolynomial, Finset.sum_range_succ, BitVec.getLsbD,
    Nat.testBit_succ]
  ring

/-- The inverse of a byte is its power 254, the product of seven repeated squares. -/
def inverseByte (byte : BitVec 8) : BitVec 8 :=
  (Nat.fold 7 (fun _ _ (square, product) =>
    let square := BinaryField.multiply (0x1b : BitVec 8) square square
    (square, BinaryField.multiply (0x1b : BitVec 8) product square)) (byte, 1)).2

theorem multiply_inverseByte (byte : BitVec 8) (nonzero : byte ≠ 0) :
    BinaryField.multiply (0x1b : BitVec 8) byte (inverseByte byte) = 1 := by
  revert byte
  decide +kernel

theorem fieldPolynomial_irreducible : Irreducible fieldPolynomial :=
  BinaryField.modulus_irreducible fieldPolynomial_shape inverseByte multiply_inverseByte

instance : Fact (Irreducible fieldPolynomial) := ⟨fieldPolynomial_irreducible⟩

abbrev Element := AdjoinRoot fieldPolynomial

/-- The standard calls this element `x`, or `{02}`. -/
noncomputable abbrev x : Element := AdjoinRoot.root fieldPolynomial

theorem fieldPolynomial_natDegree : fieldPolynomial.natDegree = 8 :=
  natDegree_eq_of_degree_eq_some (BinaryField.modulus_degree fieldPolynomial_shape)

/-- The powers of `x` below the eighth are a basis over the bits. -/
noncomputable def powers : Module.Basis (Fin 8) (ZMod 2) Element :=
  (AdjoinRoot.powerBasis' (BinaryField.modulus_monic fieldPolynomial_shape)).basis.reindex
    (finCongr fieldPolynomial_natDegree)

theorem powers_apply (index : Fin 8) : powers index = x ^ index.val := by
  rw [powers, Module.Basis.reindex_apply, PowerBasis.basis_eq_pow]
  rfl

/-- The bit of a row is the sum of five bits of the byte, counted upwards from the row. -/
def affineMatrix : Matrix (Fin 8) (Fin 8) (ZMod 2) :=
  Matrix.circulant ![1, 1, 1, 1, 1, 0, 0, 0]

/-- The standard writes this constant `{63}`. -/
def affineConstant : Fin 8 → ZMod 2 := ![1, 1, 0, 0, 0, 1, 1, 0]

/-- The substitution is an affine map of the inverse; the inverse of zero is zero. -/
noncomputable def subByte (value : Element) : Element :=
  powers.equivFun.symm (affineMatrix.mulVec (powers.equivFun value⁻¹) + affineConstant)

/-- A state holds the byte of row `r` and column `c` at `(r, c)`. -/
abbrev State := Matrix (Fin 4) (Fin 4) Element

abbrev Word := Fin 4 → Element

noncomputable def subBytes (state : State) : State := state.map subByte

/-- Row `r` rotates left by `r` columns. -/
def shiftRows (state : State) : State := Matrix.of fun r c => state r (c + r)

noncomputable def mixMatrix : Matrix (Fin 4) (Fin 4) Element :=
  !![x, x + 1, 1, 1;
    1, x, x + 1, 1;
    1, 1, x, x + 1;
    x + 1, 1, 1, x]

noncomputable def mixColumns (state : State) : State := mixMatrix * state

noncomputable def subWord (word : Word) : Word := fun r => subByte (word r)

def rotWord (word : Word) : Word := fun r => word (r + 1)

/-- The round constant of round `i` is `x ^ (i - 1)` in the first row. -/
noncomputable def rcon (i : Nat) : Word := ![x ^ (i - 1), 0, 0, 0]

/-- The key schedule continues the four key words for as long as words are needed. -/
noncomputable def keyWord (key : State) (i : Nat) : Word :=
  if early : i < 4 then fun r => key r ⟨i, early⟩
  else if i % 4 = 0 then
    keyWord key (i - 4) + (subWord (rotWord (keyWord key (i - 1))) + rcon (i / 4))
  else keyWord key (i - 4) + keyWord key (i - 1)

theorem keyWord_early (key : State) (i : Nat) (early : i < 4) :
    keyWord key i = fun r => key r ⟨i, early⟩ := by
  rw [keyWord, dif_pos early]

theorem keyWord_first (key : State) (i : Nat) (late : 4 ≤ i) (first : i % 4 = 0) :
    keyWord key i =
      keyWord key (i - 4) + (subWord (rotWord (keyWord key (i - 1))) + rcon (i / 4)) := by
  rw [keyWord, dif_neg (Nat.not_lt.mpr late), if_pos first]

theorem keyWord_later (key : State) (i : Nat) (late : 4 ≤ i) (later : i % 4 ≠ 0) :
    keyWord key i = keyWord key (i - 4) + keyWord key (i - 1) := by
  rw [keyWord, dif_neg (Nat.not_lt.mpr late), if_neg later]

/-- The key of a round is four words of the schedule, one in each column. -/
noncomputable def roundKey (key : State) (round : Nat) : State :=
  Matrix.of fun r c => keyWord key (4 * round + c.val) r

noncomputable def addRoundKey (key : State) (round : Nat) (state : State) : State :=
  state + roundKey key round

/-- The state after the first key addition and the given number of full rounds. -/
noncomputable def rounds (key state : State) : Nat → State
  | 0 => addRoundKey key 0 state
  | round + 1 =>
      addRoundKey key (round + 1) (mixColumns (shiftRows (subBytes (rounds key state round))))

/-- AES-128 has nine full rounds and a last round without the column mixing. -/
noncomputable def cipher (key state : State) : State :=
  addRoundKey key 10 (shiftRows (subBytes (rounds key state 9)))

end EduDevices.Fips197
