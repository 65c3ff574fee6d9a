import EduDevices.Library.Execution
import Mathlib.Algebra.CharP.Two
import Mathlib.RingTheory.AdjoinRoot
import Mathlib.Tactic

namespace EduDevices.BinaryField
open Polynomial

theorem xor_cancel_right {width : Nat} (first second : BitVec width) :
    first ^^^ second ^^^ second = first := by
  rw [BitVec.xor_assoc, BitVec.xor_self, BitVec.xor_zero]

/-- The bits of a word are the coefficients of a polynomial, the lowest first. -/
noncomputable def wordPolynomial {width : Nat} (word : BitVec width) : (ZMod 2)[X] :=
  ∑ index ∈ Finset.range width, if word.getLsbD index then X ^ index else 0

theorem coeff_wordPolynomial {width : Nat} (word : BitVec width) (index : Nat) :
    (wordPolynomial word).coeff index = if word.getLsbD index then 1 else 0 := by
  have each (position : Nat) : (if word.getLsbD position then (X : (ZMod 2)[X]) ^ position
      else 0).coeff index = if position = index ∧ word.getLsbD index then 1 else 0 := by
    by_cases same : position = index
    · subst position
      cases word.getLsbD index <;> simp
    · have other : index ≠ position := fun equal => same equal.symm
      cases word.getLsbD position <;> simp [same, other, coeff_X_pow]
  rw [wordPolynomial, finsetSum_coeff]
  simp only [each]
  by_cases inside : index < width
  · rw [Finset.sum_eq_single_of_mem index (Finset.mem_range.mpr inside)]
    · simp
    · intro position _ other
      simp [other]
  · have absent : word.getLsbD index = false := BitVec.getLsbD_of_ge _ _ (by omega)
    simp [absent]

theorem wordPolynomial_zero (width : Nat) : wordPolynomial (0 : BitVec width) = 0 := by
  ext index
  simp [coeff_wordPolynomial]

/-- Exclusive or adds coefficients modulo two. -/
theorem wordPolynomial_xor {width : Nat} (first second : BitVec width) :
    wordPolynomial (first ^^^ second) = wordPolynomial first + wordPolynomial second := by
  ext index
  rw [coeff_add, coeff_wordPolynomial, coeff_wordPolynomial, coeff_wordPolynomial,
    BitVec.getLsbD_xor]
  cases first.getLsbD index <;> cases second.getLsbD index <;> decide

theorem wordPolynomial_injective {width : Nat} :
    Function.Injective (wordPolynomial : BitVec width → (ZMod 2)[X]) := by
  intro first second equal
  apply BitVec.eq_of_getLsbD_eq
  intro index _
  have same := congrArg (fun polynomial => polynomial.coeff index) equal
  simp only [coeff_wordPolynomial] at same
  generalize first.getLsbD index = left at same ⊢
  generalize second.getLsbD index = right at same ⊢
  revert same
  cases left <;> cases right <;> decide

theorem wordPolynomial_degree_lt {width : Nat} (word : BitVec width) :
    (wordPolynomial word).degree < width := by
  rw [degree_lt_iff_coeff_zero]
  intro index beyond
  rw [coeff_wordPolynomial, BitVec.getLsbD_of_ge word index beyond]
  rfl

private theorem exists_word (width : Nat) (bits : Nat → Bool) :
    ∃ word : BitVec width, ∀ index, index < width → word.getLsbD index = bits index := by
  induction width with
  | zero => exact ⟨0, fun index inside => absurd inside (Nat.not_lt_zero index)⟩
  | succ width ih =>
      obtain ⟨word, known⟩ := ih
      refine ⟨BitVec.cons (bits width) word, ?_⟩
      intro index inside
      rw [BitVec.getLsbD_cons]
      split
      · simp_all
      · exact known index (by omega)

/-- A polynomial below the width is the polynomial of its coefficient word. -/
theorem exists_wordPolynomial {width : Nat} (polynomial : (ZMod 2)[X])
    (small : polynomial.degree < width) :
    ∃ word : BitVec width, wordPolynomial word = polynomial := by
  obtain ⟨word, known⟩ := exists_word width fun index => decide (polynomial.coeff index = 1)
  refine ⟨word, ?_⟩
  ext index
  rw [coeff_wordPolynomial]
  by_cases inside : index < width
  · rw [known index inside]
    generalize polynomial.coeff index = value
    revert value
    decide
  · rw [BitVec.getLsbD_of_ge _ _ (Nat.le_of_not_lt inside),
      (degree_lt_iff_coeff_zero _ _).mp small index (Nat.le_of_not_lt inside)]
    rfl

/-- The lowest bit is the constant coefficient. -/
theorem wordPolynomial_ushiftRight {width : Nat} (word : BitVec width) :
    wordPolynomial word =
      X * wordPolynomial (word >>> 1) + if word.getLsbD 0 then 1 else 0 := by
  ext index
  cases index with
  | zero =>
      rw [coeff_add, coeff_X_mul_zero, coeff_wordPolynomial]
      cases word.getLsbD 0 <;> simp
  | succ index =>
      rw [coeff_add, coeff_X_mul, coeff_wordPolynomial, coeff_wordPolynomial,
        BitVec.getLsbD_ushiftRight, Nat.add_comm 1 index]
      cases word.getLsbD 0 <;> simp [coeff_one]

section

variable {degree : Nat} (low : BitVec (degree + 1)) (modulus : (ZMod 2)[X])

/-- Words stand for the residues modulo a polynomial one degree above their width. -/
noncomputable def element (word : BitVec (degree + 1)) : AdjoinRoot modulus :=
  AdjoinRoot.mk modulus (wordPolynomial word)

/-- Doubling shifts a word once and folds its lost bit back in as the lower coefficients. -/
def double (word : BitVec (degree + 1)) : BitVec (degree + 1) :=
  (word <<< 1) ^^^ if word.getLsbD degree then low else 0

/-- Multiplication by Horner's rule over the bits of the second word, the highest first. -/
def multiply (first second : BitVec (degree + 1)) : BitVec (degree + 1) :=
  Nat.fold (degree + 1) (fun index _ value =>
    double low value ^^^ if second.getLsbD (degree - index) then first else 0) 0

@[simp] theorem element_zero : element modulus (0 : BitVec (degree + 1)) = 0 := by
  rw [element, wordPolynomial_zero, map_zero]

@[simp] theorem element_xor (first second : BitVec (degree + 1)) :
    element modulus (first ^^^ second) = element modulus first + element modulus second := by
  rw [element, wordPolynomial_xor, map_add]
  rfl

theorem element_one : element modulus (1 : BitVec (degree + 1)) = 1 := by
  have one : wordPolynomial (1 : BitVec (degree + 1)) = 1 := by
    ext index
    rw [coeff_wordPolynomial]
    cases index with
    | zero => simp
    | succ index => simp [coeff_one]
  rw [element, one, map_one]

theorem two_eq_zero : (2 : AdjoinRoot modulus) = 0 := by
  have two : (2 : ZMod 2) = 0 := rfl
  rw [← map_ofNat (AdjoinRoot.of modulus) 2, two, map_zero]

/-- A word is the sum of the powers of the root that its bits select. -/
theorem element_sum (word : BitVec (degree + 1)) :
    element modulus word = ∑ index : Fin (degree + 1),
      (if word.getLsbD index then (1 : ZMod 2) else 0) • AdjoinRoot.root modulus ^ index.val := by
  rw [element, wordPolynomial, map_sum, Finset.sum_range]
  apply Finset.sum_congr rfl
  intro index _
  cases word.getLsbD index <;> simp

private theorem wordPolynomial_shiftLeft (word : BitVec (degree + 1)) :
    wordPolynomial (word <<< 1) =
      X * wordPolynomial word + if word.getLsbD degree then X ^ (degree + 1) else 0 := by
  ext index
  cases index with
  | zero =>
      rw [coeff_add, coeff_X_mul_zero, coeff_wordPolynomial]
      cases word.getLsbD degree <;> simp
  | succ index =>
      rw [coeff_add, coeff_X_mul, coeff_wordPolynomial, coeff_wordPolynomial]
      have shifted : (word <<< 1).getLsbD (index + 1) =
          (decide (index < degree) && word.getLsbD index) := by
        simp [BitVec.getLsbD_shiftLeft, -BitVec.getLsbD_eq_getElem]
      rw [shifted]
      obtain below | rfl | above := Nat.lt_trichotomy index degree
      · have other : index ≠ degree := by omega
        cases word.getLsbD degree <;> simp [coeff_X_pow, below, other]
      · have cancel : (1 : ZMod 2) + 1 = 0 := by decide
        cases word.getLsbD index <;> simp [cancel]
      · have other : index ≠ degree := by omega
        rw [BitVec.getLsbD_of_ge word index (by omega)]
        cases word.getLsbD degree <;> simp [coeff_X_pow, other]

section

variable {low modulus} (shape : modulus = X ^ (degree + 1) + wordPolynomial low)
include shape

theorem modulus_monic : modulus.Monic := by
  rw [shape]
  exact monic_X_pow_add (wordPolynomial_degree_lt low)

theorem modulus_degree : modulus.degree = (degree + 1 : Nat) := by
  have lower := wordPolynomial_degree_lt low
  rw [shape, degree_add_eq_left_of_degree_lt (by rwa [degree_X_pow]), degree_X_pow]

theorem element_injective :
    Function.Injective (element modulus : BitVec (degree + 1) → AdjoinRoot modulus) := by
  intro first second equal
  apply wordPolynomial_injective
  have divides := AdjoinRoot.mk_eq_mk.mp equal
  apply sub_eq_zero.mp
  apply eq_zero_of_dvd_of_degree_lt divides
  rw [modulus_degree shape]
  exact (degree_sub_le _ _).trans_lt
    (max_lt (wordPolynomial_degree_lt first) (wordPolynomial_degree_lt second))

theorem element_surjective :
    Function.Surjective (element modulus : BitVec (degree + 1) → AdjoinRoot modulus) := by
  intro value
  obtain ⟨polynomial, rfl⟩ := AdjoinRoot.mk_surjective value
  have small := degree_modByMonic_lt polynomial (modulus_monic shape)
  rw [modulus_degree shape] at small
  obtain ⟨word, equal⟩ := exists_wordPolynomial _ small
  refine ⟨word, ?_⟩
  rw [element, equal, AdjoinRoot.mk_eq_mk]
  exact ⟨-(polynomial /ₘ modulus), by
    rw [modByMonic_eq_sub_mul_div]
    ring⟩

/-- Each residue has exactly one word. -/
noncomputable def elementEquiv : BitVec (degree + 1) ≃ AdjoinRoot modulus :=
  Equiv.ofBijective (element modulus) ⟨element_injective shape, element_surjective shape⟩

/-- Doubling multiplies by the root of the modulus. -/
theorem element_double (word : BitVec (degree + 1)) :
    element modulus (double low word) = AdjoinRoot.root modulus * element modulus word := by
  have reduced : wordPolynomial (double low word) =
      X * wordPolynomial word + if word.getLsbD degree then modulus else 0 := by
    rw [double, wordPolynomial_xor, wordPolynomial_shiftLeft, add_assoc, shape]
    cases word.getLsbD degree
    · rw [if_neg Bool.false_ne_true, if_neg Bool.false_ne_true, wordPolynomial_zero, add_zero]
      rfl
    · rfl
  rw [element, reduced, map_add, map_mul, AdjoinRoot.mk_X]
  cases word.getLsbD degree <;> simp [element]

theorem element_multiply (first second : BitVec (degree + 1)) :
    element modulus (multiply low first second) =
      element modulus first * element modulus second := by
  -- After `index` rounds the accumulator is the product with the highest `index` bits.
  have product := Execution.fold_invariant
    (fun index value => element modulus value =
      element modulus first * element modulus (second >>> (degree + 1 - index)))
    (degree + 1) (fun index _ value =>
      double low value ^^^ if second.getLsbD (degree - index) then first else 0) 0
    (by
      have empty : second >>> (degree + 1 - 0) = 0 := by simp [BitVec.ushiftRight_eq_zero]
      rw [empty, element_zero, mul_zero])
    (by
      intro index inside value known
      have next : degree + 1 - (index + 1) = degree - index := by omega
      have shifted : second >>> (degree - index) >>> 1 = second >>> (degree + 1 - index) := by
        rw [← BitVec.shiftRight_add]
        congr 1
        omega
      have split : element modulus (second >>> (degree - index)) =
          AdjoinRoot.root modulus * element modulus (second >>> (degree + 1 - index)) +
            if second.getLsbD (degree - index) then 1 else 0 := by
        rw [element, wordPolynomial_ushiftRight, shifted, map_add, map_mul, AdjoinRoot.mk_X,
          BitVec.getLsbD_ushiftRight]
        simp only [Nat.add_zero]
        cases second.getLsbD (degree - index) <;> simp [element]
      have chosen : element modulus (if second.getLsbD (degree - index) then first else 0) =
          element modulus first * if second.getLsbD (degree - index) then 1 else 0 := by
        cases second.getLsbD (degree - index)
        · exact (element_zero modulus).trans (mul_zero _).symm
        · exact (mul_one _).symm
      rw [next, split, element_xor, element_double shape, known, chosen]
      ring)
  rw [Nat.sub_self, BitVec.ushiftRight_zero] at product
  exact product

/-- Inverses of the words other than zero make the modulus irreducible. -/
theorem modulus_irreducible (inverse : BitVec (degree + 1) → BitVec (degree + 1))
    (inverts : ∀ word, word ≠ 0 → multiply low word (inverse word) = 1) :
    Irreducible modulus := by
  have nonzero : modulus ≠ 0 := (modulus_monic shape).ne_zero
  have field : IsField (AdjoinRoot modulus) := {
    exists_pair_ne := ⟨element modulus (0 : BitVec (degree + 1)),
      element modulus (1 : BitVec (degree + 1)), fun equal => by
        have same := element_injective shape equal
        have values := congrArg BitVec.toNat same
        simp at values⟩
    mul_comm := mul_comm
    mul_inv_cancel := by
      intro value other
      obtain ⟨word, rfl⟩ := element_surjective shape value
      refine ⟨element modulus (inverse word), ?_⟩
      rw [← element_multiply shape, inverts word, element_one]
      rintro rfl
      exact other (element_zero modulus) }
  have maximal := Ideal.Quotient.maximal_of_isField _ field
  exact ((Ideal.span_singleton_prime nonzero).mp maximal.isPrime).irreducible

end

end

end EduDevices.BinaryField
