import Gopus.Kiss.Cpx
import Mathlib.Data.Complex.Basic
import Mathlib.Algebra.BigOperators.Group.Finset
import Mathlib.Tactic.LinearCombination
import Mathlib.Tactic.NormNum.OfScientific

/-!
# The DFT over exact complex arithmetic

Over the reals a `kissCpx` holds a complex number, and each butterfly of the KISS FFT
computes a small DFT of the elements of its group. This module states that DFT and the
facts about the roots of unity the butterflies are built on: the primitive cube root
`-1/2 + e i` with `e² = 3/4` of `kf_bfly3_m1`, the fifth roots of `kf_bfly5_m1`, and `-i`,
the root of the forward 4-point DFT of `kf_bfly4_m1` and `kf_bfly4_mx`.
-/

namespace Gopus

open Complex

/-- The complex number a `kissCpx` of reals holds. -/
def KissCpx.toComplex (z : KissCpx ℝ) : ℂ := ⟨z.r, z.i⟩

@[simp] theorem KissCpx.toComplex_re (z : KissCpx ℝ) : z.toComplex.re = z.r := rfl

@[simp] theorem KissCpx.toComplex_im (z : KissCpx ℝ) : z.toComplex.im = z.i := rfl

theorem KissCpx.toComplex_injective : Function.Injective KissCpx.toComplex := by
  rintro ⟨r, i⟩ ⟨r', i'⟩ h
  rw [Complex.ext_iff] at h
  simp only [KissCpx.toComplex_re, KissCpx.toComplex_im] at h
  rw [h.1, h.2]

/-- The `kissCpx` of reals holding a complex number: an entry of a twiddle table. -/
def KissCpx.ofComplex (z : ℂ) : KissCpx ℝ := ⟨z.re, z.im⟩

@[simp] theorem KissCpx.toComplex_ofComplex (z : ℂ) : (KissCpx.ofComplex z).toComplex = z :=
  Complex.eta z

/-- The literal `0.5f` over the reals. -/
theorem real_half : (0.5 : ℝ) = 1 / 2 := by norm_num

/-- The `s`-point DFT of `x` with root `w`, at frequency `k`. -/
def dft {R : Type} [CommSemiring R] (w : R) (s : ℕ) (x : ℕ → R) (k : ℕ) : R :=
  ∑ l in Finset.range s, x l * w ^ (k * l)

/-- With `w ^ s = 1` the powers of the root wrap around: frequency `k` multiplies `x l` by
`w ^ (k * l % s)`. -/
theorem dft_of_pow_eq_one {R : Type} [CommSemiring R] {w : R} {s : ℕ} (hw : w ^ s = 1)
    (x : ℕ → R) (k : ℕ) :
    dft w s x k = ∑ l in Finset.range s, x l * w ^ (k * l % s) :=
  Finset.sum_congr rfl fun l _ => by rw [← pow_eq_pow_mod _ hw]

/-! ### The cube root of `kf_bfly3_m1` -/

section CubeRoot

variable {e : ℝ} (he : e ^ 2 = 3 / 4)
include he

/-- `-1/2 + e i` squares to its conjugate. -/
theorem cubeRoot_sq : (⟨-1 / 2, e⟩ : ℂ) ^ 2 = ⟨-1 / 2, -e⟩ := by
  apply Complex.ext
  · simp [sq]
    linear_combination -he
  · simp [sq]
    ring

/-- `-1/2 + e i` is a cube root of unity. -/
theorem cubeRoot_pow_three : (⟨-1 / 2, e⟩ : ℂ) ^ 3 = 1 := by
  rw [pow_succ, cubeRoot_sq he]
  apply Complex.ext
  · simp
    linear_combination he
  · simp
    ring

end CubeRoot

/-! ### The fifth roots of `kf_bfly5_m1` -/

section FifthRoot

variable {w : ℂ} (hw : w ^ 5 = 1)
include hw

/-- A fifth root of unity lies on the unit circle, so its inverse `w⁴` is its conjugate. -/
theorem fifthRoot_pow_four : w ^ 4 = (starRingEnd ℂ) w := by
  have hn : Complex.normSq w = 1 := by
    have h := congrArg Complex.normSq hw
    rw [map_pow, map_one] at h
    exact (pow_eq_one_iff_of_nonneg (Complex.normSq_nonneg w) (by norm_num)).mp h
  have hw0 : w ≠ 0 := by
    rintro rfl
    norm_num at hw
  apply mul_left_cancel₀ hw0
  rw [← pow_succ', hw, Complex.mul_conj, hn, Complex.ofReal_one]

/-- Likewise `w³ = w⁻²` is the conjugate of `w²`. -/
theorem fifthRoot_pow_three : w ^ 3 = (starRingEnd ℂ) (w ^ 2) := by
  rw [map_pow, ← fifthRoot_pow_four hw, ← pow_mul, show 4 * 2 = 5 + 3 by rfl, pow_add, hw,
    one_mul]

end FifthRoot

/-! ### The root `-i` of the forward 4-point DFT -/

theorem negI_sq : (-I) ^ 2 = -1 := by simp [sq]

theorem negI_pow_three : (-I) ^ 3 = I := by simp [pow_succ]

theorem negI_pow_four : (-I) ^ 4 = 1 := by simp [pow_succ]

end Gopus
