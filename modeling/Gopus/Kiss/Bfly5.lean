import Gopus.Kiss.Dft
import Mathlib.RingTheory.RootsOfUnity.Complex

/-!
# `kf_bfly5_m1`

The radix-5 butterfly for `m = 1`: `n` groups of five elements, group `i` at
`fout + i * mm`, each rewritten in place from the twiddles `ya = tw[fstride]` and
`yb = tw[2 * fstride]`. The kernel folds the group into the sums `f1 + f4`, `f2 + f3` and
the differences `f1 - f4`, `f2 - f3`, and pairs the sums with the real parts of the
twiddles and the lane-swapped differences with their imaginary parts. Over exact
arithmetic, with `ya = w` and `yb = w²` for a fifth root of unity `w`, this is the 5-point
DFT with root `w`: the conjugate symmetry `w⁴ = conj w`, `w³ = conj w²` is what the
folding uses.

The indices `2 * fstride` and `i * mm` are C `int` products; the model takes them in `ℤ`,
which is what the source computes when `2 * fstride` and `(n - 1) * mm` lie in
`[-2 ^ 31, 2 ^ 31)`, so that no `int` product overflows.
-/

namespace Gopus

variable {α : Type} [Add α] [Sub α] [Mul α] [Neg α]

/-- The body of `kf_bfly5_m1`'s loop between its loads and its stores: from the elements
`f0` to `f4` of a group, the values it stores back to them. -/
def bfly5Butterfly (yaR ybR yaI ybI sign f0 f1 f2 f3 f4 : Float32x2 α) :
    Float32x2 α × Float32x2 α × Float32x2 α × Float32x2 α × Float32x2 α :=
  let scratch7 := vaddF32 f1 f4
  let scratch10 := vsubF32 f1 f4
  let scratch8 := vaddF32 f2 f3
  let scratch9 := vsubF32 f2 f3
  let f0orig := f0
  let f0 := vaddF32 f0 (vaddF32 scratch7 scratch8)
  let scratch5 := vmlaF32 (vmulF32 scratch7 yaR) scratch8 ybR
  let scratch5 := vaddF32 scratch5 f0orig
  let s10swap := vrev64F32 scratch10
  let s9swap := vrev64F32 scratch9
  let scratch6 := vmlaF32 (vmulF32 s10swap yaI) s9swap ybI
  let scratch6 := vmulF32 scratch6 sign
  let f1out := vsubF32 scratch5 scratch6
  let f4out := vaddF32 scratch5 scratch6
  let scratch11 := vmlaF32 (vmulF32 scratch7 ybR) scratch8 yaR
  let scratch11 := vaddF32 scratch11 f0orig
  let scratch12 := vmlaF32 (vmulF32 s9swap yaI) (vnegF32 s10swap) ybI
  let scratch12 := vmulF32 scratch12 sign
  let f2out := vaddF32 scratch11 scratch12
  let f3out := vsubF32 scratch11 scratch12
  (f0, f1out, f2out, f3out, f4out)

/-- One iteration of `kf_bfly5_m1`'s loop, on the group at `f = fout + i * mm`. -/
def bfly5Group (yaR ybR yaI ybI sign : Float32x2 α) (f : ℤ) : Kernel (KissCpx α) Unit := do
  let f0 ← vld1F32Cpx f
  let f1 ← vld1F32Cpx (f + 1)
  let f2 ← vld1F32Cpx (f + 2)
  let f3 ← vld1F32Cpx (f + 3)
  let f4 ← vld1F32Cpx (f + 4)
  let out := bfly5Butterfly yaR ybR yaI ybI sign f0 f1 f2 f3 f4
  vst1F32Cpx f out.1
  vst1F32Cpx (f + 1) out.2.1
  vst1F32Cpx (f + 2) out.2.2.1
  vst1F32Cpx (f + 3) out.2.2.2.1
  vst1F32Cpx (f + 4) out.2.2.2.2

/-- `kf_bfly5_m1(fout, tw, fstride, n, mm)`. -/
def kfBfly5M1 [One α] (tw : ℤ → KissCpx α) (fstride n mm : ℤ) : Kernel (KissCpx α) Unit :=
  if n ≤ 0 then pure () else do
    let ya ← fetch .tw tw fstride
    let yb ← fetch .tw tw (2 * fstride)
    let yaR := vdupNF32 ya.r
    let ybR := vdupNF32 yb.r
    let yaI := vdupNF32 ya.i
    let ybI := vdupNF32 yb.i
    let sign : Float32x2 α := ⟨1, -1⟩
    let _ ← forStep n 0 1 (fun i _ => bfly5Group yaR ybR yaI ybI sign (i * mm)) 0 ()
    pure ()

/-- The stores of the group at `f`, computed from the array `mem`. -/
def bfly5Writes (yaR ybR yaI ybI sign : Float32x2 α) (f : ℤ) (mem : ℤ → KissCpx α) :
    List (ℤ × KissCpx α) :=
  let out := bfly5Butterfly yaR ybR yaI ybI sign (mem f).lanes (mem (f + 1)).lanes
    (mem (f + 2)).lanes (mem (f + 3)).lanes (mem (f + 4)).lanes
  [(f, out.1.toCpx), (f + 1, out.2.1.toCpx), (f + 2, out.2.2.1.toCpx),
    (f + 3, out.2.2.2.1.toCpx), (f + 4, out.2.2.2.2.toCpx)]

theorem bfly5Group_run (yaR ybR yaI ybI sign : Float32x2 α) (f : ℤ) (h : Heap (KissCpx α)) :
    (bfly5Group yaR ybR yaI ybI sign f).run h =
      ((), { mem := storeAll h.mem (bfly5Writes yaR ybR yaI ybI sign f h.mem),
             log := [.store .fout (f + 4), .store .fout (f + 3), .store .fout (f + 2),
               .store .fout (f + 1), .store .fout f, .load .fout (f + 4), .load .fout (f + 3),
               .load .fout (f + 2), .load .fout (f + 1), .load .fout f] ++ h.log }) :=
  rfl

/-- Group `g` of `kf_bfly5_m1` as a cell of an in-place pass. -/
def bfly5Pass (yaR ybR yaI ybI sign : Float32x2 α) (mm : ℤ) : InPlace ℤ (KissCpx α) where
  slots g := [g * mm, g * mm + 1, g * mm + 2, g * mm + 3, g * mm + 4]
  writes g := bfly5Writes yaR ybR yaI ybI sign (g * mm)
  addrs _ _ := rfl
  consistent g _ := consistent_of_nodup (by
    simp only [bfly5Writes, List.map_cons, List.map_nil, List.nodup_cons, List.mem_cons,
      List.mem_singleton, List.not_mem_nil, or_false, List.nodup_nil, not_false_eq_true,
      and_true]
    omega)
  isLocal g mem mem' h := by
    simp only [bfly5Writes, h (g * mm) (by simp), h (g * mm + 1) (by simp),
      h (g * mm + 2) (by simp), h (g * mm + 3) (by simp), h (g * mm + 4) (by simp)]

/-- `kf_bfly5_m1` does every group `g < n` from the original array and leaves every other
element, whatever the arithmetic, when the groups do not overlap. -/
theorem kfBfly5M1_done [One α] (tw : ℤ → KissCpx α) (fstride n mm : ℤ) (hmm : 5 ≤ mm ∨ n ≤ 1)
    (fout : ℤ → KissCpx α) :
    (bfly5Pass (vdupNF32 (tw fstride).r) (vdupNF32 (tw (2 * fstride)).r)
      (vdupNF32 (tw fstride).i) (vdupNF32 (tw (2 * fstride)).i) ⟨1, -1⟩ mm).Done
      (fun g => 0 ≤ g ∧ g < n) fout ((kfBfly5M1 tw fstride n mm).call fout).mem := by
  unfold Kernel.call kfBfly5M1
  split
  · exact (InPlace.done_none _ fout).congr fun g => ⟨False.elim, fun hg => by omega⟩
  · refine forStep_cells (bfly5Pass (vdupNF32 (tw fstride).r) (vdupNF32 (tw (2 * fstride)).r)
      (vdupNF32 (tw fstride).i) (vdupNF32 (tw (2 * fstride)).i) ⟨1, -1⟩ mm) mm n hmm
      (by norm_num) (fun g p hp => ?_)
      (fun i => bfly5Group (vdupNF32 (tw fstride).r) (vdupNF32 (tw (2 * fstride)).r)
        (vdupNF32 (tw fstride).i) (vdupNF32 (tw (2 * fstride)).i) ⟨1, -1⟩ (i * mm))
      (fun _ _ => rfl) ⟨fout, [.load .tw (2 * fstride), .load .tw fstride]⟩
    simp only [bfly5Pass, List.mem_cons, List.not_mem_nil, or_false] at hp
    omega

/-- A group at `f` reads and writes only its five elements. -/
theorem bfly5Group_footprint (yaR ybR yaI ybI sign : Float32x2 α) (f : ℤ)
    (h : Heap (KissCpx α)) :
    ∀ e ∈ ((bfly5Group yaR ybR yaI ybI sign f).run h).2.log,
      e ∈ h.log ∨ foutSpan f 5 e := by
  intro e he
  rw [bfly5Group_run, List.mem_append] at he
  refine he.symm.imp id fun he => ?_
  simp only [List.mem_cons, List.not_mem_nil, or_false] at he
  rcases he with rfl | rfl | rfl | rfl | rfl | rfl | rfl | rfl | rfl | rfl <;>
    exact ⟨by omega, by omega⟩

/-- `kf_bfly5_m1` loads only the twiddles `tw[fstride]` and `tw[2 * fstride]`, and reads and
writes only the elements of its groups `g < n`, `fout[g * mm .. g * mm + 4]`. -/
theorem kfBfly5M1_footprint [One α] (tw : ℤ → KissCpx α) (fstride n mm : ℤ)
    (fout : ℤ → KissCpx α) :
    ∀ e ∈ ((kfBfly5M1 tw fstride n mm).call fout).log, e = .load .tw fstride ∨
      e = .load .tw (2 * fstride) ∨ ∃ g, 0 ≤ g ∧ g < n ∧ foutSpan (g * mm) 5 e := by
  unfold Kernel.call kfBfly5M1
  split
  · exact fun e he => absurd he (List.not_mem_nil e)
  · intro e he
    rcases forStep_groups_accesses n
      (fun i => bfly5Group (vdupNF32 (tw fstride).r) (vdupNF32 (tw (2 * fstride)).r)
        (vdupNF32 (tw fstride).i) (vdupNF32 (tw (2 * fstride)).i) ⟨1, -1⟩ (i * mm))
      (fun g => foutSpan (g * mm) 5) (fun g h _ => bfly5Group_footprint _ _ _ _ _ (g * mm) h)
      ⟨fout, [.load .tw (2 * fstride), .load .tw fstride]⟩ e he with he | he
    · simp only [List.mem_cons, List.not_mem_nil, or_false] at he
      rcases he with rfl | rfl
      exacts [.inr (.inl rfl), .inl rfl]
    · exact .inr (.inr he)

theorem kfBfly5M1_footprint_one_group :
    Access.store .fout 4 ∈
        ((kfBfly5M1 (fun _ => (⟨0, 0⟩ : KissCpx ℚ)) 1 1 5).call fun _ => ⟨0, 0⟩).log ∧
      (Access.store .fout 4 = .load .tw 1 ∨ Access.store .fout 4 = .load .tw (2 * 1) ∨
        ∃ g, 0 ≤ g ∧ g < 1 ∧ foutSpan (g * 5) 5 (.store .fout 4)) := by
  have h : Access.store .fout 4 ∈
      ((kfBfly5M1 (fun _ => (⟨0, 0⟩ : KissCpx ℚ)) 1 1 5).call fun _ => ⟨0, 0⟩).log := by
    unfold Kernel.call kfBfly5M1
    rw [if_neg (by decide)]
    show _ ∈ ((forStep 1 0 1 (fun i _ => bfly5Group (vdupNF32 (0 : ℚ)) (vdupNF32 0)
      (vdupNF32 0) (vdupNF32 0) ⟨1, -1⟩ (i * 5)) 0 ()).run
      ⟨_, [.load .tw (2 * 1), .load .tw 1]⟩).2.log
    rw [forStep_eq, if_pos (by decide), forStep_run_of_not_lt _ _ (by decide), bfly5Group_run]
    simp
  exact ⟨h, kfBfly5M1_footprint _ 1 1 5 _ _ h⟩

/-! ### Over exact complex arithmetic -/

/-- Over the reals, with twiddles `a` and `b = a²` where `a⁵ = 1`, the stores of a group are
its 5-point DFT with root `a`. -/
theorem bfly5Writes_dft {a b : KissCpx ℝ} (ha : a.toComplex ^ 5 = 1)
    (hb : b.toComplex = a.toComplex ^ 2) (f : ℤ) (mem : ℤ → KissCpx ℝ) (k : ℕ) (hk : k < 5) :
    ∃ v, (f + k, v) ∈ bfly5Writes (vdupNF32 a.r) (vdupNF32 b.r) (vdupNF32 a.i) (vdupNF32 b.i)
        ⟨1, -1⟩ f mem ∧
      v.toComplex = dft a.toComplex 5 (fun l => (mem (f + l)).toComplex) k := by
  rw [dft_of_pow_eq_one ha]
  obtain rfl | rfl | rfl | rfl | rfl : k = 0 ∨ k = 1 ∨ k = 2 ∨ k = 3 ∨ k = 4 := by omega
  all_goals simp only [Nat.cast_zero, Nat.cast_one, Nat.cast_ofNat, add_zero]
  on_goal 1 => refine ⟨_, List.mem_cons_self _ _, ?_⟩
  on_goal 2 => refine ⟨_, List.mem_cons_of_mem _ (List.mem_cons_self _ _), ?_⟩
  on_goal 3 => refine ⟨_, List.mem_cons_of_mem _ (List.mem_cons_of_mem _
    (List.mem_cons_self _ _)), ?_⟩
  on_goal 4 => refine ⟨_, List.mem_cons_of_mem _ (List.mem_cons_of_mem _
    (List.mem_cons_of_mem _ (List.mem_cons_self _ _))), ?_⟩
  on_goal 5 => refine ⟨_, List.mem_cons_of_mem _ (List.mem_cons_of_mem _
    (List.mem_cons_of_mem _ (List.mem_cons_of_mem _ (List.mem_cons_self _ _)))), ?_⟩
  all_goals
    simp only [Finset.sum_range_succ, Finset.sum_range_zero, zero_add, Nat.cast_zero,
      Nat.cast_one, Nat.cast_ofNat, add_zero, Nat.reduceMul, Nat.reduceMod, pow_zero, pow_one,
      mul_one, fifthRoot_pow_four ha, fifthRoot_pow_three ha, ← hb]
    apply Complex.ext <;>
      simp only [bfly5Butterfly, vaddF32, vsubF32, vmulF32, vmlaF32, vnegF32, vdupNF32,
        vrev64F32, KissCpx.lanes, Float32x2.toCpx, KissCpx.toComplex_re, KissCpx.toComplex_im,
        Complex.add_re, Complex.add_im, Complex.mul_re, Complex.mul_im, Complex.conj_re,
        Complex.conj_im] <;> ring

/-- Over exact complex arithmetic, with `tw[fstride] = w` and `tw[2 * fstride] = w²` for a
fifth root of unity `w`, `kf_bfly5_m1` replaces each group `g < n` by its 5-point DFT with
root `w`, and leaves every element outside the groups as it was, when the groups do not
overlap. -/
theorem kfBfly5M1_dft (tw : ℤ → KissCpx ℝ) (fstride n mm : ℤ) (hmm : 5 ≤ mm ∨ n ≤ 1) (w : ℂ)
    (hw : w ^ 5 = 1) (ha : (tw fstride).toComplex = w) (hb : (tw (2 * fstride)).toComplex = w ^ 2)
    (fout : ℤ → KissCpx ℝ) :
    (∀ g, 0 ≤ g → g < n → ∀ k : ℕ, k < 5 →
      (((kfBfly5M1 tw fstride n mm).call fout).mem (g * mm + k)).toComplex =
        dft w 5 (fun l => (fout (g * mm + l)).toComplex) k) ∧
    (∀ p, (∀ g, 0 ≤ g → g < n → ¬ (g * mm ≤ p ∧ p < g * mm + 5)) →
      ((kfBfly5M1 tw fstride n mm).call fout).mem p = fout p) := by
  subst ha
  have hdone := kfBfly5M1_done tw fstride n mm hmm fout
  refine ⟨fun g hg0 hg k hk => ?_, fun p hp => hdone.2 p fun g ⟨hg0, hg⟩ hpg => ?_⟩
  · obtain ⟨v, hv, hval⟩ := bfly5Writes_dft hw hb (g * mm) fout k hk
    rw [hdone.1 g ⟨hg0, hg⟩ _ hv]
    exact hval
  · simp only [bfly5Pass, List.mem_cons, List.not_mem_nil, or_false] at hpg
    exact hp g hg0 hg (by omega)

/-- Two adjacent groups with the primitive fifth root `w = exp (2πi / 5)`, read from the
table `tw[k] = w ^ k`. -/
theorem kfBfly5M1_dft_primitive :
    ∃ w : ℂ, IsPrimitiveRoot w 5 ∧ ((5 : ℤ) ≤ 5 ∨ (2 : ℤ) ≤ 1) ∧ w ^ 5 = 1 ∧
      (KissCpx.ofComplex (w ^ (1 : ℤ).toNat)).toComplex = w ∧
      (KissCpx.ofComplex (w ^ (2 * 1 : ℤ).toNat)).toComplex = w ^ 2 ∧
      (∀ g, 0 ≤ g → g < 2 → ∀ k : ℕ, k < 5 →
        (((kfBfly5M1 (fun k => KissCpx.ofComplex (w ^ k.toNat)) 1 2 5).call
          fun p => ⟨p, 0⟩).mem (g * 5 + k)).toComplex =
          dft w 5 (fun l => (⟨(g * 5 + l : ℤ), 0⟩ : KissCpx ℝ).toComplex) k) ∧
      (∀ p, (∀ g, 0 ≤ g → g < 2 → ¬ (g * 5 ≤ p ∧ p < g * 5 + 5)) →
        ((kfBfly5M1 (fun k => KissCpx.ofComplex (w ^ k.toNat)) 1 2 5).call
          fun p => ⟨p, 0⟩).mem p = ⟨p, 0⟩) := by
  have hw := Complex.isPrimitiveRoot_exp 5 (by decide)
  have ha : (KissCpx.ofComplex
      (Complex.exp (2 * Real.pi * Complex.I / (5 : ℕ)) ^ (1 : ℤ).toNat)).toComplex =
      Complex.exp (2 * Real.pi * Complex.I / (5 : ℕ)) := by
    rw [KissCpx.toComplex_ofComplex, Int.toNat_one, pow_one]
  have hb : (KissCpx.ofComplex
      (Complex.exp (2 * Real.pi * Complex.I / (5 : ℕ)) ^ (2 * 1 : ℤ).toNat)).toComplex =
      Complex.exp (2 * Real.pi * Complex.I / (5 : ℕ)) ^ 2 := by
    rw [KissCpx.toComplex_ofComplex]
    rfl
  exact ⟨_, hw, .inl le_rfl, hw.pow_eq_one, ha, hb, kfBfly5M1_dft _ 1 2 5 (.inl le_rfl) _
    hw.pow_eq_one ha hb fun p => ⟨p, 0⟩⟩

end Gopus
