import Gopus.Kiss.Dft
import Gopus.InPlace
import Mathlib.Data.Real.Sqrt

/-!
# `kf_bfly3_m1`

The radix-3 butterfly for `m = 1`: `n` groups of three elements, group `i` at
`fout + i * mm`, each rewritten in place. The kernel reads the twiddle `tw[fstride]` only
for its imaginary part `epi` and takes its real part to be `-1/2`, through `half`; over
exact arithmetic, with `epi² = 3/4`, it replaces each group by its 3-point DFT with root
`-1/2 + epi i`.

The group offset `i * mm` is a C `int` product; the model takes it in `ℤ`, which is what
the source computes when `(n - 1) * mm` lies in `[-2 ^ 31, 2 ^ 31)`, so that no `int`
product of the loop overflows.
-/

namespace Gopus

variable {α : Type} [Add α] [Sub α] [Mul α]

/-- The body of `kf_bfly3_m1`'s loop between its loads and its stores: from the elements
`f0`, `f1`, `f2` of a group, the values it stores back to them. -/
def bfly3Butterfly (epi half sign f0 f1 f2 : Float32x2 α) :
    Float32x2 α × Float32x2 α × Float32x2 α :=
  let scratch3 := vaddF32 f1 f2
  let scratch0 := vsubF32 f1 f2
  let f1out := vsubF32 f0 (vmulF32 scratch3 half)
  let scratch0 := vmulF32 scratch0 epi
  let f0 := vaddF32 f0 scratch3
  let scratch0swap := vrev64F32 scratch0
  let scratch0rot := vmulF32 scratch0swap sign
  let f2out := vaddF32 f1out scratch0rot
  let f1out := vsubF32 f1out scratch0rot
  (f0, f1out, f2out)

/-- One iteration of `kf_bfly3_m1`'s loop, on the group at `f = fout + i * mm`. -/
def bfly3Group (epi half sign : Float32x2 α) (f : ℤ) : Kernel (KissCpx α) Unit := do
  let f0 ← vld1F32Cpx f
  let f1 ← vld1F32Cpx (f + 1)
  let f2 ← vld1F32Cpx (f + 2)
  let out := bfly3Butterfly epi half sign f0 f1 f2
  vst1F32Cpx f out.1
  vst1F32Cpx (f + 1) out.2.1
  vst1F32Cpx (f + 2) out.2.2

/-- `kf_bfly3_m1(fout, tw, fstride, n, mm)`. -/
def kfBfly3M1 [Neg α] [One α] [OfScientific α] (tw : ℤ → KissCpx α) (fstride n mm : ℤ) :
    Kernel (KissCpx α) Unit :=
  if n ≤ 0 then pure () else do
    let t ← fetch .tw tw fstride
    let epi := vdupNF32 t.i
    let half := vdupNF32 0.5
    let sign : Float32x2 α := ⟨1, -1⟩
    let _ ← forStep n 0 1 (fun i _ => bfly3Group epi half sign (i * mm)) 0 ()
    pure ()

/-- The stores of the group at `f`, computed from the array `mem`. -/
def bfly3Writes (epi half sign : Float32x2 α) (f : ℤ) (mem : ℤ → KissCpx α) :
    List (ℤ × KissCpx α) :=
  let out := bfly3Butterfly epi half sign (mem f).lanes (mem (f + 1)).lanes (mem (f + 2)).lanes
  [(f, out.1.toCpx), (f + 1, out.2.1.toCpx), (f + 2, out.2.2.toCpx)]

theorem bfly3Group_run (epi half sign : Float32x2 α) (f : ℤ) (h : Heap (KissCpx α)) :
    (bfly3Group epi half sign f).run h =
      ((), { mem := storeAll h.mem (bfly3Writes epi half sign f h.mem),
             log := [.store .fout (f + 2), .store .fout (f + 1), .store .fout f,
               .load .fout (f + 2), .load .fout (f + 1), .load .fout f] ++ h.log }) :=
  rfl

/-- Group `g` of `kf_bfly3_m1` as a cell of an in-place pass. -/
def bfly3Pass (epi half sign : Float32x2 α) (mm : ℤ) : InPlace ℤ (KissCpx α) where
  slots g := [g * mm, g * mm + 1, g * mm + 2]
  writes g := bfly3Writes epi half sign (g * mm)
  addrs _ _ := rfl
  consistent g _ := consistent_of_nodup (by
    simp only [bfly3Writes, List.map_cons, List.map_nil, List.nodup_cons, List.mem_cons,
      List.mem_singleton, List.not_mem_nil, or_false, List.nodup_nil, not_false_eq_true,
      and_true]
    omega)
  isLocal g mem mem' h := by
    simp only [bfly3Writes, h (g * mm) (by simp), h (g * mm + 1) (by simp),
      h (g * mm + 2) (by simp)]

/-- `kf_bfly3_m1` does every group `g < n` from the original array and leaves every other
element, whatever the arithmetic, when the groups do not overlap. -/
theorem kfBfly3M1_done [Neg α] [One α] [OfScientific α] (tw : ℤ → KissCpx α)
    (fstride n mm : ℤ) (hmm : 3 ≤ mm ∨ n ≤ 1) (fout : ℤ → KissCpx α) :
    (bfly3Pass (vdupNF32 (tw fstride).i) (vdupNF32 0.5) ⟨1, -1⟩ mm).Done
      (fun g => 0 ≤ g ∧ g < n) fout ((kfBfly3M1 tw fstride n mm).call fout).mem := by
  unfold Kernel.call kfBfly3M1
  split
  · exact (InPlace.done_none _ fout).congr fun g => ⟨False.elim, fun hg => by omega⟩
  · refine forStep_cells (bfly3Pass (vdupNF32 (tw fstride).i) (vdupNF32 0.5) ⟨1, -1⟩ mm) mm n
      hmm (by norm_num) (fun g p hp => ?_)
      (fun i => bfly3Group (vdupNF32 (tw fstride).i) (vdupNF32 0.5) ⟨1, -1⟩ (i * mm))
      (fun _ _ => rfl) ⟨fout, [.load .tw fstride]⟩
    simp only [bfly3Pass, List.mem_cons, List.not_mem_nil, or_false] at hp
    omega

/-- A group at `f` reads and writes only its three elements. -/
theorem bfly3Group_footprint (epi half sign : Float32x2 α) (f : ℤ) (h : Heap (KissCpx α)) :
    ∀ e ∈ ((bfly3Group epi half sign f).run h).2.log, e ∈ h.log ∨ foutSpan f 3 e := by
  intro e he
  rw [bfly3Group_run, List.mem_append] at he
  refine he.symm.imp id fun he => ?_
  simp only [List.mem_cons, List.not_mem_nil, or_false] at he
  rcases he with rfl | rfl | rfl | rfl | rfl | rfl <;> exact ⟨by omega, by omega⟩

/-- `kf_bfly3_m1` loads only the twiddle `tw[fstride]`, and reads and writes only the
elements of its groups `g < n`, `fout[g * mm .. g * mm + 2]`. -/
theorem kfBfly3M1_footprint [Neg α] [One α] [OfScientific α] (tw : ℤ → KissCpx α)
    (fstride n mm : ℤ) (fout : ℤ → KissCpx α) :
    ∀ e ∈ ((kfBfly3M1 tw fstride n mm).call fout).log,
      e = .load .tw fstride ∨ ∃ g, 0 ≤ g ∧ g < n ∧ foutSpan (g * mm) 3 e := by
  unfold Kernel.call kfBfly3M1
  split
  · exact fun e he => absurd he (List.not_mem_nil e)
  · intro e he
    rcases forStep_groups_accesses n
      (fun i => bfly3Group (vdupNF32 (tw fstride).i) (vdupNF32 0.5) ⟨1, -1⟩ (i * mm))
      (fun g => foutSpan (g * mm) 3) (fun g h _ => bfly3Group_footprint _ _ _ (g * mm) h)
      ⟨fout, [.load .tw fstride]⟩ e he with he | he
    · exact .inl (List.mem_singleton.1 he)
    · exact .inr he

theorem kfBfly3M1_footprint_one_group :
    Access.store .fout 2 ∈
        ((kfBfly3M1 (fun _ => (⟨0, 0⟩ : KissCpx ℚ)) 1 1 3).call fun _ => ⟨0, 0⟩).log ∧
      (Access.store .fout 2 = .load .tw 1 ∨
        ∃ g, 0 ≤ g ∧ g < 1 ∧ foutSpan (g * 3) 3 (.store .fout 2)) := by
  have h : Access.store .fout 2 ∈
      ((kfBfly3M1 (fun _ => (⟨0, 0⟩ : KissCpx ℚ)) 1 1 3).call fun _ => ⟨0, 0⟩).log := by
    unfold Kernel.call kfBfly3M1
    rw [if_neg (by decide)]
    show _ ∈ ((forStep 1 0 1
      (fun i _ => bfly3Group (vdupNF32 (0 : ℚ)) (vdupNF32 0.5) ⟨1, -1⟩ (i * 3)) 0 ()).run
      ⟨_, [.load .tw 1]⟩).2.log
    rw [forStep_eq, if_pos (by decide), forStep_run_of_not_lt _ _ (by decide), bfly3Group_run]
    simp
  exact ⟨h, kfBfly3M1_footprint _ 1 1 3 _ _ h⟩

/-! ### Over exact complex arithmetic -/

/-- Over the reals, with `e² = 3/4`, the stores of a group are its 3-point DFT with root
`-1/2 + e i`. -/
theorem bfly3Writes_dft {e : ℝ} (he : e ^ 2 = 3 / 4) (f : ℤ) (mem : ℤ → KissCpx ℝ) (k : ℕ)
    (hk : k < 3) :
    ∃ v, (f + k, v) ∈ bfly3Writes (vdupNF32 e) (vdupNF32 0.5) ⟨1, -1⟩ f mem ∧
      v.toComplex = dft ⟨-1 / 2, e⟩ 3 (fun l => (mem (f + l)).toComplex) k := by
  rw [dft_of_pow_eq_one (cubeRoot_pow_three he)]
  obtain rfl | rfl | rfl : k = 0 ∨ k = 1 ∨ k = 2 := by omega
  all_goals simp only [Nat.cast_zero, Nat.cast_one, Nat.cast_ofNat, add_zero]
  on_goal 1 => refine ⟨_, List.mem_cons_self _ _, ?_⟩
  on_goal 2 => refine ⟨_, List.mem_cons_of_mem _ (List.mem_cons_self _ _), ?_⟩
  on_goal 3 => refine ⟨_, List.mem_cons_of_mem _ (List.mem_cons_of_mem _
    (List.mem_cons_self _ _)), ?_⟩
  all_goals
    simp only [Finset.sum_range_succ, Finset.sum_range_zero, zero_add, Nat.cast_zero,
      Nat.cast_one, Nat.cast_ofNat, add_zero, Nat.reduceMul, Nat.reduceMod, pow_zero, pow_one,
      mul_one, cubeRoot_sq he]
    apply Complex.ext <;>
      simp only [bfly3Butterfly, vaddF32, vsubF32, vmulF32, vdupNF32, vrev64F32,
        KissCpx.lanes, Float32x2.toCpx, real_half, KissCpx.toComplex_re, KissCpx.toComplex_im,
        Complex.add_re, Complex.add_im, Complex.mul_re, Complex.mul_im] <;> ring

/-- Over exact complex arithmetic, with `tw[fstride].i² = 3/4`, `kf_bfly3_m1` replaces each
group `g < n` by its 3-point DFT with root `-1/2 + tw[fstride].i i`, and leaves every
element outside the groups as it was, when the groups do not overlap. -/
theorem kfBfly3M1_dft (tw : ℤ → KissCpx ℝ) (fstride n mm : ℤ) (hmm : 3 ≤ mm ∨ n ≤ 1)
    (he : (tw fstride).i ^ 2 = 3 / 4) (fout : ℤ → KissCpx ℝ) :
    (∀ g, 0 ≤ g → g < n → ∀ k : ℕ, k < 3 →
      (((kfBfly3M1 tw fstride n mm).call fout).mem (g * mm + k)).toComplex =
        dft ⟨-1 / 2, (tw fstride).i⟩ 3 (fun l => (fout (g * mm + l)).toComplex) k) ∧
    (∀ p, (∀ g, 0 ≤ g → g < n → ¬ (g * mm ≤ p ∧ p < g * mm + 3)) →
      ((kfBfly3M1 tw fstride n mm).call fout).mem p = fout p) := by
  have hdone := kfBfly3M1_done tw fstride n mm hmm fout
  refine ⟨fun g hg0 hg k hk => ?_, fun p hp => hdone.2 p fun g ⟨hg0, hg⟩ hpg => ?_⟩
  · obtain ⟨v, hv, hval⟩ := bfly3Writes_dft he (g * mm) fout k hk
    rw [hdone.1 g ⟨hg0, hg⟩ _ hv]
    exact hval
  · simp only [bfly3Pass, List.mem_cons, List.not_mem_nil, or_false] at hpg
    exact hp g hg0 hg (by omega)

/-- Two adjacent groups with the root `-1/2 + (√3/2) i`. -/
theorem kfBfly3M1_dft_sqrt3 :
    ((3 : ℤ) ≤ 3 ∨ (2 : ℤ) ≤ 1) ∧ (Real.sqrt 3 / 2) ^ 2 = 3 / 4 ∧
    (∀ g, 0 ≤ g → g < 2 → ∀ k : ℕ, k < 3 →
      (((kfBfly3M1 (fun _ => ⟨-1 / 2, Real.sqrt 3 / 2⟩) 1 2 3).call
        fun p => ⟨p, 0⟩).mem (g * 3 + k)).toComplex =
        dft ⟨-1 / 2, Real.sqrt 3 / 2⟩ 3 (fun l => (⟨(g * 3 + l : ℤ), 0⟩ : KissCpx ℝ).toComplex) k) ∧
    (∀ p, (∀ g, 0 ≤ g → g < 2 → ¬ (g * 3 ≤ p ∧ p < g * 3 + 3)) →
      ((kfBfly3M1 (fun _ => ⟨-1 / 2, Real.sqrt 3 / 2⟩) 1 2 3).call fun p => ⟨p, 0⟩).mem p =
        ⟨p, 0⟩) := by
  have he : (Real.sqrt 3 / 2) ^ 2 = 3 / 4 := by
    rw [div_pow, Real.sq_sqrt (by norm_num)]
    norm_num
  exact ⟨.inl le_rfl, he, kfBfly3M1_dft (fun _ => ⟨-1 / 2, Real.sqrt 3 / 2⟩) 1 2 3 (.inl le_rfl) he
    fun p => ⟨p, 0⟩⟩

end Gopus
