import Gopus.Kiss.Dft

/-!
# `kf_bfly4_m1`

The radix-4 butterfly for `m = 1`: `n` contiguous groups of four elements, the cursor
`fout` advancing by four after each. Each group is loaded as two vectors, the sums and
differences of elements `0, 2` and `1, 3` are formed lane-wise, and the rotation of
`f1 - f3` by `∓i` that outputs 1 and 3 need is a lane swap followed by a flip of one
sign bit, `veor_u32` with the masks `signpos` and `signneg`. Over exact arithmetic each
group becomes its forward 4-point DFT, with root `-i`.
-/

namespace Gopus

variable {α : Type} [Add α] [Sub α] [Neg α]

/-- The body of `kf_bfly4_m1`'s loop between its loads and its stores: from `a`, elements
`f[0]`, `f[1]`, and `b`, elements `f[2]`, `f[3]`, the vectors it stores at `f[0]` and
`f[2]`. -/
def bfly4M1Butterfly (a b : Float32x4 α) : Float32x4 α × Float32x4 α :=
  let t0 := vaddqF32 a b
  let t1 := vsubqF32 a b
  let t0swap := vextqF32 t0 t0 2
  let aout := vaddqF32 t0 t0swap
  let cout := vsubqF32 t0 t0swap
  let s0 := vgetLowF32 t1
  let s1 := vgetHighF32 t1
  let s1swap := vrev64F32 s1
  let signpos : Float32x2 UInt32 := ⟨0, 0x80000000⟩
  let signneg : Float32x2 UInt32 := ⟨0x80000000, 0⟩
  let rotpos := veorSignF32 s1swap signpos
  let rotneg := veorSignF32 s1swap signneg
  let bout := vaddF32 s0 rotpos
  let dout := vaddF32 s0 rotneg
  let out0 := vcombineF32 (vgetLowF32 aout) bout
  let out1 := vcombineF32 (vgetLowF32 cout) dout
  (out0, out1)

/-- One iteration of `kf_bfly4_m1`'s loop, on the group at the cursor `fout`; it returns
the cursor advanced. -/
def bfly4M1Group (fout : ℤ) : Kernel (KissCpx α) ℤ := do
  let a ← vld1qF32Cpx fout
  let b ← vld1qF32Cpx (fout + 2)
  let out := bfly4M1Butterfly a b
  vst1qF32Cpx fout out.1
  vst1qF32Cpx (fout + 2) out.2
  pure (fout + 4)

/-- `kf_bfly4_m1(fout, n)`. -/
def kfBfly4M1 (n : ℤ) : Kernel (KissCpx α) Unit := do
  let _ ← forStep n 0 1 (fun _ fout => bfly4M1Group fout) 0 0
  pure ()

/-- The stores of the group at `f`, computed from the array `mem`. -/
def bfly4M1Writes (f : ℤ) (mem : ℤ → KissCpx α) : List (ℤ × KissCpx α) :=
  let out := bfly4M1Butterfly (vcombineF32 (mem f).lanes (mem (f + 1)).lanes)
    (vcombineF32 (mem (f + 2)).lanes (mem (f + 2 + 1)).lanes)
  [(f, (vgetLowF32 out.1).toCpx), (f + 1, (vgetHighF32 out.1).toCpx),
    (f + 2, (vgetLowF32 out.2).toCpx), (f + 2 + 1, (vgetHighF32 out.2).toCpx)]

theorem bfly4M1Group_run (f : ℤ) (h : Heap (KissCpx α)) :
    (bfly4M1Group f).run h =
      (f + 4, { mem := storeAll h.mem (bfly4M1Writes f h.mem),
                log := [.store .fout (f + 2 + 1), .store .fout (f + 2), .store .fout (f + 1),
                  .store .fout f, .load .fout (f + 2 + 1), .load .fout (f + 2),
                  .load .fout (f + 1), .load .fout f] ++ h.log }) :=
  rfl

/-- Group `g` of `kf_bfly4_m1`, at `4 * g`, as a cell of an in-place pass. -/
def bfly4M1Pass : InPlace ℤ (KissCpx α) where
  slots g := [4 * g, 4 * g + 1, 4 * g + 2, 4 * g + 2 + 1]
  writes g := bfly4M1Writes (4 * g)
  addrs _ _ := rfl
  consistent g _ := consistent_of_nodup (by
    simp only [bfly4M1Writes, List.map_cons, List.map_nil, List.nodup_cons, List.mem_cons,
      List.mem_singleton, List.not_mem_nil, or_false, List.nodup_nil, not_false_eq_true,
      and_true]
    omega)
  isLocal g mem mem' h := by
    simp only [bfly4M1Writes, h (4 * g) (by simp), h (4 * g + 1) (by simp),
      h (4 * g + 2) (by simp), h (4 * g + 2 + 1) (by simp)]

/-- `kf_bfly4_m1` does every group `g < n` from the original array and leaves every other
element, whatever the arithmetic. -/
theorem kfBfly4M1_done (n : ℤ) (fout : ℤ → KissCpx α) :
    bfly4M1Pass.Done (fun g => 0 ≤ g ∧ g < n) fout ((kfBfly4M1 n).call fout).mem := by
  have hloop := bfly4M1Pass.forStep_groups (fun g c => c = g) (fun g => 4 * g)
    (fun _ fout => bfly4M1Group fout) n
    (fun g h _ _ => ⟨by rw [bfly4M1Group_run]; show 4 * g + 4 = 4 * (g + 1); omega, by
      rw [bfly4M1Group_run]
      exact bfly4M1Pass.done_writes g h.mem⟩)
    (by
      intro g g' hg0 hgg' hg c hc c' hc' p hp hp'
      subst c c'
      simp only [bfly4M1Pass, List.mem_cons, List.not_mem_nil, or_false] at hp hp'
      omega)
    ⟨fout, []⟩
  exact hloop.congr fun c =>
    ⟨fun ⟨g, hg0, hg, hc⟩ => hc ▸ ⟨hg0, hg⟩, fun ⟨hc0, hc⟩ => ⟨c, hc0, hc, rfl⟩⟩

/-- A group at `f` reads and writes only its four elements. -/
theorem bfly4M1Group_footprint (f : ℤ) (h : Heap (KissCpx α)) :
    ∀ e ∈ ((bfly4M1Group f).run h).2.log, e ∈ h.log ∨ foutSpan f 4 e := by
  intro e he
  rw [bfly4M1Group_run, List.mem_append] at he
  refine he.symm.imp id fun he => ?_
  simp only [List.mem_cons, List.not_mem_nil, or_false] at he
  rcases he with rfl | rfl | rfl | rfl | rfl | rfl | rfl | rfl <;> exact ⟨by omega, by omega⟩

/-- `kf_bfly4_m1` reads and writes only the elements of its groups `g < n`,
`fout[4g .. 4g + 3]`: its cursor is at `4g` when group `g` starts. -/
theorem kfBfly4M1_footprint (n : ℤ) (fout : ℤ → KissCpx α) :
    ∀ e ∈ ((kfBfly4M1 n).call fout).log, ∃ g, 0 ≤ g ∧ g < n ∧ foutSpan (4 * g) 4 e := by
  intro e he
  have hloop := forStep_accesses n 0 1 (fun _ f => (bfly4M1Group f : Kernel (KissCpx α) ℤ))
    (fun g f => 0 ≤ g ∧ f = 4 * g) (fun e => ∃ g, 0 ≤ g ∧ g < n ∧ foutSpan (4 * g) 4 e)
    (fun g f h hlt ⟨hg, hf⟩ => by
      subst hf
      refine ⟨⟨by simp only [PNat.val_ofNat, Nat.cast_ofNat]; omega, ?_⟩, fun e he => ?_⟩
      · rw [bfly4M1Group_run]
        simp only [PNat.val_ofNat, Nat.cast_ofNat]
        omega
      · exact (bfly4M1Group_footprint (4 * g) h e he).imp id fun hs => ⟨g, hg, by omega, hs⟩)
    0 0 ⟨fout, []⟩ ⟨le_rfl, rfl⟩
  exact (hloop.2 e he).resolve_left (List.not_mem_nil e)

theorem kfBfly4M1_footprint_one_group :
    Access.store .fout 3 ∈ ((kfBfly4M1 1).call fun _ => (⟨0, 0⟩ : KissCpx ℚ)).log ∧
      ∃ g, 0 ≤ g ∧ g < 1 ∧ foutSpan (4 * g) 4 (.store .fout 3) := by
  have h : Access.store .fout 3 ∈ ((kfBfly4M1 1).call fun _ => (⟨0, 0⟩ : KissCpx ℚ)).log := by
    show _ ∈ ((forStep 1 0 1 (fun _ f => (bfly4M1Group f : Kernel (KissCpx ℚ) ℤ)) 0 0).run
      ⟨_, []⟩).2.log
    rw [forStep_eq, if_pos (by decide), forStep_run_of_not_lt _ _ (by decide), bfly4M1Group_run]
    simp
  exact ⟨h, kfBfly4M1_footprint 1 _ _ h⟩

/-! ### Over exact complex arithmetic -/

open Complex in
/-- Over the reals the stores of a group are its forward 4-point DFT: the flip of the sign
of lane 1 of the swapped `f1 - f3` multiplies it by `-i`, that of lane 0 by `i`. -/
theorem bfly4M1Writes_dft (f : ℤ) (mem : ℤ → KissCpx ℝ) (k : ℕ) (hk : k < 4) :
    ∃ v, (f + k, v) ∈ bfly4M1Writes f mem ∧
      v.toComplex = dft (-I) 4 (fun l => (mem (f + l)).toComplex) k := by
  rw [dft_of_pow_eq_one negI_pow_four]
  obtain rfl | rfl | rfl | rfl : k = 0 ∨ k = 1 ∨ k = 2 ∨ k = 3 := by omega
  all_goals simp only [Nat.cast_zero, Nat.cast_one, Nat.cast_ofNat, add_zero]
  on_goal 1 => refine ⟨_, List.mem_cons_self _ _, ?_⟩
  on_goal 2 => refine ⟨_, List.mem_cons_of_mem _ (List.mem_cons_self _ _), ?_⟩
  on_goal 3 => refine ⟨_, List.mem_cons_of_mem _ (List.mem_cons_of_mem _
    (List.mem_cons_self _ _)), ?_⟩
  on_goal 4 =>
    rw [show f + 3 = f + 2 + 1 by omega]
    refine ⟨_, List.mem_cons_of_mem _ (List.mem_cons_of_mem _
      (List.mem_cons_of_mem _ (List.mem_cons_self _ _))), ?_⟩
  all_goals
    simp only [Finset.sum_range_succ, Finset.sum_range_zero, zero_add, Nat.cast_zero,
      Nat.cast_one, Nat.cast_ofNat, add_zero, Nat.reduceMul, Nat.reduceMod, pow_zero, pow_one,
      mul_one, negI_sq, negI_pow_three, show f + 3 = f + 2 + 1 by omega]
    apply Complex.ext <;>
      simp only [bfly4M1Butterfly, vaddqF32, vsubqF32, vaddF32, vcombineF32,
        vgetLowF32, vgetHighF32, vrev64F32, KissCpx.lanes, Float32x2.toCpx, Fin.isValue,
        vextqF32_two, veorSignF32_signpos, veorSignF32_signneg, KissCpx.toComplex_re,
        KissCpx.toComplex_im, add_re, add_im, mul_re, mul_im, neg_re, neg_im, I_re, I_im,
        one_re, one_im] <;> ring

open Complex in
/-- Over exact complex arithmetic `kf_bfly4_m1` replaces each group `g < n`, elements
`4g .. 4g + 3`, by its forward 4-point DFT, with root `-i`, and leaves every element
outside `[0, 4n)` as it was. -/
theorem kfBfly4M1_dft (n : ℤ) (fout : ℤ → KissCpx ℝ) :
    (∀ g, 0 ≤ g → g < n → ∀ k : ℕ, k < 4 →
      (((kfBfly4M1 n).call fout).mem (4 * g + k)).toComplex =
        dft (-I) 4 (fun l => (fout (4 * g + l)).toComplex) k) ∧
    (∀ p, ¬ (0 ≤ p ∧ p < 4 * n) → ((kfBfly4M1 n).call fout).mem p = fout p) := by
  have hdone := kfBfly4M1_done n fout
  refine ⟨fun g hg0 hg k hk => ?_, fun p hp => hdone.2 p fun g ⟨hg0, hg⟩ hpg => ?_⟩
  · obtain ⟨v, hv, hval⟩ := bfly4M1Writes_dft (4 * g) fout k hk
    rw [hdone.1 g ⟨hg0, hg⟩ _ hv]
    exact hval
  · simp only [bfly4M1Pass, List.mem_cons, List.not_mem_nil, or_false] at hpg
    omega

end Gopus
