import Gopus.Neon
import Gopus.InPlace

/-!
# IMDCT prerotation

`imdct_prerotate_f32` folds the `n2` spectral coefficients into `n4` complex inputs of
the FFT, imaginary part first. Its first loop handles the indices `i, i + 1` in the two
lanes of one vector, its second loop the odd index left over; `imdctPrerotateF32_eq_scalar`
says the second loop alone, over every index, leaves the same output.

The model rounds every product and every sum on its own, as the lane type does. ISO C lets
a compiler contract the second loop's `x2 * t0 + x1 * t1` and `x1 * t0 - x2 * t1` into
fused multiply-adds unless `FP_CONTRACT` is off (C11 6.5 paragraph 8), so over `float`s
the model is that loop bit for bit only in a build that keeps contraction off, such as one
with `-ffp-contract=off`.
-/

namespace Gopus

variable {α β : Type} [Add α] [Sub α] [Mul α]

/-- One iteration of the paired loop of `imdct_prerotate_f32`, for `i` and `i + 1`.
`narrow` is the `(float)` conversion of a `double`. -/
def prerotatePair (narrow : β → α) (spec : ℤ → β) (trig : ℤ → α) (n2 n4 i : ℤ) :
    Kernel α Unit := do
  let front := 2 * i
  let back := n2 - 1 - 2 * i
  let x1 := vdupNF32 (narrow (← fetch .spec spec front))
  let x1 := vsetLaneF32 (narrow (← fetch .spec spec (front + 2))) x1 1
  let x2 := vdupNF32 (narrow (← fetch .spec spec back))
  let x2 := vsetLaneF32 (narrow (← fetch .spec spec (back - 2))) x2 1
  let t0 ← vld1F32 .trig trig i
  let t1 ← vld1F32 .trig trig (n4 + i)
  let yr := vaddF32 (vmulF32 x2 t0) (vmulF32 x1 t1)
  let yi := vsubF32 (vmulF32 x1 t0) (vmulF32 x2 t1)
  let zip := vzipF32 yi yr
  let outv := vcombineF32 zip.val0 zip.val1
  vst1qF32 .out (2 * i) outv

/-- One iteration of the scalar remainder loop of `imdct_prerotate_f32`. -/
def prerotateOne (narrow : β → α) (spec : ℤ → β) (trig : ℤ → α) (n2 n4 i : ℤ) :
    Kernel α Unit := do
  let x1 := narrow (← fetch .spec spec (2 * i))
  let x2 := narrow (← fetch .spec spec (n2 - 1 - 2 * i))
  let t0 ← fetch .trig trig i
  let t1 ← fetch .trig trig (n4 + i)
  let yr := x2 * t0 + x1 * t1
  let yi := x1 * t0 - x2 * t1
  store .out (2 * i) yi
  store .out (2 * i + 1) yr

/-- `imdct_prerotate_f32(out, spec, trig, n2, n4)`, writing `out` in place. -/
def imdctPrerotateF32 (narrow : β → α) (spec : ℤ → β) (trig : ℤ → α) (n2 n4 : ℤ) :
    Kernel α Unit :=
  if n4 ≤ 0 then pure () else do
    let paired ← forStep n4 1 2 (fun i _ => prerotatePair narrow spec trig n2 n4 i) 0 ()
    let _ ← forStep n4 0 1 (fun i _ => prerotateOne narrow spec trig n2 n4 i) paired.1 ()
    pure ()

/-! ### What one index stores -/

/-- `out[2i]` after prerotation: `x1 * t0 - x2 * t1`. -/
def prerotateIm (narrow : β → α) (spec : ℤ → β) (trig : ℤ → α) (n2 n4 i : ℤ) : α :=
  narrow (spec (2 * i)) * trig i - narrow (spec (n2 - 1 - 2 * i)) * trig (n4 + i)

/-- `out[2i + 1]` after prerotation: `x2 * t0 + x1 * t1`. -/
def prerotateRe (narrow : β → α) (spec : ℤ → β) (trig : ℤ → α) (n2 n4 i : ℤ) : α :=
  narrow (spec (n2 - 1 - 2 * i)) * trig i + narrow (spec (2 * i)) * trig (n4 + i)

/-- The accesses of index `i`: two spectral and two table loads, then two stores. -/
def prerotateAccesses (n2 n4 i : ℤ) : List Access :=
  [.load .spec (2 * i), .load .spec (n2 - 1 - 2 * i), .load .trig i, .load .trig (n4 + i),
    .store .out (2 * i), .store .out (2 * i + 1)]

section Run

variable (narrow : β → α) (spec : ℤ → β) (trig : ℤ → α) (n2 n4 : ℤ)

/-- Index `i` of prerotation as a cell of an in-place pass over `out`: it reads nothing
of `out`, and stores `out[2i]` and `out[2i + 1]`. -/
def prerotatePass : InPlace ℤ α where
  slots i := [2 * i, 2 * i + 1]
  writes i _ := [(2 * i, prerotateIm narrow spec trig n2 n4 i),
    (2 * i + 1, prerotateRe narrow spec trig n2 n4 i)]
  addrs _ _ := rfl
  consistent _ _ := consistent_of_nodup (by
    simp only [List.map_cons, List.map_nil, List.nodup_cons, List.mem_singleton,
      List.not_mem_nil, List.nodup_nil, not_false_eq_true, and_true]
    omega)
  isLocal _ _ _ _ := rfl

theorem prerotateOne_run (i : ℤ) (h : Heap α) :
    (prerotateOne narrow spec trig n2 n4 i).run h =
      ((), { mem := storeAll h.mem ((prerotatePass narrow spec trig n2 n4).writes i h.mem),
             log := (prerotateAccesses n2 n4 i).reverse ++ h.log }) :=
  rfl

/-- The lane-1 values of the paired iteration are those of index `i + 1`. -/
theorem prerotatePass_writes_succ (i : ℤ) (mem : ℤ → α) :
    (prerotatePass narrow spec trig n2 n4).writes (i + 1) mem =
      [(2 * i + 2, narrow (spec (2 * i + 2)) * trig (i + 1) -
          narrow (spec (n2 - 1 - 2 * i - 2)) * trig (n4 + i + 1)),
        (2 * i + 3, narrow (spec (n2 - 1 - 2 * i - 2)) * trig (i + 1) +
          narrow (spec (2 * i + 2)) * trig (n4 + i + 1))] := by
  have e1 : 2 * (i + 1) = 2 * i + 2 := by omega
  have e2 : n2 - 1 - (2 * i + 2) = n2 - 1 - 2 * i - 2 := by omega
  have e3 : n4 + (i + 1) = n4 + i + 1 := by omega
  have e4 : 2 * i + 2 + 1 = 2 * i + 3 := by omega
  simp only [prerotatePass, prerotateIm, prerotateRe, e1, e2, e3, e4]

theorem prerotatePair_run (i : ℤ) (h : Heap α) :
    (prerotatePair narrow spec trig n2 n4 i).run h =
      ((), { mem := storeAll h.mem ((prerotatePass narrow spec trig n2 n4).writes i h.mem ++
                (prerotatePass narrow spec trig n2 n4).writes (i + 1) h.mem),
             log := [.store .out (2 * i + 3), .store .out (2 * i + 2), .store .out (2 * i + 1),
               .store .out (2 * i), .load .trig (n4 + i + 1), .load .trig (n4 + i),
               .load .trig (i + 1), .load .trig i, .load .spec (n2 - 1 - 2 * i - 2),
               .load .spec (n2 - 1 - 2 * i), .load .spec (2 * i + 2), .load .spec (2 * i)] ++
               h.log }) := by
  rw [prerotatePass_writes_succ]
  rfl

/-- The accesses `imdct_prerotate_f32` may make: loads of `spec` and `trig` at indices
below `n2`, and stores to `out` below `2 * n4`. -/
def prerotateFootprint : Access → Prop
  | .load .spec p => 0 ≤ p ∧ p < n2
  | .load .trig p => 0 ≤ p ∧ p < n2
  | .store .out p => 0 ≤ p ∧ p < 2 * n4
  | _ => False

/-- The invariant of both loops at counter `i`: indices `0 .. i - 1` are done and every
access so far is in the footprint. -/
def PrerotateInv (out : ℤ → α) (i : ℤ) (h : Heap α) : Prop :=
  0 ≤ i ∧ i ≤ n4 ∧ (prerotatePass narrow spec trig n2 n4).Done (fun c => 0 ≤ c ∧ c < i) out h.mem ∧
    ∀ e ∈ h.log, prerotateFootprint n2 n4 e

theorem prerotatePass_done_succ {out mem : ℤ → α} {i : ℤ} (hi : 0 ≤ i)
    (h : (prerotatePass narrow spec trig n2 n4).Done (fun c => 0 ≤ c ∧ c < i) out mem) :
    (prerotatePass narrow spec trig n2 n4).Done (fun c => 0 ≤ c ∧ c < i + 1) out
      (storeAll mem ((prerotatePass narrow spec trig n2 n4).writes i mem)) :=
  (h.store_one fun c' hc' p hp hp' => by
    simp only [prerotatePass, List.mem_cons, List.not_mem_nil, or_false] at hp hp'
    omega).congr fun c => by omega

variable {narrow spec trig n2 n4}

theorem prerotateInv_pair {out : ℤ → α} (hn2 : n2 = 2 * n4) {i : ℤ} {h : Heap α}
    (hlt : i + 1 < n4) (hinv : PrerotateInv narrow spec trig n2 n4 out i h) :
    PrerotateInv narrow spec trig n2 n4 out (i + 2)
      ((prerotatePair narrow spec trig n2 n4 i).run h).2 := by
  obtain ⟨hi, -, hdone, hlog⟩ := hinv
  rw [prerotatePair_run, storeAll_append]
  refine ⟨by omega, by omega, ?_, ?_⟩
  · have h2 := prerotatePass_done_succ narrow spec trig n2 n4 (by omega)
      (prerotatePass_done_succ narrow spec trig n2 n4 hi hdone)
    exact h2.congr fun c => by omega
  · intro e he
    rcases List.mem_append.mp he with he | he
    · simp only [List.mem_cons, List.not_mem_nil, or_false] at he
      rcases he with rfl | rfl | rfl | rfl | rfl | rfl | rfl | rfl | rfl | rfl | rfl | rfl <;>
        simp only [prerotateFootprint] <;> omega
    · exact hlog e he

theorem prerotateInv_one {out : ℤ → α} (hn2 : n2 = 2 * n4) {i : ℤ} {h : Heap α}
    (hlt : i < n4) (hinv : PrerotateInv narrow spec trig n2 n4 out i h) :
    PrerotateInv narrow spec trig n2 n4 out (i + 1)
      ((prerotateOne narrow spec trig n2 n4 i).run h).2 := by
  obtain ⟨hi, -, hdone, hlog⟩ := hinv
  rw [prerotateOne_run]
  refine ⟨by omega, by omega, prerotatePass_done_succ narrow spec trig n2 n4 hi hdone, ?_⟩
  intro e he
  rcases List.mem_append.mp he with he | he
  · simp only [prerotateAccesses, List.reverse_cons, List.reverse_nil, List.nil_append,
      List.cons_append, List.singleton_append, List.mem_cons, List.not_mem_nil, or_false] at he
    rcases he with rfl | rfl | rfl | rfl | rfl | rfl <;> simp only [prerotateFootprint] <;> omega
  · exact hlog e he

theorem prerotateInv_init (out : ℤ → α) (hn4 : 0 ≤ n4) :
    PrerotateInv narrow spec trig n2 n4 out 0 ⟨out, []⟩ :=
  ⟨le_rfl, hn4, ((prerotatePass narrow spec trig n2 n4).done_none out).congr
    fun _ => ⟨False.elim, fun hc => by omega⟩,
    fun _ he => absurd he (List.not_mem_nil _)⟩

variable (narrow spec trig n2 n4)

/-- A whole call runs both loops to the end: every index below `n4` is done. -/
theorem imdctPrerotateF32_inv (out : ℤ → α) (hn4 : 0 ≤ n4) (hn2 : n2 = 2 * n4) :
    PrerotateInv narrow spec trig n2 n4 out n4
      ((imdctPrerotateF32 narrow spec trig n2 n4).call out) := by
  unfold Kernel.call imdctPrerotateF32
  split
  · next hz =>
    obtain rfl : n4 = 0 := by omega
    exact prerotateInv_init out hn4
  · have h1 := forStep_invariant n4 1 2 (fun i _ => prerotatePair narrow spec trig n2 n4 i)
      (fun i _ h => PrerotateInv narrow spec trig n2 n4 out i h)
      (fun _ _ _ hlt hinv => prerotateInv_pair hn2 hlt hinv) 0 () (prerotateInv_init out hn4)
    have h2 := forStep_invariant n4 0 1 (fun i _ => prerotateOne narrow spec trig n2 n4 i)
      (fun i _ h => PrerotateInv narrow spec trig n2 n4 out i h)
      (fun _ _ _ hlt hinv => prerotateInv_one hn2 (by simpa using hlt) hinv) _ () h1.1
    have hfinal := h2.1
    rw [le_antisymm h2.1.2.1 (by simpa using h2.2)] at hfinal
    exact hfinal

end Run

/-- `imdct_prerotate_f32`, for `n2 = 2 * n4`, loads `spec` and `trig` only below `n2`
and stores to `out` only below `2 * n4`; it leaves `x1 * t0 - x2 * t1` at `out[2i]` and
`x2 * t0 + x1 * t1` at `out[2i + 1]` for each `i < n4`, with `x1`, `x2` the narrowed
`spec[2i]`, `spec[n2 - 1 - 2i]` and `t0`, `t1` the table entries `trig[i]`,
`trig[n4 + i]`, whatever the arithmetic and the narrowing are and whether `n4` is odd
or even. -/
theorem imdctPrerotateF32_correct (narrow : β → α) (spec : ℤ → β) (trig : ℤ → α)
    (n2 n4 : ℤ) (hn4 : 0 ≤ n4) (hn2 : n2 = 2 * n4) (out : ℤ → α) :
    (∀ e ∈ ((imdctPrerotateF32 narrow spec trig n2 n4).call out).log,
      prerotateFootprint n2 n4 e) ∧
    (∀ i, 0 ≤ i → i < n4 →
      ((imdctPrerotateF32 narrow spec trig n2 n4).call out).mem (2 * i) =
        narrow (spec (2 * i)) * trig i - narrow (spec (n2 - 1 - 2 * i)) * trig (n4 + i) ∧
      ((imdctPrerotateF32 narrow spec trig n2 n4).call out).mem (2 * i + 1) =
        narrow (spec (n2 - 1 - 2 * i)) * trig i + narrow (spec (2 * i)) * trig (n4 + i)) ∧
    (∀ p, ¬ (0 ≤ p ∧ p < 2 * n4) →
      ((imdctPrerotateF32 narrow spec trig n2 n4).call out).mem p = out p) := by
  obtain ⟨-, -, hdone, hlog⟩ := imdctPrerotateF32_inv narrow spec trig n2 n4 out hn4 hn2
  refine ⟨hlog, fun i hi0 hi => ⟨?_, ?_⟩, fun p hp => hdone.2 p fun c hc hpc => hp ?_⟩
  · exact hdone.1 i ⟨hi0, hi⟩ _ (List.mem_cons_self _ _)
  · exact hdone.1 i ⟨hi0, hi⟩ _ (List.mem_cons_of_mem _ (List.mem_cons_self _ _))
  · simp only [prerotatePass, List.mem_cons, List.not_mem_nil, or_false] at hpc
    omega

/-- `n4 = 3`, odd: one paired iteration and one scalar one. -/
theorem imdctPrerotateF32_correct_three :
    (0 : ℤ) ≤ 3 ∧ (6 : ℤ) = 2 * 3 ∧
    (∀ e ∈ ((imdctPrerotateF32 (fun x : ℤ => x) (fun p => p) (fun p => p) 6 3).call
      fun _ => 0).log, prerotateFootprint 6 3 e) ∧
    (∀ i, 0 ≤ i → i < 3 →
      ((imdctPrerotateF32 (fun x : ℤ => x) (fun p => p) (fun p => p) 6 3).call
        fun _ => 0).mem (2 * i) = 2 * i * i - (6 - 1 - 2 * i) * (3 + i) ∧
      ((imdctPrerotateF32 (fun x : ℤ => x) (fun p => p) (fun p => p) 6 3).call
        fun _ => 0).mem (2 * i + 1) = (6 - 1 - 2 * i) * i + 2 * i * (3 + i)) ∧
    (∀ p, ¬ (0 ≤ p ∧ p < 2 * 3) →
      ((imdctPrerotateF32 (fun x : ℤ => x) (fun p => p) (fun p => p) 6 3).call
        fun _ => 0).mem p = 0) :=
  ⟨by decide, by decide, imdctPrerotateF32_correct (fun x : ℤ => x) (fun p => p) (fun p => p) 6 3
    (by decide) (by decide) (fun _ => 0)⟩

/-! ### The paired loop against the scalar loop -/

/-- The scalar loop of `imdct_prerotate_f32` alone, run over every index `i < n4`: the
kernel with its paired loop taken out, the reference the vector path is compared
against. -/
def imdctPrerotateScalar (narrow : β → α) (spec : ℤ → β) (trig : ℤ → α) (n2 n4 : ℤ) :
    Kernel α Unit :=
  if n4 ≤ 0 then pure () else do
    let _ ← forStep n4 0 1 (fun i _ => prerotateOne narrow spec trig n2 n4 i) 0 ()
    pure ()

/-- The scalar loop alone also does every index below `n4`. -/
theorem imdctPrerotateScalar_inv (narrow : β → α) (spec : ℤ → β) (trig : ℤ → α) (n2 n4 : ℤ)
    (out : ℤ → α) (hn4 : 0 ≤ n4) (hn2 : n2 = 2 * n4) :
    PrerotateInv narrow spec trig n2 n4 out n4
      ((imdctPrerotateScalar narrow spec trig n2 n4).call out) := by
  unfold Kernel.call imdctPrerotateScalar
  split
  · next hz =>
    obtain rfl : n4 = 0 := by omega
    exact prerotateInv_init out hn4
  · have h := forStep_invariant n4 0 1 (fun i _ => prerotateOne narrow spec trig n2 n4 i)
      (fun i _ h => PrerotateInv narrow spec trig n2 n4 out i h)
      (fun _ _ _ hlt hinv => prerotateInv_one hn2 (by simpa using hlt) hinv) 0 ()
      (prerotateInv_init out hn4)
    have hfinal := h.1
    rw [le_antisymm h.1.2.1 (by simpa using h.2)] at hfinal
    exact hfinal

/-- The paired vector loop changes nothing in the result: for `n2 = 2 * n4`,
`imdct_prerotate_f32` leaves `out` exactly as its scalar loop run over every index does,
for every `n4`, odd or even, and whatever the arithmetic and the narrowing are, so bit for
bit in IEEE single precision. -/
theorem imdctPrerotateF32_eq_scalar (narrow : β → α) (spec : ℤ → β) (trig : ℤ → α)
    (n2 n4 : ℤ) (hn4 : 0 ≤ n4) (hn2 : n2 = 2 * n4) (out : ℤ → α) :
    ((imdctPrerotateF32 narrow spec trig n2 n4).call out).mem =
      ((imdctPrerotateScalar narrow spec trig n2 n4).call out).mem :=
  (imdctPrerotateF32_inv narrow spec trig n2 n4 out hn4 hn2).2.2.1.unique
    (imdctPrerotateScalar_inv narrow spec trig n2 n4 out hn4 hn2).2.2.1

theorem imdctPrerotateF32_eq_scalar_five :
    (0 : ℤ) ≤ 5 ∧ (10 : ℤ) = 2 * 5 ∧
    ((imdctPrerotateF32 (fun x : ℤ => x) (fun p => p) (fun p => p) 10 5).call
        fun _ => 0).mem =
      ((imdctPrerotateScalar (fun x : ℤ => x) (fun p => p) (fun p => p) 10 5).call
        fun _ => 0).mem :=
  ⟨by decide, by decide, imdctPrerotateF32_eq_scalar (fun x : ℤ => x) (fun p => p)
    (fun p => p) 10 5 (by decide) (by decide) fun _ => 0⟩

end Gopus
