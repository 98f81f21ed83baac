import Gopus.Neon
import Gopus.InPlace
import Mathlib.Data.Int.Bitwise

/-!
# IMDCT postrotation

`imdct_postrotate_f32` rewrites the FFT output in place with two cursors walking towards
each other: `yp0` up from `0`, `yp1` down from `n2 - 2`. Iteration `i` rotates the low
sample at `yp0` and the high one at `yp1`, and stores each result half in the other
sample's slot. The paired loop does iterations `i` and `i + 1` in the lanes of one
vector, the scalar loop the iteration left over; for odd `n4` the last iteration finds
both cursors on the middle sample. `imdctPostrotateF32_eq_scalar` says the scalar loop
alone, over every iteration, leaves the same buffer.

The model rounds every product and every sum on its own, as the lane type does. ISO C lets
a compiler contract the scalar loop's `re * t0 + im * t1` and `re * t1 - im * t0` into
fused multiply-adds unless `FP_CONTRACT` is off (C11 6.5 paragraph 8), so over `float`s
the model is the scalar loop bit for bit only in a build that keeps contraction off, such
as one with `-ffp-contract=off`.
-/

namespace Gopus

variable {α : Type} [Add α] [Sub α] [Mul α]

/-- `re * t0 + im * t1`, the `yr` of `imdct_postrotate_f32`. -/
def postrotateYr (re im t0 t1 : α) : α := re * t0 + im * t1

/-- `re * t1 - im * t0`, the `yi` of `imdct_postrotate_f32`. -/
def postrotateYi (re im t0 t1 : α) : α := re * t1 - im * t0

/-- One iteration of the paired loop of `imdct_postrotate_f32`, for `i` and `i + 1`, with
the cursors `(yp0, yp1)`; it returns the cursors advanced. -/
def postrotatePair (trig : ℤ → α) (n2 n4 i : ℤ) (yp : ℤ × ℤ) : Kernel α (ℤ × ℤ) := do
  let (yp0, yp1) := yp
  let vlow ← vld1qF32 .buf yp0
  let vhi ← vld1qF32 .buf (yp1 - 2)
  let lowIm := vgetLowF32 (vuzp1qF32 vlow vlow)
  let lowRe := vgetLowF32 (vuzp2qF32 vlow vlow)
  let highIm := vgetLowF32 (vuzp1qF32 vhi vhi)
  let highRe := vgetLowF32 (vuzp2qF32 vhi vhi)
  let highIm := vrev64F32 highIm
  let highRe := vrev64F32 highRe
  let t0 ← vld1F32 .trig trig i
  let t1 ← vld1F32 .trig trig (n4 + i)
  let t0b ← vld1F32 .trig trig (n4 - i - 2)
  let t1b ← vld1F32 .trig trig (n2 - i - 2)
  let t0b := vrev64F32 t0b
  let t1b := vrev64F32 t1b
  let lowYr := vaddF32 (vmulF32 lowRe t0) (vmulF32 lowIm t1)
  let lowYi := vsubF32 (vmulF32 lowRe t1) (vmulF32 lowIm t0)
  let highYr := vaddF32 (vmulF32 highRe t0b) (vmulF32 highIm t1b)
  let highYi := vsubF32 (vmulF32 highRe t1b) (vmulF32 highIm t0b)
  let zip0 := vzipF32 lowYr highYi
  let outLo := vcombineF32 zip0.val0 zip0.val1
  let zip1 := vzipF32 highYr lowYi
  let outHi := vcombineF32 zip1.val1 zip1.val0
  vst1qF32 .buf yp0 outLo
  vst1qF32 .buf (yp1 - 2) outHi
  pure (yp0 + 4, yp1 - 4)

/-- One iteration of the scalar remainder loop of `imdct_postrotate_f32`. -/
def postrotateOne (trig : ℤ → α) (n2 n4 i : ℤ) (yp : ℤ × ℤ) : Kernel α (ℤ × ℤ) := do
  let (yp0, yp1) := yp
  let re ← load .buf (yp0 + 1)
  let im ← load .buf yp0
  let t0 ← fetch .trig trig i
  let t1 ← fetch .trig trig (n4 + i)
  let yr := re * t0 + im * t1
  let yi := re * t1 - im * t0
  let re2 ← load .buf (yp1 + 1)
  let im2 ← load .buf yp1
  store .buf yp0 yr
  store .buf (yp1 + 1) yi
  let t0 ← fetch .trig trig (n4 - i - 1)
  let t1 ← fetch .trig trig (n2 - i - 1)
  let yr := re2 * t0 + im2 * t1
  let yi := re2 * t1 - im2 * t0
  store .buf yp1 yr
  store .buf (yp0 + 1) yi
  pure (yp0 + 2, yp1 - 2)

/-- `imdct_postrotate_f32(buf, trig, n2, n4)`, rewriting `buf` in place. -/
def imdctPostrotateF32 (trig : ℤ → α) (n2 n4 : ℤ) : Kernel α Unit :=
  let limit := (n4 + 1) >>> (1 : ℕ)
  if limit ≤ 0 then pure () else do
    let paired ← forStep limit 1 2 (postrotatePair trig n2 n4) 0 (0, n2 - 2)
    let _ ← forStep limit 0 1 (postrotateOne trig n2 n4) paired.1 paired.2
    pure ()

/-! ### The stores of one iteration -/

/-- The four stores of one rotation step: the low sample (`im` at `lo`, `re` at `lo1`)
rotated by `trig t0`, `trig t1` and the high one (`im` at `hi`, `re` at `hi1`) rotated by
`trig u0`, `trig u1`, each result crossing into the other sample's slots. -/
def rotStores (trig : ℤ → α) (lo lo1 hi hi1 t0 t1 u0 u1 : ℤ) (mem : ℤ → α) : List (ℤ × α) :=
  [(lo, postrotateYr (mem lo1) (mem lo) (trig t0) (trig t1)),
    (hi1, postrotateYi (mem lo1) (mem lo) (trig t0) (trig t1)),
    (hi, postrotateYr (mem hi1) (mem hi) (trig u0) (trig u1)),
    (lo1, postrotateYi (mem hi1) (mem hi) (trig u0) (trig u1))]

/-- The order in which a paired iteration makes the stores of its two lanes `a` and `b`:
`vst1q_f32` at `yp0` stores `a0, a3, b0, b3`, and at `yp1 - 2` stores `b2, b1, a2, a1`. -/
def pairOrder {σ : Type} : List σ → List σ → List σ
  | [a0, a1, a2, a3], [b0, b1, b2, b3] => [a0, a3, b0, b3, b2, b1, a2, a1]
  | _, _ => []

/-- The four stores of a rotation step agree wherever two of them meet: the low and the
high sample are either apart or the same sample, rotated by the same twiddles. -/
theorem rotStores_consistent (trig : ℤ → α) {lo lo1 hi hi1 t0 t1 u0 u1 : ℤ} (mem : ℤ → α)
    (hlo : lo ≠ lo1) (hhi : hi ≠ hi1) (hlohi1 : lo ≠ hi1) (hhilo1 : hi ≠ lo1)
    (hmid : lo = hi ∨ lo1 = hi1 → lo = hi ∧ lo1 = hi1 ∧ t0 = u0 ∧ t1 = u1) :
    ∀ w ∈ rotStores trig lo lo1 hi hi1 t0 t1 u0 u1 mem,
      ∀ w' ∈ rotStores trig lo lo1 hi hi1 t0 t1 u0 u1 mem, w.1 = w'.1 → w.2 = w'.2 := by
  intro w hw w' hw' heq
  simp only [rotStores, List.mem_cons, List.not_mem_nil, or_false] at hw hw'
  by_cases hsame : lo = hi
  · -- The middle iteration: one sample, rotated twice by the same twiddles.
    obtain ⟨rfl, rfl, rfl, rfl⟩ := hmid (.inl hsame)
    rcases hw with rfl | rfl | rfl | rfl <;> rcases hw' with rfl | rfl | rfl | rfl <;>
      first | rfl | exact absurd heq ‹_› | exact absurd heq.symm ‹_›
  · have hsame1 : lo1 ≠ hi1 := fun h => hsame (hmid (.inr h)).1
    rcases hw with rfl | rfl | rfl | rfl <;> rcases hw' with rfl | rfl | rfl | rfl <;>
      first | rfl | exact absurd heq ‹_› | exact absurd heq.symm ‹_›

theorem postrotateOne_run (trig : ℤ → α) (n2 n4 i yp0 yp1 : ℤ) (h : Heap α) :
    (postrotateOne trig n2 n4 i (yp0, yp1)).run h =
      ((yp0 + 2, yp1 - 2),
        { mem := storeAll h.mem
            (rotStores trig yp0 (yp0 + 1) yp1 (yp1 + 1) i (n4 + i) (n4 - i - 1) (n2 - i - 1) h.mem),
          log := [.store .buf (yp0 + 1), .store .buf yp1, .load .trig (n2 - i - 1),
            .load .trig (n4 - i - 1), .store .buf (yp1 + 1), .store .buf yp0, .load .buf yp1,
            .load .buf (yp1 + 1), .load .trig (n4 + i), .load .trig i, .load .buf yp0,
            .load .buf (yp0 + 1)] ++ h.log }) :=
  rfl

theorem postrotatePair_run (trig : ℤ → α) (n2 n4 i yp0 yp1 : ℤ) (h : Heap α) :
    (postrotatePair trig n2 n4 i (yp0, yp1)).run h =
      ((yp0 + 4, yp1 - 4),
        { mem := storeAll h.mem (pairOrder
            (rotStores trig yp0 (yp0 + 1) (yp1 - 2 + 2) (yp1 - 2 + 3) i (n4 + i) (n4 - i - 2 + 1)
              (n2 - i - 2 + 1) h.mem)
            (rotStores trig (yp0 + 2) (yp0 + 3) (yp1 - 2) (yp1 - 2 + 1) (i + 1) (n4 + i + 1)
              (n4 - i - 2) (n2 - i - 2) h.mem)),
          log := [.store .buf (yp1 - 2 + 3), .store .buf (yp1 - 2 + 2), .store .buf (yp1 - 2 + 1),
            .store .buf (yp1 - 2), .store .buf (yp0 + 3), .store .buf (yp0 + 2),
            .store .buf (yp0 + 1), .store .buf yp0, .load .trig (n2 - i - 2 + 1),
            .load .trig (n2 - i - 2), .load .trig (n4 - i - 2 + 1), .load .trig (n4 - i - 2),
            .load .trig (n4 + i + 1), .load .trig (n4 + i), .load .trig (i + 1), .load .trig i,
            .load .buf (yp1 - 2 + 3), .load .buf (yp1 - 2 + 2), .load .buf (yp1 - 2 + 1),
            .load .buf (yp1 - 2), .load .buf (yp0 + 3), .load .buf (yp0 + 2),
            .load .buf (yp0 + 1), .load .buf yp0] ++ h.log }) :=
  rfl

theorem mem_pairOrder {σ : Type} {w a0 a1 a2 a3 b0 b1 b2 b3 : σ} :
    w ∈ pairOrder [a0, a1, a2, a3] [b0, b1, b2, b3] ↔
      w ∈ [a0, a1, a2, a3] ∨ w ∈ [b0, b1, b2, b3] := by
  simp only [pairOrder, List.mem_cons, List.not_mem_nil, or_false]
  constructor
  · rintro (h | h | h | h | h | h | h | h) <;> simp only [h, true_or, or_true]
  · rintro ((h | h | h | h) | (h | h | h | h)) <;> simp only [h, true_or, or_true]

section Pass

variable (trig : ℤ → α) (n2 n4 : ℤ)

/-- Iteration `i` of postrotation as a cell of an in-place pass over `buf`, with its
cursors at `2i` and `n2 - 2 - 2i`. When `n2 = 2 * n4` the two samples of the middle
iteration coincide, and its two stores to each slot store one value. -/
def postrotatePass (hn2 : n2 = 2 * n4) : InPlace ℤ α where
  slots i := [2 * i, n2 - 2 - 2 * i + 1, n2 - 2 - 2 * i, 2 * i + 1]
  writes i := rotStores trig (2 * i) (2 * i + 1) (n2 - 2 - 2 * i) (n2 - 2 - 2 * i + 1) i
    (n4 + i) (n4 - i - 1) (n2 - i - 1)
  addrs _ _ := rfl
  consistent i mem := rotStores_consistent trig mem (by omega) (by omega) (by omega) (by omega)
    fun h => ⟨by omega, by omega, by omega, by omega⟩
  isLocal i mem mem' h := by
    simp only [rotStores, h (2 * i) (by simp), h (2 * i + 1) (by simp),
      h (n2 - 2 - 2 * i) (by simp), h (n2 - 2 - 2 * i + 1) (by simp)]

/-- Two iterations below `ceil (n4 / 2)` touch disjoint slots: the cursors never cross. -/
theorem postrotatePass_disjoint (hn2 : n2 = 2 * n4) {c c' : ℤ} (hlt : c < (n4 + 1) / 2)
    (hlt' : c' < (n4 + 1) / 2) (hne : c ≠ c') :
    ∀ p ∈ (postrotatePass trig n2 n4 hn2).slots c,
      p ∉ (postrotatePass trig n2 n4 hn2).slots c' := by
  intro p hp hp'
  simp only [postrotatePass, List.mem_cons, List.not_mem_nil, or_false] at hp hp'
  omega

/-- The accesses `imdct_postrotate_f32` may make: loads and stores of `buf` and loads of
`trig`, all at indices in `[0, n2)`. -/
def postrotateFootprint : Access → Prop
  | .load .buf p => 0 ≤ p ∧ p < n2
  | .store .buf p => 0 ≤ p ∧ p < n2
  | .load .trig p => 0 ≤ p ∧ p < n2
  | _ => False

/-- The invariant of both loops at counter `i`: the cursors are at `2i` and
`n2 - 2 - 2i`, iterations `0 .. i - 1` are done, each element was loaded before it was
stored, and every access is in the footprint. -/
def PostrotateInv (hn2 : n2 = 2 * n4) (buf : ℤ → α) (i : ℤ) (yp : ℤ × ℤ) (h : Heap α) :
    Prop :=
  0 ≤ i ∧ i ≤ (n4 + 1) / 2 ∧ yp = (2 * i, n2 - 2 - 2 * i) ∧
    (postrotatePass trig n2 n4 hn2).Done (fun c => 0 ≤ c ∧ c < i) buf h.mem ∧
    (postrotatePass trig n2 n4 hn2).LogDone .buf (fun c => 0 ≤ c ∧ c < i) h.log ∧
    ∀ e ∈ h.log, postrotateFootprint n2 e

variable {trig n2 n4}

/-- The step lemma of the paired loop: iterations `i` and `i + 1` together keep the
invariant. -/
theorem postrotateInv_pair (hn2 : n2 = 2 * n4) {buf : ℤ → α} {i : ℤ} {yp : ℤ × ℤ}
    {h : Heap α} (hlt : i + 1 < (n4 + 1) / 2) (hinv : PostrotateInv trig n2 n4 hn2 buf i yp h) :
    PostrotateInv trig n2 n4 hn2 buf (i + 2) ((postrotatePair trig n2 n4 i yp).run h).1
      ((postrotatePair trig n2 n4 i yp).run h).2 := by
  obtain ⟨hi, -, rfl, hdone, hlog, hfoot⟩ := hinv
  rw [postrotatePair_run]
  have hA : rotStores trig (2 * i) (2 * i + 1) (n2 - 2 - 2 * i - 2 + 2) (n2 - 2 - 2 * i - 2 + 3) i
      (n4 + i) (n4 - i - 2 + 1) (n2 - i - 2 + 1) h.mem =
      (postrotatePass trig n2 n4 hn2).writes i h.mem := by
    simp only [postrotatePass]
    congr 1 <;> omega
  have hB : rotStores trig (2 * i + 2) (2 * i + 3) (n2 - 2 - 2 * i - 2) (n2 - 2 - 2 * i - 2 + 1)
      (i + 1) (n4 + i + 1) (n4 - i - 2) (n2 - i - 2) h.mem =
      (postrotatePass trig n2 n4 hn2).writes (i + 1) h.mem := by
    simp only [postrotatePass]
    congr 1 <;> omega
  -- An address of either lane is a slot of `i` or of `i + 1`.
  have hlane : ∀ p, p ∈ (rotStores trig (2 * i) (2 * i + 1) (n2 - 2 - 2 * i - 2 + 2)
      (n2 - 2 - 2 * i - 2 + 3) i (n4 + i) (n4 - i - 2 + 1) (n2 - i - 2 + 1) h.mem).map Prod.fst ∨
      p ∈ (rotStores trig (2 * i + 2) (2 * i + 3) (n2 - 2 - 2 * i - 2) (n2 - 2 - 2 * i - 2 + 1)
        (i + 1) (n4 + i + 1) (n4 - i - 2) (n2 - i - 2) h.mem).map Prod.fst →
      ∃ c, (c = i ∨ c = i + 1) ∧ p ∈ (postrotatePass trig n2 n4 hn2).slots c := by
    rw [hA, hB, (postrotatePass trig n2 n4 hn2).addrs, (postrotatePass trig n2 n4 hn2).addrs]
    rintro p (hp | hp)
    exacts [⟨i, .inl rfl, hp⟩, ⟨i + 1, .inr rfl, hp⟩]
  have hdisj : ∀ c, (c = i ∨ c = i + 1) → ∀ c', (0 ≤ c' ∧ c' < i) →
      ∀ p ∈ (postrotatePass trig n2 n4 hn2).slots c,
        p ∉ (postrotatePass trig n2 n4 hn2).slots c' := by
    rintro c hc c' hc'
    exact postrotatePass_disjoint trig n2 n4 hn2 (by omega) (by omega) (by omega)
  refine ⟨by omega, by omega, by simp only [Prod.mk.injEq]; omega, ?_, ?_, ?_⟩
  · refine (hdone.store hdisj ?_ ?_ ?_).congr fun c => by omega
    · rintro c c' hc hc' hne
      exact postrotatePass_disjoint trig n2 n4 hn2 (by omega) (by omega) hne
    · rw [hA, hB]
      intro w hw
      rcases mem_pairOrder.mp hw with hw | hw
      exacts [⟨i, .inl rfl, hw⟩, ⟨i + 1, .inr rfl, hw⟩]
    · rw [hA, hB]
      rintro c (rfl | rfl) w hw
      exacts [mem_pairOrder.mpr (.inl hw), mem_pairOrder.mpr (.inr hw)]
  · refine (hlog.append hdisj (by simp only [loadsBeforeStores_store, loadsBeforeStores_load,
      loadsBeforeStores_nil, List.mem_cons, List.not_mem_nil, reduceCtorEq, or_false, false_or,
      false_implies, not_false_eq_true, implies_true, and_true]) ?_ ?_).congr fun c => by omega
    all_goals
      intro p hp
      simp only [List.mem_cons, List.not_mem_nil, Access.load.injEq, Access.store.injEq,
        true_and, false_and, or_false, false_or, reduceCtorEq] at hp
      refine hlane p ?_
      rcases hp with rfl | rfl | rfl | rfl | rfl | rfl | rfl | rfl <;>
        simp only [rotStores, List.map_cons, List.map_nil, List.mem_cons, true_or, or_true]
  · refine List.forall_mem_append.mpr ⟨?_, hfoot⟩
    simp only [List.forall_mem_cons, List.not_mem_nil, false_implies, implies_true,
      postrotateFootprint, and_true]
    omega

/-- The step lemma of the tail loop: iteration `i` keeps the invariant. -/
theorem postrotateInv_one (hn2 : n2 = 2 * n4) {buf : ℤ → α} {i : ℤ} {yp : ℤ × ℤ}
    {h : Heap α} (hlt : i < (n4 + 1) / 2) (hinv : PostrotateInv trig n2 n4 hn2 buf i yp h) :
    PostrotateInv trig n2 n4 hn2 buf (i + 1) ((postrotateOne trig n2 n4 i yp).run h).1
      ((postrotateOne trig n2 n4 i yp).run h).2 := by
  obtain ⟨hi, -, rfl, hdone, hlog, hfoot⟩ := hinv
  rw [postrotateOne_run]
  have hdisj : ∀ c', (0 ≤ c' ∧ c' < i) → ∀ p ∈ (postrotatePass trig n2 n4 hn2).slots i,
      p ∉ (postrotatePass trig n2 n4 hn2).slots c' := fun c' hc' =>
    postrotatePass_disjoint trig n2 n4 hn2 hlt (by omega) (by omega)
  have hdisj' : ∀ c, c = i → ∀ c', (0 ≤ c' ∧ c' < i) →
      ∀ p ∈ (postrotatePass trig n2 n4 hn2).slots c,
        p ∉ (postrotatePass trig n2 n4 hn2).slots c' := by
    rintro _ rfl
    exact hdisj
  refine ⟨by omega, by omega, by simp only [Prod.mk.injEq]; omega,
    (hdone.store_one hdisj).congr fun c => by omega, ?_, ?_⟩
  · refine (hlog.append hdisj' (by simp only [loadsBeforeStores_store, loadsBeforeStores_load,
      loadsBeforeStores_nil, List.mem_cons, List.not_mem_nil, reduceCtorEq, or_false, false_or,
      false_implies, not_false_eq_true, implies_true, and_true]) ?_ ?_).congr fun c => by omega
    · intro p hp
      simp only [List.mem_cons, List.not_mem_nil, Access.load.injEq, true_and, false_and,
        or_false, false_or, reduceCtorEq] at hp
      refine ⟨i, rfl, ?_⟩
      simp only [postrotatePass, List.mem_cons, List.not_mem_nil, or_false]
      omega
    · intro p hp
      simp only [List.mem_cons, List.not_mem_nil, Access.store.injEq, true_and, false_and,
        or_false, false_or, reduceCtorEq] at hp
      refine ⟨i, rfl, ?_⟩
      simp only [postrotatePass, List.mem_cons, List.not_mem_nil, or_false]
      omega
  · refine List.forall_mem_append.mpr ⟨?_, hfoot⟩
    simp only [List.forall_mem_cons, List.not_mem_nil, false_implies, implies_true,
      postrotateFootprint, and_true]
    omega

/-- The invariant holds on entry, with no iteration done and an empty log. -/
theorem postrotateInv_init (hn4 : 0 ≤ n4) (hn2 : n2 = 2 * n4) (buf : ℤ → α) :
    PostrotateInv trig n2 n4 hn2 buf 0 (0, n2 - 2) ⟨buf, []⟩ := by
  refine ⟨le_rfl, by omega, by simp only [Prod.mk.injEq]; omega, ?_, ?_, fun _ he => absurd he
    (List.not_mem_nil _)⟩
  · exact ((postrotatePass trig n2 n4 hn2).done_none buf).congr fun _ =>
      ⟨False.elim, fun hc => by omega⟩
  · exact ((postrotatePass trig n2 n4 hn2).logDone_nil .buf).congr fun _ =>
      ⟨False.elim, fun hc => by omega⟩

variable (trig n2 n4)

/-- `limit = (n4 + 1) >> 1` is `ceil (n4 / 2)`. -/
theorem postrotateLimit_eq : (n4 + 1) >>> (1 : ℕ) = (n4 + 1) / 2 := by
  rw [Int.shiftRight_eq_div_pow]
  rfl

/-- A whole call runs both loops to the end: iterations `0 .. ceil (n4 / 2) - 1` are done. -/
theorem imdctPostrotateF32_inv (hn4 : 0 ≤ n4) (hn2 : n2 = 2 * n4) (buf : ℤ → α) :
    ∃ yp, PostrotateInv trig n2 n4 hn2 buf ((n4 + 1) / 2) yp
      ((imdctPostrotateF32 trig n2 n4).call buf) := by
  unfold Kernel.call imdctPostrotateF32
  simp only [postrotateLimit_eq]
  split
  · next hz =>
    have h0 : (n4 + 1) / 2 = 0 := by omega
    exact ⟨_, h0 ▸ postrotateInv_init hn4 hn2 buf⟩
  · have h1 := forStep_invariant ((n4 + 1) / 2) 1 2 (postrotatePair trig n2 n4)
      (PostrotateInv trig n2 n4 hn2 buf) (fun _ _ _ hlt hinv => postrotateInv_pair hn2 hlt hinv)
      0 (0, n2 - 2) (postrotateInv_init hn4 hn2 buf)
    have h2 := forStep_invariant ((n4 + 1) / 2) 0 1 (postrotateOne trig n2 n4)
      (PostrotateInv trig n2 n4 hn2 buf)
      (fun _ _ _ hlt hinv => postrotateInv_one hn2 (by simpa using hlt) hinv) _ _ h1.1
    have hfinal := h2.1
    rw [le_antisymm h2.1.2.1 (by simpa using h2.2)] at hfinal
    exact ⟨_, hfinal⟩

end Pass

/-- `imdct_postrotate_f32`, for `n2 = 2 * n4`, loads and stores `buf` and loads `trig`
only at indices below `n2`, loads every element of `buf` before it stores to it, and
leaves the out-of-place rotation of the original buffer: `buf[2k]` and `buf[n2 - 1 - 2k]`
hold the rotation of the sample at `2k` by `trig[k]`, `trig[n4 + k]`, for every `k < n4`,
whatever the arithmetic is and whether `n4` is odd or even. -/
theorem imdctPostrotateF32_correct (trig : ℤ → α) (n2 n4 : ℤ) (hn4 : 0 ≤ n4)
    (hn2 : n2 = 2 * n4) (buf : ℤ → α) :
    (∀ e ∈ ((imdctPostrotateF32 trig n2 n4).call buf).log, postrotateFootprint n2 e) ∧
    LoadsBeforeStores .buf ((imdctPostrotateF32 trig n2 n4).call buf).log ∧
    (∀ k, 0 ≤ k → k < n4 →
      ((imdctPostrotateF32 trig n2 n4).call buf).mem (2 * k) =
        buf (2 * k + 1) * trig k + buf (2 * k) * trig (n4 + k) ∧
      ((imdctPostrotateF32 trig n2 n4).call buf).mem (n2 - 1 - 2 * k) =
        buf (2 * k + 1) * trig (n4 + k) - buf (2 * k) * trig k) ∧
    (∀ p, ¬ (0 ≤ p ∧ p < n2) → ((imdctPostrotateF32 trig n2 n4).call buf).mem p = buf p) := by
  obtain ⟨_, -, -, -, hdone, hlog, hfoot⟩ := imdctPostrotateF32_inv trig n2 n4 hn4 hn2 buf
  refine ⟨hfoot, hlog.1, fun k hk0 hk => ?_, fun p hp => hdone.2 p fun c hc hpc => hp ?_⟩
  · by_cases hlow : k < (n4 + 1) / 2
    · have hw := hdone.1 k ⟨hk0, hlow⟩
      rw [show n2 - 1 - 2 * k = n2 - 2 - 2 * k + 1 by omega]
      exact ⟨hw _ (List.mem_cons_self _ _),
        hw _ (List.mem_cons_of_mem _ (List.mem_cons_self _ _))⟩
    · have hw := hdone.1 (n4 - 1 - k) ⟨by omega, by omega⟩
      have hr := hw _ (List.mem_cons_of_mem _ (List.mem_cons_of_mem _ (List.mem_cons_self _ _)))
      have hi := hw _ (List.mem_cons_of_mem _ (List.mem_cons_of_mem _
        (List.mem_cons_of_mem _ (List.mem_cons_self _ _))))
      simp only [postrotatePass, rotStores] at hr hi
      rw [show n2 - 2 - 2 * (n4 - 1 - k) = 2 * k by omega,
        show n4 - (n4 - 1 - k) - 1 = k by omega,
        show n2 - (n4 - 1 - k) - 1 = n4 + k by omega] at hr hi
      rw [show n2 - 1 - 2 * k = 2 * (n4 - 1 - k) + 1 by omega]
      exact ⟨hr, hi⟩
  · simp only [postrotatePass, List.mem_cons, List.not_mem_nil, or_false] at hpc
    omega

/-- `n4 = 3`: one paired iteration whose two vector stores overlap on the middle sample. -/
theorem imdctPostrotateF32_correct_three :
    (0 : ℤ) ≤ 3 ∧ (6 : ℤ) = 2 * 3 ∧
    (∀ e ∈ ((imdctPostrotateF32 (fun p : ℤ => p) 6 3).call fun p => p).log,
      postrotateFootprint 6 e) ∧
    LoadsBeforeStores .buf ((imdctPostrotateF32 (fun p : ℤ => p) 6 3).call fun p => p).log ∧
    (∀ k, 0 ≤ k → k < 3 →
      ((imdctPostrotateF32 (fun p : ℤ => p) 6 3).call fun p => p).mem (2 * k) =
        (2 * k + 1) * k + 2 * k * (3 + k) ∧
      ((imdctPostrotateF32 (fun p : ℤ => p) 6 3).call fun p => p).mem (6 - 1 - 2 * k) =
        (2 * k + 1) * (3 + k) - 2 * k * k) ∧
    (∀ p, ¬ (0 ≤ p ∧ p < 6) →
      ((imdctPostrotateF32 (fun p : ℤ => p) 6 3).call fun p => p).mem p = p) :=
  ⟨by decide, by decide, imdctPostrotateF32_correct (fun p : ℤ => p) 6 3 (by decide) (by decide)
    fun p => p⟩

/-! ### The paired loop against the scalar loop -/

/-- The scalar loop of `imdct_postrotate_f32` alone, run over every iteration
`i < ceil (n4 / 2)` from the cursors' start: the kernel with its paired loop taken out, the
reference the vector path is compared against. -/
def imdctPostrotateScalar (trig : ℤ → α) (n2 n4 : ℤ) : Kernel α Unit :=
  let limit := (n4 + 1) >>> (1 : ℕ)
  if limit ≤ 0 then pure () else do
    let _ ← forStep limit 0 1 (postrotateOne trig n2 n4) 0 (0, n2 - 2)
    pure ()

/-- The scalar loop alone also does every iteration below `ceil (n4 / 2)`. -/
theorem imdctPostrotateScalar_inv (trig : ℤ → α) (n2 n4 : ℤ) (hn4 : 0 ≤ n4)
    (hn2 : n2 = 2 * n4) (buf : ℤ → α) :
    ∃ yp, PostrotateInv trig n2 n4 hn2 buf ((n4 + 1) / 2) yp
      ((imdctPostrotateScalar trig n2 n4).call buf) := by
  unfold Kernel.call imdctPostrotateScalar
  simp only [postrotateLimit_eq]
  split
  · next hz =>
    have h0 : (n4 + 1) / 2 = 0 := by omega
    exact ⟨_, h0 ▸ postrotateInv_init hn4 hn2 buf⟩
  · have h := forStep_invariant ((n4 + 1) / 2) 0 1 (postrotateOne trig n2 n4)
      (PostrotateInv trig n2 n4 hn2 buf)
      (fun _ _ _ hlt hinv => postrotateInv_one hn2 (by simpa using hlt) hinv) 0 (0, n2 - 2)
      (postrotateInv_init hn4 hn2 buf)
    have hfinal := h.1
    rw [le_antisymm h.1.2.1 (by simpa using h.2)] at hfinal
    exact ⟨_, hfinal⟩

/-- The paired vector loop changes nothing in the result: for `n2 = 2 * n4`,
`imdct_postrotate_f32` leaves `buf` exactly as its scalar loop run over every iteration
does, for every `n4`, odd or even, and whatever the arithmetic is, so bit for bit in IEEE
single precision. -/
theorem imdctPostrotateF32_eq_scalar (trig : ℤ → α) (n2 n4 : ℤ) (hn4 : 0 ≤ n4)
    (hn2 : n2 = 2 * n4) (buf : ℤ → α) :
    ((imdctPostrotateF32 trig n2 n4).call buf).mem =
      ((imdctPostrotateScalar trig n2 n4).call buf).mem := by
  obtain ⟨_, _, -, -, hdone, -⟩ := imdctPostrotateF32_inv trig n2 n4 hn4 hn2 buf
  obtain ⟨_, _, -, -, hdone', -⟩ := imdctPostrotateScalar_inv trig n2 n4 hn4 hn2 buf
  exact hdone.unique hdone'

theorem imdctPostrotateF32_eq_scalar_five :
    (0 : ℤ) ≤ 5 ∧ (10 : ℤ) = 2 * 5 ∧
    ((imdctPostrotateF32 (fun p : ℤ => p) 10 5).call fun p => p).mem =
      ((imdctPostrotateScalar (fun p : ℤ => p) 10 5).call fun p => p).mem :=
  ⟨by decide, by decide, imdctPostrotateF32_eq_scalar (fun p : ℤ => p) 10 5 (by decide)
    (by decide) fun p => p⟩

end Gopus
