import Gopus.Kiss.Bfly4M1

/-!
# `kf_bfly4_mx`

The radix-4 butterfly for general `m`: `n` groups at `fout + i * mm` of `m` positions
each. Position `j` rewrites the four elements `f[j]`, `f[j + m]`, `f[j + 2m]`, `f[j + 3m]`
of its group from their values and the twiddles `tw[j * fstride]`, `tw[2j * fstride]`,
`tw[3j * fstride]`, which the source reaches through cursors `tw1`, `tw2`, `tw3`. The
general path does one position at a time. The fast path, taken when `fstride == 1`, does
positions `j` and `j + 1` together in the low and high halves of 4-lane vectors, then the
last position alone when `m` is odd.

The offsets `i * mm`, `2 * m`, `3 * m` and the cursors, which reach `3 * m * fstride` after
the last position, are C `int`s; the model takes them in `ℤ`, which is what the source
computes when `3 * m`, `3 * m * fstride` and `(n - 1) * mm` lie in `[-2 ^ 31, 2 ^ 31)`, so
that no `int` product or sum of the loops overflows.
-/

namespace Gopus

section Model

variable {α : Type} [Add α] [Sub α] [Mul α] [Neg α] [One α]

/-- `cmul2(a, b)`: the element in `a` times the twiddle in `b`. -/
def cmul2 (a b : Float32x2 α) : Float32x2 α :=
  let br := vdupLaneF32 b 0
  let bi := vdupLaneF32 b 1
  let aSw := vrev64F32 a
  let t0 := vmulF32 a br
  let t1 := vmulF32 aSw bi
  let sign : Float32x2 α := ⟨-1, 1⟩
  let t1 := vmulF32 t1 sign
  vaddF32 t0 t1

/-- `cmul2x(a, b)`: `cmul2` in each half. -/
def cmul2x (a b : Float32x4 α) : Float32x4 α :=
  let bl := vgetLowF32 b
  let bh := vgetHighF32 b
  let br := vcombineF32 (vdupLaneF32 bl 0) (vdupLaneF32 bh 0)
  let bi := vcombineF32 (vdupLaneF32 bl 1) (vdupLaneF32 bh 1)
  let aSw := vrev64qF32 a
  let t0 := vmulqF32 a br
  let t1 := vmulqF32 aSw bi
  let sign : Float32x4 α := ⟨-1, 1, -1, 1⟩
  let t1 := vmulqF32 t1 sign
  vaddqF32 t0 t1

/-- `cadd2`. -/
def cadd2 (a b : Float32x2 α) : Float32x2 α := vaddF32 a b

/-- `csub2`. -/
def csub2 (a b : Float32x2 α) : Float32x2 α := vsubF32 a b

/-- The body of the scalar loops of `kf_bfly4_mx` between their loads and their stores:
from the elements `f0 .. f3` of a position and its twiddles, the values stored at `f[0]`,
`f[m]`, `f[2m]`, `f[3m]`. -/
def bfly4MxButterfly (f0 f1 f2 f3 tw1v tw2v tw3v : Float32x2 α) :
    Float32x2 α × Float32x2 α × Float32x2 α × Float32x2 α :=
  let scratch0 := cmul2 f1 tw1v
  let scratch1 := cmul2 f2 tw2v
  let scratch2 := cmul2 f3 tw3v
  let scratch5 := csub2 f0 scratch1
  let f0 := cadd2 f0 scratch1
  let scratch3 := cadd2 scratch0 scratch2
  let scratch4 := csub2 scratch0 scratch2
  let f2out := csub2 f0 scratch3
  let f0 := cadd2 f0 scratch3
  let sc4swap := vrev64F32 scratch4
  let sign2 : Float32x2 α := ⟨-1, 1⟩
  let sc4i := vmulF32 sc4swap sign2
  let fmout := csub2 scratch5 sc4i
  let f3out := cadd2 scratch5 sc4i
  (f0, fmout, f2out, f3out)

/-- The body of the paired loop of the fast path between its loads and its stores, on
two positions at once. -/
def bfly4MxButterflyX (sign4 f0 f1 f2 f3 tw1v tw2v tw3v : Float32x4 α) :
    Float32x4 α × Float32x4 α × Float32x4 α × Float32x4 α :=
  let scratch0 := cmul2x f1 tw1v
  let scratch1 := cmul2x f2 tw2v
  let scratch2 := cmul2x f3 tw3v
  let scratch5 := vsubqF32 f0 scratch1
  let f0 := vaddqF32 f0 scratch1
  let scratch3 := vaddqF32 scratch0 scratch2
  let scratch4 := vsubqF32 scratch0 scratch2
  let f2out := vsubqF32 f0 scratch3
  let f0 := vaddqF32 f0 scratch3
  let sc4swap := vrev64qF32 scratch4
  let sc4i := vmulqF32 sc4swap sign4
  let fmout := vsubqF32 scratch5 sc4i
  let f3out := vaddqF32 scratch5 sc4i
  (f0, fmout, f2out, f3out)

/-- One iteration of a scalar loop of `kf_bfly4_mx`, with the position pointer `f` and the
twiddle cursors `tw1`, `tw2`, `tw3`, which it advances by `d1`, `d2`, `d3`: by `1, 2, 3`
in the fast path and by `fstride`, `fstride * 2`, `fstride * 3` in the general one. -/
def bfly4MxStep (tw : ℤ → KissCpx α) (m d1 d2 d3 : ℤ) (c : ℤ × ℤ × ℤ × ℤ) :
    Kernel (KissCpx α) (ℤ × ℤ × ℤ × ℤ) := do
  let (f, tw1, tw2, tw3) := c
  let f0 ← vld1F32Cpx f
  let f1 ← vld1F32Cpx (f + m)
  let f2 ← vld1F32Cpx (f + 2 * m)
  let f3 ← vld1F32Cpx (f + 3 * m)
  let tw1v ← vld1F32Tw tw tw1
  let tw2v ← vld1F32Tw tw tw2
  let tw3v ← vld1F32Tw tw tw3
  let out := bfly4MxButterfly f0 f1 f2 f3 tw1v tw2v tw3v
  vst1F32Cpx f out.1
  vst1F32Cpx (f + m) out.2.1
  vst1F32Cpx (f + 2 * m) out.2.2.1
  vst1F32Cpx (f + 3 * m) out.2.2.2
  pure (f + 1, tw1 + d1, tw2 + d2, tw3 + d3)

/-- One iteration of the paired loop of the fast path. -/
def bfly4MxPair (tw : ℤ → KissCpx α) (m : ℤ) (sign4 : Float32x4 α) (c : ℤ × ℤ × ℤ × ℤ) :
    Kernel (KissCpx α) (ℤ × ℤ × ℤ × ℤ) := do
  let (f, tw1, tw2, tw3) := c
  let f0 ← vld1qF32Cpx f
  let f1 ← vld1qF32Cpx (f + m)
  let f2 ← vld1qF32Cpx (f + 2 * m)
  let f3 ← vld1qF32Cpx (f + 3 * m)
  let tw1v ← vld1qF32Tw tw tw1
  let tw2a ← vld1F32Tw tw tw2
  let tw2b ← vld1F32Tw tw (tw2 + 2)
  let tw2v := vcombineF32 tw2a tw2b
  let tw3a ← vld1F32Tw tw tw3
  let tw3b ← vld1F32Tw tw (tw3 + 3)
  let tw3v := vcombineF32 tw3a tw3b
  let out := bfly4MxButterflyX sign4 f0 f1 f2 f3 tw1v tw2v tw3v
  vst1qF32Cpx f out.1
  vst1qF32Cpx (f + m) out.2.1
  vst1qF32Cpx (f + 2 * m) out.2.2.1
  vst1qF32Cpx (f + 3 * m) out.2.2.2
  pure (f + 2, tw1 + 2, tw2 + 4, tw3 + 6)

/-- One group of the fast path, at `f`: the paired loop, then the scalar remainder. -/
def bfly4MxFastGroup (tw : ℤ → KissCpx α) (m : ℤ) (sign4 : Float32x4 α) (f : ℤ) :
    Kernel (KissCpx α) Unit := do
  let paired ← forStep m 1 2 (fun _ c => bfly4MxPair tw m sign4 c) 0 (f, 0, 0, 0)
  let _ ← forStep m 0 1 (fun _ c => bfly4MxStep tw m 1 2 3 c) paired.1 paired.2
  pure ()

/-- One group of the general path, at `f`. -/
def bfly4MxGeneralGroup (tw : ℤ → KissCpx α) (m fstride f : ℤ) : Kernel (KissCpx α) Unit := do
  let _ ← forStep m 0 1 (fun _ c => bfly4MxStep tw m fstride (fstride * 2) (fstride * 3) c) 0
    (f, 0, 0, 0)
  pure ()

/-- The fast path of `kf_bfly4_mx`, the branch `fstride == 1`. -/
def bfly4MxFast (tw : ℤ → KissCpx α) (m n mm : ℤ) : Kernel (KissCpx α) Unit := do
  let sign4 : Float32x4 α := ⟨-1, 1, -1, 1⟩
  let _ ← forStep n 0 1 (fun i _ => bfly4MxFastGroup tw m sign4 (i * mm)) 0 ()
  pure ()

/-- The general path of `kf_bfly4_mx`, after the branch `fstride == 1`. -/
def bfly4MxGeneral (tw : ℤ → KissCpx α) (m n fstride mm : ℤ) : Kernel (KissCpx α) Unit := do
  let _ ← forStep n 0 1 (fun i _ => bfly4MxGeneralGroup tw m fstride (i * mm)) 0 ()
  pure ()

/-- `kf_bfly4_mx(fout, tw, m, n, fstride, mm)`. -/
def kfBfly4Mx (tw : ℤ → KissCpx α) (m n fstride mm : ℤ) : Kernel (KissCpx α) Unit :=
  if fstride = 1 then bfly4MxFast tw m n mm else bfly4MxGeneral tw m n fstride mm

/-! ### The stores of a position -/

/-- The stores of a position whose elements are at `a0 .. a3` and whose twiddles are at
`t1`, `t2`, `t3`, computed from the array `mem`. -/
def bfly4MxWrites (tw : ℤ → KissCpx α) (a0 a1 a2 a3 t1 t2 t3 : ℤ) (mem : ℤ → KissCpx α) :
    List (ℤ × KissCpx α) :=
  let out := bfly4MxButterfly (mem a0).lanes (mem a1).lanes (mem a2).lanes (mem a3).lanes
    (tw t1).lanes (tw t2).lanes (tw t3).lanes
  [(a0, out.1.toCpx), (a1, out.2.1.toCpx), (a2, out.2.2.1.toCpx), (a3, out.2.2.2.toCpx)]

/-- The order in which a paired iteration stores the writes of its positions `a` and `b`:
each `vst1q_f32` stores one element of each. -/
def zipOrder {σ : Type} : List σ → List σ → List σ
  | [a0, a1, a2, a3], [b0, b1, b2, b3] => [a0, b0, a1, b1, a2, b2, a3, b3]
  | _, _ => []

theorem bfly4MxStep_run (tw : ℤ → KissCpx α) (m d1 d2 d3 f t1 t2 t3 : ℤ)
    (h : Heap (KissCpx α)) :
    ((bfly4MxStep tw m d1 d2 d3 (f, t1, t2, t3)).run h).1 = (f + 1, t1 + d1, t2 + d2, t3 + d3) ∧
    ((bfly4MxStep tw m d1 d2 d3 (f, t1, t2, t3)).run h).2.mem =
      storeAll h.mem (bfly4MxWrites tw f (f + m) (f + 2 * m) (f + 3 * m) t1 t2 t3 h.mem) :=
  ⟨rfl, rfl⟩

theorem bfly4MxPair_run (tw : ℤ → KissCpx α) (m f t1 t2 t3 : ℤ) (h : Heap (KissCpx α)) :
    ((bfly4MxPair tw m ⟨-1, 1, -1, 1⟩ (f, t1, t2, t3)).run h).1 = (f + 2, t1 + 2, t2 + 4, t3 + 6) ∧
    ((bfly4MxPair tw m ⟨-1, 1, -1, 1⟩ (f, t1, t2, t3)).run h).2.mem =
      storeAll h.mem (zipOrder
        (bfly4MxWrites tw f (f + m) (f + 2 * m) (f + 3 * m) t1 t2 t3 h.mem)
        (bfly4MxWrites tw (f + 1) (f + m + 1) (f + 2 * m + 1) (f + 3 * m + 1) (t1 + 1) (t2 + 2)
          (t3 + 3) h.mem)) :=
  ⟨rfl, rfl⟩

theorem bfly4MxFastGroup_run (tw : ℤ → KissCpx α) (m : ℤ) (sign4 : Float32x4 α) (f : ℤ)
    (h : Heap (KissCpx α)) :
    ((bfly4MxFastGroup tw m sign4 f).run h).2.mem =
      ((forStep m 0 1 (fun _ c => bfly4MxStep tw m 1 2 3 c)
        ((forStep m 1 2 (fun _ c => bfly4MxPair tw m sign4 c) 0 (f, 0, 0, 0)).run h).1.1
        ((forStep m 1 2 (fun _ c => bfly4MxPair tw m sign4 c) 0 (f, 0, 0, 0)).run h).1.2).run
        ((forStep m 1 2 (fun _ c => bfly4MxPair tw m sign4 c) 0 (f, 0, 0, 0)).run h).2).2.mem :=
  rfl

end Model

theorem mem_zipOrder {σ : Type} {w : σ} {l l' : List σ} (hl : l.length = 4)
    (hl' : l'.length = 4) : w ∈ zipOrder l l' ↔ w ∈ l ∨ w ∈ l' := by
  match l, l', hl, hl' with
  | [a0, a1, a2, a3], [b0, b1, b2, b3], _, _ =>
    simp only [zipOrder, List.mem_cons, List.not_mem_nil, or_false]
    constructor
    · rintro (h | h | h | h | h | h | h | h) <;> simp only [h, true_or, or_true]
    · rintro ((h | h | h | h) | (h | h | h | h)) <;> simp only [h, true_or, or_true]

/-! ### The positions of a group -/

section Pass

variable {α : Type} [Add α] [Sub α] [Mul α] [Neg α] [One α] (tw : ℤ → KissCpx α)

/-- Position `j` of the group at `f` as a cell of an in-place pass, with its twiddles at
`j * fstride`, `j * (fstride * 2)`, `j * (fstride * 3)`, where the cursors of the general
path are after `j` iterations. -/
def bfly4MxPass (m fstride f : ℤ) (hm : 0 < m) : InPlace ℤ (KissCpx α) where
  slots j := [f + j, f + j + m, f + j + 2 * m, f + j + 3 * m]
  writes j := bfly4MxWrites tw (f + j) (f + j + m) (f + j + 2 * m) (f + j + 3 * m) (j * fstride)
    (j * (fstride * 2)) (j * (fstride * 3))
  addrs _ _ := rfl
  consistent j _ := consistent_of_nodup (by
    simp only [bfly4MxWrites, List.map_cons, List.map_nil, List.nodup_cons, List.mem_cons,
      List.mem_singleton, List.not_mem_nil, or_false, List.nodup_nil, not_false_eq_true,
      and_true]
    omega)
  isLocal j mem mem' h := by
    simp only [bfly4MxWrites, h (f + j) (by simp), h (f + j + m) (by simp),
      h (f + j + 2 * m) (by simp), h (f + j + 3 * m) (by simp)]

variable {tw}

/-- Two positions of a group touch disjoint elements. -/
theorem bfly4MxPass_disjoint {m fstride f : ℤ} {hm : 0 < m} {j j' : ℤ} (hj : 0 ≤ j ∧ j < m)
    (hj' : 0 ≤ j' ∧ j' < m) (hne : j ≠ j') :
    ∀ p ∈ (bfly4MxPass tw m fstride f hm).slots j,
      p ∉ (bfly4MxPass tw m fstride f hm).slots j' := by
  intro p hp hp'
  simp only [bfly4MxPass, List.mem_cons, List.not_mem_nil, or_false] at hp hp'
  omega

variable (tw)

/-- A group of the general path does every position of the group from the array it finds. -/
theorem bfly4MxGeneralGroup_done (m fstride f : ℤ) (hm : 0 < m) (h : Heap (KissCpx α)) :
    (bfly4MxPass tw m fstride f hm).Done (fun j => 0 ≤ j ∧ j < m) h.mem
      ((bfly4MxGeneralGroup tw m fstride f).run h).2.mem := by
  have hloop := (bfly4MxPass tw m fstride f hm).forStep_groups (fun j c => c = j)
    (fun j => (f + j, j * fstride, j * (fstride * 2), j * (fstride * 3)))
    (fun _ c => bfly4MxStep tw m fstride (fstride * 2) (fstride * 3) c) m
    (fun j h _ _ => by
      obtain ⟨hcur, hmem⟩ := bfly4MxStep_run tw m fstride (fstride * 2) (fstride * 3) (f + j)
        (j * fstride) (j * (fstride * 2)) (j * (fstride * 3)) h
      refine ⟨?_, by rw [hmem]; exact (bfly4MxPass tw m fstride f hm).done_writes j h.mem⟩
      rw [hcur]
      simp only [Prod.mk.injEq]
      exact ⟨by ring, by ring, by ring, by ring⟩)
    (fun j j' hj0 hjj hj c hc c' hc' => by
      subst c c'
      exact bfly4MxPass_disjoint ⟨by omega, hj⟩ ⟨hj0, by omega⟩ (by omega))
    h
  simp only [add_zero, zero_mul] at hloop
  exact hloop.congr fun c =>
    ⟨fun ⟨g, hg0, hg, hc⟩ => hc ▸ ⟨hg0, hg⟩, fun ⟨hc0, hc⟩ => ⟨c, hc0, hc, rfl⟩⟩

/-! ### The fast path -/

variable {tw}

/-- The stores of the fast path at its cursors after `j` positions are position `j`'s. -/
theorem bfly4MxPass_writes_fast {m f : ℤ} {hm : 0 < m} (j : ℤ) (mem : ℤ → KissCpx α) :
    bfly4MxWrites tw (f + j) (f + j + m) (f + j + 2 * m) (f + j + 3 * m) j (2 * j) (3 * j) mem =
      (bfly4MxPass tw m 1 f hm).writes j mem := by
  simp only [bfly4MxPass]
  congr 1 <;> omega

/-- The high half of a paired iteration at position `j` stores position `j + 1`'s. -/
theorem bfly4MxPass_writes_high {m f : ℤ} {hm : 0 < m} (j : ℤ) (mem : ℤ → KissCpx α) :
    bfly4MxWrites tw (f + j + 1) (f + j + m + 1) (f + j + 2 * m + 1) (f + j + 3 * m + 1) (j + 1)
        (2 * j + 2) (3 * j + 3) mem =
      (bfly4MxPass tw m 1 f hm).writes (j + 1) mem := by
  simp only [bfly4MxPass]
  congr 1 <;> omega

variable (tw)

/-- The invariant of both loops of a fast-path group at `f` after `j` positions: the
position pointer and the twiddle cursors at `f + j`, `j`, `2j`, `3j`, and positions
`0 .. j - 1` done from the array `mem0` the group started from. -/
def Bfly4MxFastInv (m f : ℤ) (hm : 0 < m) (mem0 : ℤ → KissCpx α) (j : ℤ)
    (c : ℤ × ℤ × ℤ × ℤ) (h : Heap (KissCpx α)) : Prop :=
  0 ≤ j ∧ j ≤ m ∧ c = (f + j, j, 2 * j, 3 * j) ∧
    (bfly4MxPass tw m 1 f hm).Done (fun j' => 0 ≤ j' ∧ j' < j) mem0 h.mem

variable {tw}

/-- A paired iteration does positions `j` and `j + 1`. -/
theorem bfly4MxFastInv_pair {m f : ℤ} {hm : 0 < m} {mem0 : ℤ → KissCpx α} {j : ℤ}
    {c : ℤ × ℤ × ℤ × ℤ} {h : Heap (KissCpx α)} (hlt : j + 1 < m)
    (hinv : Bfly4MxFastInv tw m f hm mem0 j c h) :
    Bfly4MxFastInv tw m f hm mem0 (j + 2) ((bfly4MxPair tw m ⟨-1, 1, -1, 1⟩ c).run h).1
      ((bfly4MxPair tw m ⟨-1, 1, -1, 1⟩ c).run h).2 := by
  obtain ⟨hj0, -, rfl, hdone⟩ := hinv
  obtain ⟨hcur, hmem⟩ := bfly4MxPair_run tw m (f + j) j (2 * j) (3 * j) h
  have hdisj : ∀ c, (c = j ∨ c = j + 1) → ∀ c', (0 ≤ c' ∧ c' < j) →
      ∀ p ∈ (bfly4MxPass tw m 1 f hm).slots c, p ∉ (bfly4MxPass tw m 1 f hm).slots c' :=
    fun c hc c' hc' => bfly4MxPass_disjoint (by omega) (by omega) (by omega)
  refine ⟨by omega, by omega, by rw [hcur]; simp only [Prod.mk.injEq, true_and]; omega, ?_⟩
  rw [hmem, bfly4MxPass_writes_fast, bfly4MxPass_writes_high]
  refine (hdone.store hdisj (fun c c' hc hc' hne => bfly4MxPass_disjoint (by omega) (by omega) hne)
    (fun w hw => ?_) ?_).congr fun c => by omega
  · rcases (mem_zipOrder (by rfl) (by rfl)).mp hw with hw | hw
    exacts [⟨j, .inl rfl, hw⟩, ⟨j + 1, .inr rfl, hw⟩]
  · rintro c (rfl | rfl) w hw
    exacts [(mem_zipOrder (by rfl) (by rfl)).mpr (.inl hw),
      (mem_zipOrder (by rfl) (by rfl)).mpr (.inr hw)]

variable (tw)

/-- A group of the fast path does every position of the group from the array it finds. -/
theorem bfly4MxFastGroup_done (m f : ℤ) (hm : 0 < m) (h : Heap (KissCpx α)) :
    (bfly4MxPass tw m 1 f hm).Done (fun j => 0 ≤ j ∧ j < m) h.mem
      ((bfly4MxFastGroup tw m ⟨-1, 1, -1, 1⟩ f).run h).2.mem := by
  have hpair := forStep_invariant m 1 2 (fun _ c => bfly4MxPair tw m ⟨-1, 1, -1, 1⟩ c)
    (Bfly4MxFastInv tw m f hm h.mem) (fun _ _ _ hlt hinv => bfly4MxFastInv_pair hlt hinv) 0
    (f, 0, 0, 0) ⟨le_rfl, hm.le, by simp, ((bfly4MxPass tw m 1 f hm).done_none h.mem).congr
      fun _ => ⟨False.elim, fun hj => by omega⟩⟩
  rw [bfly4MxFastGroup_run]
  generalize (forStep m 1 2 (fun _ c => bfly4MxPair tw m ⟨-1, 1, -1, 1⟩ c) 0 (f, 0, 0, 0)).run h
    = r at hpair ⊢
  obtain ⟨⟨j1, c1⟩, h1⟩ := r
  dsimp only at hpair ⊢
  obtain ⟨⟨hj0, hjm, rfl, hdone⟩, -⟩ := hpair
  have hrest := (bfly4MxPass tw m 1 f hm).forStep_groups_from (fun j c => c = j)
    (fun j => (f + j, j, 2 * j, 3 * j)) (fun _ c => bfly4MxStep tw m 1 2 3 c) m j1
    (fun j h' _ _ => by
      obtain ⟨hcur, hmem⟩ := bfly4MxStep_run tw m 1 2 3 (f + j) j (2 * j) (3 * j) h'
      refine ⟨by rw [hcur]; simp only [Prod.mk.injEq, true_and]; omega, ?_⟩
      rw [hmem, bfly4MxPass_writes_fast]
      exact (bfly4MxPass tw m 1 f hm).done_writes j h'.mem)
    (fun j j' hj0 hjj hj c hc c' hc' => by
      subst c c'
      exact bfly4MxPass_disjoint ⟨by omega, hj⟩ ⟨hj0, by omega⟩ (by omega))
    h1 hj0 (hdone.congr fun c => ⟨fun ⟨h0, hc⟩ => ⟨c, h0, hc, rfl⟩,
      fun ⟨_, hg0, hg, hc⟩ => hc ▸ ⟨hg0, hg⟩⟩)
  exact hrest.congr fun c => ⟨fun ⟨_, hg0, hg, hc⟩ => hc ▸ ⟨hg0, by omega⟩,
    fun ⟨hc0, hc⟩ => ⟨c, hc0, by omega, rfl⟩⟩

/-- With `fstride = 1` a group of the fast path leaves the array a group of the general path
leaves: both do every position from the array they find, and positions are disjoint. -/
theorem bfly4MxFastGroup_eq_general (m f : ℤ) {h h' : Heap (KissCpx α)} (hmem : h.mem = h'.mem) :
    ((bfly4MxFastGroup tw m ⟨-1, 1, -1, 1⟩ f).run h).2.mem =
      ((bfly4MxGeneralGroup tw m 1 f).run h').2.mem := by
  by_cases hm : 0 < m
  · have hgen := bfly4MxGeneralGroup_done tw m 1 f hm h'
    rw [← hmem] at hgen
    exact (bfly4MxFastGroup_done tw m f hm h).unique hgen
  · have hpair : ¬ (0 : ℤ) + ((1 : ℕ) : ℤ) < m := by omega
    have hstep : ¬ (0 : ℤ) + ((0 : ℕ) : ℤ) < m := by omega
    rw [bfly4MxFastGroup_run, forStep_run_of_not_lt (f, 0, 0, 0) h hpair]
    dsimp only
    rw [forStep_run_of_not_lt (f, 0, 0, 0) h hstep]
    show h.mem = ((forStep m 0 1 (fun _ c => bfly4MxStep tw m 1 (1 * 2) (1 * 3) c) 0
      (f, 0, 0, 0)).run h').2.mem
    rw [forStep_run_of_not_lt (f, 0, 0, 0) h' hstep]
    exact hmem

end Pass

/-- The fast path of `kf_bfly4_mx` leaves the array exactly as its general path run with
`fstride = 1` does, for every `m`, `n`, `mm` and twiddle table, whatever the arithmetic
and even when consecutive groups overlap. -/
theorem kfBfly4Mx_fast_eq_general {α : Type} [Add α] [Sub α] [Mul α] [Neg α] [One α]
    (tw : ℤ → KissCpx α) (m n mm : ℤ) (fout : ℤ → KissCpx α) :
    ((kfBfly4Mx tw m n 1 mm).call fout).mem = ((bfly4MxGeneral tw m n 1 mm).call fout).mem := by
  unfold kfBfly4Mx Kernel.call
  rw [if_pos rfl]
  exact (forStep_congr n 0 1 (fun i _ => bfly4MxFastGroup tw m ⟨-1, 1, -1, 1⟩ (i * mm))
    (fun i _ => bfly4MxGeneralGroup tw m 1 (i * mm))
    (fun i _ _ _ _ hmem => ⟨rfl, bfly4MxFastGroup_eq_general tw m (i * mm) hmem⟩) 0 () rfl).2

/-! ### The groups -/

section Grid

variable {α : Type} [Add α] [Sub α] [Mul α] [Neg α] [One α] (tw : ℤ → KissCpx α)

/-- The positions of all groups: cell `(g, j)` is position `j` of the group at `g * mm`. -/
def bfly4MxGrid (m fstride mm : ℤ) (hm : 0 < m) : InPlace (ℤ × ℤ) (KissCpx α) :=
  InPlace.grid fun g => bfly4MxPass tw m fstride (g * mm) hm

variable {tw}

/-- When a group's span `4m` fits in `mm`, no position of a group shares an element with a
position of an earlier group. -/
theorem bfly4MxGrid_disjoint {m fstride mm n : ℤ} {hm : 0 < m} (hmm : 4 * m ≤ mm ∨ n ≤ 1) :
    ∀ g g', 0 ≤ g' → g' < g → g < n →
      ∀ c, (c.1 = g ∧ 0 ≤ c.2 ∧ c.2 < m) → ∀ c', (c'.1 = g' ∧ 0 ≤ c'.2 ∧ c'.2 < m) →
        ∀ p ∈ (bfly4MxGrid tw m fstride mm hm).slots c,
          p ∉ (bfly4MxGrid tw m fstride mm hm).slots c' := by
  rintro g g' hg0 hgg' hg ⟨_, j⟩ ⟨rfl, hj0, hj⟩ ⟨_, j'⟩ ⟨rfl, hj0', hj'⟩ p hp hp'
  dsimp only at *
  have := group_base_add_le (hmm.resolve_right (by omega)) hgg' (by omega)
  simp only [bfly4MxGrid, InPlace.grid, bfly4MxPass, List.mem_cons, List.not_mem_nil,
    or_false] at hp hp'
  omega

variable (tw)

/-- The loop over groups of either path, when each group does its positions from the
array it finds. -/
theorem bfly4MxGrid_done (m fstride n mm : ℤ) (hm : 0 < m) (hmm : 4 * m ≤ mm ∨ n ≤ 1)
    (body : ℤ → Kernel (KissCpx α) Unit)
    (hbody : ∀ g h, (bfly4MxPass tw m fstride (g * mm) hm).Done (fun j => 0 ≤ j ∧ j < m) h.mem
      ((body g).run h).2.mem) (h : Heap (KissCpx α)) :
    (bfly4MxGrid tw m fstride mm hm).Done (fun c => 0 ≤ c.1 ∧ c.1 < n ∧ 0 ≤ c.2 ∧ c.2 < m)
      h.mem ((forStep n 0 1 (fun i _ => body i) 0 ()).run h).2.mem := by
  refine ((bfly4MxGrid tw m fstride mm hm).forStep_groups
    (fun g c => c.1 = g ∧ 0 ≤ c.2 ∧ c.2 < m) (fun _ => ()) (fun i _ => body i) n
    (fun g h _ _ => ⟨rfl, InPlace.Done.grid (fun g => bfly4MxPass tw m fstride (g * mm) hm)
      (hbody g h)⟩) (bfly4MxGrid_disjoint hmm) h).congr fun c => ?_
  constructor
  · rintro ⟨g, hg0, hg, rfl, hj⟩
    exact ⟨hg0, hg, hj⟩
  · rintro ⟨hg0, hg, hj⟩
    exact ⟨c.1, hg0, hg, rfl, hj⟩

/-- `kf_bfly4_mx`, by whichever path `fstride` selects, does every position of every group
`g < n` from the original array and leaves every other element, whatever the arithmetic,
when the groups do not overlap. -/
theorem kfBfly4Mx_done (m n fstride mm : ℤ) (hm : 0 < m) (hmm : 4 * m ≤ mm ∨ n ≤ 1)
    (fout : ℤ → KissCpx α) :
    (bfly4MxGrid tw m fstride mm hm).Done (fun c => 0 ≤ c.1 ∧ c.1 < n ∧ 0 ≤ c.2 ∧ c.2 < m)
      fout ((kfBfly4Mx tw m n fstride mm).call fout).mem := by
  unfold kfBfly4Mx Kernel.call
  split
  · next hf =>
    subst hf
    exact bfly4MxGrid_done tw m 1 n mm hm hmm
      (fun i => bfly4MxFastGroup tw m ⟨-1, 1, -1, 1⟩ (i * mm))
      (fun g h => bfly4MxFastGroup_done tw m (g * mm) hm h) ⟨fout, []⟩
  · exact bfly4MxGrid_done tw m fstride n mm hm hmm
      (fun i => bfly4MxGeneralGroup tw m fstride (i * mm))
      (fun g h => bfly4MxGeneralGroup_done tw m fstride (g * mm) hm h) ⟨fout, []⟩

end Grid

/-! ### What a call reads and writes -/

section Footprint

variable {α : Type} [Add α] [Sub α] [Mul α] [Neg α] [One α] (tw : ℤ → KissCpx α)

/-- The accesses a group at `f` may make when its twiddle cursors advance by `d1`, `d2`,
`d3`: loads and stores of its `4m` elements, and loads of the twiddles `j * d1`, `j * d2`,
`j * d3` of its positions `j < m`. -/
def bfly4MxGroupFootprint (m d1 d2 d3 f : ℤ) : Access → Prop
  | .load .fout p => f ≤ p ∧ p < f + 4 * m
  | .store .fout p => f ≤ p ∧ p < f + 4 * m
  | .load .tw p => ∃ j, 0 ≤ j ∧ j < m ∧ (p = j * d1 ∨ p = j * d2 ∨ p = j * d3)
  | _ => False

/-- The accesses `kf_bfly4_mx` may make: those of its groups `g < n` at `g * mm`, with the
twiddle strides `fstride`, `fstride * 2`, `fstride * 3`. -/
def bfly4MxFootprint (m n fstride mm : ℤ) (e : Access) : Prop :=
  ∃ g, 0 ≤ g ∧ g < n ∧
    bfly4MxGroupFootprint m fstride (fstride * 2) (fstride * 3) (g * mm) e

theorem bfly4MxStep_log (m d1 d2 d3 f t1 t2 t3 : ℤ) (h : Heap (KissCpx α)) :
    ((bfly4MxStep tw m d1 d2 d3 (f, t1, t2, t3)).run h).2.log =
      [.store .fout (f + 3 * m), .store .fout (f + 2 * m), .store .fout (f + m),
        .store .fout f, .load .tw t3, .load .tw t2, .load .tw t1, .load .fout (f + 3 * m),
        .load .fout (f + 2 * m), .load .fout (f + m), .load .fout f] ++ h.log :=
  rfl

theorem bfly4MxPair_log (m : ℤ) (sign4 : Float32x4 α) (f t1 t2 t3 : ℤ)
    (h : Heap (KissCpx α)) :
    ((bfly4MxPair tw m sign4 (f, t1, t2, t3)).run h).2.log =
      [.store .fout (f + 3 * m + 1), .store .fout (f + 3 * m), .store .fout (f + 2 * m + 1),
        .store .fout (f + 2 * m), .store .fout (f + m + 1), .store .fout (f + m),
        .store .fout (f + 1), .store .fout f, .load .tw (t3 + 3), .load .tw t3,
        .load .tw (t2 + 2), .load .tw t2, .load .tw (t1 + 1), .load .tw t1,
        .load .fout (f + 3 * m + 1), .load .fout (f + 3 * m), .load .fout (f + 2 * m + 1),
        .load .fout (f + 2 * m), .load .fout (f + m + 1), .load .fout (f + m),
        .load .fout (f + 1), .load .fout f] ++ h.log :=
  rfl

/-- A scalar iteration at position `j < m`, with the cursors at `j * d1`, `j * d2`,
`j * d3`, stays in its group's footprint. -/
theorem bfly4MxStep_footprint (m d1 d2 d3 f j : ℤ) (hj : 0 ≤ j ∧ j < m)
    (h : Heap (KissCpx α)) :
    ∀ e ∈ ((bfly4MxStep tw m d1 d2 d3 (f + j, j * d1, j * d2, j * d3)).run h).2.log,
      e ∈ h.log ∨ bfly4MxGroupFootprint m d1 d2 d3 f e := by
  intro e he
  rw [bfly4MxStep_log, List.mem_append] at he
  refine he.symm.imp id fun he => ?_
  simp only [List.mem_cons, List.not_mem_nil, or_false] at he
  rcases he with rfl | rfl | rfl | rfl | rfl | rfl | rfl | rfl | rfl | rfl | rfl
  all_goals first | exact ⟨by omega, by omega⟩ | exact ⟨j, hj.1, hj.2, by simp⟩

/-- A paired iteration of the fast path at positions `j` and `j + 1 < m`, with the cursors
at `j`, `2j`, `3j`, stays in its group's footprint with the strides `1`, `2`, `3`. -/
theorem bfly4MxPair_footprint (m : ℤ) (sign4 : Float32x4 α) (f j : ℤ)
    (hj : 0 ≤ j ∧ j + 1 < m) (h : Heap (KissCpx α)) :
    ∀ e ∈ ((bfly4MxPair tw m sign4 (f + j, j * 1, j * 2, j * 3)).run h).2.log,
      e ∈ h.log ∨ bfly4MxGroupFootprint m 1 2 3 f e := by
  intro e he
  rw [bfly4MxPair_log, List.mem_append] at he
  refine he.symm.imp id fun he => ?_
  simp only [List.mem_cons, List.not_mem_nil, or_false] at he
  rcases he with rfl | rfl | rfl | rfl | rfl | rfl | rfl | rfl | rfl | rfl | rfl | rfl | rfl |
    rfl | rfl | rfl | rfl | rfl | rfl | rfl | rfl | rfl
  all_goals first
    | exact ⟨by omega, by omega⟩
    | exact ⟨j, hj.1, by omega, by omega⟩
    | exact ⟨j + 1, by omega, by omega, by omega⟩

/-- A group of the fast path stays in its footprint with the strides `1`, `2`, `3`: the
paired loop keeps its cursors at `j`, `2j`, `3j` and hands them on to the scalar loop. -/
theorem bfly4MxFastGroup_footprint (m : ℤ) (sign4 : Float32x4 α) (f : ℤ)
    (h : Heap (KissCpx α)) :
    ∀ e ∈ ((bfly4MxFastGroup tw m sign4 f).run h).2.log,
      e ∈ h.log ∨ bfly4MxGroupFootprint m 1 2 3 f e := by
  have hpair := forStep_accesses m 1 2 (fun _ c => bfly4MxPair tw m sign4 c)
    (fun j c => 0 ≤ j ∧ c = (f + j, j * 1, j * 2, j * 3)) (bfly4MxGroupFootprint m 1 2 3 f)
    (fun j c h hlt ⟨hj, hc⟩ => by
      subst hc
      refine ⟨⟨by simp only [PNat.val_ofNat, Nat.cast_ofNat]; omega, ?_⟩,
        bfly4MxPair_footprint tw m sign4 f j ⟨hj, by omega⟩ h⟩
      show (f + j + 2, j * 1 + 2, j * 2 + 4, j * 3 + 6) = _
      simp only [PNat.val_ofNat, Nat.cast_ofNat, Prod.mk.injEq]
      omega)
    0 (f, 0, 0, 0) h ⟨le_rfl, by simp⟩
  intro e he
  rw [show ((bfly4MxFastGroup tw m sign4 f).run h).2 =
      ((forStep m 0 1 (fun _ c => bfly4MxStep tw m 1 2 3 c)
        ((forStep m 1 2 (fun _ c => bfly4MxPair tw m sign4 c) 0 (f, 0, 0, 0)).run h).1.1
        ((forStep m 1 2 (fun _ c => bfly4MxPair tw m sign4 c) 0 (f, 0, 0, 0)).run h).1.2).run
        ((forStep m 1 2 (fun _ c => bfly4MxPair tw m sign4 c) 0 (f, 0, 0, 0)).run h).2).2
      from rfl] at he
  generalize (forStep m 1 2 (fun _ c => bfly4MxPair tw m sign4 c) 0 (f, 0, 0, 0)).run h = r
    at hpair he
  obtain ⟨⟨j, c⟩, h1⟩ := r
  have hstep := forStep_accesses m 0 1 (fun _ c => bfly4MxStep tw m 1 2 3 c)
    (fun j c => 0 ≤ j ∧ c = (f + j, j * 1, j * 2, j * 3)) (bfly4MxGroupFootprint m 1 2 3 f)
    (fun j c h hlt ⟨hj, hc⟩ => by
      subst hc
      refine ⟨⟨by simp only [PNat.val_ofNat, Nat.cast_ofNat]; omega, ?_⟩,
        bfly4MxStep_footprint tw m 1 2 3 f j ⟨hj, by omega⟩ h⟩
      rw [(bfly4MxStep_run tw m 1 2 3 (f + j) (j * 1) (j * 2) (j * 3) h).1]
      simp only [PNat.val_ofNat, Nat.cast_ofNat, Prod.mk.injEq]
      omega)
    j c h1 hpair.1
  exact (hstep.2 e he).elim (hpair.2 e) .inr

/-- A group of the general path stays in its footprint with the strides `fstride`,
`fstride * 2`, `fstride * 3`. -/
theorem bfly4MxGeneralGroup_footprint (m fstride f : ℤ) (h : Heap (KissCpx α)) :
    ∀ e ∈ ((bfly4MxGeneralGroup tw m fstride f).run h).2.log,
      e ∈ h.log ∨ bfly4MxGroupFootprint m fstride (fstride * 2) (fstride * 3) f e :=
  (forStep_accesses m 0 1 (fun _ c => bfly4MxStep tw m fstride (fstride * 2) (fstride * 3) c)
    (fun j c => 0 ≤ j ∧ c = (f + j, j * fstride, j * (fstride * 2), j * (fstride * 3))) _
    (fun j c h hlt ⟨hj, hc⟩ => by
      subst hc
      refine ⟨⟨by simp only [PNat.val_ofNat, Nat.cast_ofNat]; omega, ?_⟩,
        bfly4MxStep_footprint tw m _ _ _ f j ⟨hj, by omega⟩ h⟩
      rw [(bfly4MxStep_run tw m _ _ _ (f + j) _ _ _ h).1]
      simp only [PNat.val_ofNat, Nat.cast_ofNat, Prod.mk.injEq]
      refine ⟨by ring, by ring, by ring, by ring⟩)
    0 (f, 0, 0, 0) h ⟨le_rfl, by simp⟩).2

end Footprint

/-- `kf_bfly4_mx`, by whichever path `fstride` selects, reads and writes only the elements
of its groups `g < n`, `fout[g * mm .. g * mm + 4m - 1]`, and reads only the twiddles
`tw[j * fstride]`, `tw[2j * fstride]`, `tw[3j * fstride]` of positions `j < m`: the fast
path's paired loads `tw[tw1 + 1]`, `tw[tw2 + 2]`, `tw[tw3 + 3]` are those of position
`j + 1`. -/
theorem kfBfly4Mx_footprint {α : Type} [Add α] [Sub α] [Mul α] [Neg α] [One α]
    (tw : ℤ → KissCpx α) (m n fstride mm : ℤ) (fout : ℤ → KissCpx α) :
    ∀ e ∈ ((kfBfly4Mx tw m n fstride mm).call fout).log, bfly4MxFootprint m n fstride mm e := by
  have hgroups : ∀ body : ℤ → Kernel (KissCpx α) Unit,
      (∀ g h, 0 ≤ g → ∀ e ∈ ((body g).run h).2.log, e ∈ h.log ∨
        bfly4MxGroupFootprint m fstride (fstride * 2) (fstride * 3) (g * mm) e) →
      ∀ e ∈ ((forStep n 0 1 (fun i _ => body i) 0 ()).run ⟨fout, []⟩).2.log,
        bfly4MxFootprint m n fstride mm e := fun body hbody e he =>
    (forStep_groups_accesses n body _ hbody ⟨fout, []⟩ e he).resolve_left (List.not_mem_nil e)
  unfold kfBfly4Mx
  split
  · next h1 =>
    subst h1
    exact hgroups _ fun g h _ e he => by
      simpa only [one_mul] using bfly4MxFastGroup_footprint tw m ⟨-1, 1, -1, 1⟩ (g * mm) h e he
  · exact hgroups _ fun g h _ => bfly4MxGeneralGroup_footprint tw m fstride (g * mm) h

theorem kfBfly4Mx_footprint_one_group :
    Access.store .fout 3 ∈
        ((kfBfly4Mx (fun _ => (⟨0, 0⟩ : KissCpx ℚ)) 1 1 2 4).call fun _ => ⟨0, 0⟩).log ∧
      bfly4MxFootprint 1 1 2 4 (.store .fout 3) := by
  have h : Access.store .fout 3 ∈
      ((kfBfly4Mx (fun _ => (⟨0, 0⟩ : KissCpx ℚ)) 1 1 2 4).call fun _ => ⟨0, 0⟩).log := by
    unfold Kernel.call kfBfly4Mx
    rw [if_neg (by decide)]
    show _ ∈ ((forStep 1 0 1 (fun i _ => bfly4MxGeneralGroup (fun _ => (⟨0, 0⟩ : KissCpx ℚ)) 1 2
      (i * 4)) 0 ()).run ⟨_, []⟩).2.log
    rw [forStep_eq, if_pos (by decide), forStep_run_of_not_lt _ _ (by decide)]
    show _ ∈ ((forStep 1 0 1 (fun _ c => bfly4MxStep (fun _ => (⟨0, 0⟩ : KissCpx ℚ)) 1 2 (2 * 2)
      (2 * 3) c) 0 (0 * 4, 0, 0, 0)).run ⟨_, []⟩).2.log
    rw [forStep_eq, if_pos (by decide), forStep_run_of_not_lt _ _ (by decide), bfly4MxStep_log]
    simp
  exact ⟨h, kfBfly4Mx_footprint _ 1 1 2 4 _ _ h⟩

/-! ### Over exact complex arithmetic -/

open Complex

/-- Over the reals the stores of position `j` of the group at `f` are the forward 4-point
DFT of its elements, each but the first multiplied by its twiddle: `cmul2` is the complex
product, and the swap of `scratch4` times `{-1, 1}` multiplies it by `i`. -/
theorem bfly4MxWrites_dft (tw : ℤ → KissCpx ℝ) (f j m fstride : ℤ) (mem : ℤ → KissCpx ℝ)
    (k : ℕ) (hk : k < 4) :
    ∃ v, (f + j + k * m, v) ∈ bfly4MxWrites tw (f + j) (f + j + m) (f + j + 2 * m)
        (f + j + 3 * m) (j * fstride) (j * (fstride * 2)) (j * (fstride * 3)) mem ∧
      v.toComplex = dft (-I) 4 (fun l => (mem (f + j + l * m)).toComplex *
        if l = 0 then 1 else (tw (l * j * fstride)).toComplex) k := by
  rw [dft_of_pow_eq_one negI_pow_four]
  obtain rfl | rfl | rfl | rfl : k = 0 ∨ k = 1 ∨ k = 2 ∨ k = 3 := by omega
  all_goals simp only [Nat.cast_zero, Nat.cast_one, Nat.cast_ofNat, zero_mul, one_mul, add_zero]
  on_goal 1 => refine ⟨_, List.mem_cons_self _ _, ?_⟩
  on_goal 2 => refine ⟨_, List.mem_cons_of_mem _ (List.mem_cons_self _ _), ?_⟩
  on_goal 3 => refine ⟨_, List.mem_cons_of_mem _ (List.mem_cons_of_mem _
    (List.mem_cons_self _ _)), ?_⟩
  on_goal 4 => refine ⟨_, List.mem_cons_of_mem _ (List.mem_cons_of_mem _
    (List.mem_cons_of_mem _ (List.mem_cons_self _ _))), ?_⟩
  all_goals
    simp only [Finset.sum_range_succ, Finset.sum_range_zero, zero_add, Nat.cast_zero,
      Nat.cast_one, Nat.cast_ofNat, zero_mul, one_mul, add_zero, Nat.reduceMul, Nat.reduceMod,
      pow_zero, pow_one, mul_one, negI_sq, negI_pow_three, if_true, if_false,
      show (2 : ℤ) * j * fstride = j * (fstride * 2) by ring,
      show (3 : ℤ) * j * fstride = j * (fstride * 3) by ring]
    apply Complex.ext <;>
      simp only [bfly4MxButterfly, cmul2, cadd2, csub2, vaddF32, vsubF32, vmulF32,
        vdupLaneF32, Float32x2.get, vrev64F32, KissCpx.lanes, Float32x2.toCpx, Fin.isValue,
        ↓reduceIte, Fin.one_eq_zero_iff, OfNat.ofNat_ne_one, one_ne_zero, OfNat.ofNat_ne_zero,
        KissCpx.toComplex_re, KissCpx.toComplex_im, add_re, add_im, mul_re, mul_im, neg_re,
        neg_im, I_re, I_im, one_re, one_im] <;> ring

/-- Over exact complex arithmetic `kf_bfly4_mx`, by whichever path `fstride` selects, sets
element `k` of position `j` of each group `g < n` to the forward 4-point DFT, with root
`-i`, of the position's elements, element `l > 0` multiplied by the twiddle
`tw[l * j * fstride]`, and leaves every element outside the groups' spans as it was, when
the groups do not overlap. -/
theorem kfBfly4Mx_dft (tw : ℤ → KissCpx ℝ) (m n fstride mm : ℤ) (hm : 1 ≤ m)
    (hmm : 4 * m ≤ mm ∨ n ≤ 1) (fout : ℤ → KissCpx ℝ) :
    (∀ g, 0 ≤ g → g < n → ∀ j, 0 ≤ j → j < m → ∀ k : ℕ, k < 4 →
      (((kfBfly4Mx tw m n fstride mm).call fout).mem (g * mm + j + k * m)).toComplex =
        dft (-I) 4 (fun l => (fout (g * mm + j + l * m)).toComplex *
          if l = 0 then 1 else (tw (l * j * fstride)).toComplex) k) ∧
    (∀ p, (∀ g, 0 ≤ g → g < n → ¬ (g * mm ≤ p ∧ p < g * mm + 4 * m)) →
      ((kfBfly4Mx tw m n fstride mm).call fout).mem p = fout p) := by
  have hdone := kfBfly4Mx_done tw m n fstride mm (by omega) hmm fout
  refine ⟨fun g hg0 hg j hj0 hj k hk => ?_, fun p hp => hdone.2 p fun c hc hpc => ?_⟩
  · obtain ⟨v, hv, hval⟩ := bfly4MxWrites_dft tw (g * mm) j m fstride fout k hk
    rw [hdone.1 (g, j) ⟨hg0, hg, hj0, hj⟩ _ hv]
    exact hval
  · obtain ⟨hg0, hg, hj0, hj⟩ := hc
    simp only [bfly4MxGrid, InPlace.grid, bfly4MxPass, List.mem_cons, List.not_mem_nil,
      or_false] at hpc
    exact hp c.1 hg0 hg (by omega)

/-- Two groups of three positions each, with the twiddles `tw[p] = p + i`. -/
theorem kfBfly4Mx_dft_two_groups :
    (1 : ℤ) ≤ 3 ∧ (4 * 3 ≤ (12 : ℤ) ∨ (2 : ℤ) ≤ 1) ∧
    (∀ g, 0 ≤ g → g < 2 → ∀ j, 0 ≤ j → j < 3 → ∀ k : ℕ, k < 4 →
      (((kfBfly4Mx (fun p => (⟨p, 1⟩ : KissCpx ℝ)) 3 2 1 12).call fun p => ⟨p, 0⟩).mem
        (g * 12 + j + k * 3)).toComplex =
        dft (-I) 4 (fun l => (⟨(g * 12 + j + l * 3 : ℤ), 0⟩ : KissCpx ℝ).toComplex *
          if l = 0 then 1 else (⟨((l * j * 1 : ℤ) : ℝ), 1⟩ : KissCpx ℝ).toComplex) k) ∧
    (∀ p, (∀ g, 0 ≤ g → g < 2 → ¬ (g * 12 ≤ p ∧ p < g * 12 + 4 * 3)) →
      ((kfBfly4Mx (fun p => (⟨p, 1⟩ : KissCpx ℝ)) 3 2 1 12).call fun p => ⟨p, 0⟩).mem p =
        ⟨p, 0⟩) :=
  ⟨by decide, .inl le_rfl, kfBfly4Mx_dft (fun p => (⟨p, 1⟩ : KissCpx ℝ)) 3 2 1 12 (by decide)
    (.inl le_rfl) fun p => ⟨p, 0⟩⟩

/-! ### The case `m = 1` -/

open Complex in
/-- `kf_bfly4_m1` is the case `m = 1` of `kf_bfly4_mx` with contiguous groups: over exact
complex arithmetic, when the one twiddle the general kernel multiplies by, `tw[0]`, is `1`,
the two kernels leave the same array for every `n`, `fstride` and buffer. Each group's
stores are the same 4-point DFT of the group. -/
theorem kfBfly4Mx_one_eq_kfBfly4M1 (tw : ℤ → KissCpx ℝ) (htw : tw 0 = ⟨1, 0⟩)
    (n fstride : ℤ) (fout : ℤ → KissCpx ℝ) :
    ((kfBfly4Mx tw 1 n fstride 4).call fout).mem = ((kfBfly4M1 n).call fout).mem := by
  have hmx := kfBfly4Mx_done tw 1 n fstride 4 one_pos (.inl le_rfl) fout
  have hm1 := kfBfly4M1_done n fout
  funext p
  by_cases hp : ∃ g, 0 ≤ g ∧ g < n ∧ ∃ k : ℕ, k < 4 ∧ p = 4 * g + k
  · -- an element of group `g`: both kernels store its DFT
    obtain ⟨g, hg0, hg, k, hk, rfl⟩ := hp
    obtain ⟨v, hv, hval⟩ := bfly4MxWrites_dft tw (g * 4) 0 1 fstride fout k hk
    obtain ⟨v', hv', hval'⟩ := bfly4M1Writes_dft (4 * g) fout k hk
    have hone : ∀ l : ℕ, (fout (g * 4 + 0 + l * 1)).toComplex *
        (if l = 0 then 1 else (tw (l * 0 * fstride)).toComplex) = (fout (4 * g + l)).toComplex := by
      intro l
      rw [mul_zero, zero_mul, htw, show g * 4 + 0 + (l : ℤ) * 1 = 4 * g + l by ring]
      split_ifs <;> simp [KissCpx.toComplex, Complex.ext_iff]
    calc ((kfBfly4Mx tw 1 n fstride 4).call fout).mem (4 * g + k)
        = v := by
          rw [show 4 * g + (k : ℤ) = g * 4 + 0 + k * 1 by ring]
          exact hmx.1 (g, 0) ⟨hg0, hg, le_rfl, one_pos⟩ _ hv
      _ = v' := KissCpx.toComplex_injective (by rw [hval, hval']; simp only [hone])
      _ = ((kfBfly4M1 n).call fout).mem (4 * g + k) := (hm1.1 g ⟨hg0, hg⟩ _ hv').symm
  · -- outside every group: both kernels leave it
    rw [hmx.2 p fun c hc hpc => hp ?_, hm1.2 p fun g hg hpg => hp ?_]
    · simp only [bfly4M1Pass, List.mem_cons, List.not_mem_nil, or_false] at hpg
      exact ⟨g, hg.1, hg.2, (p - 4 * g).toNat, by omega, by omega⟩
    · obtain ⟨hg0, hg, hj0, hj⟩ := hc
      simp only [bfly4MxGrid, InPlace.grid, bfly4MxPass, List.mem_cons, List.not_mem_nil,
        or_false] at hpc
      exact ⟨c.1, hg0, hg, (p - 4 * c.1).toNat, by omega, by omega⟩

theorem kfBfly4Mx_one_eq_kfBfly4M1_unit_twiddles :
    (fun _ => (⟨1, 0⟩ : KissCpx ℝ)) 0 = ⟨1, 0⟩ ∧
      ((kfBfly4Mx (fun _ => (⟨1, 0⟩ : KissCpx ℝ)) 1 2 1 4).call fun p => ⟨p, -p⟩).mem =
        ((kfBfly4M1 2).call fun p => (⟨p, -p⟩ : KissCpx ℝ)).mem :=
  ⟨rfl, kfBfly4Mx_one_eq_kfBfly4M1 (fun _ => ⟨1, 0⟩) (by rfl) 2 1 _⟩

end Gopus
