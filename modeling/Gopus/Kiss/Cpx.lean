import Gopus.Neon
import Gopus.InPlace

/-!
# `kissCpx` arrays

The FFT butterflies of `src/internal/celt/asmgen` work in place on an array `fout` of
`kissCpx`, a pair of `float`s `r`, `i` with no padding, and read a twiddle table `tw` of
`kissCpx`. They reach both through `float` pointers: `vld1_f32` at `&f[k]` loads the two
floats of element `k`, `vld1q_f32` the four floats of elements `k` and `k + 1`. The heap
of a butterfly is indexed by element, so each of these is an access of whole elements.
-/

namespace Gopus

/-- A `kissCpx`. -/
structure KissCpx (α : Type) where
  /-- The real part. -/
  r : α
  /-- The imaginary part. -/
  i : α
  deriving DecidableEq, Repr

variable {α : Type}

/-- The two lanes `vld1_f32` loads from one element: `r`, then `i`. -/
def KissCpx.lanes (z : KissCpx α) : Float32x2 α := ⟨z.r, z.i⟩

/-- The element `vst1_f32` stores from two lanes. -/
def Float32x2.toCpx (v : Float32x2 α) : KissCpx α := ⟨v.lane0, v.lane1⟩

@[simp] theorem KissCpx.lanes_toCpx (z : KissCpx α) : z.lanes.toCpx = z := rfl

/-- `vld1_f32((const float *)&fout[p])`. -/
def vld1F32Cpx (p : ℤ) : Kernel (KissCpx α) (Float32x2 α) := do
  let z ← load .fout p
  pure z.lanes

/-- `vld1q_f32((const float *)&fout[p])`: elements `p` and `p + 1`. -/
def vld1qF32Cpx (p : ℤ) : Kernel (KissCpx α) (Float32x4 α) := do
  let a ← load .fout p
  let b ← load .fout (p + 1)
  pure (vcombineF32 a.lanes b.lanes)

/-- `vst1_f32((float *)&fout[p], v)`. -/
def vst1F32Cpx (p : ℤ) (v : Float32x2 α) : Kernel (KissCpx α) Unit :=
  store .fout p v.toCpx

/-- `vst1q_f32((float *)&fout[p], v)`: elements `p` and `p + 1`. -/
def vst1qF32Cpx (p : ℤ) (v : Float32x4 α) : Kernel (KissCpx α) Unit := do
  store .fout p (vgetLowF32 v).toCpx
  store .fout (p + 1) (vgetHighF32 v).toCpx

/-- `vld1_f32((const float *)&tw[p])`. -/
def vld1F32Tw {σ : Type} (tw : ℤ → KissCpx α) (p : ℤ) : Kernel σ (Float32x2 α) := do
  let z ← fetch .tw tw p
  pure z.lanes

/-- `vld1q_f32((const float *)&tw[p])`: elements `p` and `p + 1`. -/
def vld1qF32Tw {σ : Type} (tw : ℤ → KissCpx α) (p : ℤ) : Kernel σ (Float32x4 α) := do
  let a ← fetch .tw tw p
  let b ← fetch .tw tw (p + 1)
  pure (vcombineF32 a.lanes b.lanes)

/-- Group `g` of a butterfly starts at `fout + g * mm`: when `s ≤ mm`, a group of `s`
elements ends before any later group starts. -/
theorem group_base_add_le {s mm g g' : ℤ} (hmm : s ≤ mm) (hg : g' < g) (hs : 0 ≤ s) :
    g' * mm + s ≤ g * mm := by
  have := Int.mul_le_mul_of_nonneg_right (show g' + 1 ≤ g by omega) (show 0 ≤ mm by omega)
  rw [Int.add_mul, Int.one_mul] at this
  omega

/-- The group loop of the `m = 1` butterflies, `for (int i = 0; i < n; i++)` on the group
at `fout + i * mm`: when each iteration stores its group's writes, computed from the array
it finds, and groups of `s` elements do not overlap, the loop does every group from the
array it started from. -/
theorem forStep_cells {σ : Type} (P : InPlace ℤ σ) {s : ℤ} (mm n : ℤ) (hmm : s ≤ mm ∨ n ≤ 1)
    (hs : 0 ≤ s) (hslots : ∀ g p, p ∈ P.slots g → g * mm ≤ p ∧ p < g * mm + s)
    (body : ℤ → Kernel σ Unit)
    (hbody : ∀ g h, ((body g).run h).2.mem = storeAll h.mem (P.writes g h.mem)) (h : Heap σ) :
    P.Done (fun g => 0 ≤ g ∧ g < n) h.mem
      ((forStep n 0 1 (fun i _ => body i) 0 ()).run h).2.mem := by
  have hloop := P.forStep_groups (fun g c => c = g) (fun _ => ()) (fun i _ => body i) n
    (fun g h _ _ => ⟨rfl, by rw [hbody]; exact P.done_writes g h.mem⟩)
    (by
      intro g g' hg0 hgg' hg c hc c' hc' p hp hp'
      subst c c'
      have hlt := group_base_add_le (hmm.resolve_right (by omega)) hgg' hs
      have := hslots g p hp
      have := hslots g' p hp'
      omega)
    h
  exact hloop.congr fun c =>
    ⟨fun ⟨g, hg0, hg, hc⟩ => hc ▸ ⟨hg0, hg⟩, fun ⟨hc0, hc⟩ => ⟨c, hc0, hc, rfl⟩⟩

/-- A load or store of the elements `fout[f .. f + s - 1]`. -/
def foutSpan (f s : ℤ) : Access → Prop
  | .load .fout p => f ≤ p ∧ p < f + s
  | .store .fout p => f ≤ p ∧ p < f + s
  | _ => False

/-- The group loop of the butterflies adds only its groups' accesses: when the iteration of
group `g` adds only accesses satisfying `G g`, the loop adds only accesses satisfying `G g`
for some `g < n`. -/
theorem forStep_groups_accesses {σ : Type} (n : ℤ) (body : ℤ → Kernel σ Unit)
    (G : ℤ → Access → Prop)
    (hbody : ∀ g h, 0 ≤ g → ∀ e ∈ ((body g).run h).2.log, e ∈ h.log ∨ G g e)
    (h : Heap σ) :
    ∀ e ∈ ((forStep n 0 1 (fun i _ => body i) 0 ()).run h).2.log,
      e ∈ h.log ∨ ∃ g, 0 ≤ g ∧ g < n ∧ G g e := fun e he =>
  (forStep_accesses n 0 1 (fun i _ => body i) (fun g _ => 0 ≤ g)
    (fun e => ∃ g, 0 ≤ g ∧ g < n ∧ G g e)
    (fun g _ h hlt hg => ⟨by simp only [PNat.val_ofNat, Nat.cast_ofNat]; omega,
      fun e he => (hbody g h hg e he).imp id fun hG => ⟨g, hg, by omega, hG⟩⟩)
    0 () h le_rfl).2 e he

end Gopus
