import Gopus.Memory
import Mathlib.Data.Fin.Basic

/-!
# NEON lane vectors

The kernels under `src/internal/celt/asmgen` are written with ARM NEON intrinsics. A
`float32x2_t` or `float32x4_t` value is modelled by its lanes and each intrinsic by what
it does to them. Lanes hold values of an arbitrary type whose `+`, `-`, `*` and negation
are whatever instances are in scope, so every statement about these operations holds
for any interpretation of the single-precision arithmetic, IEEE rounding included.
-/

namespace Gopus

/-- A `float32x2_t`: two lanes. -/
structure Float32x2 (α : Type) where
  /-- Lane 0, the lowest addressed element when loaded. -/
  lane0 : α
  /-- Lane 1. -/
  lane1 : α
  deriving DecidableEq, Repr

/-- A `float32x4_t`: four lanes. -/
structure Float32x4 (α : Type) where
  /-- Lane 0. -/
  lane0 : α
  /-- Lane 1. -/
  lane1 : α
  /-- Lane 2. -/
  lane2 : α
  /-- Lane 3. -/
  lane3 : α
  deriving DecidableEq, Repr

/-- A `float32x2x2_t`, the pair of vectors `vzip_f32` returns. -/
structure Float32x2x2 (α : Type) where
  /-- `val[0]`. -/
  val0 : Float32x2 α
  /-- `val[1]`. -/
  val1 : Float32x2 α
  deriving DecidableEq, Repr

variable {α : Type}

/-- Lane `k` of a two-lane vector. -/
def Float32x2.get (v : Float32x2 α) (k : Fin 2) : α :=
  if k = 0 then v.lane0 else v.lane1

/-- Lane `k` of a four-lane vector. -/
def Float32x4.get (v : Float32x4 α) (k : Fin 4) : α :=
  if k = 0 then v.lane0 else if k = 1 then v.lane1 else if k = 2 then v.lane2 else v.lane3

section Arith

variable [Add α] [Sub α] [Mul α] [Neg α]

/-- `vadd_f32`. -/
def vaddF32 (a b : Float32x2 α) : Float32x2 α := ⟨a.lane0 + b.lane0, a.lane1 + b.lane1⟩

/-- `vsub_f32`. -/
def vsubF32 (a b : Float32x2 α) : Float32x2 α := ⟨a.lane0 - b.lane0, a.lane1 - b.lane1⟩

/-- `vmul_f32`. -/
def vmulF32 (a b : Float32x2 α) : Float32x2 α := ⟨a.lane0 * b.lane0, a.lane1 * b.lane1⟩

/-- `vmla_f32 a b c`: `a + b * c` in each lane, the product rounded before the sum. -/
def vmlaF32 (a b c : Float32x2 α) : Float32x2 α :=
  ⟨a.lane0 + b.lane0 * c.lane0, a.lane1 + b.lane1 * c.lane1⟩

/-- `vneg_f32`. -/
def vnegF32 (a : Float32x2 α) : Float32x2 α := ⟨-a.lane0, -a.lane1⟩

/-- `vaddq_f32`. -/
def vaddqF32 (a b : Float32x4 α) : Float32x4 α :=
  ⟨a.lane0 + b.lane0, a.lane1 + b.lane1, a.lane2 + b.lane2, a.lane3 + b.lane3⟩

/-- `vsubq_f32`. -/
def vsubqF32 (a b : Float32x4 α) : Float32x4 α :=
  ⟨a.lane0 - b.lane0, a.lane1 - b.lane1, a.lane2 - b.lane2, a.lane3 - b.lane3⟩

/-- `vmulq_f32`. -/
def vmulqF32 (a b : Float32x4 α) : Float32x4 α :=
  ⟨a.lane0 * b.lane0, a.lane1 * b.lane1, a.lane2 * b.lane2, a.lane3 * b.lane3⟩

end Arith

/-- The sign-bit masks of `kf_bfly4_m1`, `0` or `0x80000000` in each lane. -/
def signBit : UInt32 := 0x80000000

/-- `vreinterpret_f32_u32(veor_u32(vreinterpret_u32_f32(v), mask))` for the masks the
source uses: a lane whose mask is the IEEE sign bit is negated, a lane whose mask is `0`
is kept. No other mask occurs in the source. -/
def veorSignF32 [Neg α] (v : Float32x2 α) (mask : Float32x2 UInt32) : Float32x2 α :=
  ⟨if mask.lane0 = signBit then -v.lane0 else v.lane0,
    if mask.lane1 = signBit then -v.lane1 else v.lane1⟩

/-- The mask `{0u, 0x80000000u}` negates lane 1. -/
@[simp] theorem veorSignF32_signpos [Neg α] (v : Float32x2 α) :
    veorSignF32 v ⟨0, 0x80000000⟩ = ⟨v.lane0, -v.lane1⟩ := rfl

/-- The mask `{0x80000000u, 0u}` negates lane 0. -/
@[simp] theorem veorSignF32_signneg [Neg α] (v : Float32x2 α) :
    veorSignF32 v ⟨0x80000000, 0⟩ = ⟨-v.lane0, v.lane1⟩ := rfl

/-- `vdup_n_f32`. -/
def vdupNF32 (x : α) : Float32x2 α := ⟨x, x⟩

/-- `vdup_lane_f32 v k`. -/
def vdupLaneF32 (v : Float32x2 α) (k : Fin 2) : Float32x2 α := ⟨v.get k, v.get k⟩

/-- `vset_lane_f32 x v k`. -/
def vsetLaneF32 (x : α) (v : Float32x2 α) (k : Fin 2) : Float32x2 α :=
  if k = 0 then ⟨x, v.lane1⟩ else ⟨v.lane0, x⟩

/-- `vrev64_f32`: swap the two lanes. -/
def vrev64F32 (v : Float32x2 α) : Float32x2 α := ⟨v.lane1, v.lane0⟩

/-- `vrev64q_f32`: swap the lanes within each 64-bit half. -/
def vrev64qF32 (v : Float32x4 α) : Float32x4 α := ⟨v.lane1, v.lane0, v.lane3, v.lane2⟩

/-- `vget_low_f32`. -/
def vgetLowF32 (v : Float32x4 α) : Float32x2 α := ⟨v.lane0, v.lane1⟩

/-- `vget_high_f32`. -/
def vgetHighF32 (v : Float32x4 α) : Float32x2 α := ⟨v.lane2, v.lane3⟩

/-- `vcombine_f32 lo hi`. -/
def vcombineF32 (lo hi : Float32x2 α) : Float32x4 α := ⟨lo.lane0, lo.lane1, hi.lane0, hi.lane1⟩

/-- `vuzp1q_f32`: the even lanes of `a` then of `b`. -/
def vuzp1qF32 (a b : Float32x4 α) : Float32x4 α := ⟨a.lane0, a.lane2, b.lane0, b.lane2⟩

/-- `vuzp2q_f32`: the odd lanes of `a` then of `b`. -/
def vuzp2qF32 (a b : Float32x4 α) : Float32x4 α := ⟨a.lane1, a.lane3, b.lane1, b.lane3⟩

/-- `vzip_f32`: interleave the lanes of `a` and `b`. -/
def vzipF32 (a b : Float32x2 α) : Float32x2x2 α := ⟨⟨a.lane0, b.lane0⟩, ⟨a.lane1, b.lane1⟩⟩

/-- `vextq_f32 a b n`: lanes `n` to `n + 3` of the concatenation of `a` and `b`. -/
def vextqF32 (a b : Float32x4 α) (n : Fin 4) : Float32x4 α :=
  let cat (k : ℕ) : α := if h : k < 4 then a.get ⟨k, h⟩ else b.get ⟨(k - 4) % 4, by omega⟩
  ⟨cat n, cat (n + 1), cat (n + 2), cat (n + 3)⟩

/-- `vextq_f32 t t 2`, the half swap `kf_bfly4_m1` uses. -/
@[simp] theorem vextqF32_two (a b : Float32x4 α) :
    vextqF32 a b 2 = ⟨a.lane2, a.lane3, b.lane0, b.lane1⟩ := rfl

/-! ### Loads and stores of `float` arrays -/

/-- `vld1_f32(t + p)` from a read-only `float` table. -/
def vld1F32 {σ : Type} (r : Region) (t : ℤ → α) (p : ℤ) : Kernel σ (Float32x2 α) := do
  let a ← fetch r t p
  let b ← fetch r t (p + 1)
  pure ⟨a, b⟩

/-- `vld1q_f32(buf + p)` from the `float` array written in place. -/
def vld1qF32 (r : Region) (p : ℤ) : Kernel α (Float32x4 α) := do
  let a ← load r p
  let b ← load r (p + 1)
  let c ← load r (p + 2)
  let d ← load r (p + 3)
  pure ⟨a, b, c, d⟩

/-- `vst1q_f32(buf + p, v)` into the `float` array written in place. -/
def vst1qF32 (r : Region) (p : ℤ) (v : Float32x4 α) : Kernel α Unit := do
  store r p v.lane0
  store r (p + 1) v.lane1
  store r (p + 2) v.lane2
  store r (p + 3) v.lane3

end Gopus
