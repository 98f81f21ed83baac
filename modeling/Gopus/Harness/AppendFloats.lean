import Mathlib.Data.PNat.Basic
import Mathlib.Algebra.Order.BigOperators.Group.List

/-!
# `append_floats`

Both reference-decode harnesses collect the decoded samples with `append_floats`, which
grows a heap array of `float`s by doubling its capacity. Its counts are `size_t`, `w` bits
wide; they are natural numbers below `2 ^ w` here, and the two products of the source that
can wrap, the byte counts `new_cap * sizeof(float)` given to `realloc` and
`n * sizeof(float)` given to `memcpy`, are taken modulo `2 ^ w`. A `realloc` that succeeds
returns a block of exactly the byte count it was given, holding the old floats that fit.
A `memcpy` past the end of its block is undefined behaviour, an outcome of its own.
-/

namespace Gopus

/-- `SIZE_MAX` for a `w`-bit `size_t`. -/
def sizeMax (w : ℕ) : ℕ := 2 ^ w - 1

/-- A heap block of `float`s: its length in `float`s and its contents, `none` where
nothing has been stored. -/
structure FloatBlock (α : Type) where
  /-- The block's length in `float`s. -/
  size : ℕ
  /-- The `float` at each index, `none` where nothing has been stored. -/
  data : ℕ → Option α

variable {α : Type}

/-- The block `NULL` stands for when it is used as a block: it has no room. -/
def FloatBlock.null : FloatBlock α := ⟨0, fun _ => none⟩

/-- `realloc(p, bytes)` that succeeds: a block of `bytes / sizeof(float)` floats holding
the floats of `p` that fit. `NULL` is `none`. -/
def reallocFloats (p : Option (FloatBlock α)) (bytes : ℕ) : FloatBlock α :=
  let old := p.getD .null
  ⟨bytes / 4, fun i => if i < old.size ∧ i < bytes / 4 then old.data i else none⟩

/-- `memcpy(p + off, src, bytes)`: the first `bytes / sizeof(float)` floats of `src` at
float `off` of block `p`, or `none` when they run past its end. -/
def memcpyFloats (p : FloatBlock α) (off : ℕ) (src : ℕ → α) (bytes : ℕ) :
    Option (FloatBlock α) :=
  if off + bytes / 4 ≤ p.size then
    some ⟨p.size, fun i =>
      if off ≤ i ∧ i < off + bytes / 4 then some (src (i - off)) else p.data i⟩
  else none

/-- The variables `append_floats` updates through its arguments `out`, `out_len`,
`out_cap`. -/
structure FloatVec (α : Type) where
  /-- `*out`, `none` for `NULL`. -/
  out : Option (FloatBlock α)
  /-- `*out_len`, the floats stored. -/
  outLen : ℕ
  /-- `*out_cap`, the floats the last `realloc` was asked for. -/
  outCap : ℕ

/-- `decoded = NULL`, `decoded_len = 0`, `decoded_cap = 0`. -/
def FloatVec.empty : FloatVec α := ⟨none, 0, 0⟩

/-- The doubling loop of `append_floats` from `new_cap`, which is never `0`:
`while (new_cap < need) { if (new_cap > SIZE_MAX / 2) { new_cap = need; break; }
new_cap *= 2; }`. -/
def growCap (w need : ℕ) (newCap : ℕ+) : ℕ :=
  if (newCap : ℕ) < need then
    if (newCap : ℕ) > sizeMax w / 2 then need else growCap w need (newCap * 2)
  else newCap
termination_by need - newCap
decreasing_by
  have := newCap.pos
  simp only [PNat.mul_coe, PNat.val_ofNat]
  omega

/-- Where the doubling loop starts: `*out_cap ? *out_cap : 1024`. -/
def startCap (outCap : ℕ) : ℕ+ :=
  if h : outCap ≠ 0 then ⟨outCap, Nat.pos_of_ne_zero h⟩ else 1024

/-- What a call of `append_floats` does. -/
inductive AppendOutcome (α : Type) where
  /-- It returns `0`. -/
  | failed
  /-- It returns `1`, leaving these variables. -/
  | appended (v : FloatVec α)
  /-- Its `memcpy` writes past the end of the block: undefined behaviour. -/
  | outOfBounds

/-- `append_floats(&out, &out_len, &out_cap, src, n)` with a `w`-bit `size_t`; `fits`
says whether `realloc` finds a block of the given byte count. -/
def appendFloats (w : ℕ) (fits : ℕ → Bool) (v : FloatVec α) (src : ℕ → α) (n : ℕ) :
    AppendOutcome α :=
  if n = 0 then .appended v
  else if n > sizeMax w - v.outLen then .failed
  else
    let need := v.outLen + n
    let grown : Option (FloatVec α) :=
      if need > v.outCap then
        let newCap := growCap w need (startCap v.outCap)
        if fits (newCap * 4 % 2 ^ w) then
          some { v with out := some (reallocFloats v.out (newCap * 4 % 2 ^ w)), outCap := newCap }
        else none
      else some v
    match grown with
    | none => .failed
    | some v =>
      match memcpyFloats (v.out.getD .null) v.outLen src (n * 4 % 2 ^ w) with
      | some p => .appended { v with out := some p, outLen := need }
      | none => .outOfBounds

/-- The calls `append_floats(&out, &out_len, &out_cap, src, n)` in sequence, from `v`, up
to the first that does not return `1`. -/
def appendAll (w : ℕ) (fits : ℕ → Bool) (v : FloatVec α) :
    List ((ℕ → α) × ℕ) → AppendOutcome α
  | [] => .appended v
  | (src, n) :: calls =>
    match appendFloats w fits v src n with
    | .appended v' => appendAll w fits v' calls
    | r => r

/-- What a result of `append_floats` calls is allowed to be: `0` only where `failed` holds,
a write past a block only where `oob` holds, and `1` with variables satisfying `P`. -/
def AppendOutcome.Spec (failed oob : Prop) (P : FloatVec α → Prop) : AppendOutcome α → Prop
  | .failed => failed
  | .appended v => P v
  | .outOfBounds => oob

/-- Float `i` of the concatenation of the first `n` floats of each source, in call order. -/
def concatSrc : List ((ℕ → α) × ℕ) → ℕ → Option α
  | [], _ => none
  | (src, n) :: calls, i => if i < n then some (src i) else concatSrc calls (i - n)

/-! ### The doubling loop -/

/-- The loop leaves a capacity of at least `need`, and either leaves `new_cap` as it was
or doubles it no further than below `2 * need`. -/
theorem growCap_spec (w need : ℕ) (newCap : ℕ+) :
    need ≤ growCap w need newCap ∧
      (growCap w need newCap = newCap ∨ growCap w need newCap < 2 * need) := by
  induction newCap using growCap.induct w need with
  | case1 c hlt hbig =>
    rw [growCap, if_pos hlt, if_pos hbig]
    omega
  | case2 c hlt hsmall ih =>
    rw [growCap, if_pos hlt, if_neg hsmall]
    simp only [PNat.mul_coe, PNat.val_ofNat] at ih
    omega
  | case3 c hge =>
    rw [growCap, if_neg hge]
    omega

theorem startCap_bytes_lt {w outCap : ℕ} (hcap : outCap * 4 < 2 ^ w) (hw : 4096 < 2 ^ w) :
    (startCap outCap : ℕ) * 4 < 2 ^ w := by
  unfold startCap
  split <;> simp only [PNat.mk_coe, PNat.val_ofNat] <;> omega

/-- The loop never leaves `new_cap` at `2 ^ w` or above: it stops doubling above
`SIZE_MAX / 2`. -/
theorem growCap_lt_two_pow (w need : ℕ) (c : ℕ+) (hc : (c : ℕ) < 2 ^ w)
    (hneed : need < 2 ^ w) : growCap w need c < 2 ^ w := by
  induction c using growCap.induct w need with
  | case1 c hlt hbig =>
    rw [growCap, if_pos hlt, if_pos hbig]
    exact hneed
  | case2 c hlt hsmall ih =>
    rw [growCap, if_pos hlt, if_neg hsmall]
    unfold sizeMax at hsmall
    exact ih (by simp only [PNat.mul_coe, PNat.val_ofNat]; omega)
  | case3 c hge =>
    rw [growCap, if_neg hge]
    exact hc

/-- A capacity below `2 ^ w` and below `2 * need` whose byte count wraps leaves a block of
fewer than `need` floats: the wrap takes away at least `2 ^ w / 4` of them. -/
theorem wrapped_size_lt {P c need : ℕ} (hwrap : P ≤ c * 4) (hc : c < P) (hneed : c < 2 * need) :
    c * 4 % P / 4 < need := by
  have hP : 0 < P := by omega
  have hsplit := Nat.div_add_mod (c * 4) P
  have hr := Nat.mod_lt (c * 4) hP
  have hq4 : c * 4 / P < 4 := (Nat.div_lt_iff_lt_mul hP).2 (by omega)
  have hq1 : 1 ≤ c * 4 / P := (Nat.le_div_iff_mul_le hP).2 (by omega)
  generalize c * 4 / P = q at *
  generalize c * 4 % P = r at *
  obtain rfl | rfl | rfl : q = 1 ∨ q = 2 ∨ q = 3 := by omega
  all_goals omega

/-- With a 32-bit `size_t`, `2 ^ 29 + 1` floats from an empty buffer double `new_cap` from
`1024` to `2 ^ 30`. -/
theorem growCap_32_from_empty : growCap 32 536870913 (startCap 0) = 1073741824 := by
  simp [growCap, startCap, sizeMax]

/-- With a 32-bit `size_t`, a first call of `2 ^ 29 + 1` floats writes past its block. -/
theorem appendFloats_empty_outOfBounds_32 (src : ℕ → α) :
    appendFloats 32 (fun _ => true) FloatVec.empty src 536870913 = .outOfBounds := by
  simp [appendFloats, growCap_32_from_empty, FloatVec.empty, memcpyFloats, reallocFloats, sizeMax]

/-- With a 32-bit `size_t`, the first call that needs more than `2 ^ 29` floats doubles
`new_cap` to `2 ^ 30`, whose byte count wraps to `0`: `realloc` returns an empty block and
the `memcpy` of `2 ^ 31 + 4` bytes writes past its end. -/
theorem appendFloats_wraps_at_2pow29 (src : ℕ → α) :
    growCap 32 (2 ^ 29 + 1) (startCap 0) * 4 % 2 ^ 32 = 0 ∧
      appendFloats 32 (fun _ => true) FloatVec.empty src (2 ^ 29 + 1) = .outOfBounds := by
  rw [show (2 : ℕ) ^ 29 + 1 = 536870913 from rfl, growCap_32_from_empty,
    appendFloats_empty_outOfBounds_32]
  exact ⟨by decide, rfl⟩

/-! ### Runs that wrap no byte count -/

/-- One more source extends the concatenation past its end. -/
theorem concatSrc_append (calls : List ((ℕ → α) × ℕ)) (src : ℕ → α) (n i : ℕ) :
    concatSrc (calls ++ [(src, n)]) i =
      if i < (calls.map Prod.snd).sum then concatSrc calls i
      else if i - (calls.map Prod.snd).sum < n then some (src (i - (calls.map Prod.snd).sum))
      else none := by
  induction calls generalizing i with
  | nil => simp [concatSrc]
  | cons c calls ih =>
    obtain ⟨src', m⟩ := c
    rw [List.cons_append, concatSrc, concatSrc, ih, List.map_cons, List.sum_cons]
    dsimp only
    by_cases him : i < m
    · rw [if_pos him, if_pos him, if_pos (by omega)]
    · rw [if_neg him, if_neg him, Nat.sub_sub]
      by_cases hrest : i - m < (calls.map Prod.snd).sum
      · rw [if_pos hrest, if_pos (show i < m + (calls.map Prod.snd).sum by omega)]
      · rw [if_neg hrest, if_neg (show ¬i < m + (calls.map Prod.snd).sum by omega)]

/-- The variables after the calls `calls`, none of which wrapped a byte count: `out_len`
counts the floats appended, the block holds `out_cap` floats, `out_cap` floats take fewer
than `2 ^ w` bytes, and the first `out_len` floats of the block are the concatenation of
the sources. -/
def FloatVec.Holds (w : ℕ) (v : FloatVec α) (calls : List ((ℕ → α) × ℕ)) : Prop :=
  v.outLen = (calls.map Prod.snd).sum ∧ v.outLen ≤ v.outCap ∧ v.outCap * 4 < 2 ^ w ∧
    (v.out.getD .null).size = v.outCap ∧
    ∀ i < v.outLen, (v.out.getD .null).data i = concatSrc calls i

theorem FloatVec.holds_empty {w : ℕ} : (FloatVec.empty : FloatVec α).Holds w [] :=
  ⟨rfl, le_rfl, by simp [FloatVec.empty], rfl, fun _ h => absurd h (Nat.not_lt_zero _)⟩

section Holds

variable {w : ℕ} {v : FloatVec α} {calls : List ((ℕ → α) × ℕ)}

/-- A `realloc` to `c` floats, with `c` at least `out_len` and `c * sizeof(float)` not
wrapping, keeps the floats appended so far. -/
theorem FloatVec.Holds.realloc (hv : v.Holds w calls) {c : ℕ} (hlen : v.outLen ≤ c)
    (hc : c * 4 < 2 ^ w) :
    ({ v with out := some (reallocFloats v.out (c * 4 % 2 ^ w)), outCap := c } : FloatVec α).Holds
      w calls := by
  obtain ⟨hsum, hcap, -, hsize, hdata⟩ := hv
  have hdiv : c * 4 % 2 ^ w / 4 = c := by rw [Nat.mod_eq_of_lt hc]; omega
  refine ⟨hsum, hlen, hc, hdiv, fun i hi => ?_⟩
  dsimp only [reallocFloats, Option.getD_some] at hi ⊢
  rw [hdiv, if_pos ⟨by omega, by omega⟩, ← hdata i hi]

/-- The `memcpy` of `n` floats at `out_len`, when they fit below `out_cap`, appends them. -/
theorem FloatVec.Holds.memcpy (hv : v.Holds w calls) {src : ℕ → α} {n : ℕ}
    (hroom : v.outLen + n ≤ v.outCap) (hn : n * 4 < 2 ^ w) :
    ∃ p, memcpyFloats (v.out.getD .null) v.outLen src (n * 4 % 2 ^ w) = some p ∧
      ({ v with out := some p, outLen := v.outLen + n } : FloatVec α).Holds w
        (calls ++ [(src, n)]) := by
  obtain ⟨hsum, hcap, hbytes, hsize, hdata⟩ := hv
  have hdiv : n * 4 % 2 ^ w / 4 = n := by rw [Nat.mod_eq_of_lt hn]; omega
  rw [memcpyFloats, hdiv, if_pos (by omega)]
  refine ⟨_, rfl, ?_⟩
  dsimp only [FloatVec.Holds, Option.getD_some]
  refine ⟨by simp [hsum], by omega, hbytes, hsize, fun i hi => ?_⟩
  rw [concatSrc_append, ← hsum]
  by_cases hold : i < v.outLen
  · rw [if_neg (by omega), if_pos hold, hdata i hold]
  · rw [if_pos ⟨by omega, hi⟩, if_neg hold, if_pos (by omega)]

/-- Appending no floats changes nothing the invariant says. -/
theorem FloatVec.Holds.append_zero (hv : v.Holds w calls) (src : ℕ → α) :
    v.Holds w (calls ++ [(src, 0)]) := by
  obtain ⟨hsum, hcap, hbytes, hsize, hdata⟩ := hv
  refine ⟨by simp [hsum], hcap, hbytes, hsize, fun i hi => ?_⟩
  rw [concatSrc_append, if_pos (hsum ▸ hi), hdata i hi]

/-- One call of `n` floats, `n * sizeof(float)` not wrapping, from variables holding the
calls so far: it returns `0` only when `realloc` fails, writes past its block only when the
floats appended, these and the new ones, take more than `2 ^ w / 2` bytes, and otherwise
leaves variables holding one call more. A `new_cap` whose byte count wraps always leaves a
block too small for the `memcpy`. -/
theorem FloatVec.Holds.appendFloats_spec (hv : v.Holds w calls) (hw : 4096 < 2 ^ w)
    (fits : ℕ → Bool) (src : ℕ → α) {n : ℕ} (hn : n * 4 < 2 ^ w) :
    (appendFloats w fits v src n).Spec (∃ b, fits b = false) (2 ^ w < 8 * (v.outLen + n))
      (·.Holds w (calls ++ [(src, n)])) := by
  have hlen := hv.2.1
  have hcap := hv.2.2.1
  rw [appendFloats]
  by_cases hn0 : n = 0
  · subst hn0
    exact hv.append_zero src
  rw [if_neg hn0, if_neg (by unfold sizeMax; omega)]
  dsimp only
  by_cases hgrow : v.outLen + n > v.outCap
  · have hstart := startCap_bytes_lt hcap hw
    have hlt := growCap_lt_two_pow w (v.outLen + n) (startCap v.outCap) (by omega) (by omega)
    obtain ⟨hle, hkeep⟩ := growCap_spec w (v.outLen + n) (startCap v.outCap)
    generalize growCap w (v.outLen + n) (startCap v.outCap) = c at hle hkeep hlt ⊢
    rw [if_pos hgrow]
    by_cases hfit : fits (c * 4 % 2 ^ w) = true
    swap
    · rw [if_neg hfit]
      exact ⟨_, eq_false_of_ne_true hfit⟩
    rw [if_pos hfit]
    by_cases hwrap : c * 4 < 2 ^ w
    · obtain ⟨p, hp, hp'⟩ := (hv.realloc (by omega) hwrap).memcpy hle hn
      dsimp only at hp ⊢
      rw [hp]
      exact hp'
    · have h2 : c < 2 * (v.outLen + n) := hkeep.resolve_left (by rintro rfl; omega)
      have hsize := wrapped_size_lt (not_lt.1 hwrap) hlt h2
      dsimp only
      rw [memcpyFloats, if_neg (by
        simp only [reallocFloats, Option.getD_some, Nat.mod_eq_of_lt hn]
        omega)]
      show 2 ^ w < 8 * (v.outLen + n)
      omega
  · obtain ⟨p, hp, hp'⟩ := hv.memcpy (by omega) hn
    rw [if_neg hgrow]
    dsimp only
    rw [hp]
    exact hp'

/-- Every run of calls from variables holding `calls`, none of `n * sizeof(float)`
wrapping: the run stops early only when a `realloc` fails, a call writes past its block
only when all the floats, appended before and in the run, take more than `2 ^ w / 2` bytes,
and when every call returns `1` the variables hold all the calls. -/
theorem FloatVec.Holds.appendAll_spec (hv : v.Holds w calls) (hw : 4096 < 2 ^ w)
    (fits : ℕ → Bool) (calls' : List ((ℕ → α) × ℕ))
    (hn : ∀ c ∈ calls', c.2 * 4 < 2 ^ w) :
    (appendAll w fits v calls').Spec (∃ b, fits b = false)
      (2 ^ w < 8 * ((calls ++ calls').map Prod.snd).sum) (·.Holds w (calls ++ calls')) := by
  induction calls' generalizing v calls with
  | nil => simpa using hv
  | cons c rest ih =>
    obtain ⟨src, n⟩ := c
    have hstep := hv.appendFloats_spec hw fits src (hn _ (List.mem_cons_self _ _))
    rw [appendAll]
    generalize appendFloats w fits v src n = r at hstep ⊢
    cases r with
    | failed => exact hstep
    | appended v' =>
      rw [List.append_cons]
      exact ih hstep fun c hc => hn c (List.mem_cons_of_mem _ hc)
    | outOfBounds =>
      have h : 2 ^ w < 8 * (v.outLen + n) := hstep
      show 2 ^ w < _
      simp only [List.map_append, List.map_cons, List.sum_append, List.sum_cons, ← hv.1]
      omega

end Holds

theorem AppendOutcome.Spec.imp {F F' O O' : Prop} {P P' : FloatVec α → Prop}
    {r : AppendOutcome α} (h : r.Spec F O P) (hF : F → F') (hO : O → O')
    (hP : ∀ v, P v → P' v) : r.Spec F' O' P' := by
  cases r with
  | failed => exact hF h
  | appended v => exact hP v h
  | outOfBounds => exact hO h

/-- From `NULL`, `0`, `0`, any run of calls appending at most `2 ^ w / 8` floats in all, with
`1024` floats taking fewer than `2 ^ w` bytes: no byte count wraps, no call writes outside
its block, and when every call returns `1` the variables hold the concatenation. One float
more and the doubling can reach `2 ^ w / 4` floats, whose byte count wraps, as in the
32-bit case above. -/
theorem appendAll_empty_safe {w : ℕ} (hw : 4096 < 2 ^ w) (fits : ℕ → Bool)
    (calls : List ((ℕ → α) × ℕ)) (htotal : 8 * (calls.map Prod.snd).sum ≤ 2 ^ w) :
    (appendAll w fits .empty calls).Spec (∃ b, fits b = false) False (·.Holds w calls) := by
  have hn : ∀ c ∈ calls, c.2 * 4 < 2 ^ w := fun c hc => by
    have := List.le_sum_of_mem (List.mem_map_of_mem Prod.snd hc)
    omega
  exact (FloatVec.holds_empty.appendAll_spec hw fits calls hn).imp id
    (by simpa using htotal.not_lt) fun _ h => by simpa using h

/-! ### The capacity over a run -/

/-- Below `2 ^ w / 2` floats the doubling loop never takes its `new_cap = need` exit: it
leaves `new_cap` doubled some number of times. -/
theorem growCap_eq_mul_two_pow (w need : ℕ) (c : ℕ+) (hneed : 2 * need ≤ 2 ^ w) :
    ∃ k, growCap w need c = c * 2 ^ k := by
  induction c using growCap.induct w need with
  | case1 c hlt hbig =>
    have := Nat.two_pow_pos w
    unfold sizeMax at hbig
    omega
  | case2 c hlt hsmall ih =>
    obtain ⟨k, hk⟩ := ih
    refine ⟨k + 1, ?_⟩
    rw [growCap, if_pos hlt, if_neg hsmall, hk, PNat.mul_coe, PNat.val_ofNat, pow_succ,
      Nat.mul_assoc, Nat.mul_comm 2]
  | case3 c hge =>
    exact ⟨0, by rw [growCap, if_neg hge, pow_zero, Nat.mul_one]⟩

/-- What a call that returns `1` did to the variables: it appended its `n` floats, and kept
`out_cap` or, when they did not fit, set it to what the doubling loop left. -/
theorem appendFloats_appended {w : ℕ} {fits : ℕ → Bool} {v v' : FloatVec α}
    {src : ℕ → α} {n : ℕ} (h : appendFloats w fits v src n = .appended v') :
    v'.outLen = v.outLen + n ∧ (v'.outCap = v.outCap ∨
      v.outCap < v.outLen + n ∧ v'.outCap = growCap w (v.outLen + n) (startCap v.outCap)) := by
  unfold appendFloats at h
  by_cases hn0 : n = 0
  · rw [if_pos hn0] at h
    cases h
    exact ⟨by rw [hn0, Nat.add_zero], .inl rfl⟩
  rw [if_neg hn0] at h
  split_ifs at h with hover
  dsimp only at h
  split_ifs at h with hgrow <;> dsimp only at h <;> split at h <;> cases h
  exacts [⟨rfl, .inr ⟨hgrow, rfl⟩⟩, ⟨rfl, .inl rfl⟩]

/-- The capacity `append_floats` keeps: none yet, or `1024` doubled `k` times and, past the
first `1024` floats, less than twice the floats stored. -/
def FloatVec.Doubling (v : FloatVec α) : Prop :=
  v.outCap = 0 ∨ ∃ k, v.outCap = 1024 * 2 ^ k ∧ (v.outCap = 1024 ∨ v.outCap < 2 * v.outLen)

/-- The step lemma of the capacity: a call that returns `1`, with all the floats below
`2 ^ w / 2`, keeps it. -/
theorem FloatVec.Doubling.appendFloats {w : ℕ} {fits : ℕ → Bool} {v v' : FloatVec α}
    {src : ℕ → α} {n : ℕ} (hd : v.Doubling) (hneed : 2 * (v.outLen + n) ≤ 2 ^ w)
    (h : Gopus.appendFloats w fits v src n = .appended v') : v'.Doubling := by
  obtain ⟨hlen, hcap | ⟨hgrow, hcap⟩⟩ := appendFloats_appended h
  · rcases hd with h0 | ⟨k, hk, hsmall⟩
    · exact .inl (hcap.trans h0)
    · exact .inr ⟨k, hcap.trans hk, by omega⟩
  · obtain ⟨hle, hkeep⟩ := growCap_spec w (v.outLen + n) (startCap v.outCap)
    obtain ⟨j, hj⟩ := growCap_eq_mul_two_pow w (v.outLen + n) (startCap v.outCap) hneed
    refine .inr ?_
    rcases hd with h0 | ⟨k, hk, -⟩
    · have hs : (startCap v.outCap : ℕ) = 1024 := by rw [startCap, dif_neg (not_not.2 h0)]; rfl
      rw [hs] at hj hkeep
      exact ⟨j, by rw [hcap, hj], by omega⟩
    · have hs : (startCap v.outCap : ℕ) = v.outCap := by
        rw [startCap, dif_pos (by have := Nat.two_pow_pos k; omega)]
        rfl
      rw [hs] at hj hkeep
      exact ⟨k + j, by rw [hcap, hj, hk, pow_add, Nat.mul_assoc], by omega⟩

/-- A power of two below another is at most half of it. -/
theorem two_pow_succ_le_of_lt {x y : ℕ} (h : 2 ^ x < 2 ^ y) : 2 ^ (x + 1) ≤ 2 ^ y :=
  Nat.pow_le_pow_right Nat.two_pos ((Nat.pow_lt_pow_iff_right Nat.one_lt_two).1 h)

/-- With the capacity kept and at most `2 ^ w / 8` floats stored, the doubling loop of a
call that needs more starts from a power of two at most `2 ^ w / 8`, below what it needs. -/
theorem FloatVec.Doubling.startCap_pow {w need : ℕ} {v : FloatVec α} (hd : v.Doubling)
    (hw : 4096 < 2 ^ w) (hbefore : 8 * v.outLen ≤ 2 ^ w) (hcross : 2 ^ w < 8 * need) :
    ∃ a, (startCap v.outCap : ℕ) = 2 ^ a ∧ 8 * 2 ^ a ≤ 2 ^ w ∧ v.outCap < need := by
  have h8192 : 8 * 2 ^ 10 ≤ 2 ^ w := by
    simpa using two_pow_succ_le_of_lt (show 2 ^ 12 < 2 ^ w by simpa using hw)
  rcases hd with h0 | ⟨k, hk, h1024 | hsmall⟩
  · refine ⟨10, ?_, h8192, by omega⟩
    rw [startCap, dif_neg (not_not.2 h0)]
    rfl
  · refine ⟨10, ?_, h8192, by omega⟩
    rw [startCap, dif_pos (by omega)]
    exact h1024
  · have hpow : v.outCap = 2 ^ (10 + k) := by rw [hk, pow_add]; rfl
    have h8 := two_pow_succ_le_of_lt
      (show 2 ^ (10 + k + 1 + 1) < 2 ^ w by rw [pow_succ, pow_succ, ← hpow]; omega)
    rw [pow_succ, pow_succ, pow_succ, ← hpow] at h8
    refine ⟨10 + k, ?_, by omega, by omega⟩
    rw [startCap, dif_pos (by have := Nat.two_pow_pos (10 + k); omega)]
    exact hpow

/-- The converse of the bound in `FloatVec.Holds.appendFloats_spec`, with the capacity kept
and `realloc` succeeding: the first call that takes the floats stored past `2 ^ w / 8`
writes past its block. The doubling loop leaves a power of two `new_cap` of at least
`2 ^ w / 4` floats, whose byte count wraps; the block `realloc` returns is too small. -/
theorem FloatVec.Doubling.appendFloats_outOfBounds {w : ℕ} {v : FloatVec α} (hd : v.Doubling)
    (hw : 4096 < 2 ^ w) (src : ℕ → α) {n : ℕ} (hn : n * 4 < 2 ^ w)
    (hbefore : 8 * v.outLen ≤ 2 ^ w) (hcross : 2 ^ w < 8 * (v.outLen + n)) :
    Gopus.appendFloats w (fun _ => true) v src n = .outOfBounds := by
  obtain ⟨a, hstart, ha, hgrow⟩ := hd.startCap_pow hw hbefore hcross
  obtain ⟨hle, hkeep⟩ := growCap_spec w (v.outLen + n) (startCap v.outCap)
  obtain ⟨j, hj⟩ := growCap_eq_mul_two_pow w (v.outLen + n) (startCap v.outCap) (by omega)
  have hlt := growCap_lt_two_pow w (v.outLen + n) (startCap v.outCap) (by omega) (by omega)
  have h2 : growCap w (v.outLen + n) (startCap v.outCap) < 2 * (v.outLen + n) :=
    hkeep.resolve_left (by omega)
  -- `new_cap` is the power of two `2 ^ (a + j)` of at least `2 ^ w / 4` floats
  have hwrap : 2 ^ w ≤ growCap w (v.outLen + n) (startCap v.outCap) * 4 := by
    rw [hj, hstart, ← pow_add] at hle ⊢
    by_contra hsmall
    have h8 := two_pow_succ_le_of_lt
      (show 2 ^ (a + j + 1 + 1) < 2 ^ w by rw [pow_succ, pow_succ]; omega)
    rw [pow_succ, pow_succ, pow_succ] at h8
    omega
  have hsize := wrapped_size_lt hwrap hlt h2
  rw [Gopus.appendFloats, if_neg (by omega), if_neg (by unfold sizeMax; omega)]
  dsimp only
  rw [if_pos hgrow]
  generalize growCap w (v.outLen + n) (startCap v.outCap) = c at hsize ⊢
  rw [if_pos rfl]
  dsimp only
  rw [memcpyFloats, if_neg (by
    simp only [reallocFloats, Option.getD_some, Nat.mod_eq_of_lt hn]
    omega)]

/-- Below `need` and `SIZE_MAX / 2`, the doubling loop goes on from `2 * new_cap`. -/
theorem growCap_double {w need : ℕ} {c : ℕ+} (hlt : (c : ℕ) < need)
    (hsmall : (c : ℕ) ≤ sizeMax w / 2) : growCap w need c = growCap w need (c * 2) := by
  conv_lhs => rw [growCap, if_pos hlt, if_neg (not_lt.2 hsmall)]

/-- With the capacity kept and below `need`, at most `2 ^ w / 8` floats, the doubling loop
ends where it ends from `1024`: the capacity is one of its steps. -/
theorem FloatVec.Doubling.growCap_startCap {w need : ℕ} {v : FloatVec α} (hd : v.Doubling)
    (hgrow : v.outCap < need) (hneed : 8 * need ≤ 2 ^ w) :
    growCap w need (startCap v.outCap) = growCap w need 1024 := by
  have hsteps : ∀ (k : ℕ) (c : ℕ+), (c : ℕ) = 1024 * 2 ^ k → (c : ℕ) < need →
      growCap w need c = growCap w need 1024 := by
    intro k
    induction k with
    | zero => exact fun c hc _ => congrArg _ (PNat.eq hc)
    | succ k ih =>
      intro c hc hlt
      have hc' : c = ⟨1024 * 2 ^ k, Nat.mul_pos (by decide) (Nat.two_pow_pos k)⟩ * 2 :=
        PNat.eq (by rw [hc, PNat.mul_coe, PNat.mk_coe, pow_succ, PNat.val_ofNat, Nat.mul_assoc])
      have hhalf : 1024 * 2 ^ k < need := by rw [hc, pow_succ] at hlt; omega
      rw [hc', ← growCap_double hhalf (by rw [PNat.mk_coe]; unfold sizeMax; omega)]
      exact ih _ rfl hhalf
  rcases hd with h0 | ⟨k, hk, -⟩
  · rw [startCap, dif_neg (not_not.2 h0)]
  · have hs : startCap v.outCap = ⟨v.outCap, by have := Nat.two_pow_pos k; omega⟩ :=
      dif_pos (by have := Nat.two_pow_pos k; omega)
    rw [hs]
    exact hsteps k _ hk hgrow

/-- A call that returns `0`, with the capacity kept and at most `2 ^ w / 8` floats stored
after it: its `realloc` asked for `new_cap * sizeof(float)` bytes, `new_cap` where the
doubling loop ends from `1024` for the floats stored after the call, and failed. -/
theorem FloatVec.Doubling.appendFloats_failed {w : ℕ} {fits : ℕ → Bool} {v : FloatVec α}
    {src : ℕ → α} {n : ℕ} (hd : v.Doubling) (hw : 4096 < 2 ^ w)
    (hneed : 8 * (v.outLen + n) ≤ 2 ^ w) (h : Gopus.appendFloats w fits v src n = .failed) :
    fits (growCap w (v.outLen + n) 1024 * 4) = false := by
  unfold Gopus.appendFloats at h
  by_cases hn0 : n = 0
  · rw [if_pos hn0] at h
    cases h
  rw [if_neg hn0, if_neg (by unfold sizeMax; omega)] at h
  dsimp only at h
  by_cases hgrow : v.outLen + n > v.outCap
  · rw [if_pos hgrow, hd.growCap_startCap hgrow hneed] at h
    have hlt : growCap w (v.outLen + n) 1024 * 4 < 2 ^ w := by
      obtain ⟨-, h1024 | h2⟩ := growCap_spec w (v.outLen + n) 1024
      · rw [h1024, PNat.val_ofNat]
        omega
      · omega
    rw [Nat.mod_eq_of_lt hlt] at h
    by_cases hfit : fits (growCap w (v.outLen + n) 1024 * 4) = true
    · rw [if_pos hfit] at h
      dsimp only at h
      split at h <;> cases h
    · exact Bool.eq_false_iff.mpr hfit
  · rw [if_neg hgrow] at h
    dsimp only at h
    split at h <;> cases h

/-- The run lemma of the capacity: from variables holding `calls` with the capacity kept,
every run of calls whose floats, with those appended before, number at most `2 ^ w / 8`
stops early only when a `realloc` fails, asked for the bytes of where the doubling loop
from `1024` ends for the floats so far, never writes past its block, and leaves variables
that hold all the calls and keep the capacity. -/
theorem FloatVec.Holds.appendAll_doubling {w : ℕ} {v : FloatVec α}
    {calls : List ((ℕ → α) × ℕ)} (hv : v.Holds w calls) (hd : v.Doubling)
    (hw : 4096 < 2 ^ w) (fits : ℕ → Bool) (calls' : List ((ℕ → α) × ℕ))
    (htotal : 8 * ((calls ++ calls').map Prod.snd).sum ≤ 2 ^ w) :
    (appendAll w fits v calls').Spec
      (∃ k < calls'.length,
        fits (growCap w ((calls ++ calls'.take (k + 1)).map Prod.snd).sum 1024 * 4) = false)
      False (fun v' => v'.Holds w (calls ++ calls') ∧ v'.Doubling) := by
  induction calls' generalizing v calls with
  | nil => exact ⟨by simpa using hv, hd⟩
  | cons c rest ih =>
    obtain ⟨src, n⟩ := c
    have hsum := hv.1
    simp only [List.map_append, List.map_cons, List.sum_append, List.sum_cons] at htotal
    have hstep := hv.appendFloats_spec hw fits src (show n * 4 < 2 ^ w by omega)
    rw [appendAll]
    rcases happ : Gopus.appendFloats w fits v src n with _ | v1 | _ <;> rw [happ] at hstep
    · -- this call's `realloc` failed
      refine ⟨0, by simp, ?_⟩
      have hfail := hd.appendFloats_failed hw (by omega) happ
      simpa [hsum] using hfail
    · have hall := ih hstep (hd.appendFloats (by omega) happ) (by
        simp only [List.map_append, List.map_cons, List.map_nil, List.sum_append, List.sum_cons,
          List.sum_nil]
        omega)
      refine hall.imp (fun ⟨k, hk, hfail⟩ => ⟨k + 1, by simp; omega, ?_⟩) id
        fun _ h => by rwa [List.append_assoc, List.singleton_append] at h
      simpa [List.append_assoc] using hfail
    · have hoob : 2 ^ w < 8 * (v.outLen + n) := hstep
      omega

/-- From `NULL`, `0`, `0`, every run of calls whose floats number at most `2 ^ w / 8`
stops early only when the `realloc` of some call `k` fails, asked for `new_cap *
sizeof(float)` bytes with `new_cap` where the doubling loop from `1024` ends for the floats
of the calls up to `k`; it never writes past its block, and leaves `decoded` holding every
float appended, with a capacity of `1024` doubled some number of times that is `1024` or
less than twice `decoded_len`. -/
theorem appendAll_empty_doubling {w : ℕ} (hw : 4096 < 2 ^ w) (fits : ℕ → Bool)
    (calls : List ((ℕ → α) × ℕ)) (htotal : 8 * (calls.map Prod.snd).sum ≤ 2 ^ w) :
    (appendAll w fits .empty calls).Spec
      (∃ k < calls.length,
        fits (growCap w ((calls.take (k + 1)).map Prod.snd).sum 1024 * 4) = false)
      False (fun v => v.Holds w calls ∧ v.Doubling) := by
  simpa using FloatVec.holds_empty.appendAll_doubling (.inl rfl) hw fits calls
    (by simpa using htotal)

theorem appendAll_empty_doubling_two_calls :
    4096 < 2 ^ 32 ∧
      8 * ([((fun _ => 0 : ℕ → ℕ), 1500), (fun _ => 1, 700)].map Prod.snd).sum ≤ 2 ^ 32 ∧
    (appendAll 32 (fun _ => true) .empty
        [((fun _ => 0 : ℕ → ℕ), 1500), (fun _ => 1, 700)]).Spec
      (∃ k < [((fun _ => 0 : ℕ → ℕ), 1500), (fun _ => 1, 700)].length,
        (fun _ => true : ℕ → Bool) (growCap 32
          (([((fun _ => 0 : ℕ → ℕ), 1500), (fun _ => 1, 700)].take (k + 1)).map Prod.snd).sum
          1024 * 4) = false) False
      (fun v => v.Holds 32 [((fun _ => 0 : ℕ → ℕ), 1500), (fun _ => 1, 700)] ∧
        v.Doubling) :=
  ⟨by decide, by decide, appendAll_empty_doubling (by decide) _ _ (by decide)⟩

end Gopus
