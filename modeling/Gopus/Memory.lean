import Mathlib.Logic.Function.Basic
import Mathlib.Data.PNat.Basic
import Mathlib.Data.List.Basic

/-!
# Kernel memory and loops

A kernel call writes one array in place (`buf`, `out` or `fout`) and reads read-only
tables (`trig`, `spec`, `tw`). Its state is that array, indexed by the C `int` offsets
from the pointer argument, and the log of every element access made so far. Logging
the accesses is what lets the footprint of a kernel, and the order of its loads and
stores, be stated at all. The C `int` counters are mathematical integers: the caller
contract of the spec's §3 keeps every index in range.
-/

namespace Gopus

/-- The arrays a kernel reaches through its pointer arguments, by the names the source
gives those pointers. -/
inductive Region where
  | buf
  | trig
  | out
  | spec
  | fout
  | tw
  deriving DecidableEq, Repr

/-- One element access. -/
inductive Access where
  | load (r : Region) (p : ℤ)
  | store (r : Region) (p : ℤ)
  deriving DecidableEq, Repr

/-- The state of a kernel call: the array written in place and the accesses made so
far, newest first. -/
structure Heap (σ : Type) where
  /-- The array the kernel writes, by element offset. -/
  mem : ℤ → σ
  /-- Every element access so far, newest first. -/
  log : List Access

/-- A kernel: a state-passing computation over a `Heap`. -/
abbrev Kernel (σ : Type) := StateM (Heap σ)

variable {σ τ ρ : Type}

/-- A call of kernel `k` on the array `mem`: the array it leaves and every access it
made, newest first. -/
def Kernel.call (k : Kernel σ Unit) (mem : ℤ → σ) : Heap σ := (k.run ⟨mem, []⟩).2

/-- Load element `p` of the array written in place; `r` names it in the log. -/
def load (r : Region) (p : ℤ) : Kernel σ σ :=
  fun h => (h.mem p, { h with log := .load r p :: h.log })

/-- Load element `p` of the read-only table `t`. -/
def fetch (r : Region) (t : ℤ → τ) (p : ℤ) : Kernel σ τ :=
  fun h => (t p, { h with log := .load r p :: h.log })

/-- Store `v` at element `p` of the array written in place. -/
def store (r : Region) (p : ℤ) (v : σ) : Kernel σ Unit :=
  fun h => ((), { mem := Function.update h.mem p v, log := .store r p :: h.log })

/-! ### Stores in sequence -/

/-- The array after storing each `(p, v)` of `ws`, in order. -/
def storeAll (mem : ℤ → σ) : List (ℤ × σ) → ℤ → σ
  | [] => mem
  | w :: ws => storeAll (Function.update mem w.1 w.2) ws

@[simp] theorem storeAll_nil (mem : ℤ → σ) : storeAll mem [] = mem := rfl

@[simp] theorem storeAll_cons (mem : ℤ → σ) (w : ℤ × σ) (ws : List (ℤ × σ)) :
    storeAll mem (w :: ws) = storeAll (Function.update mem w.1 w.2) ws := rfl

theorem storeAll_append (mem : ℤ → σ) (ws ws' : List (ℤ × σ)) :
    storeAll mem (ws ++ ws') = storeAll (storeAll mem ws) ws' := by
  induction ws generalizing mem with
  | nil => rfl
  | cons w ws ih => exact ih _

/-- An element no store addresses keeps its value. -/
theorem storeAll_of_not_mem {mem : ℤ → σ} {ws : List (ℤ × σ)} {p : ℤ}
    (hp : ∀ w ∈ ws, w.1 ≠ p) : storeAll mem ws p = mem p := by
  induction ws generalizing mem with
  | nil => rfl
  | cons w ws ih =>
    rw [storeAll_cons, ih fun w' hw' => hp w' (List.mem_cons_of_mem _ hw'),
      Function.update_noteq (hp w (List.mem_cons_self _ _)).symm]

/-- Stores that agree on every element they share leave each of their values. -/
theorem storeAll_of_mem {mem : ℤ → σ} {ws : List (ℤ × σ)}
    (hws : ∀ w ∈ ws, ∀ w' ∈ ws, w.1 = w'.1 → w.2 = w'.2) {w : ℤ × σ} (hw : w ∈ ws) :
    storeAll mem ws w.1 = w.2 := by
  induction ws generalizing mem w with
  | nil => cases hw
  | cons x ws ih =>
    have htail : ∀ a ∈ ws, ∀ b ∈ ws, a.1 = b.1 → a.2 = b.2 := fun a ha b hb =>
      hws a (List.mem_cons_of_mem _ ha) b (List.mem_cons_of_mem _ hb)
    rw [storeAll_cons]
    by_cases hlater : ∃ w' ∈ ws, w'.1 = w.1
    · obtain ⟨w', hw', hsame⟩ := hlater
      rw [← hsame, ih htail hw']
      exact hws w' (List.mem_cons_of_mem _ hw') w hw hsame
    · push_neg at hlater
      rw [storeAll_of_not_mem hlater]
      rcases List.mem_cons.mp hw with rfl | hw
      · exact Function.update_same _ _ _
      · exact absurd rfl (hlater w hw)

/-! ### The access log -/

/-- No load of region `r` comes after a store to the same element, in a log kept newest
first: every element is read before anything overwrites it. -/
def LoadsBeforeStores (r : Region) : List Access → Prop
  | [] => True
  | e :: es => (∀ p, e = .load r p → .store r p ∉ es) ∧ LoadsBeforeStores r es

@[simp] theorem loadsBeforeStores_nil (r : Region) : LoadsBeforeStores r [] := trivial

/-- A store at the newest end of a log adds no constraint. -/
@[simp] theorem loadsBeforeStores_store {r r' : Region} {p : ℤ} {l : List Access} :
    LoadsBeforeStores r (.store r' p :: l) ↔ LoadsBeforeStores r l :=
  ⟨And.right, fun h => ⟨fun _ he => absurd he (by simp), h⟩⟩

/-- A load at the newest end of a log must not follow a store to its element. -/
@[simp] theorem loadsBeforeStores_load {r r' : Region} {p : ℤ} {l : List Access} :
    LoadsBeforeStores r (.load r' p :: l) ↔ (r' = r → .store r p ∉ l) ∧ LoadsBeforeStores r l := by
  refine ⟨fun ⟨h, hl⟩ => ⟨fun hr => ?_, hl⟩, fun ⟨h, hl⟩ => ⟨fun q hq => ?_, hl⟩⟩
  · subst hr
    exact h p rfl
  · obtain ⟨rfl, rfl⟩ := Access.load.inj hq
    exact h rfl

theorem loadsBeforeStores_append {r : Region} {l₁ l₂ : List Access} :
    LoadsBeforeStores r (l₁ ++ l₂) ↔ LoadsBeforeStores r l₁ ∧ LoadsBeforeStores r l₂ ∧
      ∀ p, .load r p ∈ l₁ → .store r p ∉ l₂ := by
  induction l₁ with
  | nil => simp [LoadsBeforeStores]
  | cons e es ih =>
    rw [List.cons_append]
    simp only [LoadsBeforeStores, ih, List.mem_append, List.mem_cons, not_or]
    constructor
    · rintro ⟨he, hes, hl₂, hcross⟩
      refine ⟨⟨fun p hp => (he p hp).1, hes⟩, hl₂, ?_⟩
      rintro p (rfl | hp)
      · exact (he p rfl).2
      · exact hcross p hp
    · rintro ⟨⟨he, hes⟩, hl₂, hcross⟩
      exact ⟨fun p hp => ⟨he p hp, hcross p (.inl hp.symm)⟩, hes, hl₂,
        fun p hp => hcross p (.inr hp)⟩

/-! ### Loops -/

/-- The C loop `for (; i + lag < bound; i += step) c = body(i, c);` entered with
counter `i` and loop-carried variables `c`. It returns the counter and the variables
at exit, from which the loop after it in the source continues. -/
def forStep (bound : ℤ) (lag : ℕ) (step : ℕ+) (body : ℤ → ρ → Kernel σ ρ) (i : ℤ) (c : ρ) :
    Kernel σ (ℤ × ρ) :=
  if i + lag < bound then do
    let c' ← body i c
    forStep bound lag step body (i + step) c'
  else pure (i, c)
termination_by (bound - i).toNat
decreasing_by have := step.pos; omega

theorem forStep_eq (bound : ℤ) (lag : ℕ) (step : ℕ+) (body : ℤ → ρ → Kernel σ ρ) (i : ℤ)
    (c : ρ) (h : Heap σ) :
    (forStep bound lag step body i c).run h =
      if i + lag < bound then
        (forStep bound lag step body (i + step) ((body i c).run h).1).run ((body i c).run h).2
      else ((i, c), h) := by
  rw [forStep]
  split <;> rfl

/-- A loop whose condition fails at entry does nothing. -/
theorem forStep_run_of_not_lt {bound : ℤ} {lag : ℕ} {step : ℕ+} {body : ℤ → ρ → Kernel σ ρ}
    {i : ℤ} (c : ρ) (h : Heap σ) (hge : ¬ i + lag < bound) :
    (forStep bound lag step body i c).run h = ((i, c), h) := by
  rw [forStep_eq, if_neg hge]

/-- The invariant rule of `forStep`: an invariant that holds on entry and that every
iteration run under the loop condition preserves holds at exit, where the condition
fails. -/
theorem forStep_invariant (bound : ℤ) (lag : ℕ) (step : ℕ+) (body : ℤ → ρ → Kernel σ ρ)
    (inv : ℤ → ρ → Heap σ → Prop)
    (hstep : ∀ i c h, i + lag < bound → inv i c h →
      inv (i + step) ((body i c).run h).1 ((body i c).run h).2)
    (i : ℤ) (c : ρ) {h : Heap σ} (hinit : inv i c h) :
    inv ((forStep bound lag step body i c).run h).1.1 ((forStep bound lag step body i c).run h).1.2
        ((forStep bound lag step body i c).run h).2 ∧
      ¬ ((forStep bound lag step body i c).run h).1.1 + lag < bound := by
  obtain ⟨n, hn⟩ : ∃ n, (bound - i).toNat = n := ⟨_, rfl⟩
  induction n using Nat.strong_induction_on generalizing i c h with
  | _ n ih =>
    rw [forStep_eq]
    split
    · next hlt =>
      have := step.pos
      exact ih _ (by omega) _ _ (hstep i c h hlt hinit) rfl
    · next hge => exact ⟨hinit, hge⟩

/-- The frame rule of `forStep`: when every iteration run under the loop condition keeps the
invariant `inv` of the counter and the loop-carried variables, and adds to the log only
accesses satisfying `F`, the whole loop keeps `inv` and adds only such accesses. -/
theorem forStep_accesses (bound : ℤ) (lag : ℕ) (step : ℕ+)
    (body : ℤ → ρ → Kernel σ ρ) (inv : ℤ → ρ → Prop) (F : Access → Prop)
    (hbody : ∀ i c h, i + lag < bound → inv i c → inv (i + step) ((body i c).run h).1 ∧
      ∀ e ∈ ((body i c).run h).2.log, e ∈ h.log ∨ F e)
    (i : ℤ) (c : ρ) (h : Heap σ) (hinit : inv i c) :
    inv ((forStep bound lag step body i c).run h).1.1
        ((forStep bound lag step body i c).run h).1.2 ∧
      ∀ e ∈ ((forStep bound lag step body i c).run h).2.log, e ∈ h.log ∨ F e := by
  have hloop := forStep_invariant bound lag step body
    (fun i c h' => inv i c ∧ ∀ e ∈ h'.log, e ∈ h.log ∨ F e)
    (fun i c h' hlt ⟨hi, hlog⟩ => ⟨(hbody i c h' hlt hi).1, fun e he =>
      ((hbody i c h' hlt hi).2 e he).elim (hlog e) .inr⟩) i c ⟨hinit, fun e he => .inl he⟩
  exact hloop.1

/-- Two loops over the same counter whose iterations, from arrays that agree, return the
same variables and leave arrays that agree, return the same variables and leave arrays
that agree. -/
theorem forStep_congr (bound : ℤ) (lag : ℕ) (step : ℕ+) (body body' : ℤ → ρ → Kernel σ ρ)
    (hbody : ∀ i c h h', i + lag < bound → h.mem = h'.mem →
      ((body i c).run h).1 = ((body' i c).run h').1 ∧
        ((body i c).run h).2.mem = ((body' i c).run h').2.mem)
    (i : ℤ) (c : ρ) {h h' : Heap σ} (hmem : h.mem = h'.mem) :
    ((forStep bound lag step body i c).run h).1 = ((forStep bound lag step body' i c).run h').1 ∧
      ((forStep bound lag step body i c).run h).2.mem =
        ((forStep bound lag step body' i c).run h').2.mem := by
  obtain ⟨n, hn⟩ : ∃ n, (bound - i).toNat = n := ⟨_, rfl⟩
  induction n using Nat.strong_induction_on generalizing i c h h' with
  | _ n ih =>
    rw [forStep_eq bound lag step body, forStep_eq bound lag step body']
    by_cases hlt : i + lag < bound
    · rw [if_pos hlt, if_pos hlt]
      have := step.pos
      obtain ⟨hc, hm⟩ := hbody i c h h' hlt hmem
      rw [hc]
      exact ih (bound - (i + step)).toNat (by omega) _ _ hm rfl
    · rw [if_neg hlt, if_neg hlt]
      exact ⟨rfl, hmem⟩

end Gopus
