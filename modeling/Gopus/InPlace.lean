import Gopus.Memory
import Mathlib.Data.List.Nodup

/-!
# In-place passes

Every kernel here walks its array in cells (a butterfly group, a position of a group,
one iteration of a rotation) and rewrites each cell from the values it holds. When no
two cells share an element, the whole pass has a closed form: each cell's elements hold
what the cell computes from the original array, and every other element is unchanged.
`InPlace.Done` states that closed form for the cells done so far; `Done.store` is the
step lemma every kernel loop uses, for one cell or for the two cells of a paired
vector iteration.
-/

namespace Gopus

variable {ι σ : Type}

/-- An in-place pass: cell `c` stores `writes c mem`, the elements it addresses are
`slots c`, two of its stores to one element store one value, and what it stores depends
on the array at its own slots alone. -/
structure InPlace (ι σ : Type) where
  /-- The elements cell `c` reads and writes. -/
  slots : ι → List ℤ
  /-- The stores cell `c` makes, given the array it starts from. -/
  writes : ι → (ℤ → σ) → List (ℤ × σ)
  addrs : ∀ c mem, (writes c mem).map Prod.fst = slots c
  consistent : ∀ c mem, ∀ w ∈ writes c mem, ∀ w' ∈ writes c mem, w.1 = w'.1 → w.2 = w'.2
  isLocal : ∀ c mem mem', (∀ p ∈ slots c, mem p = mem' p) → writes c mem = writes c mem'

namespace InPlace

variable (P : InPlace ι σ)

theorem mem_slots_of_mem_writes {c : ι} {mem : ℤ → σ} {w : ℤ × σ} (hw : w ∈ P.writes c mem) :
    w.1 ∈ P.slots c := by
  rw [← P.addrs c mem]
  exact List.mem_map_of_mem _ hw

theorem exists_write_of_mem_slots {c : ι} (mem : ℤ → σ) {p : ℤ} (hp : p ∈ P.slots c) :
    ∃ w ∈ P.writes c mem, w.1 = p := by
  rw [← P.addrs c mem] at hp
  simpa using hp

/-- The array `mem` is `mem0` with the cells satisfying `done` rewritten: each such
cell's stores, computed from `mem0`, are in place, and every element outside those
cells is as in `mem0`. -/
def Done (done : ι → Prop) (mem0 mem : ℤ → σ) : Prop :=
  (∀ c, done c → ∀ w ∈ P.writes c mem0, mem w.1 = w.2) ∧
  (∀ p, (∀ c, done c → p ∉ P.slots c) → mem p = mem0 p)

theorem done_none (mem0 : ℤ → σ) : P.Done (fun _ => False) mem0 mem0 :=
  ⟨fun _ h => h.elim, fun _ _ => rfl⟩

/-- The cells done determine the array. -/
theorem Done.unique {P : InPlace ι σ} {done : ι → Prop} {mem0 mem mem' : ℤ → σ}
    (h : P.Done done mem0 mem) (h' : P.Done done mem0 mem') : mem = mem' := by
  funext p
  by_cases hp : ∃ c, done c ∧ p ∈ P.slots c
  · obtain ⟨c, hc, hpc⟩ := hp
    obtain ⟨w, hw, rfl⟩ := P.exists_write_of_mem_slots mem0 hpc
    rw [h.1 c hc w hw, h'.1 c hc w hw]
  · push_neg at hp
    rw [h.2 p hp, h'.2 p hp]

/-- A cell disjoint from the cells done still sees its original elements, so it
stores what it would store in `mem0`. -/
theorem Done.writes_eq {P : InPlace ι σ} {done : ι → Prop} {mem0 mem : ℤ → σ}
    (h : P.Done done mem0 mem) {c : ι} (hc : ∀ c', done c' → ∀ p ∈ P.slots c, p ∉ P.slots c') :
    P.writes c mem = P.writes c mem0 :=
  P.isLocal c mem mem0 fun p hp => h.2 p fun c' hc' => hc c' hc' p hp

/-- Storing `ws`, the stores of a batch of pairwise disjoint cells in any order, does
the batch from the array it starts from. -/
theorem done_storeAll {batch : ι → Prop} {mem : ℤ → σ}
    (hsep : ∀ c c', batch c → batch c' → c ≠ c' → ∀ p ∈ P.slots c, p ∉ P.slots c')
    {ws : List (ℤ × σ)} (hws : ∀ w ∈ ws, ∃ c, batch c ∧ w ∈ P.writes c mem)
    (hcover : ∀ c, batch c → ∀ w ∈ P.writes c mem, w ∈ ws) :
    P.Done batch mem (storeAll mem ws) := by
  have hcons : ∀ w ∈ ws, ∀ w' ∈ ws, w.1 = w'.1 → w.2 = w'.2 := by
    intro w hw w' hw' heq
    obtain ⟨c, hc, hwc⟩ := hws w hw
    obtain ⟨c', hc', hwc'⟩ := hws w' hw'
    by_cases hcc : c = c'
    · subst hcc
      exact P.consistent c mem w hwc w' hwc' heq
    · exact absurd (heq ▸ P.mem_slots_of_mem_writes hwc')
        (hsep c c' hc hc' hcc _ (P.mem_slots_of_mem_writes hwc))
  refine ⟨fun c hc w hw => storeAll_of_mem hcons (hcover c hc w hw),
    fun p hp => storeAll_of_not_mem fun w hw hwp => ?_⟩
  obtain ⟨c, hc, hwc⟩ := hws w hw
  exact hp c hc (hwp ▸ P.mem_slots_of_mem_writes hwc)

/-- Composition: doing a batch of cells, disjoint from the cells done, from an array
with those cells done extends the cells done. -/
theorem Done.trans {P : InPlace ι σ} {done batch : ι → Prop} {mem0 mem mem' : ℤ → σ}
    (h : P.Done done mem0 mem) (h' : P.Done batch mem mem')
    (hdisj : ∀ c, batch c → ∀ c', done c' → ∀ p ∈ P.slots c, p ∉ P.slots c') :
    P.Done (fun c => done c ∨ batch c) mem0 mem' := by
  refine ⟨fun c hc w hw => ?_, fun p hp => ?_⟩
  · rcases hc with hc | hc
    · rw [h'.2 w.1 fun c' hc' hp => hdisj c' hc' c hc _ hp (P.mem_slots_of_mem_writes hw)]
      exact h.1 c hc w hw
    · rw [← h.writes_eq (hdisj c hc)] at hw
      exact h'.1 c hc w hw
  · rw [h'.2 p fun c hc => hp c (.inr hc)]
    exact h.2 p fun c hc => hp c (.inl hc)

/-- The step lemma: storing `ws`, the stores of a batch of cells in any order, after the
cells done extends the cells done by the batch, provided the batch's cells are disjoint
from the cells done and from each other. -/
theorem Done.store {P : InPlace ι σ} {done batch : ι → Prop} {mem0 mem : ℤ → σ}
    (h : P.Done done mem0 mem)
    (hdisj : ∀ c, batch c → ∀ c', done c' → ∀ p ∈ P.slots c, p ∉ P.slots c')
    (hsep : ∀ c c', batch c → batch c' → c ≠ c' → ∀ p ∈ P.slots c, p ∉ P.slots c')
    {ws : List (ℤ × σ)} (hws : ∀ w ∈ ws, ∃ c, batch c ∧ w ∈ P.writes c mem)
    (hcover : ∀ c, batch c → ∀ w ∈ P.writes c mem, w ∈ ws) :
    P.Done (fun c => done c ∨ batch c) mem0 (storeAll mem ws) :=
  h.trans (P.done_storeAll hsep hws hcover) hdisj

/-- Storing the writes of one cell does that cell. -/
theorem done_writes (c : ι) (mem : ℤ → σ) : P.Done (· = c) mem (storeAll mem (P.writes c mem)) :=
  P.done_storeAll (by rintro _ _ rfl rfl hne; exact absurd rfl hne) (fun _ hw => ⟨c, rfl, hw⟩)
    (by rintro _ rfl _ hw; exact hw)

/-- The step lemma for one cell. -/
theorem Done.store_one {P : InPlace ι σ} {done : ι → Prop} {mem0 mem : ℤ → σ}
    (h : P.Done done mem0 mem) {c : ι}
    (hdisj : ∀ c', done c' → ∀ p ∈ P.slots c, p ∉ P.slots c') :
    P.Done (fun c' => done c' ∨ c' = c) mem0 (storeAll mem (P.writes c mem)) :=
  h.trans (P.done_writes c mem) (by rintro _ rfl; exact hdisj)

/-- `Done` depends on the cells done only through which cells they are. -/
theorem Done.congr {P : InPlace ι σ} {done done' : ι → Prop} {mem0 mem : ℤ → σ}
    (h : P.Done done mem0 mem) (hiff : ∀ c, done c ↔ done' c) : P.Done done' mem0 mem :=
  ⟨fun c hc => h.1 c ((hiff c).mpr hc), fun p hp => h.2 p fun c hc => hp c ((hiff c).mp hc)⟩

/-- The log of an in-place pass over region `r`: every element was loaded before it was
stored, and every store so far was to a cell done. -/
def LogDone (r : Region) (done : ι → Prop) (log : List Access) : Prop :=
  LoadsBeforeStores r log ∧ ∀ p, .store r p ∈ log → ∃ c, done c ∧ p ∈ P.slots c

theorem logDone_nil (r : Region) : P.LogDone r (fun _ => False) [] :=
  ⟨trivial, fun _ h => absurd h (List.not_mem_nil _)⟩

/-- The log step lemma: a batch of cells that loads and stores only its own slots, each
load before the stores, extends the log of the cells done, provided its cells are
disjoint from those done. -/
theorem LogDone.append {P : InPlace ι σ} {r : Region} {done batch : ι → Prop}
    {log seg : List Access} (h : P.LogDone r done log)
    (hdisj : ∀ c, batch c → ∀ c', done c' → ∀ p ∈ P.slots c, p ∉ P.slots c')
    (hseg : LoadsBeforeStores r seg)
    (hloads : ∀ p, .load r p ∈ seg → ∃ c, batch c ∧ p ∈ P.slots c)
    (hstores : ∀ p, .store r p ∈ seg → ∃ c, batch c ∧ p ∈ P.slots c) :
    P.LogDone r (fun c => done c ∨ batch c) (seg ++ log) := by
  refine ⟨loadsBeforeStores_append.mpr ⟨hseg, h.1, fun p hp hst => ?_⟩, fun p hp => ?_⟩
  · obtain ⟨c, hc, hpc⟩ := hloads p hp
    obtain ⟨c', hc', hpc'⟩ := h.2 p hst
    exact hdisj c hc c' hc' p hpc hpc'
  · rcases List.mem_append.mp hp with hp | hp
    · obtain ⟨c, hc, hpc⟩ := hstores p hp
      exact ⟨c, .inr hc, hpc⟩
    · obtain ⟨c, hc, hpc⟩ := h.2 p hp
      exact ⟨c, .inl hc, hpc⟩

theorem LogDone.congr {P : InPlace ι σ} {r : Region} {done done' : ι → Prop}
    {log : List Access} (h : P.LogDone r done log) (hiff : ∀ c, done c ↔ done' c) :
    P.LogDone r done' log :=
  ⟨h.1, fun p hp => (h.2 p hp).imp fun c hc => ⟨(hiff c).mp hc.1, hc.2⟩⟩

/-- A family of passes, one per group, as one pass over the cells `(g, j)`, cell `j` of
group `g`. -/
def grid (Q : ℤ → InPlace ℤ σ) : InPlace (ℤ × ℤ) σ where
  slots c := (Q c.1).slots c.2
  writes c := (Q c.1).writes c.2
  addrs c := (Q c.1).addrs c.2
  consistent c := (Q c.1).consistent c.2
  isLocal c := (Q c.1).isLocal c.2

/-- Doing cells of group `g`'s pass does the same cells of the grid. -/
theorem Done.grid (Q : ℤ → InPlace ℤ σ) {g : ℤ} {done : ℤ → Prop} {mem mem' : ℤ → σ}
    (h : (Q g).Done done mem mem') :
    (InPlace.grid Q).Done (fun c => c.1 = g ∧ done c.2) mem mem' := by
  refine ⟨fun ⟨g', j⟩ ⟨hg, hj⟩ => ?_, fun p hp => h.2 p fun j hj => hp (g, j) ⟨rfl, hj⟩⟩
  dsimp only at hg
  subst hg
  exact h.1 j hj

/-- The loop `for (; i < n; i++)` over groups of cells, entered at `i0` with groups
`0 .. i0 - 1` done, its iteration `g` entered with the loop-carried cursor `cursor g` and
doing the cells of group `g` from the array it finds: when no cell of a group shares an
element with a cell of an earlier group, the loop leaves groups `0 .. max i0 n - 1` done. -/
theorem forStep_groups_from (group : ℤ → ι → Prop) {ρ : Type} (cursor : ℤ → ρ)
    (body : ℤ → ρ → Kernel σ ρ) (n i0 : ℤ)
    (hbody : ∀ g h, 0 ≤ g → g < n → ((body g (cursor g)).run h).1 = cursor (g + 1) ∧
      P.Done (group g) h.mem ((body g (cursor g)).run h).2.mem)
    (hdisj : ∀ g g', 0 ≤ g' → g' < g → g < n → ∀ c, group g c → ∀ c', group g' c' →
      ∀ p ∈ P.slots c, p ∉ P.slots c')
    {mem0 : ℤ → σ} (h : Heap σ) (hi0 : 0 ≤ i0)
    (hinit : P.Done (fun c => ∃ g, 0 ≤ g ∧ g < i0 ∧ group g c) mem0 h.mem) :
    P.Done (fun c => ∃ g, 0 ≤ g ∧ g < max i0 n ∧ group g c) mem0
      ((forStep n 0 1 body i0 (cursor i0)).run h).2.mem := by
  have hone : (((1 : ℕ+) : ℕ) : ℤ) = 1 := rfl
  have hloop := forStep_invariant n 0 1 body
    (fun i c h' => i0 ≤ i ∧ (i ≤ n ∨ i = i0) ∧ c = cursor i ∧
      P.Done (fun c => ∃ g, 0 ≤ g ∧ g < i ∧ group g c) mem0 h'.mem)
    (fun i c h' hlt ⟨hi, _, hc, hdone⟩ => by
      subst hc
      replace hlt : i < n := by omega
      rw [hone]
      obtain ⟨hcur, hgroup⟩ := hbody i h' (by omega) hlt
      refine ⟨by omega, .inl (by omega), hcur, ?_⟩
      refine (hdone.trans hgroup fun c hc c' ⟨g', hg0, hg', hc'⟩ =>
        hdisj i g' hg0 hg' hlt c hc c' hc').congr fun c => ?_
      constructor
      · rintro (⟨g, hg0, hg, hc⟩ | hc)
        exacts [⟨g, hg0, by omega, hc⟩, ⟨i, by omega, by omega, hc⟩]
      · rintro ⟨g, hg0, hg, hc⟩
        by_cases hgi : g = i
        · exact .inr (hgi ▸ hc)
        · exact .inl ⟨g, hg0, by omega, hc⟩)
    i0 (cursor i0) ⟨le_rfl, .inr rfl, rfl, hinit⟩
  obtain ⟨⟨hi, hle, -, hdone⟩, hexit⟩ := hloop
  have hmax : ((forStep n 0 1 body i0 (cursor i0)).run h).1.1 = max i0 n := by omega
  rw [hmax] at hdone
  exact hdone

/-- `forStep_groups_from` for the loop `for (int i = 0; i < n; i++)`. -/
theorem forStep_groups (group : ℤ → ι → Prop) {ρ : Type} (cursor : ℤ → ρ)
    (body : ℤ → ρ → Kernel σ ρ) (n : ℤ)
    (hbody : ∀ g h, 0 ≤ g → g < n → ((body g (cursor g)).run h).1 = cursor (g + 1) ∧
      P.Done (group g) h.mem ((body g (cursor g)).run h).2.mem)
    (hdisj : ∀ g g', 0 ≤ g' → g' < g → g < n → ∀ c, group g c → ∀ c', group g' c' →
      ∀ p ∈ P.slots c, p ∉ P.slots c')
    (h : Heap σ) :
    P.Done (fun c => ∃ g, 0 ≤ g ∧ g < n ∧ group g c) h.mem
      ((forStep n 0 1 body 0 (cursor 0)).run h).2.mem :=
  (P.forStep_groups_from group cursor body n 0 hbody hdisj h le_rfl
    ((P.done_none h.mem).congr fun _ => ⟨False.elim, fun ⟨_, hg0, hg, _⟩ => by omega⟩)).congr
    fun _ => exists_congr fun _ => and_congr_right fun hg0 => and_congr_left' (by omega)

end InPlace

/-- Stores to pairwise different elements are consistent. -/
theorem consistent_of_nodup {ws : List (ℤ × σ)} (hws : (ws.map Prod.fst).Nodup) :
    ∀ w ∈ ws, ∀ w' ∈ ws, w.1 = w'.1 → w.2 = w'.2 := by
  intro w hw w' hw' heq
  rw [List.inj_on_of_nodup_map hws hw hw' heq]

end Gopus
