import KernelThreads.Proofs.Thread.Occupancy

/-!
The generations of slots. As long as no slot comes back to an earlier generation,
a handle that has been issued is never issued again.
-/
namespace KernelThreads.Registry

variable {r s : Registry} {h : Handle} {t : Thread} {i : Nat} {g : UInt32}

def generation? (r : Registry) (i : Nat) : Option UInt32 := r.slots[i]?.map (·.generation)

/-- From `r` to `s` some slot has come back to an earlier generation. -/
def Wraps (r s : Registry) : Prop :=
  ∃ i, i < r.capacity ∧ ∃ g ∈ r.generation? i, ∃ g' ∈ s.generation? i, g' < g

instance Wraps.decidable (r s : Registry) : Decidable (r.Wraps s) :=
  inferInstanceAs (Decidable (∃ i, i < r.capacity ∧
    ∃ g ∈ r.generation? i, ∃ g' ∈ s.generation? i, g' < g))

/-- The slot of `h` has reached the generation of `h`. -/
def Issued (r : Registry) (h : Handle) : Prop :=
  ∃ g, r.generation? h.slot.toNat = some g ∧ h.generation ≤ g

theorem generation?_eq_none : r.generation? i = none ↔ r.capacity ≤ i := by
  simp [generation?, capacity]

theorem generation?_new {capacity : Nat} (hg : g ∈ (new capacity).generation? i) : g = 0 := by
  obtain ⟨x, hx, rfl⟩ := Option.map_eq_some_iff.mp hg
  rw [new, Array.getElem?_replicate] at hx
  split at hx
  · cases hx
    rfl
  · cases hx

theorem issued_of_live (ht : r.get? h = some t) : r.Issued h := by
  obtain ⟨x, hx, hgeneration, -⟩ := get?_eq_some.mp ht
  exact ⟨h.generation, by simp [generation?, hx, hgeneration], UInt32.le_refl _⟩

theorem Issued.mono (hh : r.Issued h) (hcapacity : s.capacity = r.capacity)
    (hwraps : ¬ r.Wraps s) : s.Issued h := by
  obtain ⟨g, hg, hle⟩ := hh
  have hlt : h.slot.toNat < r.capacity := by
    rw [← Nat.not_le, ← generation?_eq_none, hg]
    simp
  cases hg' : s.generation? h.slot.toNat with
  | none =>
    rw [generation?_eq_none, hcapacity] at hg'
    omega
  | some g' =>
    refine ⟨g', hg', UInt32.le_trans hle (UInt32.not_lt.mp fun hback => ?_)⟩
    exact hwraps ⟨_, hlt, g, hg, g', hg', hback⟩

theorem generation?_modify (r : Registry) (h : Handle) (f : Option Thread → Option Thread)
    (i : Nat) : (r.modify h f).generation? i = r.generation? i := by
  simp only [generation?, modify, Array.getElem?_modify]
  split
  · rw [Option.map_map]
    congr 1
    funext x
    dsimp only [Function.comp]
    split <;> rfl
  · rfl

theorem generation?_insert (hs : (r.insert t).result = .ok s) (i : Nat) :
    s.generation? i = r.generation? i := by
  obtain ⟨-, rfl⟩ := insert_eq_ok.mp hs
  exact generation?_modify r t.id _ i

theorem Related.generation?_eq {R : Thread → Thread → Prop} (hrs : r.Related R s) (i : Nat) :
    s.generation? i = r.generation? i := by
  unfold generation?
  rcases rel_cases (hrs i) with ⟨hr, hs⟩ | ⟨x, y, hr, hs, hgeneration, -⟩
  · rw [hr, hs]
  · rw [hr, hs, Option.map_some, Option.map_some, hgeneration]

theorem generation?_issue_slot {slot : Nat} (hs : (r.issue slot).result = .ok (h, s)) (i : Nat) :
    s.generation? i = (r.generation? i).map (· + if slot = i then 1 else 0) := by
  obtain ⟨x, hx, -, -, rfl⟩ := issue_eq_ok.mp hs
  have hlt := (Array.getElem?_eq_some_iff.mp hx).1
  simp only [generation?, Array.getElem?_setIfInBounds]
  by_cases hslot : slot = i
  · subst hslot
    rw [if_pos rfl, if_pos hlt, hx]
    simp
  · cases r.slots[i]? <;> simp [hslot]

/-- A handle is one generation ahead of its slot when it is issued. -/
theorem generation?_issue {slot : Nat} (hs : (r.issue slot).result = .ok (h, s))
    (hcapacity : r.capacity ≤ UInt32.size) :
    ∃ g, r.generation? h.slot.toNat = some g ∧ h.generation = g + 1 ∧
      s.generation? h.slot.toNat = some (g + 1) := by
  obtain ⟨hslot, hawaits⟩ := awaits_issue hs hcapacity
  obtain ⟨x, hx, -, rfl, -⟩ := issue_eq_ok.mp hs
  refine ⟨x.generation, ?_, rfl, ?_⟩
  · rw [hslot, generation?, hx, Option.map_some]
  · rw [generation?, awaits_iff.mp hawaits, Option.map_some]

/-- It has not been issued before, if the slot is to keep it. -/
theorem not_issued (hr : r.generation? h.slot.toNat = some g) (hh : h.generation = g + 1)
    (hs : s.generation? h.slot.toNat = some (g + 1)) (hwraps : ¬ r.Wraps s) : ¬ r.Issued h := by
  rintro ⟨g', hg', hle⟩
  cases hr.symm.trans hg'
  rw [hh] at hle
  have hback : g + 1 < g := by
    have hne : g + 1 ≠ g := by simp
    exact UInt32.lt_of_le_of_ne hle hne
  refine hwraps ⟨_, ?_, g, hr, g + 1, hs, hback⟩
  rw [← Nat.not_le, ← generation?_eq_none, hr]
  simp

end KernelThreads.Registry
