import KernelThreads.Memory.SlotPool
import Mathlib.Data.List.Perm.Basic

/-!
The book-keeping of a slot pool: its count is the number of slots that are taken,
and a hand-out and the matching return add and remove exactly one of them.
-/
namespace KernelThreads.SlotPool

open Logged (bind_eq_ok ensure_eq_ok pure_eq_ok)

variable {p q : SlotPool} {i : Nat}

/-- The slots in use, in ascending order. -/
def taken (p : SlotPool) : List Nat :=
  (List.range p.capacity).filter fun i => p.used[i]? = some true

def Valid (p : SlotPool) : Prop := p.count = p.taken.length

theorem mem_taken : i ∈ p.taken ↔ p.used[i]? = some true := by
  simp only [taken, capacity, List.mem_filter, List.mem_range, decide_eq_true_eq,
    and_iff_right_iff_imp]
  exact fun h => (Array.getElem?_eq_some_iff.mp h).1

theorem nodup_taken (p : SlotPool) : p.taken.Nodup := List.nodup_range.filter _

theorem taken_new (capacity : Nat) : (new capacity).taken = [] := by
  apply List.filter_eq_nil_iff.mpr
  intro i _
  simp only [new, Array.getElem?_replicate, decide_eq_true_eq]
  split <;> simp

theorem valid_new (capacity : Nat) : (new capacity).Valid := by
  rw [Valid, taken_new]
  rfl

theorem firstUnused?_eq_some (h : p.firstUnused? = some i) : p.used[i]? = some false := by
  simpa using List.find?_some h

/-- The search visits every slot. -/
theorem mem_rotation : i ∈ p.rotation ↔ i < p.capacity := by
  simp only [rotation, List.mem_map, List.mem_range]
  constructor
  · rintro ⟨j, hj, rfl⟩
    exact Nat.mod_lt _ (Nat.zero_lt_of_lt hj)
  · intro hi
    have hpos := Nat.zero_lt_of_lt hi
    refine ⟨(i + (p.capacity - p.next % p.capacity)) % p.capacity, Nat.mod_lt _ hpos, ?_⟩
    have hsplit := Nat.div_add_mod p.next p.capacity
    have hmod := Nat.mod_lt p.next hpos
    have hround : p.next + (i + (p.capacity - p.next % p.capacity)) =
        p.capacity * (p.next / p.capacity + 1) + i := by
      rw [Nat.mul_add, Nat.mul_one]
      omega
    rw [Nat.add_mod_mod, hround, Nat.mul_add_mod, Nat.mod_eq_of_lt hi]

theorem Valid.count_le (hp : p.Valid) : p.count ≤ p.capacity := by
  have hle := (List.filter_sublist (l := List.range p.capacity)
    (p := fun i => p.used[i]? = some true)).length_le
  rwa [List.length_range, ← taken, ← hp] at hle

/-- A pool without an unused slot is full. -/
theorem Valid.count_of_firstUnused? (hp : p.Valid) (h : p.firstUnused? = none) :
    p.count = p.capacity := by
  have hall : p.taken = List.range p.capacity := by
    refine List.filter_eq_self.mpr fun i hi => ?_
    have hlt : i < p.used.size := List.mem_range.mp hi
    have hused := List.find?_eq_none.mp h i (mem_rotation.mpr hlt)
    rw [Array.getElem?_eq_getElem hlt] at hused ⊢
    simpa using hused
  rw [hp, hall, List.length_range]

/-- The search fails only where there is nothing to be found. -/
theorem Valid.alloc_eq_none (hp : p.Valid) : p.alloc = (none, p) ↔ p.count = p.capacity := by
  unfold alloc
  split
  · rename_i hroom
    cases hfind : p.firstUnused? with
    | none => simpa using hp.count_of_firstUnused? hfind
    | some slot => simpa using Nat.ne_of_lt hroom
  · rename_i hfull
    have := hp.count_le
    simp only [true_iff]
    omega

theorem alloc_none (h : p.alloc = (none, q)) : q = p := by
  unfold alloc at h
  split at h
  · split at h
    · cases h
    · cases h
      rfl
  · cases h
    rfl

/-- A hand-out takes one slot that was unused. -/
theorem Valid.alloc_some (hp : p.Valid) (h : p.alloc = (some i, q)) :
    q.Valid ∧ q.capacity = p.capacity ∧ i < p.capacity ∧ q.taken.Perm (i :: p.taken) := by
  unfold alloc at h
  split at h
  · split at h
    · rename_i slot hslot
      cases h
      have hunused := firstUnused?_eq_some hslot
      have hlt : i < p.used.size := (Array.getElem?_eq_some_iff.mp hunused).1
      have hfresh : i ∉ p.taken := by simp [mem_taken, hunused]
      have hperm : (SlotPool.mk (p.used.setIfInBounds i true) ((i + 1) % p.capacity)
          (p.count + 1)).taken.Perm (i :: p.taken) := by
        refine (List.perm_ext_iff_of_nodup (nodup_taken _)
          (List.nodup_cons.mpr ⟨hfresh, nodup_taken p⟩)).mpr fun j => ?_
        simp only [mem_taken, List.mem_cons, Array.getElem?_setIfInBounds]
        by_cases hj : i = j
        · subst hj
          simp [hlt]
        · simp [hj, Ne.symm hj]
      exact ⟨by rw [Valid, hperm.length_eq, List.length_cons, ← hp],
        Array.size_setIfInBounds, hlt, hperm⟩
    · cases h
  · cases h

theorem free_eq_ok : (p.free i).result = .ok q ↔ p.used[i]? = some true ∧
    q = { p with used := p.used.setIfInBounds i false, count := p.count - 1 } := by
  simp only [free, bind_eq_ok, ensure_eq_ok, pure_eq_ok, exists_and_left, exists_const]
  exact and_congr_right fun _ => eq_comm

/-- A slot that comes straight back leaves a trace in the order of the search alone. -/
theorem alloc_free {r : SlotPool} (h : p.alloc = (some i, q)) (hr : (q.free i).result = .ok r) :
    r.used = p.used ∧ r.count = p.count := by
  obtain ⟨-, rfl⟩ := free_eq_ok.mp hr
  unfold alloc at h
  split at h
  · split at h
    · rename_i slot hslot
      cases h
      have hunused := firstUnused?_eq_some hslot
      obtain ⟨hlt, hfalse⟩ := Array.getElem?_eq_some_iff.mp hunused
      refine ⟨?_, Nat.add_sub_cancel _ _⟩
      apply Array.ext_getElem?
      intro j
      simp only [Array.getElem?_setIfInBounds, Array.size_setIfInBounds]
      by_cases hj : i = j
      · subst hj
        rw [if_pos rfl, if_pos hlt, hunused]
      · rw [if_neg hj, if_neg hj]
    · cases h
  · cases h

/-- A return frees one slot that was taken. -/
theorem Valid.free_perm (hp : p.Valid) (h : (p.free i).result = .ok q) :
    q.Valid ∧ q.capacity = p.capacity ∧ p.taken.Perm (i :: q.taken) := by
  obtain ⟨hused, rfl⟩ := free_eq_ok.mp h
  have hlt : i < p.used.size := (Array.getElem?_eq_some_iff.mp hused).1
  have hperm : p.taken.Perm
      (i :: taken { p with used := p.used.setIfInBounds i false, count := p.count - 1 }) := by
    refine (List.perm_ext_iff_of_nodup (nodup_taken p)
      (List.nodup_cons.mpr ⟨?_, nodup_taken _⟩)).mpr fun j => ?_
    · simp [mem_taken, hlt]
    · simp only [mem_taken, List.mem_cons, Array.getElem?_setIfInBounds]
      by_cases hj : i = j
      · subst hj
        simp [hused]
      · simp [hj, Ne.symm hj]
  refine ⟨?_, Array.size_setIfInBounds, hperm⟩
  have hlength := hperm.length_eq
  rw [← hp, List.length_cons] at hlength
  simp only [Valid]
  omega

end KernelThreads.SlotPool
