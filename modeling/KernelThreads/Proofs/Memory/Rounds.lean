import KernelThreads.Proofs.Memory.Rotation
import KernelThreads.Proofs.Sessions
import Mathlib.Data.Nat.ModEq

/-!
The order in which a slot pool hands out its slots. Each search goes on where the last one
ended, so the searches together go round the pool: before a slot goes out again, all the others
have gone out or have been found in use.
-/
namespace KernelThreads.SlotPool

open Logged (bind_eq_ok foldlM_cons_eq_ok pure_eq_ok)

variable {p q : SlotPool} {i slot d : Nat}

/-- The slot `d` places behind `start` is unused and those before it, from `start` on, are used;
the last slot is followed by the first. -/
structure FirstUnused (p : SlotPool) (start d : Nat) : Prop where
  lt : d < p.capacity
  unused : p.used[(start + d) % p.capacity]? = some false
  passed : ∀ j < d, p.used[(start + j) % p.capacity]? = some true

theorem FirstUnused.congr {start start' : Nat} (h : p.FirstUnused start d)
    (hstart : start % p.capacity = start' % p.capacity) : p.FirstUnused start' d := by
  have hsame (j : Nat) : (start' + j) % p.capacity = (start + j) % p.capacity := by
    rw [← Nat.mod_add_mod, ← hstart, Nat.mod_add_mod]
  exact ⟨h.lt, by rw [hsame, h.unused], fun j hj => by rw [hsame, h.passed j hj]⟩

theorem firstUnused_of_find (h : p.firstUnused? = some slot) :
    ∃ d, p.FirstUnused p.next d ∧ slot = (p.next + d) % p.capacity := by
  obtain ⟨hunused, d, hd, hslot, hpassed⟩ := List.find?_eq_some_iff_getElem.mp h
  have hlt : d < p.capacity := by simpa [rotation] using hd
  have hat (j : Nat) (hj : j < p.rotation.length) : p.rotation[j] = (p.next + j) % p.capacity := by
    simp [rotation]
  rw [hat d hd] at hslot
  refine ⟨d, ⟨hlt, by simpa [hslot] using hunused, fun j hj => ?_⟩, hslot.symm⟩
  have hused := hpassed j hj
  rw [hat j (by omega)] at hused
  have hsize : (p.next + j) % p.capacity < p.used.size := Nat.mod_lt _ (Nat.zero_lt_of_lt hlt)
  rw [Array.getElem?_eq_getElem hsize] at hused ⊢
  simpa using hused

/-- A hand-out takes the first unused slot from the place where the search starts, and the next
search starts behind it. -/
theorem alloc_eq_some (h : p.alloc.1 = some slot) : ∃ d, p.FirstUnused p.next d ∧
    slot = (p.next + d) % p.capacity ∧
      p.alloc.2 = ⟨p.used.setIfInBounds slot true, (slot + 1) % p.capacity, p.count + 1⟩ := by
  unfold alloc at h ⊢
  split
  · rename_i hroom
    rw [if_pos hroom] at h
    cases hfind : p.firstUnused? with
    | none => simp [hfind] at h
    | some found =>
      simp only [hfind, Option.some.injEq] at h
      subst h
      obtain ⟨d, hfirst, hslot⟩ := firstUnused_of_find hfind
      exact ⟨d, hfirst, hslot, rfl⟩
  · rename_i hfull
    simp [if_neg hfull] at h

theorem alloc_kept (h : p.alloc.1 = none) : p.alloc.2 = p := alloc_none (Prod.ext h rfl)

theorem used_write {used : Array Bool} {v : Bool} (h : slot < used.size) (i : Nat) :
    (used.setIfInBounds slot v)[i]? = if i = slot then some v else used[i]? := by
  rw [Array.getElem?_setIfInBounds]
  by_cases hi : slot = i
  · subst hi
    rw [if_pos rfl, if_pos h, if_pos rfl]
  · rw [if_neg hi, if_neg (Ne.symm hi)]

theorem Valid.full_iff (hp : p.Valid) :
    p.count = p.capacity ↔ ∀ i < p.capacity, p.used[i]? = some true := by
  have hall : p.taken.length = (List.range p.capacity).length ↔
      ∀ i ∈ List.range p.capacity, p.used[i]? = some true := by
    simpa only [taken, decide_eq_true_eq] using List.length_filter_eq_length_iff
      (l := List.range p.capacity) (p := fun i => decide (p.used[i]? = some true))
  simpa only [hp.symm, List.length_range, List.mem_range] using hall

/-- A slot is refused only where all are used. -/
theorem Valid.alloc_none_iff (hp : p.Valid) :
    p.alloc.1 = none ↔ ∀ i < p.capacity, p.used[i]? = some true := by
  rw [← hp.full_iff, ← hp.alloc_eq_none]
  exact ⟨fun h => Prod.ext h (alloc_kept h), fun h => congrArg Prod.fst h⟩

theorem free_fails_iff : (∃ fault, (p.free i).result = .error fault) ↔
    p.capacity ≤ i ∨ p.used[i]? = some false := by
  have hfree : (∃ fault, (p.free i).result = .error fault) ↔ p.used[i]? ≠ some true := by
    by_cases hused : p.used[i]? = some true <;> simp [free, hused, Except.bind]
  rw [hfree]
  by_cases hlt : i < p.used.size
  · have hin : ¬ p.capacity ≤ i := Nat.not_le.mpr hlt
    simp [Array.getElem?_eq_getElem hlt, hin]
  · have hout : p.capacity ≤ i := Nat.not_lt.mp hlt
    simp [hlt, hout]

/-- The search of the next hand-out comes to slot `i`: it passes it, for it is in use, or gives
it away. -/
def Visits (p : SlotPool) (i : Nat) : Prop :=
  ∃ d, p.FirstUnused p.next d ∧ p.alloc.1 = some ((p.next + d) % p.capacity) ∧
    ∃ j ≤ d, i = (p.next + j) % p.capacity

/-- What is asked of a pool. -/
inductive Request where
  | alloc
  | free (slot : Nat)

/-- A pool and the slots that it has handed out, in their order. -/
structure Journal where
  pool : SlotPool
  given : List Nat := []

namespace Journal
variable {j k : Journal} {r : Request} {rs : List Request} {capacity : Nat}

def answer (j : Journal) : Request → Logged Journal
  | .alloc => return ⟨j.pool.alloc.2, j.given ++ j.pool.alloc.1.toList⟩
  | .free slot => do return ⟨← j.pool.free slot, j.given⟩

/-- Behind the slot that was handed out last; in the beginning the first slot. -/
def start (j : Journal) : Nat := (j.given.getLast?.map (· + 1)).getD 0

/-- Some search, while the requests `rs` are answered, comes to slot `i`. -/
def Visited (j : Journal) (rs : List Request) (i : Nat) : Prop :=
  ∃ earlier later k, rs = earlier ++ .alloc :: later ∧
    (earlier.foldlM answer j).result = .ok k ∧ k.pool.Visits i

theorem answer_alloc_eq_ok : (j.answer .alloc).result = .ok k ↔
    k = ⟨j.pool.alloc.2, j.given ++ j.pool.alloc.1.toList⟩ := by
  simp only [answer, pure_eq_ok]
  exact eq_comm

theorem answer_free_eq_ok : (j.answer (.free slot)).result = .ok k ↔
    ∃ p, (j.pool.free slot).result = .ok p ∧ k = ⟨p, j.given⟩ := by
  simp only [answer, bind_eq_ok, pure_eq_ok]
  exact exists_congr fun _ => and_congr_right fun _ => eq_comm

/-- The pool keeps its books, and its search starts behind the last slot handed out. -/
structure Kept (capacity : Nat) (j : Journal) : Prop where
  valid : j.pool.Valid
  capacity_eq : j.pool.capacity = capacity
  next_eq : j.pool.next = j.start % capacity

theorem Kept.step (hj : j.Kept capacity) (hk : (j.answer r).result = .ok k) :
    k.Kept capacity := by
  cases r with
  | alloc =>
    obtain rfl := answer_alloc_eq_ok.mp hk
    cases halloc : j.pool.alloc.1 with
    | none =>
      rw [alloc_kept halloc, Option.toList_none, List.append_nil]
      exact hj
    | some slot =>
      obtain ⟨hvalid, hcapacity, -⟩ := hj.valid.alloc_some (Prod.ext halloc rfl)
      refine ⟨hvalid, hcapacity.trans hj.capacity_eq, ?_⟩
      obtain ⟨d, -, -, hq⟩ := alloc_eq_some halloc
      simp [hq, start, hj.capacity_eq]
  | free slot =>
    obtain ⟨p, hp, rfl⟩ := answer_free_eq_ok.mp hk
    obtain ⟨hvalid, hcapacity, -⟩ := hj.valid.free_perm hp
    refine ⟨hvalid, hcapacity.trans hj.capacity_eq, ?_⟩
    obtain ⟨-, rfl⟩ := free_eq_ok.mp hp
    exact hj.next_eq

theorem Kept.run (hj : j.Kept capacity) (hrun : (rs.foldlM answer j).result = .ok k) :
    k.Kept capacity :=
  Logged.foldlM_invariant hrun hj fun _ _ _ hs hstep => hs.step hstep

theorem kept_new (capacity : Nat) : Kept capacity ⟨new capacity, []⟩ :=
  ⟨valid_new capacity, Array.size_replicate, (Nat.zero_mod capacity).symm⟩

theorem Visited.cons (hj : (j.answer r).result = .ok k) (h : k.Visited rs i) :
    j.Visited (r :: rs) i := by
  obtain ⟨earlier, later, l, rfl, hearlier, hvisits⟩ := h
  exact ⟨r :: earlier, later, l, rfl, foldlM_cons_eq_ok.mpr ⟨k, hj, hearlier⟩, hvisits⟩

/-- The searches of a session visit one slot after the other, from where the first of them starts
to where the next one will, and each hand-out takes them on. -/
theorem Kept.progress (hj : j.Kept capacity) (hrun : (rs.foldlM answer j).result = .ok k) :
    ∃ n more, k.pool.next = (j.pool.next + n) % capacity ∧ k.given = j.given ++ more ∧
      more.length ≤ n ∧ ∀ m < n, j.Visited rs ((j.pool.next + m) % capacity) := by
  induction rs generalizing j with
  | nil =>
    cases hrun
    refine ⟨0, [], ?_, (List.append_nil _).symm, Nat.le_refl 0,
      fun m hm => absurd hm (Nat.not_lt_zero m)⟩
    rw [Nat.add_zero, hj.next_eq, Nat.mod_mod]
  | cons r rs ih =>
    obtain ⟨l, hfirst, hrest⟩ := foldlM_cons_eq_ok.mp hrun
    obtain ⟨n, more, hnext, hgiven, hmore, hvisited⟩ := ih (hj.step hfirst) hrest
    have hstill (hpool : l.pool.next = j.pool.next) (hsame : l.given = j.given) :
        ∃ n more, k.pool.next = (j.pool.next + n) % capacity ∧ k.given = j.given ++ more ∧
          more.length ≤ n ∧ ∀ m < n, j.Visited (r :: rs) ((j.pool.next + m) % capacity) :=
      ⟨n, more, hpool ▸ hnext, hsame ▸ hgiven, hmore,
        fun m hm => hpool ▸ (hvisited m hm).cons hfirst⟩
    cases r with
    | free slot =>
      obtain ⟨p, hp, rfl⟩ := answer_free_eq_ok.mp hfirst
      obtain ⟨-, rfl⟩ := free_eq_ok.mp hp
      exact hstill rfl rfl
    | alloc =>
      have hl := answer_alloc_eq_ok.mp hfirst
      cases halloc : j.pool.alloc.1 with
      | none =>
        rw [halloc, alloc_kept halloc] at hl
        exact hstill (by rw [hl]) (by rw [hl]; exact List.append_nil _)
      | some slot =>
        obtain ⟨d, hunused, hslot, hq⟩ := alloc_eq_some halloc
        have hgoes : l.pool.next = (j.pool.next + (d + 1)) % capacity := by
          rw [hl, hq]
          simp only
          rw [hslot, hj.capacity_eq, Nat.mod_add_mod, Nat.add_assoc]
        have hahead (m : Nat) :
            (l.pool.next + m) % capacity = (j.pool.next + (d + 1 + m)) % capacity := by
          rw [hgoes, Nat.mod_add_mod, Nat.add_assoc]
        refine ⟨d + 1 + n, slot :: more, hnext.trans (hahead n), ?_, ?_, fun m hm => ?_⟩
        · rw [hgiven, hl, halloc]
          exact List.append_assoc ..
        · rw [List.length_cons]
          omega
        by_cases hm' : m ≤ d
        · refine ⟨[], rs, j, rfl, rfl, d, hunused, halloc.trans (congrArg some hslot), m, hm', ?_⟩
          rw [hj.capacity_eq]
        · have hlater := hvisited (m - (d + 1)) (by omega)
          rw [hahead, Nat.add_sub_cancel' (by omega)] at hlater
          exact hlater.cons hfirst

/-- Between two hand-outs of one slot the searches visit every slot of the pool. -/
theorem Kept.round (hj : j.Kept capacity) (hfirst : j.pool.alloc.1 = some slot)
    (hrun : (rs.foldlM Journal.answer ⟨j.pool.alloc.2, j.given ++ [slot]⟩).result = .ok k)
    (hlast : k.pool.alloc.1 = some slot) (hi : i < capacity) :
    Visited ⟨j.pool.alloc.2, j.given ++ [slot]⟩ (rs ++ [.alloc]) i := by
  have hstart : (j.answer .alloc).result = .ok ⟨j.pool.alloc.2, j.given ++ [slot]⟩ :=
    answer_alloc_eq_ok.mpr (by rw [hfirst]; rfl)
  have hend : (k.answer .alloc).result = .ok ⟨k.pool.alloc.2, k.given ++ [slot]⟩ :=
    answer_alloc_eq_ok.mpr (by rw [hlast]; rfl)
  have hlater : (List.foldlM Journal.answer k [.alloc]).result =
      .ok ⟨k.pool.alloc.2, k.given ++ [slot]⟩ := foldlM_cons_eq_ok.mpr ⟨_, hend, rfl⟩
  have hsession := Logged.foldlM_append_eq_ok.mpr ⟨k, hrun, hlater⟩
  have hj₁ := hj.step hstart
  obtain ⟨n, more, hnext, hgiven, hmore, hvisited⟩ := hj₁.progress hsession
  -- the searches have moved, for there was a hand-out
  have hpos : 0 < n := by
    obtain ⟨-, earlier, -, hearlier, -⟩ := hj₁.progress hrun
    simp only [hearlier, List.append_assoc, List.append_cancel_left_eq] at hgiven
    rw [← hgiven, List.length_append, List.length_singleton] at hmore
    omega
  -- and they end where they have begun, behind `slot`
  have hround : capacity ≤ n := by
    obtain ⟨-, -, -, hafter⟩ := alloc_eq_some hfirst
    obtain ⟨-, -, -, hagain⟩ := alloc_eq_some hlast
    have hk := hj₁.run hrun
    simp only [hafter, hagain, hj.capacity_eq, hk.capacity_eq] at hnext
    have hback : (slot + 1) % capacity + 0 ≡ (slot + 1) % capacity + n [MOD capacity] := by
      rw [Nat.ModEq, ← hnext, Nat.add_zero, Nat.mod_mod]
    exact Nat.le_of_dvd hpos ((Nat.modEq_zero_iff_dvd).mp (Nat.ModEq.add_left_cancel' _ hback).symm)
  have hplace : i ∈ rotation j.pool.alloc.2 := mem_rotation.mpr (hj₁.capacity_eq ▸ hi)
  obtain ⟨m, hm, rfl⟩ := List.mem_map.mp hplace
  rw [List.mem_range] at hm
  rw [hj₁.capacity_eq] at hm ⊢
  exact hvisited m (Nat.lt_of_lt_of_le hm hround)

/-- After any requests that were not fatal, the pool counts its used slots; it refuses a slot only
if all are used, and otherwise gives the first unused one behind the last that it gave, and
changes no other; it takes back exactly what is used; and if it gives a slot again, then since it
gave it last its searches have come to every slot. -/
theorem goes_round {requests : List Request}
    (hrun : (requests.foldlM answer ⟨new capacity, []⟩).result = .ok j) :
    j.pool.capacity = capacity ∧
    j.pool.count = ((List.range capacity).filter fun i => j.pool.used[i]? = some true).length ∧
    j.pool.count ≤ capacity ∧
    (j.pool.alloc.1 = none ↔ ∀ i < capacity, j.pool.used[i]? = some true) ∧
    (∀ slot, j.pool.alloc.1 = some slot →
      (∃ d, j.pool.FirstUnused j.start d ∧ slot = (j.start + d) % capacity) ∧
        ∀ i, j.pool.alloc.2.used[i]? = if i = slot then some true else j.pool.used[i]?) ∧
    (∀ slot,
      ((∃ fault, (j.pool.free slot).result = .error fault) ↔
        capacity ≤ slot ∨ j.pool.used[slot]? = some false) ∧
      ∀ p, (j.pool.free slot).result = .ok p →
        ∀ i, p.used[i]? = if i = slot then some false else j.pool.used[i]?) ∧
    ∀ before between slot k, requests = before ++ .alloc :: between →
      (before.foldlM answer ⟨new capacity, []⟩).result = .ok k → k.pool.alloc.1 = some slot →
      j.pool.alloc.1 = some slot → ∀ i < capacity,
        Visited ⟨k.pool.alloc.2, k.given ++ [slot]⟩ (between ++ [.alloc]) i := by
  have hj := (kept_new capacity).run hrun
  refine ⟨hj.capacity_eq, ?_, hj.capacity_eq ▸ hj.valid.count_le,
    hj.capacity_eq ▸ hj.valid.alloc_none_iff, fun slot hslot => ?_,
    fun slot => ⟨hj.capacity_eq ▸ free_fails_iff, fun p hp i => ?_⟩, ?_⟩
  · rw [hj.valid, taken, hj.capacity_eq]
  · obtain ⟨d, hunused, hplace, hq⟩ := alloc_eq_some hslot
    refine ⟨⟨d, hunused.congr ?_, ?_⟩, fun i => ?_⟩
    · rw [hj.capacity_eq, hj.next_eq, Nat.mod_mod]
    · rw [hplace, hj.capacity_eq, hj.next_eq, Nat.mod_add_mod]
    · have hin : slot < j.pool.used.size := by
        have hused := hunused.unused
        rw [← hplace] at hused
        exact (Array.getElem?_eq_some_iff.mp hused).1
      rw [hq, used_write hin]
  · obtain ⟨hused, rfl⟩ := free_eq_ok.mp hp
    exact used_write (Array.getElem?_eq_some_iff.mp hused).1 i
  · rintro before between slot k rfl hbefore hfirst hlast i hi
    have hk := (kept_new capacity).run hbefore
    have hrest := hrun
    rw [Logged.foldlM_append_eq_ok] at hrest
    obtain ⟨k', hk', hrest⟩ := hrest
    cases hbefore.symm.trans hk'
    obtain ⟨l, hl, hrest⟩ := foldlM_cons_eq_ok.mp hrest
    obtain rfl := answer_alloc_eq_ok.mp hl
    rw [hfirst] at hrest
    exact hk.round hfirst hrest hlast hi

/-- Slot 0 goes out, comes back, and goes out again only behind all the others. -/
theorem goes_round_small : ∃ j k,
    (List.foldlM answer ⟨new 3, []⟩ [.alloc, .free 0, .alloc, .alloc, .free 1]).result = .ok j ∧
    (answer ⟨new 3, []⟩ .alloc).result = .ok k ∧
    k.given = [0] ∧ j.given = [0, 1, 2] ∧ j.pool.alloc.1 = some 0 ∧ j.pool.count = 1 ∧
    k.Visited [.free 0, .alloc, .alloc, .free 1, .alloc] 1 := by
  obtain ⟨j, hrun, hj⟩ := observe_ok (fun j => (j.given, j.pool.alloc.1, j.pool.count))
    (x := (List.foldlM answer ⟨new 3, []⟩ [.alloc, .free 0, .alloc, .alloc, .free 1]).result)
    (b := ([0, 1, 2], some 0, 1)) (by decide +kernel)
  simp only [Prod.mk.injEq] at hj
  obtain ⟨hgiven, hnext, hcount⟩ := hj
  obtain ⟨-, -, -, -, -, -, hround⟩ := goes_round hrun
  have hvisited := hround [] [.free 0, .alloc, .alloc, .free 1] 0 ⟨new 3, []⟩ rfl rfl
    (by decide +kernel) hnext 1 (by decide)
  exact ⟨j, ⟨(new 3).alloc.2, [0]⟩, hrun, by rfl, rfl, hgiven, hnext, hcount, hvisited⟩

end Journal

end KernelThreads.SlotPool
