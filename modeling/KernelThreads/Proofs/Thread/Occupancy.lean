import KernelThreads.Thread.Registry
import Mathlib.Data.Option.Basic
import Mathlib.Data.List.Perm.Basic

/-!
Who lives in the registry. A thread is named by the handle of the slot it lives
in; moving in and out changes the list of live threads by one; and a change that
keeps every thread in its place is told by a relation between old and new threads.
-/
namespace KernelThreads.Registry

open Logged (bind_eq_ok demand_eq_ok ensure_eq_ok pure_eq_ok)

variable {r s : Registry} {h : Handle} {t u : Thread}

/-- Every thread has the handle of its slot and of the slot's generation. -/
def Named (r : Registry) : Prop :=
  ∀ (i : Nat) (x : Slot) (t : Thread), r.slots[i]? = some x → x.thread = some t →
    t.id.slot.toNat = i ∧ t.id.generation = x.generation

theorem get?_eq_some : r.get? h = some t ↔
    ∃ x, r.slots[h.slot.toNat]? = some x ∧ x.generation = h.generation ∧ x.thread = some t := by
  simp [get?, Option.bind_eq_some_iff]

theorem Named.id_eq (hr : r.Named) (ht : r.get? h = some t) : t.id = h := by
  obtain ⟨x, hx, hgeneration, hthread⟩ := get?_eq_some.mp ht
  obtain ⟨hslot, hid⟩ := hr _ x t hx hthread
  exact Handle.ext (UInt32.toNat_inj.mp hslot) (hid.trans hgeneration)

theorem get?_set_live (ht : r.get? h = some t) (u : Thread) (g : Handle) :
    (r.set h u).get? g = if h = g then some u else r.get? g := by
  rw [get?_set, ht, Option.map_some]

theorem modify_modify (r : Registry) (h : Handle) (f g : Option Thread → Option Thread) :
    (r.modify h f).modify h g = r.modify h (g ∘ f) := by
  apply congrArg Registry.mk
  apply Array.ext_getElem?
  intro i
  simp only [modify, Array.getElem?_modify]
  by_cases hi : h.slot.toNat = i
  · simp only [if_pos hi, Option.map_map]
    congr 1
    funext s
    by_cases hs : s.generation = h.generation <;> simp [hs]
  · simp only [if_neg hi]

/-- The last thread that is put into a slot stays. -/
theorem set_set (r : Registry) (h : Handle) (t u : Thread) : (r.set h t).set h u = r.set h u := by
  rw [set, set, modify_modify]
  apply congrArg (r.modify h)
  funext o
  exact Option.map_map ..

/-- A change that leaves what is in the slot leaves the registry. -/
theorem modify_self {o : Option Thread} {f : Option Thread → Option Thread}
    (ho : r.slots[h.slot.toNat]? = some ⟨h.generation, o⟩) (hf : f o = o) : r.modify h f = r := by
  apply congrArg Registry.mk
  apply Array.ext_getElem?
  intro i
  rw [Array.getElem?_modify]
  split
  case isTrue hi => rw [← hi, ho, Option.map_some, if_pos rfl, hf]
  case isFalse => rfl

/-- To put a thread where it is changes nothing. -/
theorem set_self (ht : r.get? h = some t) : r.set h t = r := by
  obtain ⟨⟨_, _⟩, hx, rfl, rfl⟩ := get?_eq_some.mp ht
  exact modify_self hx rfl

theorem mem_threads :
    t ∈ r.threads ↔ ∃ (i : Nat) (x : Slot), r.slots[i]? = some x ∧ x.thread = some t := by
  unfold threads
  rw [List.mem_filterMap]
  constructor
  · rintro ⟨x, hx, ht⟩
    obtain ⟨i, hi⟩ := List.mem_iff_getElem?.mp hx
    exact ⟨i, x, by simpa using hi, ht⟩
  · rintro ⟨i, x, hx, ht⟩
    exact ⟨x, List.mem_iff_getElem?.mpr ⟨i, by simpa using hx⟩, ht⟩

/-- The live threads are those that their own handles find. -/
theorem Named.mem_threads (hr : r.Named) : t ∈ r.threads ↔ r.get? t.id = some t := by
  rw [Registry.mem_threads]
  constructor
  · rintro ⟨i, x, hx, ht⟩
    obtain ⟨hslot, hgeneration⟩ := hr i x t hx ht
    subst hslot
    exact get?_eq_some.mpr ⟨x, hx, hgeneration.symm, ht⟩
  · intro ht
    obtain ⟨x, hx, -, hthread⟩ := get?_eq_some.mp ht
    exact ⟨_, x, hx, hthread⟩

theorem named_new (capacity : Nat) : (new capacity).Named := by
  intro i x t hx ht
  simp only [new, Array.getElem?_replicate, Option.ite_none_right_eq_some, Option.some.injEq] at hx
  obtain ⟨-, rfl⟩ := hx
  cases ht

theorem threads_new (capacity : Nat) : (new capacity).threads = [] := by
  simp [new, threads]

/-- What one slot adds to the list of live threads depends on that slot alone. -/
theorem filterMap_set {α β : Type} (f : α → Option β) {l : List α} {i : Nat} {a : α}
    (ha : l[i]? = some a) (b : α) :
    ∃ l₁ l₂, l.filterMap f = l₁ ++ (f a).toList ++ l₂ ∧
      (l.set i b).filterMap f = l₁ ++ (f b).toList ++ l₂ := by
  induction l generalizing i with
  | nil => cases ha
  | cons x l ih =>
    cases i with
    | zero =>
      cases ha
      exact ⟨[], l.filterMap f, by cases h : f a <;> simp [h], by cases h : f b <;> simp [h]⟩
    | succ i =>
      obtain ⟨l₁, l₂, hbefore, hafter⟩ := ih (by simpa using ha)
      refine ⟨(f x).toList ++ l₁, l₂, ?_, ?_⟩
      · cases h : f x <;> simp [h, hbefore]
      · cases h : f x <;> simp [h, hafter]

theorem modify_eq_set {f : Option Thread → Option Thread} {o : Option Thread}
    (ho : r.slots[h.slot.toNat]? = some ⟨h.generation, o⟩) :
    (r.modify h f).slots.toList = r.slots.toList.set h.slot.toNat ⟨h.generation, f o⟩ := by
  apply List.ext_getElem?
  intro i
  simp only [modify, Array.getElem?_toList, Array.getElem?_modify, List.getElem?_set']
  by_cases hi : h.slot.toNat = i
  · subst hi
    simp [ho]
  · rw [if_neg hi, if_neg hi]

theorem threads_modify {f : Option Thread → Option Thread} {o : Option Thread}
    (ho : r.slots[h.slot.toNat]? = some ⟨h.generation, o⟩) :
    ∃ l₁ l₂, r.threads = l₁ ++ o.toList ++ l₂ ∧
      (r.modify h f).threads = l₁ ++ (f o).toList ++ l₂ := by
  obtain ⟨l₁, l₂, hbefore, hafter⟩ := filterMap_set (·.thread)
    (Array.getElem?_toList.trans ho) ⟨h.generation, f o⟩
  exact ⟨l₁, l₂, hbefore, by rw [threads, modify_eq_set ho, hafter]⟩

theorem insert_eq_ok : (r.insert t).result = .ok s ↔
    r.awaits t.id = true ∧ s = r.modify t.id fun _ => some t := by
  simp only [insert, bind_eq_ok, ensure_eq_ok, pure_eq_ok, exists_and_left, exists_const]
  exact and_congr_right fun _ => eq_comm

theorem get?_awaits (hh : r.awaits h = true) : r.get? h = none := by
  simp [get?, awaits_iff.mp hh]

/-- One thread moves in. -/
theorem threads_insert (hs : (r.insert t).result = .ok s) : s.threads.Perm (t :: r.threads) := by
  obtain ⟨hawaits, rfl⟩ := insert_eq_ok.mp hs
  obtain ⟨l₁, l₂, hbefore, hafter⟩ := threads_modify (f := fun _ => some t) (awaits_iff.mp hawaits)
  rw [hbefore, hafter]
  simp

/-- One thread moves out. -/
theorem threads_erase (ht : r.get? h = some t) : r.threads.Perm (t :: (r.erase h).threads) := by
  obtain ⟨⟨generation, thread⟩, hx, rfl, rfl⟩ := get?_eq_some.mp ht
  obtain ⟨l₁, l₂, hbefore, hafter⟩ := threads_modify (f := fun _ => none) hx
  rw [hbefore, erase, hafter]
  simp

theorem named_modify (hr : r.Named) {f : Option Thread → Option Thread}
    (hf : ∀ o u, f o = some u → u.id = h) : (r.modify h f).Named := by
  intro i x u hx hu
  simp only [modify, Array.getElem?_modify] at hx
  by_cases hi : h.slot.toNat = i
  · subst hi
    rw [if_pos rfl, Option.map_eq_some_iff] at hx
    obtain ⟨y, hy, rfl⟩ := hx
    by_cases hg : y.generation = h.generation
    · rw [if_pos hg] at hu ⊢
      have hid := hf _ _ hu
      subst hid
      exact ⟨rfl, hg.symm⟩
    · rw [if_neg hg] at hu ⊢
      exact hr _ y u hy hu
  · rw [if_neg hi] at hx
    exact hr i x u hx hu

theorem named_set (hr : r.Named) (ht : r.get? h = some t) (hid : u.id = t.id) :
    (r.set h u).Named := by
  apply named_modify hr
  intro o v hv
  obtain ⟨-, -, rfl⟩ := Option.map_eq_some_iff.mp hv
  rw [hid, hr.id_eq ht]

theorem named_insert (hr : r.Named) (hs : (r.insert t).result = .ok s) : s.Named := by
  obtain ⟨-, rfl⟩ := insert_eq_ok.mp hs
  apply named_modify hr
  intro o u hu
  cases hu
  rfl

theorem named_erase (hr : r.Named) (h : Handle) : (r.erase h).Named :=
  named_modify hr fun _ _ hu => nomatch hu

theorem issue_eq_ok {slot : Nat} : (r.issue slot).result = .ok (h, s) ↔
    ∃ x, r.slots[slot]? = some x ∧ x.thread = none ∧ h = ⟨slot.toUInt32, x.generation + 1⟩ ∧
      s = ⟨r.slots.setIfInBounds slot ⟨x.generation + 1, none⟩⟩ := by
  simp only [issue, bind_eq_ok, demand_eq_ok, ensure_eq_ok, pure_eq_ok, exists_and_left,
    exists_const, Prod.mk.injEq, Option.isNone_iff_eq_none]
  refine exists_congr fun x => and_congr_right fun _ => and_congr_right fun hx => ?_
  rw [hx, eq_comm, @eq_comm _ s]

theorem capacity_issue {slot : Nat} (hs : (r.issue slot).result = .ok (h, s)) :
    s.capacity = r.capacity := by
  obtain ⟨x, -, -, -, rfl⟩ := issue_eq_ok.mp hs
  exact Array.size_setIfInBounds

theorem capacity_modify (r : Registry) (h : Handle) (f : Option Thread → Option Thread) :
    (r.modify h f).capacity = r.capacity := Array.size_modify

theorem threads_issue {slot : Nat} (hs : (r.issue slot).result = .ok (h, s)) :
    s.threads = r.threads := by
  obtain ⟨x, hx, hfree, -, rfl⟩ := issue_eq_ok.mp hs
  obtain ⟨l₁, l₂, hbefore, hafter⟩ := filterMap_set (·.thread)
    (Array.getElem?_toList.trans hx) ⟨x.generation + 1, none⟩
  unfold threads
  rw [hbefore, Array.toList_setIfInBounds, hafter, hfree]

theorem named_issue {slot : Nat} (hr : r.Named) (hs : (r.issue slot).result = .ok (h, s)) :
    s.Named := by
  obtain ⟨x, hx, hfree, -, rfl⟩ := issue_eq_ok.mp hs
  intro i y t hy ht
  simp only [Array.getElem?_setIfInBounds] at hy
  split at hy
  · split at hy
    · cases hy
      cases ht
    · cases hy
  · exact hr i y t hy ht

/-- The handle that has been issued is the one that the slot awaits. -/
theorem awaits_issue {slot : Nat} (hs : (r.issue slot).result = .ok (h, s))
    (hcapacity : r.capacity ≤ UInt32.size) : h.slot.toNat = slot ∧ s.awaits h = true := by
  obtain ⟨x, hx, -, rfl, rfl⟩ := issue_eq_ok.mp hs
  have hlt : slot < r.slots.size := (Array.getElem?_eq_some_iff.mp hx).1
  have hslot : slot.toUInt32.toNat = slot := by
    rw [Nat.toUInt32, UInt32.toNat_ofNat']
    exact Nat.mod_eq_of_lt (Nat.lt_of_lt_of_le hlt hcapacity)
  refine ⟨hslot, awaits_iff.mpr ?_⟩
  simp only [hslot, Array.getElem?_setIfInBounds, if_pos hlt, if_true]

theorem awaits_issue_other {slot : Nat} {g : Handle} (hs : (r.issue slot).result = .ok (h, s))
    (hother : g.slot.toNat ≠ slot) (hg : r.awaits g = true) : s.awaits g = true := by
  obtain ⟨x, -, -, -, rfl⟩ := issue_eq_ok.mp hs
  rw [awaits_iff, Array.getElem?_setIfInBounds, if_neg hother.symm]
  exact awaits_iff.mp hg

theorem awaits_insert_other {g : Handle} (hs : (r.insert t).result = .ok s)
    (hother : g.slot.toNat ≠ t.id.slot.toNat) (hg : r.awaits g = true) : s.awaits g = true := by
  obtain ⟨-, rfl⟩ := insert_eq_ok.mp hs
  rw [awaits_iff, modify, Array.getElem?_modify, if_neg hother.symm]
  exact awaits_iff.mp hg

theorem awaits_erase {g : Handle} (hg : r.awaits g = true) : (r.erase h).awaits g = true := by
  rw [awaits_iff, erase, modify, Array.getElem?_modify, awaits_iff.mp hg]
  split
  · rw [Option.map_some]
    split
    · rfl
    · rfl
  · rfl

/-! Changes that leave every thread in its place. -/

/-- The slots of `r` and `s` have the same generations and occupants related by `R`. -/
def Related (R : Thread → Thread → Prop) (r s : Registry) : Prop :=
  ∀ i : Nat, Option.Rel (fun x y : Slot => x.generation = y.generation ∧
    Option.Rel R x.thread y.thread) r.slots[i]? s.slots[i]?

section Related
variable {R S : Thread → Thread → Prop}

theorem rel_refl {α : Type} {P : α → α → Prop} (hP : ∀ a, P a a) : ∀ o, Option.Rel P o o
  | none => .none
  | some a => .some (hP a)

theorem rel_cases {α : Type} {P : α → α → Prop} {a b : Option α} (h : Option.Rel P a b) :
    (a = none ∧ b = none) ∨ ∃ x y, a = some x ∧ b = some y ∧ P x y := by
  cases h with
  | some h => exact .inr ⟨_, _, rfl, rfl, h⟩
  | none => exact .inl ⟨rfl, rfl⟩

theorem Related.refl (hR : ∀ t, R t t) (r : Registry) : r.Related R r := fun _ =>
  rel_refl (fun _ => ⟨rfl, rel_refl hR _⟩) _

theorem Related.trans {q : Registry} (hR : ∀ t u v, R t u → R u v → R t v) (hqr : q.Related R r)
    (hrs : r.Related R s) : q.Related R s := by
  intro i
  rcases rel_cases (hqr i) with ⟨hq, hr⟩ | ⟨x, y, hq, hr, hgeneration, hxy⟩
  · have := hrs i
    rwa [hr, ← hq] at this
  · have hi := hrs i
    rw [hr] at hi
    rw [hq]
    rcases rel_cases hi with ⟨hy, -⟩ | ⟨y', z, hy, hz, hgeneration', hyz⟩
    · cases hy
    · cases hy
      rw [hz]
      refine .some ⟨hgeneration.trans hgeneration', ?_⟩
      rcases rel_cases hxy with ⟨hx, hy⟩ | ⟨t, u, hx, hy, htu⟩
      · rwa [hx, ← hy]
      · rw [hy] at hyz
        rw [hx]
        rcases rel_cases hyz with ⟨hu, -⟩ | ⟨u', v, hu, hv, huv⟩
        · cases hu
        · cases hu
          rw [hv]
          exact .some (hR _ _ _ htu huv)

theorem Related.mono (hrs : r.Related R s) (hRS : ∀ t u, R t u → S t u) : r.Related S s := by
  intro i
  rcases rel_cases (hrs i) with ⟨hr, hs⟩ | ⟨x, y, hr, hs, hgeneration, hxy⟩
  · rw [hr, hs]
    exact .none
  · rw [hr, hs]
    refine .some ⟨hgeneration, ?_⟩
    rcases rel_cases hxy with ⟨hx, hy⟩ | ⟨t, u, hx, hy, htu⟩
    · rw [hx, hy]
      exact .none
    · rw [hx, hy]
      exact .some (hRS t u htu)

theorem related_set (hR : ∀ t, R t t) (ht : r.get? h = some t) (hu : R t u) :
    r.Related R (r.set h u) := by
  obtain ⟨x, hx, hgeneration, hthread⟩ := get?_eq_some.mp ht
  intro i
  simp only [set, modify, Array.getElem?_modify]
  by_cases hi : h.slot.toNat = i
  · subst hi
    rw [if_pos rfl, hx, Option.map_some, if_pos hgeneration, hthread]
    refine .some ⟨rfl, ?_⟩
    rw [hthread]
    exact .some hu
  · rw [if_neg hi]
    exact rel_refl (fun _ => ⟨rfl, rel_refl hR _⟩) _

theorem Related.get? (hrs : r.Related R s) (h : Handle) : Option.Rel R (r.get? h) (s.get? h) := by
  unfold Registry.get?
  rcases rel_cases (hrs h.slot.toNat) with ⟨hr, hs⟩ | ⟨x, y, hr, hs, hgeneration, hxy⟩
  · rw [hr, hs]
    exact .none
  · rw [hr, hs, Option.bind_some, Option.bind_some, hgeneration]
    split
    · exact hxy
    · exact .none

theorem Related.awaits (hrs : r.Related R s) (hh : r.awaits h = true) : s.awaits h = true := by
  rw [awaits_iff] at hh ⊢
  rcases rel_cases (hrs h.slot.toNat) with ⟨hr, -⟩ | ⟨x, ⟨generation, thread⟩, hr, hs, hsame, hxy⟩
  · cases hr.symm.trans hh
  · cases hr.symm.trans hh
    rcases rel_cases hxy with ⟨-, rfl⟩ | ⟨t, u, ht, -⟩
    · cases hsame
      exact hs
    · cases ht

theorem Related.capacity_eq (hrs : r.Related R s) : s.capacity = r.capacity := by
  have hnone (i : Nat) : r.slots.size ≤ i ↔ s.slots.size ≤ i := by
    rw [← Array.getElem?_eq_none_iff, ← Array.getElem?_eq_none_iff]
    rcases rel_cases (hrs i) with ⟨hr, hs⟩ | ⟨x, y, hr, hs, -⟩
    · simp [hr, hs]
    · simp [hr, hs]
  have hle := (hnone r.slots.size).mp (Nat.le_refl _)
  have hge := (hnone s.slots.size).mpr (Nat.le_refl _)
  exact Nat.le_antisymm hle hge

theorem Related.named (hrs : r.Related R s) (hid : ∀ t u, R t u → t.id = u.id) (hr : r.Named) :
    s.Named := by
  intro i y u hy hu
  rcases rel_cases (hrs i) with ⟨-, hs⟩ | ⟨x, y', hx, hs, hgeneration, hxy⟩
  · cases hs.symm.trans hy
  · cases hs.symm.trans hy
    rcases rel_cases hxy with ⟨-, hnone⟩ | ⟨t, u', ht, hu', htu⟩
    · cases hnone.symm.trans hu
    · cases hu'.symm.trans hu
      rw [← hid t u htu, ← hgeneration]
      exact hr i x t hx ht

/-- What related threads have in common, the lists of live threads have in common. -/
theorem Related.map_eq {α : Type} {f : Thread → α} (hrs : r.Related R s)
    (hf : ∀ t u, R t u → f t = f u) : s.threads.map f = r.threads.map f := by
  have hslots : s.slots.toList.map (fun y => y.thread.map f) =
      r.slots.toList.map fun x => x.thread.map f := by
    apply List.ext_getElem?
    intro i
    rw [List.getElem?_map, List.getElem?_map, Array.getElem?_toList, Array.getElem?_toList]
    rcases rel_cases (hrs i) with ⟨hr, hs⟩ | ⟨x, y, hr, hs, -, hxy⟩
    · rw [hr, hs]
    · rw [hr, hs]
      rcases rel_cases hxy with ⟨hx, hy⟩ | ⟨t, u, hx, hy, htu⟩
      · simp [hx, hy]
      · simp [hx, hy, hf t u htu]
  have hmap (q : Registry) : q.threads.map f =
      (q.slots.toList.map fun x => x.thread.map f).filterMap id := by
    simp only [threads, List.map_filterMap, List.filterMap_map]
    rfl
  rw [hmap, hmap, hslots]

end Related

end KernelThreads.Registry
