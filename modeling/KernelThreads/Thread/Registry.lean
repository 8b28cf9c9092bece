import KernelThreads.Thread.Basic

/-!
The live threads, one to a slot. Each new occupant of a slot raises the slot's
generation, so the handle of an earlier occupant finds nothing. `get?` is the
view through which all else is read.
-/
namespace KernelThreads

open Logged (bind_eq_ok demand demand_eq_ok ensure ensure_eq_ok pure_eq_ok)

structure Slot where
  generation : UInt32 := 0
  thread : Option Thread := none
deriving DecidableEq

structure Registry where
  slots : Array Slot
deriving DecidableEq

namespace Registry

def new (capacity : Nat) : Registry := ⟨Array.replicate capacity {}⟩

def capacity (r : Registry) : Nat := r.slots.size

def get? (r : Registry) (h : Handle) : Option Thread :=
  r.slots[h.slot.toNat]?.bind fun s => if s.generation = h.generation then s.thread else none

def contains (r : Registry) (h : Handle) : Bool := (r.get? h).isSome

/-- The live threads in the order of their slots. -/
def threads (r : Registry) : List Thread := r.slots.toList.filterMap (·.thread)

def size (r : Registry) : Nat := r.threads.length

/-- Issues the handle of the slot's next occupant. -/
def issue (r : Registry) (slot : Nat) : Logged (Handle × Registry) := do
  let s ← demand r.slots[slot]? (.slotBeyondCapacity slot r.capacity)
  ensure s.thread.isNone (.slotOccupied slot)
  let generation := s.generation + 1
  return (⟨slot.toUInt32, generation⟩, ⟨r.slots.setIfInBounds slot { s with generation }⟩)

/-- The handle has been issued, and its thread has not yet moved in. -/
def awaits (r : Registry) (h : Handle) : Bool :=
  r.slots[h.slot.toNat]?.any fun s => s.generation = h.generation && s.thread.isNone

/-- Changes what is in the slot that `h` names, if it is the generation of `h`. -/
def modify (r : Registry) (h : Handle) (f : Option Thread → Option Thread) : Registry :=
  ⟨r.slots.modify h.slot.toNat fun s =>
    if s.generation = h.generation then { s with thread := f s.thread } else s⟩

def insert (r : Registry) (t : Thread) : Logged Registry := do
  ensure (r.awaits t.id) (.slotReissued t.id)
  return r.modify t.id fun _ => some t

/-- Replaces the live thread that `h` names. -/
def set (r : Registry) (h : Handle) (t : Thread) : Registry := r.modify h fun o => o.map fun _ => t

def erase (r : Registry) (h : Handle) : Registry := r.modify h fun _ => none

/-- A change inside one slot is seen through its own handle only. -/
theorem get?_modify (r : Registry) (h h' : Handle) (f : Option Thread → Option Thread)
    (hf : f none = none) :
    (r.modify h f).get? h' = if h = h' then f (r.get? h) else r.get? h' := by
  simp only [get?, modify, Array.getElem?_modify]
  by_cases hs : h.slot = h'.slot
  · rw [if_pos (congrArg UInt32.toNat hs), ← hs]
    cases hslot : r.slots[h.slot.toNat]? with
    | none => simp [hf]
    | some s =>
      by_cases hg : s.generation = h.generation
      · by_cases he : h = h'
        · subst he
          simp [hg]
        · have hne : h.generation ≠ h'.generation := fun e => he (Handle.ext hs e)
          simp [hg, he, hne]
      · by_cases he : h = h'
        · subst he
          simp [hg, hf]
        · simp [hg, he]
  · have hne : h ≠ h' := fun e => hs (e ▸ rfl)
    rw [if_neg (fun e => hs (UInt32.toNat_inj.1 e)), if_neg hne]

theorem get?_set (r : Registry) (h h' : Handle) (t : Thread) :
    (r.set h t).get? h' = if h = h' then (r.get? h).map fun _ => t else r.get? h' :=
  get?_modify r h h' _ rfl

theorem get?_erase (r : Registry) (h h' : Handle) :
    (r.erase h).get? h' = if h = h' then none else r.get? h' :=
  get?_modify r h h' _ rfl

theorem get?_new (capacity : Nat) (h : Handle) : (new capacity).get? h = none := by
  simp only [get?, new, Array.getElem?_replicate]
  split <;> simp

theorem awaits_iff {r : Registry} {h : Handle} : r.awaits h = true ↔
    r.slots[h.slot.toNat]? = some ⟨h.generation, none⟩ := by
  unfold awaits
  cases r.slots[h.slot.toNat]? with
  | none => simp
  | some s =>
    cases s with
    | mk generation thread => cases thread <;> simp

theorem get?_insert {r s : Registry} {t : Thread} (ht : (r.insert t).result = .ok s)
    (h : Handle) : s.get? h = if t.id = h then some t else r.get? h := by
  simp only [insert, bind_eq_ok, ensure_eq_ok, pure_eq_ok, exists_and_left, exists_const] at ht
  obtain ⟨hawaits, rfl⟩ := ht
  rw [awaits_iff] at hawaits
  simp only [get?, modify, Array.getElem?_modify]
  by_cases hs : t.id.slot = h.slot
  · rw [if_pos (congrArg UInt32.toNat hs), ← hs, hawaits]
    by_cases he : t.id = h
    · subst he
      simp
    · have hne : t.id.generation ≠ h.generation := fun e => he (Handle.ext hs e)
      simp [he, hne]
  · have hne : t.id ≠ h := fun e => hs (e ▸ rfl)
    rw [if_neg (fun e => hs (UInt32.toNat_inj.1 e)), if_neg hne]

/-- Nobody moves in when a handle is issued. -/
theorem get?_issue {r s : Registry} {slot : Nat} {h : Handle}
    (hr : (r.issue slot).result = .ok (h, s)) (h' : Handle) : s.get? h' = r.get? h' := by
  simp only [issue, bind_eq_ok, demand_eq_ok, ensure_eq_ok, pure_eq_ok, exists_and_left,
    exists_const, Prod.mk.injEq] at hr
  obtain ⟨old, hold, hfree, -, rfl⟩ := hr
  rw [Option.isNone_iff_eq_none] at hfree
  simp only [get?, Array.getElem?_setIfInBounds]
  by_cases hs : slot = h'.slot.toNat
  · subst hs
    rw [hold]
    have hlt := (Array.getElem?_eq_some_iff.1 hold).1
    simp [hlt, hfree]
  · rw [if_neg hs]

end Registry

end KernelThreads
