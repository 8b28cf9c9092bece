import KernelThreads.Diagnostics.Logged

/-!
A fixed number of slots handed out in rotation: each search starts behind the
slot that was handed out last.
-/
namespace KernelThreads

structure SlotPool where
  used : Array Bool
  next : Nat
  count : Nat
deriving DecidableEq, Repr

namespace SlotPool

def new (capacity : Nat) : SlotPool := ⟨Array.replicate capacity false, 0, 0⟩

def capacity (p : SlotPool) : Nat := p.used.size

/-- All slots, in the order in which the search visits them. -/
def rotation (p : SlotPool) : List Nat :=
  (List.range p.capacity).map fun i => (p.next + i) % p.capacity

def firstUnused? (p : SlotPool) : Option Nat := p.rotation.find? fun i => p.used[i]? = some false

def alloc (p : SlotPool) : Option Nat × SlotPool :=
  if p.count < p.capacity then
    match p.firstUnused? with
    | some slot =>
      (some slot, ⟨p.used.setIfInBounds slot true, (slot + 1) % p.capacity, p.count + 1⟩)
    | none => (none, p)
  else (none, p)

def free (p : SlotPool) (slot : Nat) : Logged SlotPool := do
  Logged.ensure (p.used[slot]? = some true) (.slotNotAllocated slot)
  return { p with used := p.used.setIfInBounds slot false, count := p.count - 1 }

end SlotPool

end KernelThreads
