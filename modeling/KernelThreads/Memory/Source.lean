import KernelThreads.Memory.Arena
import KernelThreads.Memory.SlotPool

/-!
What the kernel asks of its page and slot allocators. Nothing is assumed about
their answers; an allocation that fails may still change its allocator.
-/
namespace KernelThreads

class PageSource (P : Type) where
  alloc : P → Nat → Logged (Option VirtAddr × P)
  free : P → VirtAddr → Nat → Logged P

class SlotSource (O : Type) where
  alloc : O → Logged (Option Nat × O)
  free : O → Nat → Logged O
  capacity : O → Nat

instance : PageSource Arena := ⟨Arena.alloc, Arena.free⟩

instance : SlotSource SlotPool := ⟨fun p => pure p.alloc, SlotPool.free, SlotPool.capacity⟩

end KernelThreads
