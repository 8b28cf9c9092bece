import KernelThreads.Memory.Source

/-!
Allocators that answer from a script, whatever they are asked for, and keep a
record of what is given back. A spent script answers that nothing is left.
-/
namespace KernelThreads

structure ScriptedPages where
  script : List (Option VirtAddr)
  calls : Nat := 0
  freed : List (VirtAddr × Nat) := []
deriving DecidableEq

instance : PageSource ScriptedPages where
  alloc p _ := pure (p.script.head?.join, { p with script := p.script.tail, calls := p.calls + 1 })
  free p addr count := pure { p with freed := p.freed ++ [(addr, count)] }

structure ScriptedSlots where
  capacity : Nat
  script : List (Option Nat)
  calls : Nat := 0
  freed : List Nat := []
deriving DecidableEq, Repr

instance : SlotSource ScriptedSlots where
  alloc p := pure (p.script.head?.join, { p with script := p.script.tail, calls := p.calls + 1 })
  free p slot := pure { p with freed := p.freed ++ [slot] }
  capacity p := p.capacity

end KernelThreads
