import KernelThreads.Process.Basic
import KernelThreads.Scheduling.Machine

/-!
The whole state: the machine with its threads, the processes, the allocators of
pages and thread slots, and the record of threads that have exited.
-/
namespace KernelThreads

open Logged (emit)

/-- What the process layer is told when a thread exits. -/
structure Handoff where
  cpu : UInt32
  thread : Handle
  result : UInt64
deriving DecidableEq, Repr

structure Kernel (P O : Type) (n : Nat) where
  config : StackConfig
  hooks : Hooks
  /-- Whether the process layer empties the processor that it takes an exited thread from. -/
  exitClearsCpu : Bool
  pages : P
  slots : O
  machine : Machine n
  processes : Processes
  /-- Oldest first. -/
  handoffs : List Handoff
deriving DecidableEq

namespace Kernel
variable {P O : Type} {n : Nat}

/-- A kernel without threads and processes, on idle processors with the given ids. -/
def boot [SlotSource O] (config : StackConfig) (pages : P) (slots : O) (ids : Vector UInt32 n)
    (hooks : Hooks := .fifo) (exitClearsCpu : Bool := true) : Logged (Kernel P O n) := do
  config.validate
  let capacity := SlotSource.capacity slots
  emit (.started config.stackSize config.extentPages capacity)
  return {
    config, hooks, exitClearsCpu, pages, slots
    machine := { threads := .new capacity, queues := {}, cpus := ids.map fun id => { id } }
    processes := .empty
    handoffs := [] }

def thread? (k : Kernel P O n) (h : Handle) : Option Thread := k.machine.threads.get? h

def contains (k : Kernel P O n) (h : Handle) : Bool := k.machine.threads.contains h

/-- The live threads in the order of their slots. -/
def threads (k : Kernel P O n) : List Thread := k.machine.threads.threads

def threadCount (k : Kernel P O n) : Nat := k.machine.threads.size

def capacity [SlotSource O] (k : Kernel P O n) : Nat := SlotSource.capacity k.slots

/-- The process that `t` belongs to, with its number, if it is still there. -/
def processOf? (k : Kernel P O n) (t : Thread) : Option (ProcessId × Process) := do
  let pid ← t.process
  return (pid, ← k.processes.get? pid)

/-- The process of `t` lists it as a member. -/
def isMember (k : Kernel P O n) (t : Thread) : Bool :=
  (k.processOf? t).any fun (_, p) => p.members.contains t.id

/-- Checks all live threads in the order of their slots. -/
def check (k : Kernel P O n) : Logged Unit := k.threads.forM Thread.check

end Kernel

end KernelThreads
