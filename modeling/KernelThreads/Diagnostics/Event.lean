import KernelThreads.Diagnostics.Violation

/-!
What the kernel tells its log, as data, with the one place that words it.
-/
namespace KernelThreads

inductive Level where
  | error
  | warn
  | info
  | debug
  | trace
deriving DecidableEq, Repr

def Level.name : Level → String
  | .error => "ERROR"
  | .warn => "WARN"
  | .info => "INFO"
  | .debug => "DEBUG"
  | .trace => "TRACE"

/-- What ran out while a thread was being made. The caller is told, and goes on. -/
inductive Exhausted where
  | kernelStack
  | threadObject
deriving DecidableEq, Repr

namespace Exhausted

def all : List Exhausted := [.kernelStack, .threadObject]

def resource : Exhausted → String
  | .kernelStack => "kernel stack"
  | .threadObject => "thread object"

def message (e : Exhausted) : String := s!"allocation failure: out of {e.resource} memory"

end Exhausted

inductive Event where
  | violated (v : Violation)
  | exhausted (e : Exhausted)
  | started (stackSize : UInt64) (extentPages slots : Nat)
  | created (thread : Handle) (process : ProcessId)
  | cloned (thread source : Handle)
  | attached (thread : Handle) (process : ProcessId)
  | destroyed (thread : Handle)
  | exited (thread : Handle) (result : UInt64)
  | cancelOfStale (thread : Handle)
  | cancelOfExited (thread : Handle)
  | cancelRequested (thread : Handle) (state : State) (result : UInt64)
  | sleepCancelled (thread : Handle) (channel : Channel)
  | sleepInterrupted (thread : Handle) (channel : Channel)
  | sleeping (thread : Handle) (channel : Channel)
  | dispatched (cpu : UInt32) (thread : Handle)
  | keptCpu (cpu : UInt32) (thread : Handle)
  | pagesAllocated (count : Nat) (addr : VirtAddr)
  | pagesFreed (count : Nat) (addr : VirtAddr)
deriving DecidableEq

namespace Event

def level : Event → Level
  | violated _ => .error
  | exhausted _ => .warn
  | started .. => .info
  | created .. | cloned .. | attached .. | destroyed _ | exited .. | cancelOfStale _
  | cancelOfExited _ | cancelRequested .. | sleepCancelled .. | sleepInterrupted .. => .debug
  | sleeping .. | dispatched .. | keptCpu .. | pagesAllocated .. | pagesFreed .. => .trace

def message : Event → String
  | violated v => v.report
  | exhausted e => s!"kthread: {e.message}"
  | started stackSize extentPages slots =>
    s!"kthread: {stackSize.toNat} byte stacks ({extentPages} pages with guard), "
      ++ s!"{slots} thread slots"
  | created thread process => s!"kthread: created {thread} in process {process}"
  | cloned thread source => s!"kthread: cloned {thread} from {source}"
  | attached thread process => s!"kthread: attached {thread} to process {process}"
  | destroyed thread => s!"kthread: destroyed {thread}"
  | exited thread result => s!"kthread: {thread} exited with {Hex.render result.toNat}"
  | cancelOfStale thread => s!"kthread: cancel of stale handle {thread} ignored"
  | cancelOfExited thread => s!"kthread: cancel of exited {thread} ignored"
  | cancelRequested thread state result =>
    s!"kthread: cancel requested for {thread} ({state.name}) with {Hex.render result.toNat}"
  | sleepCancelled thread channel => s!"{thread}: cancelled out of sleep on {channel}"
  | sleepInterrupted thread channel => s!"{thread}: cancellable sleep on {channel} interrupted"
  | sleeping thread channel => s!"{thread}: sleeping on {channel}"
  | dispatched cpu thread => s!"cpu{cpu.toNat}: dispatched {thread}"
  | keptCpu cpu thread => s!"cpu{cpu.toNat}: {thread} keeps the cpu"
  | pagesAllocated count addr => s!"page arena: allocated {count} pages at {addr.text}"
  | pagesFreed count addr => s!"page arena: freed {count} pages at {addr.text}"

/-- The line of the log. -/
def line (e : Event) : String := s!"{e.level.name} {e.message}"

end Event

end KernelThreads
