import KernelThreads.Memory.Address
import KernelThreads.Process.Phase
import KernelThreads.Thread.Handle
import KernelThreads.Thread.Status

/-!
The rules whose breach halts the kernel, each with what its report shows.
-/
namespace KernelThreads

inductive Violation where
  | stackSizeZero
  | stackSizeUnaligned (size : UInt64)
  | arenaUnaligned (base : VirtAddr)
  | freeOutsideArena (addr : VirtAddr)
  | freeOfNoExtent (addr : VirtAddr)
  | freeOfWrongCount (addr : VirtAddr) (count recorded : Nat)
  | slotNotAllocated (slot : Nat)
  | foreignStack (base : VirtAddr) (pages expected : Nat)
  | slotBeyondCapacity (slot capacity : Nat)
  | slotOccupied (slot : Nat)
  | slotReissued (thread : Handle)
  | queuedInState (thread : Handle) (state : State)
  | queuedWhileLinked (thread : Handle) (link : Link)
  | dispatchedFrom (thread : Handle) (state : State) (link : Link)
  | blockedFrom (thread : Handle) (state : State) (link : Link)
  | wokenInState (thread : Handle) (state : State)
  | exitedTwice (thread : Handle)
  | linkMismatch (thread : Handle) (state : State) (link : Link)
  | joinedTwice (thread : Handle) (process : ProcessId)
  | createdInClosed (process : ProcessId) (phase : Phase)
  | clonedStale (thread : Handle)
  | clonedInState (thread : Handle) (state : State)
  | attachedStale (thread : Handle)
  | attachedNoClone (thread : Handle)
  | attachedFrom (thread : Handle) (state : State) (link : Link)
  | destroyedStale (thread : Handle)
  | destroyedInState (thread : Handle) (state : State)
  | destroyedWhileLinked (thread : Handle) (link : Link)
  | exitOfIdle (cpu : UInt32)
  | exitOfStale (thread : Handle) (cpu : UInt32)
  | exitWhileBlocked (thread : Handle) (channel : Channel)
  | exitWhileLinked (thread : Handle) (link : Link)
  | exitInOtherProcess (thread : Handle) (own : Option ProcessId) (cpu : UInt32)
      (current : Option ProcessId)
  | unknownChannel (channel : Channel)
  | staleInRunQueue (thread : Handle)
  | staleInWaitQueue (thread : Handle)
  | noCurrent (cpu : UInt32)
  | staleCurrent (cpu : UInt32) (thread : Handle)
deriving DecidableEq

namespace Violation

def present (text : String) : String := s!"Some({text})"

def processText : Option ProcessId → String
  | none => "None"
  | some pid => present (toString pid)

def message : Violation → String
  | stackSizeZero => "kernel stack size must be non-zero"
  | stackSizeUnaligned size =>
    s!"kernel stack size {Hex.render size.toNat} is not a multiple of the page size"
  | arenaUnaligned base => s!"page arena base {base.text} is not page aligned"
  | freeOutsideArena addr => s!"free of {addr.text} outside the page arena"
  | freeOfNoExtent addr => s!"free of {addr.text} which is not the base of a live extent"
  | freeOfWrongCount addr count recorded =>
    s!"free of {addr.text} with {count} pages, extent has {present (toString recorded)}"
  | slotNotAllocated slot => s!"object pool slot {slot} freed while not allocated"
  | foreignStack base pages expected =>
    s!"kernel stack at {base.text} has {pages} pages, allocator hands out {expected}"
  | slotBeyondCapacity slot capacity =>
    s!"object pool returned slot {slot} beyond capacity {capacity}"
  | slotOccupied slot => s!"thread slot {slot} is occupied"
  | slotReissued thread => s!"thread {thread} inserted into a reissued slot"
  | queuedInState thread state => s!"thread {thread} made runnable from {state.name}"
  | queuedWhileLinked thread link => s!"thread {thread} made runnable while linked to {link.name}"
  | dispatchedFrom thread state link =>
    s!"thread {thread} dispatched from {state.name}/{link.name}"
  | blockedFrom thread state link => s!"thread {thread} blocked from {state.name}/{link.name}"
  | wokenInState thread state => s!"thread {thread} woken from {state.name}"
  | exitedTwice thread => s!"thread {thread} exited twice"
  | linkMismatch thread state link =>
    s!"thread {thread} is {state.name} while linked to {link.name}"
  | joinedTwice thread process => s!"thread {thread} added to process {process} twice"
  | createdInClosed process phase =>
    s!"thread created in process {process} in state {phase.name}"
  | clonedStale thread => s!"clone of stale thread handle {thread}"
  | clonedInState thread state => s!"clone of {thread} in state {state.name}"
  | attachedStale thread => s!"attach of stale thread handle {thread}"
  | attachedNoClone thread => s!"attach of {thread} which is not an unattached clone"
  | attachedFrom thread state link => s!"attach of {thread} in {state.name}/{link.name}"
  | destroyedStale thread => s!"destroy of stale thread handle {thread}"
  | destroyedInState thread state => s!"destroy of {thread} in state {state.name}"
  | destroyedWhileLinked thread link => s!"destroy of {thread} still linked to {link.name}"
  | exitOfIdle cpu => s!"exit on cpu{cpu.toNat} with no current thread"
  | exitOfStale thread cpu => s!"exit of stale thread {thread} on cpu{cpu.toNat}"
  | exitWhileBlocked thread channel =>
    s!"{thread} exiting while blocked on {present channel.name}"
  | exitWhileLinked thread link => s!"{thread} exiting while linked to {link.name}"
  | exitInOtherProcess thread own cpu current =>
    s!"{thread} of process {processText own} exiting while cpu{cpu.toNat} runs process "
      ++ processText current
  | unknownChannel channel => s!"unknown wait channel {channel}"
  | staleInRunQueue thread => s!"run queue holds stale thread {thread}"
  | staleInWaitQueue thread => s!"wait queue holds stale thread {thread}"
  | noCurrent cpu => s!"cpu{cpu.toNat} has no current thread"
  | staleCurrent cpu thread => s!"cpu{cpu.toNat} runs stale thread {thread}"

/-- What the halting kernel reports. -/
def report (v : Violation) : String := s!"kthread invariant violated: {v.message}"

end Violation

end KernelThreads
