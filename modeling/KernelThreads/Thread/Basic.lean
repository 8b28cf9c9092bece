import KernelThreads.Thread.Registers

/-!
One thread and its transitions. Each transition checks where the thread comes
from and stops the kernel otherwise.
-/
namespace KernelThreads

open Logged (ensure bind_eq_ok ensure_eq_ok pure_eq_ok)

structure Thread where
  id : Handle
  state : State := .runnable
  link : Link := .unlinked
  flags : Flags := {}
  /-- The result of the last cancellation request, or of the exit. -/
  pending : Option UInt64 := none
  errno : Int32 := 0
  /-- The process it was made in or attached to. A clone has none before that;
  the process itself may be gone. -/
  process : Option ProcessId := none
  stack : Stack
  context : Context
deriving DecidableEq

namespace Thread

/-- Onto the run queue: from nowhere, or from a processor. -/
def enqueue (t : Thread) : Logged Thread := do
  ensure (t.state = .runnable) (.queuedInState t.id t.state)
  ensure (t.link = .unlinked ∨ t.link.isOnCpu) (.queuedWhileLinked t.id t.link)
  return { t with link := .runQueue }

/-- From the run queue onto the processor `cpu`. -/
def startOn (t : Thread) (cpu : UInt32) : Logged Thread := do
  ensure (t.state = .runnable ∧ t.link = .runQueue) (.dispatchedFrom t.id t.state t.link)
  return { t with link := .onCpu cpu }

/-- From a processor into the sleep on `c`. -/
def block (t : Thread) (c : Channel) (cancellable : Bool) : Logged Thread := do
  ensure (t.state = .runnable ∧ t.link.isOnCpu) (.blockedFrom t.id t.state t.link)
  return { t with
    state := if cancellable then .sleepingCancellable else .sleeping
    link := .waitQueue c }

/-- Out of any sleep, onto the run queue. -/
def wake (t : Thread) : Logged Thread := do
  ensure t.state.isSleeping (.wokenInState t.id t.state)
  return { t with state := .runnable, link := .runQueue }

def finish (t : Thread) (result : UInt64) : Logged Thread := do
  ensure (t.state ≠ .exited) (.exitedTwice t.id)
  return { t with pending := some result, state := .exited, link := .unlinked }

def requestCancel (t : Thread) (result : UInt64) : Thread :=
  { t with pending := some result, flags := { t.flags with cancelRequested := true } }

/-- A thread that shares nothing with `t`, has its pending result, its request
to cancel and its error number, and is in no process and in no queue. -/
def copy (t : Thread) (id : Handle) (stack : Stack) (context : Context) : Thread :=
  { id
    flags := { t.flags with cloned := true }
    pending := t.pending
    errno := t.errno
    stack
    context }

/-- A runnable thread is unlinked only while it is a clone that awaits its
process; a thread sleeps exactly while it is in a wait queue. -/
def consistent (t : Thread) : Bool :=
  match t.state, t.link with
  | .runnable, .runQueue | .runnable, .onCpu _ => true
  | .runnable, .unlinked => t.flags.cloned
  | .sleeping, .waitQueue _ | .sleepingCancellable, .waitQueue _ => true
  | .exited, .unlinked => true
  | _, _ => false

def check (t : Thread) : Logged Unit := ensure t.consistent (.linkMismatch t.id t.state t.link)

/-- Cloned, and in no process so far. -/
def isUnattachedClone (t : Thread) : Bool := t.flags.cloned && t.process.isNone

section Transitions
variable {t u : Thread}

theorem enqueue_eq_ok : t.enqueue.result = .ok u ↔
    t.state = .runnable ∧ (t.link = .unlinked ∨ t.link.isOnCpu = true) ∧
      { t with link := .runQueue } = u := by
  simp only [enqueue, bind_eq_ok, ensure_eq_ok, pure_eq_ok, exists_and_left, exists_const]

theorem startOn_eq_ok {cpu : UInt32} : (t.startOn cpu).result = .ok u ↔
    (t.state = .runnable ∧ t.link = .runQueue) ∧ { t with link := .onCpu cpu } = u := by
  simp only [startOn, bind_eq_ok, ensure_eq_ok, pure_eq_ok, exists_and_left, exists_const]

theorem block_eq_ok {c : Channel} {cancellable : Bool} :
    (t.block c cancellable).result = .ok u ↔
      (t.state = .runnable ∧ t.link.isOnCpu = true) ∧
        { t with
          state := if cancellable then .sleepingCancellable else .sleeping
          link := .waitQueue c } = u := by
  simp only [block, bind_eq_ok, ensure_eq_ok, pure_eq_ok, exists_and_left, exists_const]

theorem wake_eq_ok : t.wake.result = .ok u ↔
    t.state.isSleeping = true ∧ { t with state := .runnable, link := .runQueue } = u := by
  simp only [wake, bind_eq_ok, ensure_eq_ok, pure_eq_ok, exists_and_left, exists_const]

theorem finish_eq_ok {result : UInt64} : (t.finish result).result = .ok u ↔
    t.state ≠ .exited ∧
      { t with pending := some result, state := .exited, link := .unlinked } = u := by
  simp only [finish, bind_eq_ok, ensure_eq_ok, pure_eq_ok, exists_and_left, exists_const]

end Transitions

end Thread

end KernelThreads
