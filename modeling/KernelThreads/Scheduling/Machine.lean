import KernelThreads.Scheduling.Processor
import KernelThreads.Scheduling.Queues
import KernelThreads.Thread.Registry

/-!
Threads, queues and `n` processors, and the scheduling of the former on the
latter. Processors are told apart by their index: two of them may have one id.
-/
namespace KernelThreads

open Logged (demand emit)

structure Machine (n : Nat) where
  threads : Registry
  queues : Queues
  cpus : Vector Cpu n
deriving DecidableEq

inductive SleepOutcome where
  | blocked
  /-- A cancellation was pending, and the thread keeps running. -/
  | interrupted
deriving DecidableEq, Repr

namespace Machine
variable {n : Nat}

def setThread (m : Machine n) (h : Handle) (t : Thread) : Machine n :=
  { m with threads := m.threads.set h t }

def cpu (m : Machine n) (i : Fin n) : Cpu := m.cpus[i]

def setCpu (m : Machine n) (i : Fin n) (c : Cpu) : Machine n := { m with cpus := m.cpus.set i c }

def clearCpu (m : Machine n) (i : Fin n) : Machine n := m.setCpu i (m.cpu i).clear

theorem cpu_setCpu (m : Machine n) (i j : Fin n) (c : Cpu) :
    (m.setCpu i c).cpu j = if i = j then c else m.cpu j := by
  simp [cpu, setCpu, Vector.getElem_set, Fin.ext_iff]

/-- Lets `f` move the thread that `h` names. A stale handle is told apart by `false`. -/
def onThread (m : Machine n) (h : Handle) (f : Queues → Thread → Logged (Thread × Queues)) :
    Logged (Bool × Machine n) :=
  match m.threads.get? h with
  | none => return (false, m)
  | some t => do
    let (t, queues) ← f m.queues t
    return (true, { m with threads := m.threads.set h t, queues })

/-- The thread that runs on processor `i`. -/
def current (m : Machine n) (i : Fin n) : Logged Thread := do
  let h ← demand (m.cpu i).thread? (.noCurrent (m.cpu i).id)
  demand (m.threads.get? h) (.staleCurrent (m.cpu i).id h)

/-- Empties processor `i`. Its thread goes to the back of the run queue, unless
it has left the processor on its own by an exit. -/
def preempt (m : Machine n) (i : Fin n) : Logged (Machine n) :=
  match (m.cpu i).thread? with
  | none => return m
  | some h =>
    match m.threads.get? h with
    | none => return m.clearCpu i
    | some t =>
      if t.link = .onCpu (m.cpu i).id then do
        let (t, queues) ← m.queues.makeRunnable t
        return { m.setThread h t with queues }.clearCpu i
      else return m.clearCpu i

/-- Runs the next thread on processor `i`, and gives its handle. -/
def dispatch (m : Machine n) (i : Fin n) : Logged (Option Handle × Machine n) := do
  let m ← m.preempt i
  match m.queues.run with
  | [] => return (none, m)
  | h :: rest =>
    let cpu := m.cpu i
    let t ← demand (m.threads.get? h) (.staleInRunQueue h)
    let t ← t.startOn cpu.id
    emit (.dispatched cpu.id h)
    return (some h,
      { m.setThread h t with queues := { m.queues with run := rest } }.setCpu i
        (cpu.run h t.process))

/-- Gives processor `i` to the next thread, if there is one. -/
def yieldCpu (m : Machine n) (i : Fin n) : Logged (Option Handle × Machine n) := do
  let t ← m.current i
  match m.queues.run with
  | [] => do
    emit (.keptCpu (m.cpu i).id t.id)
    return (none, m)
  | _ :: _ => m.dispatch i

def block (m : Machine n) (i : Fin n) (t : Thread) (c : Channel) (cancellable : Bool) :
    Logged (Machine n) := do
  let (t, queues) ← m.queues.block t c cancellable
  return { m.setThread t.id t with queues }.clearCpu i

def sleep (m : Machine n) (i : Fin n) (c : Channel) : Logged (Machine n) := do
  let t ← m.current i
  m.block i t c false

def cancellableSleep (m : Machine n) (i : Fin n) (c : Channel) :
    Logged (SleepOutcome × Machine n) := do
  let t ← m.current i
  if t.flags.cancelRequested then
    emit (.sleepInterrupted t.id c)
    return (.interrupted, m)
  else
    return (.blocked, ← m.block i t c true)

/-- Wakes a thread that has been taken out of its wait queue. -/
def wakeThread (m : Machine n) (h : Handle) : Logged (Machine n) := do
  let t ← demand (m.threads.get? h) (.staleInWaitQueue h)
  let (t, queues) ← m.queues.wake t
  return { m.setThread h t with queues }

/-- Wakes the oldest waiter of `c`. -/
def wakeup (m : Machine n) (c : Channel) : Logged (Option Handle × Machine n) := do
  match ← demand (m.queues.waiters? c) (.unknownChannel c) with
  | [] => return (none, m)
  | h :: rest =>
    let m ← { m with queues := m.queues.setWaiters c rest }.wakeThread h
    return (some h, m)

/-- Wakes all waiters of `c`, oldest first, and counts them. -/
def broadcast (m : Machine n) (c : Channel) : Logged (Nat × Machine n) := do
  let woken ← demand (m.queues.waiters? c) (.unknownChannel c)
  let m ← woken.foldlM wakeThread { m with queues := m.queues.setWaiters c [] }
  return (woken.length, m)

end Machine

end KernelThreads
