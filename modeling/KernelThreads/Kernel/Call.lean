import KernelThreads.Kernel.Ending

/-!
Everything that can be asked of a kernel, as data, and the one function that
does it. A history is a list of calls.
-/
namespace KernelThreads

inductive Call (n : Nat) where
  | newProcess (directory : PhysAddr) (phase : Phase)
  | dropProcess (pid : ProcessId)
  | setPhase (pid : ProcessId) (phase : Phase)
  | setName (pid : ProcessId) (name : String)
  | addMember (pid : ProcessId) (h : Handle)
  | removeMember (pid : ProcessId) (h : Handle)
  | create (pid : ProcessId) (entry : EntryPoint) (arg1 : Int64) (arg2 : UInt64)
  | clone (source : Handle)
  | attach (h : Handle) (pid : ProcessId)
  | destroy (h : Handle)
  | cancel (i : Fin n) (target : Handle) (result : UInt64)
  | exit (i : Fin n) (result : UInt64)
  | dispatch (i : Fin n)
  | yieldCpu (i : Fin n)
  | sleep (i : Fin n) (c : Channel)
  | cancellableSleep (i : Fin n) (c : Channel)
  | wakeup (c : Channel)
  | broadcast (c : Channel)
  | newChannel
  /-- Changes one live thread past the scheduler, as do the calls up to `loadRegisters`. -/
  | makeRunnable (h : Handle)
  | interrupt (h : Handle)
  | enqueue (h : Handle)
  | startOn (h : Handle) (cpu : UInt32)
  | block (h : Handle) (c : Channel) (cancellable : Bool)
  | wake (h : Handle)
  | setErrno (h : Handle) (errno : Int32)
  | loadRegisters (h : Handle) (registers : List (Register × UInt64))
  /-- Changes what a processor believes it runs, and no thread. -/
  | setRunning (i : Fin n) (h : Handle) (process : Option ProcessId)
  | clearRunning (i : Fin n)

inductive Reply where
  | done
  | answer (b : Bool)
  | process (pid : ProcessId)
  | channel (c : Channel)
  | made (r : Except Exhausted Handle)
  | thread (h? : Option Handle)
  | handoff (x? : Option Handoff)
  | slept (o : SleepOutcome)
  | woken (count : Nat)

namespace Kernel
variable {P O : Type} {n : Nat}

/-- Lets `f` change a process that is there. -/
def onProcess (k : Kernel P O n) (pid : ProcessId) (f : Process → Logged Process) :
    Logged (Kernel P O n) := do
  let p ← k.processes.find pid
  return { k with processes := k.processes.set pid (← f p) }

/-- Lets `f` change the scheduling, and gives its answer. -/
def onMachine {α : Type} (k : Kernel P O n) (f : Machine n → Logged (α × Machine n))
    (reply : α → Reply) : Logged (Reply × Kernel P O n) := do
  let (a, machine) ← f k.machine
  return (reply a, { k with machine })

/-- Lets `f` change a live thread, and tells whether there was one. -/
def onThread (k : Kernel P O n) (h : Handle) (f : Thread → Logged Thread) :
    Logged (Reply × Kernel P O n) :=
  k.onMachine (·.onThread h fun q t => do return (← f t, q)) .answer

def done (x : Logged (Kernel P O n)) : Logged (Reply × Kernel P O n) := do return (.done, ← x)

variable [PageSource P] [SlotSource O]

def perform (k : Kernel P O n) : Call n → Logged (Reply × Kernel P O n)
  | .newProcess directory phase =>
    let (pid, processes) := k.processes.add { directory, phase }
    return (.process pid, { k with processes })
  | .dropProcess pid =>
    return (.answer (k.processes.get? pid).isSome, { k with processes := k.processes.drop pid })
  | .setPhase pid phase => done (k.onProcess pid fun p => return { p with phase })
  | .setName pid name => done (k.onProcess pid fun p => return { p with name := some name })
  | .addMember pid h => done (k.onProcess pid (·.join pid h))
  | .removeMember pid h => do
    let p ← k.processes.find pid
    return (.answer (p.members.contains h),
      { k with processes := k.processes.set pid (p.leave h) })
  | .create pid entry arg1 arg2 => do
    let (r, k) ← k.create pid entry arg1 arg2
    return (.made r, k)
  | .clone source => do
    let (r, k) ← k.clone source
    return (.made r, k)
  | .attach h pid => done (k.attach h pid)
  | .destroy h => done (k.destroy h)
  | .cancel i target result => do
    let (x?, k) ← k.cancel i target result
    return (.handoff x?, k)
  | .exit i result => do
    let (x, k) ← k.exit i result
    return (.handoff (some x), k)
  | .dispatch i => k.onMachine (·.dispatch i) .thread
  | .yieldCpu i => k.onMachine (·.yieldCpu i) .thread
  | .sleep i c => do
    let machine ← k.machine.sleep i c
    return (.done, { k with machine })
  | .cancellableSleep i c => k.onMachine (·.cancellableSleep i c) .slept
  | .wakeup c => k.onMachine (·.wakeup c) .thread
  | .broadcast c => k.onMachine (·.broadcast c) .woken
  | .newChannel =>
    let (c, queues) := k.machine.queues.newChannel
    return (.channel c, { k with machine := { k.machine with queues } })
  | .makeRunnable h => k.onMachine (·.onThread h Queues.makeRunnable) .answer
  | .interrupt h => k.onMachine (·.onThread h Queues.interrupt) .answer
  | .enqueue h => k.onThread h (·.enqueue)
  | .startOn h cpu => k.onThread h (·.startOn cpu)
  | .block h c cancellable => k.onThread h (·.block c cancellable)
  | .wake h => k.onThread h (·.wake)
  | .setErrno h errno => k.onThread h fun t => return { t with errno }
  | .loadRegisters h registers => k.onThread h fun t => return { t with
      context := registers.foldl (fun c (r, w) => c.load r w) t.context }
  | .setRunning i h process =>
    return (.done, { k with machine := k.machine.setCpu i ((k.machine.cpu i).run h process) })
  | .clearRunning i => return (.done, { k with machine := k.machine.clearCpu i })

end Kernel

end KernelThreads
