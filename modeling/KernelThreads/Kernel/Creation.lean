import KernelThreads.Kernel.Basic

/-!
Making threads. `create` and `clone` are sequences of the smaller steps below,
each of which runs under a single lock; between two of them other steps may come
in. A step that runs out of memory leaves nothing behind.
-/
namespace KernelThreads.Kernel

open Logged (demand emit ensure)

variable {P O : Type} [PageSource P] [SlotSource O] {n : Nat}

def takeSlot (k : Kernel P O n) : Logged (Option Nat × Kernel P O n) := do
  let (slot?, slots) ← SlotSource.alloc k.slots
  return (slot?, { k with slots })

def returnSlot (k : Kernel P O n) (h : Handle) : Logged (Kernel P O n) := do
  return { k with slots := ← SlotSource.free k.slots h.slot.toNat }

def issueHandle (k : Kernel P O n) (slot : Nat) : Logged (Handle × Kernel P O n) := do
  let (h, threads) ← k.machine.threads.issue slot
  return (h, { k with machine := { k.machine with threads } })

def takeStack (k : Kernel P O n) : Logged (Except Exhausted Stack × Kernel P O n) := do
  let (stack?, pages) ← k.config.acquire k.pages
  return (stack?, { k with pages })

def returnStack (k : Kernel P O n) (s : Stack) : Logged (Kernel P O n) := do
  return { k with pages := ← k.config.release k.pages s }

/-- Reserves what a thread needs: a handle and a stack. -/
def reserve (k : Kernel P O n) : Logged (Except Exhausted (Handle × Stack) × Kernel P O n) := do
  let (slot?, k) ← k.takeSlot
  match slot? with
  | none =>
    emit (.exhausted .threadObject)
    return (.error .threadObject, k)
  | some slot =>
    let (h, k) ← k.issueHandle slot
    let (stack?, k) ← k.takeStack
    match stack? with
    | .ok stack => return (.ok (h, stack), k)
    | .error e =>
      let k ← k.returnSlot h
      emit (.exhausted e)
      return (.error e, k)

/-- Lets `t` into its slot, without making it known to anybody else. -/
def house (k : Kernel P O n) (t : Thread) : Logged (Kernel P O n) := do
  let threads ← k.machine.threads.insert t
  return { k with machine := { k.machine with threads } }

/-- Makes the live thread `t` a member of process `pid`, and runnable. -/
def enlist (k : Kernel P O n) (pid : ProcessId) (t : Thread) : Logged (Kernel P O n) := do
  let p ← k.processes.find pid
  let p ← p.join pid t.id
  let (t', queues) ← k.hooks.makeRunnable k.machine.queues t
  return { k with
    processes := k.processes.set pid p
    machine := { k.machine.setThread t.id t' with queues } }

/-- The step that makes a new thread known. -/
def publish (k : Kernel P O n) (pid : ProcessId) (t : Thread) : Logged (Kernel P O n) := do
  let k ← k.house t
  k.enlist pid t

/-- A new thread of process `pid` that is to start in `entry arg1 arg2`. -/
def create (k : Kernel P O n) (pid : ProcessId) (entry : EntryPoint) (arg1 : Int64)
    (arg2 : UInt64) : Logged (Except Exhausted Handle × Kernel P O n) := do
  let p ← k.processes.find pid
  ensure p.phase.acceptsThreads (.createdInClosed pid p.phase)
  let (reserved, k) ← k.reserve
  match reserved with
  | .error e => return (.error e, k)
  | .ok (h, stack) =>
    let context ← Context.start entry arg1 arg2 stack p.directory
    let k ← k.publish pid { id := h, process := some pid, stack, context }
    emit (.created h pid)
    return (.ok h, k)

/-- What a clone takes over from the runnable thread `source`. -/
def sample (k : Kernel P O n) (source : Handle) : Logged Thread := do
  let t ← demand (k.thread? source) (.clonedStale source)
  ensure (t.state = .runnable) (.clonedInState source t.state)
  return t

def clone (k : Kernel P O n) (source : Handle) :
    Logged (Except Exhausted Handle × Kernel P O n) := do
  let t ← k.sample source
  let (reserved, k) ← k.reserve
  match reserved with
  | .error e => return (.error e, k)
  | .ok (h, stack) =>
    let context ← Context.empty stack
    let k ← k.house (t.copy h stack context)
    emit (.cloned h source)
    return (.ok h, k)

/-- Gives the clone `h` a process and makes it runnable. -/
def attach (k : Kernel P O n) (h : Handle) (pid : ProcessId) : Logged (Kernel P O n) := do
  let p ← k.processes.find pid
  let t ← demand (k.thread? h) (.attachedStale h)
  ensure t.isUnattachedClone (.attachedNoClone h)
  ensure (t.state = .runnable ∧ t.link = .unlinked) (.attachedFrom h t.state t.link)
  let k ← k.enlist pid { t with
    process := some pid
    flags := { t.flags with cloned := false }
    context := { t.context with pageDirectory := p.directory } }
  emit (.attached h pid)
  return k

end KernelThreads.Kernel
