import KernelThreads.Kernel.Call

/-!
Calls that come in between each other. Making and destroying a thread take several
locks in turn; a task is what such a call still has to do between two of them, with
what it holds meanwhile. Every other call is a single step.
-/
namespace KernelThreads

open Logged (emit ensure)

/-- What a thread in the making is to be. -/
inductive Plan where
  | start (pid : ProcessId) (directory : PhysAddr) (entry : EntryPoint) (arg1 : Int64)
      (arg2 : UInt64)
  /-- A clone of `source`, which was `sample` when it was looked at. -/
  | copy (source : Handle) (sample : Thread)
deriving DecidableEq

inductive Task where
  | admitted (plan : Plan)
  | slotted (plan : Plan) (slot : Nat)
  | named (plan : Plan) (h : Handle)
  /-- There was no stack for `h`. -/
  | refused (h : Handle) (e : Exhausted)
  | equipped (plan : Plan) (h : Handle) (stack : Stack)
  /-- Out of its slot, which is free again, but still a member of its process. -/
  | evicted (h : Handle) (t : Thread)
  | delisted (h : Handle) (stack : Stack)
deriving DecidableEq

/-- How far a call has come. -/
inductive Stage where
  | replied (reply : Reply)
  | pending (task : Task)

namespace Kernel
variable {P O : Type} [PageSource P] [SlotSource O] {n : Nat}

/-- Lets the thread in that has been planned, now that it has a handle and a stack. Its
process has to be there still: whoever makes a thread holds on to the process. -/
def realize (k : Kernel P O n) (h : Handle) (stack : Stack) : Plan → Logged (Kernel P O n)
  | .start pid directory entry arg1 arg2 => do
    let context ← Context.start entry arg1 arg2 stack directory
    let k ← k.publish pid { id := h, process := some pid, stack, context }
    emit (.created h pid)
    return k
  | .copy source sample => do
    let context ← Context.empty stack
    let k ← k.house (sample.copy h stack context)
    emit (.cloned h source)
    return k

/-- The first step of a call. -/
def enter (k : Kernel P O n) : Call n → Logged (Stage × Kernel P O n)
  | .create pid entry arg1 arg2 => do
    let p ← k.processes.find pid
    ensure p.phase.acceptsThreads (.createdInClosed pid p.phase)
    return (.pending (.admitted (.start pid p.directory entry arg1 arg2)), k)
  | .clone source => do
    let t ← k.sample source
    return (.pending (.admitted (.copy source t)), k)
  | .destroy h => do
    let (t, k) ← k.evict h
    return (.pending (.evicted h t), k)
  | call => do
    let (reply, k) ← k.perform call
    return (.replied reply, k)

/-- The next step of a call that has been entered. -/
def advance (k : Kernel P O n) : Task → Logged (Stage × Kernel P O n)
  | .admitted plan => do
    let (slot?, k) ← k.takeSlot
    match slot? with
    | some slot => return (.pending (.slotted plan slot), k)
    | none =>
      emit (.exhausted .threadObject)
      return (.replied (.made (.error .threadObject)), k)
  | .slotted plan slot => do
    let (h, k) ← k.issueHandle slot
    return (.pending (.named plan h), k)
  | .named plan h => do
    let (stack?, k) ← k.takeStack
    match stack? with
    | .ok stack => return (.pending (.equipped plan h stack), k)
    | .error e => return (.pending (.refused h e), k)
  | .refused h e => do
    let k ← k.returnSlot h
    emit (.exhausted e)
    return (.replied (.made (.error e)), k)
  | .equipped plan h stack => do
    let k ← k.realize h stack plan
    return (.replied (.made (.ok h)), k)
  | .evicted h t => return (.pending (.delisted h t.stack), k.delist h t.process)
  | .delisted h stack => do
    let k ← k.returnStack stack
    emit (.destroyed h)
    return (.replied .done, k)

end Kernel

/-- A kernel with the calls that are under way, of any number of callers. -/
structure Traffic (P O : Type) (n : Nat) where
  kernel : Kernel P O n
  tasks : List Task := []

inductive Action (n : Nat) where
  | call (call : Call n)
  /-- The call of the task at this position takes its next step. -/
  | advance (i : Nat)

namespace Traffic
variable {P O : Type} [PageSource P] [SlotSource O] {n : Nat}

def step (s : Traffic P O n) : Action n → Logged (Option Reply × Traffic P O n)
  | .call call => do
    let (stage, kernel) ← s.kernel.enter call
    match stage with
    | .replied reply => return (some reply, { s with kernel })
    | .pending task => return (none, { kernel, tasks := s.tasks ++ [task] })
  | .advance i =>
    match s.tasks[i]? with
    | none => return (none, s)
    | some task => do
      let (stage, kernel) ← s.kernel.advance task
      match stage with
      | .replied reply => return (some reply, { kernel, tasks := s.tasks.eraseIdx i })
      | .pending task => return (none, { kernel, tasks := s.tasks.set i task })

def run : Traffic P O n → List (Action n) → Except Fault (Traffic P O n)
  | s, [] => .ok s
  | s, action :: actions =>
    match (s.step action).result with
    | .ok (_, s') => run s' actions
    | .error e => .error e

end Traffic

end KernelThreads
