import KernelThreads.Kernel.Creation

/-!
The end of a thread: by its own exit, at the request of another thread, and the
return of all that it held.
-/
namespace KernelThreads.Kernel

open Logged (demand emit ensure)

variable {P O : Type} [PageSource P] [SlotSource O] {n : Nat}

/-- Ends the thread that runs on processor `i` and hands it to the process layer. -/
def exit (k : Kernel P O n) (i : Fin n) (result : UInt64) : Logged (Handoff × Kernel P O n) := do
  let cpu := k.machine.cpu i
  let h ← demand cpu.thread? (.exitOfIdle cpu.id)
  let t ← demand (k.thread? h) (.exitOfStale h cpu.id)
  match t.link.channel? with
  | some c => Logged.violate (.exitWhileBlocked h c)
  | none =>
    ensure (t.link = .onCpu cpu.id) (.exitWhileLinked h t.link)
    ensure (t.process = cpu.process?) (.exitInOtherProcess h t.process cpu.id cpu.process?)
    let t ← t.finish result
    emit (.exited h result)
    let handoff := ⟨cpu.id, h, result⟩
    let machine := k.machine.setThread h t
    return (handoff, { k with
      machine := if k.exitClearsCpu then machine.clearCpu i else machine
      handoffs := k.handoffs ++ [handoff] })

/-- Asks the thread `target` to end. A thread that asks itself ends at once; one
that is gone or has ended is left alone. -/
def cancel (k : Kernel P O n) (i : Fin n) (target : Handle) (result : UInt64) :
    Logged (Option Handoff × Kernel P O n) := do
  if (k.machine.cpu i).thread? = some target then
    let (handoff, k) ← k.exit i result
    return (some handoff, k)
  else
    match k.thread? target with
    | none =>
      emit (.cancelOfStale target)
      return (none, k)
    | some t =>
      if t.state = .exited then
        emit (.cancelOfExited target)
        return (none, k)
      else
        let (t, queues) ← k.hooks.cancel k.machine.queues (t.requestCancel result)
        emit (.cancelRequested target t.state result)
        return (none, { k with machine := { k.machine.setThread target t with queues } })

/-- Takes out of its slot a thread that has exited, or a clone that was never attached. -/
def evict (k : Kernel P O n) (h : Handle) : Logged (Thread × Kernel P O n) := do
  let t ← demand (k.thread? h) (.destroyedStale h)
  ensure (t.state = .exited ∨ t.state = .runnable ∧ t.isUnattachedClone)
    (.destroyedInState h t.state)
  ensure (t.link = .unlinked) (.destroyedWhileLinked h t.link)
  let k := { k with machine := { k.machine with threads := k.machine.threads.erase h } }
  return (t, ← k.returnSlot h)

/-- Takes `h` off the members of its process, if that is still there. -/
def delist (k : Kernel P O n) (h : Handle) (pid? : Option ProcessId) : Kernel P O n :=
  match pid? with
  | none => k
  | some pid =>
    match k.processes.get? pid with
    | none => k
    | some p => { k with processes := k.processes.set pid (p.leave h) }

/-- Gives back all that an ended thread holds. Its handle is stale afterwards. -/
def destroy (k : Kernel P O n) (h : Handle) : Logged (Kernel P O n) := do
  let (t, k) ← k.evict h
  let k ← (k.delist h t.process).returnStack t.stack
  emit (.destroyed h)
  return k

end KernelThreads.Kernel
