import KernelThreads.Proofs.Kernel.Turns

/-!
Stops that tell of slots and pages. Only the steps that hand them out, let a thread
into its slot or take them back can stop the kernel so; everything that is done to
live threads, by the scheduler or past it, stops for other reasons only.
-/
namespace KernelThreads

/-- A slot or some pages have been handed out, filled or given back wrongly. -/
def Violation.isMemory : Violation → Bool
  | .freeOutsideArena _ | .freeOfNoExtent _ | .freeOfWrongCount _ _ _ | .slotNotAllocated _
  | .foreignStack _ _ _ | .slotBeyondCapacity _ _ | .slotOccupied _ | .slotReissued _ => true
  | _ => false

/-- Also a stack at addresses that are none. -/
def Fault.isMemory : Fault → Bool
  | .violation v => v.isMemory
  | .address _ => true
  | .noProcess _ => false

namespace Logged

/-- If `x` stops the kernel, it is not over slots and pages. -/
def MemorySafe {α : Type} (x : Logged α) : Prop := ∀ e, x.result = .error e → e.isMemory = false

namespace MemorySafe
variable {α β : Type} {x : Logged α} {v : Violation}

theorem of_ok (h : ∃ a, x.result = .ok a) : x.MemorySafe := by
  intro e he
  obtain ⟨a, ha⟩ := h
  cases ha.symm.trans he

theorem pure (a : α) : (Pure.pure a : Logged α).MemorySafe := of_ok ⟨a, rfl⟩

theorem emit (event : Event) : (emit event).MemorySafe := of_ok ⟨(), rfl⟩

theorem violate (hv : v.isMemory = false) : (violate v : Logged α).MemorySafe := by
  intro e he
  cases he
  exact hv

theorem ensure {p : Prop} [Decidable p] (hv : v.isMemory = false) : (ensure p v).MemorySafe := by
  unfold Logged.ensure
  split
  · exact pure ()
  · exact violate hv

theorem demand {o : Option α} (hv : v.isMemory = false) : (demand o v).MemorySafe := by
  cases o with
  | none => exact violate hv
  | some a => exact pure a

/-- A sequence of steps is as safe as each of them where it is reached. -/
theorem bind {f : α → Logged β} (hx : x.MemorySafe)
    (hf : ∀ a, x.result = .ok a → (f a).MemorySafe) : (x >>= f).MemorySafe := by
  intro e he
  rw [result_bind] at he
  cases ha : x.result with
  | ok a => exact hf a ha e (by simpa [ha, Except.bind] using he)
  | error e' =>
    rw [ha] at he
    cases he
    exact hx e ha

theorem bind_pure {f : α → β} (hx : x.MemorySafe) :
    (x >>= fun a => Pure.pure (f a)).MemorySafe := hx.bind fun _ _ => pure _

end MemorySafe

end Logged

open Logged (MemorySafe)

namespace Thread
variable (t : Thread)

theorem enqueue_safe : t.enqueue.MemorySafe :=
  (MemorySafe.ensure rfl).bind fun _ _ => (MemorySafe.ensure rfl).bind_pure

theorem startOn_safe (cpu : UInt32) : (t.startOn cpu).MemorySafe :=
  (MemorySafe.ensure rfl).bind_pure

theorem block_safe (c : Channel) (cancellable : Bool) : (t.block c cancellable).MemorySafe :=
  (MemorySafe.ensure rfl).bind_pure

theorem wake_safe : t.wake.MemorySafe := (MemorySafe.ensure rfl).bind_pure

theorem finish_safe (result : UInt64) : (t.finish result).MemorySafe :=
  (MemorySafe.ensure rfl).bind_pure

end Thread

namespace Queues
variable (q : Queues) (t : Thread)

theorem makeRunnable_safe : (q.makeRunnable t).MemorySafe := t.enqueue_safe.bind_pure

theorem block_safe (c : Channel) (cancellable : Bool) : (q.block t c cancellable).MemorySafe :=
  (MemorySafe.demand rfl).bind fun _ _ => (t.block_safe c cancellable).bind fun _ _ =>
    (MemorySafe.emit _).bind_pure

theorem wake_safe : (q.wake t).MemorySafe := t.wake_safe.bind_pure

theorem interrupt_safe : (q.interrupt t).MemorySafe := by
  unfold interrupt
  split
  · exact (MemorySafe.demand rfl).bind fun _ _ => (wake_safe _ t).bind fun _ _ =>
      (MemorySafe.emit _).bind_pure
  · exact .pure _

end Queues

namespace Hooks
variable (hooks : Hooks) (q : Queues) (t : Thread)

theorem makeRunnable_safe : (hooks.makeRunnable q t).MemorySafe := by
  cases hooks with
  | fifo => exact q.makeRunnable_safe t
  | inert => exact .pure _

theorem cancel_safe : (hooks.cancel q t).MemorySafe := by
  cases hooks with
  | fifo => exact q.interrupt_safe t
  | inert => exact .pure _

end Hooks

namespace Machine
variable {n : Nat} (m : Machine n) (i : Fin n) (c : Channel)

theorem onThread_safe {f : Queues → Thread → Logged (Thread × Queues)} (h : Handle)
    (hf : ∀ q t, (f q t).MemorySafe) : (m.onThread h f).MemorySafe := by
  unfold onThread
  split
  · exact .pure _
  · exact (hf _ _).bind_pure

theorem current_safe : (m.current i).MemorySafe :=
  (MemorySafe.demand rfl).bind fun _ _ => .demand rfl

theorem preempt_safe : (m.preempt i).MemorySafe := by
  unfold preempt
  split
  · exact .pure _
  · split
    · exact .pure _
    · split
      · exact (Queues.makeRunnable_safe _ _).bind_pure
      · exact .pure _

theorem dispatch_safe : (m.dispatch i).MemorySafe := by
  refine (m.preempt_safe i).bind fun p _ => ?_
  split
  · exact .pure _
  · exact (MemorySafe.demand rfl).bind fun t _ => (t.startOn_safe _).bind fun _ _ =>
      (MemorySafe.emit _).bind_pure

theorem yieldCpu_safe : (m.yieldCpu i).MemorySafe := by
  refine (m.current_safe i).bind fun t _ => ?_
  split
  · exact (MemorySafe.emit _).bind_pure
  · exact m.dispatch_safe i

theorem block_safe (t : Thread) (cancellable : Bool) : (m.block i t c cancellable).MemorySafe :=
  (Queues.block_safe _ t c cancellable).bind_pure

theorem sleep_safe : (m.sleep i c).MemorySafe :=
  (m.current_safe i).bind fun t _ => m.block_safe i c t false

theorem cancellableSleep_safe : (m.cancellableSleep i c).MemorySafe := by
  refine (m.current_safe i).bind fun t _ => ?_
  split
  · exact (MemorySafe.emit _).bind_pure
  · exact (m.block_safe i c t true).bind_pure

theorem wakeThread_safe (h : Handle) : (m.wakeThread h).MemorySafe :=
  (MemorySafe.demand rfl).bind fun t _ => (Queues.wake_safe _ t).bind_pure

theorem wakeup_safe : (m.wakeup c).MemorySafe := by
  refine (MemorySafe.demand rfl).bind fun hs _ => ?_
  split
  · exact .pure _
  · exact (wakeThread_safe _ _).bind_pure

theorem wakeAll_safe (hs : List Handle) : (hs.foldlM wakeThread m).MemorySafe := by
  induction hs generalizing m with
  | nil => exact .pure m
  | cons h hs ih =>
    rw [List.foldlM_cons]
    exact (m.wakeThread_safe h).bind fun p _ => ih p

theorem broadcast_safe : (m.broadcast c).MemorySafe :=
  (MemorySafe.demand rfl).bind fun hs _ => (wakeAll_safe _ hs).bind_pure

end Machine

theorem Process.join_safe (p : Process) (pid : ProcessId) (h : Handle) :
    (p.join pid h).MemorySafe := (MemorySafe.ensure rfl).bind_pure

theorem Processes.find_safe (ps : Processes) (pid : ProcessId) : (ps.find pid).MemorySafe := by
  unfold find
  split
  · exact .pure _
  · intro e he
    cases he
    rfl

namespace Kernel
variable {P O : Type} {n : Nat} (k : Kernel P O n)

theorem enlist_safe (pid : ProcessId) (t : Thread) : (k.enlist pid t).MemorySafe :=
  (k.processes.find_safe pid).bind fun p _ => (p.join_safe pid t.id).bind fun _ _ =>
    (k.hooks.makeRunnable_safe _ t).bind_pure

theorem sample_safe (source : Handle) : (k.sample source).MemorySafe :=
  (MemorySafe.demand rfl).bind fun _ _ => (MemorySafe.ensure rfl).bind_pure

theorem attach_safe (h : Handle) (pid : ProcessId) : (k.attach h pid).MemorySafe :=
  (k.processes.find_safe pid).bind fun _ _ => (MemorySafe.demand rfl).bind fun _ _ =>
    (MemorySafe.ensure rfl).bind fun _ _ => (MemorySafe.ensure rfl).bind fun _ _ =>
      (k.enlist_safe pid _).bind fun _ _ => (MemorySafe.emit _).bind_pure

theorem exit_safe (i : Fin n) (result : UInt64) : (k.exit i result).MemorySafe := by
  refine (MemorySafe.demand rfl).bind fun h _ => (MemorySafe.demand rfl).bind fun t _ => ?_
  split
  · exact .violate rfl
  · exact (MemorySafe.ensure rfl).bind fun _ _ => (MemorySafe.ensure rfl).bind fun _ _ =>
      (t.finish_safe result).bind fun _ _ => (MemorySafe.emit _).bind_pure

theorem cancel_safe (i : Fin n) (target : Handle) (result : UInt64) :
    (k.cancel i target result).MemorySafe := by
  unfold cancel
  split
  · exact (k.exit_safe i result).bind_pure
  · split
    · exact (MemorySafe.emit _).bind_pure
    · split
      · exact (MemorySafe.emit _).bind_pure
      · exact (k.hooks.cancel_safe _ _).bind fun _ _ => (MemorySafe.emit _).bind_pure

theorem onMachine_safe {α : Type} {f : Machine n → Logged (α × Machine n)} {reply : α → Reply}
    (hf : (f k.machine).MemorySafe) : (k.onMachine f reply).MemorySafe := hf.bind_pure

theorem onThread_safe {f : Thread → Logged Thread} (h : Handle) (hf : ∀ t, (f t).MemorySafe) :
    (k.onThread h f).MemorySafe :=
  k.onMachine_safe (k.machine.onThread_safe h fun _ t => (hf t).bind_pure)

theorem onProcess_safe {f : Process → Logged Process} (pid : ProcessId)
    (hf : ∀ p, (f p).MemorySafe) : (k.onProcess pid f).MemorySafe :=
  (k.processes.find_safe pid).bind fun p _ => (hf p).bind_pure

/-- A call that neither makes nor destroys a thread stops for no reason of memory. -/
theorem perform_safe [PageSource P] [SlotSource O] {call : Call n} (hcall : call.isVital = false) :
    (k.perform call).MemorySafe := by
  cases call with
  | create pid entry arg1 arg2 => cases hcall
  | clone source => cases hcall
  | destroy h => cases hcall
  | newProcess directory phase => exact .pure _
  | dropProcess pid => exact .pure _
  | setPhase pid phase => exact (k.onProcess_safe pid fun _ => .pure _).bind_pure
  | setName pid name => exact (k.onProcess_safe pid fun _ => .pure _).bind_pure
  | addMember pid h => exact (k.onProcess_safe pid fun p => p.join_safe pid h).bind_pure
  | removeMember pid h => exact (k.processes.find_safe pid).bind_pure
  | attach h pid => exact (k.attach_safe h pid).bind_pure
  | cancel i target result => exact (k.cancel_safe i target result).bind_pure
  | exit i result => exact (k.exit_safe i result).bind_pure
  | dispatch i => exact k.onMachine_safe (k.machine.dispatch_safe i)
  | yieldCpu i => exact k.onMachine_safe (k.machine.yieldCpu_safe i)
  | sleep i c => exact (k.machine.sleep_safe i c).bind_pure
  | cancellableSleep i c => exact k.onMachine_safe (k.machine.cancellableSleep_safe i c)
  | wakeup c => exact k.onMachine_safe (k.machine.wakeup_safe c)
  | broadcast c => exact k.onMachine_safe (k.machine.broadcast_safe c)
  | newChannel => exact .pure _
  | makeRunnable h =>
    exact k.onMachine_safe (k.machine.onThread_safe h Queues.makeRunnable_safe)
  | interrupt h => exact k.onMachine_safe (k.machine.onThread_safe h Queues.interrupt_safe)
  | enqueue h => exact k.onThread_safe h Thread.enqueue_safe
  | startOn h cpu => exact k.onThread_safe h fun t => t.startOn_safe cpu
  | block h c cancellable => exact k.onThread_safe h fun t => t.block_safe c cancellable
  | wake h => exact k.onThread_safe h Thread.wake_safe
  | setErrno h errno => exact k.onThread_safe h fun _ => .pure _
  | loadRegisters h registers => exact k.onThread_safe h fun _ => .pure _
  | setRunning i h process => exact .pure _
  | clearRunning i => exact .pure _

end Kernel

end KernelThreads
