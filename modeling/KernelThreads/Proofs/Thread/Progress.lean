import KernelThreads.Thread.Basic
import Mathlib.Logic.Relation

/-!
What becomes of a live thread short of its exit. Whatever the scheduler and the
life cycle do with it is a sequence of the steps below.
-/
namespace KernelThreads.Thread

variable {t u v : Thread}

inductive Step (t : Thread) : Thread → Prop
  | enqueue {u : Thread} (h : t.enqueue.result = .ok u) : Step t u
  | start {u : Thread} {cpu : UInt32} (h : (t.startOn cpu).result = .ok u) : Step t u
  | block {u : Thread} {c : Channel} {cancellable : Bool}
      (h : (t.block c cancellable).result = .ok u) : Step t u
  | wake {u : Thread} (h : t.wake.result = .ok u) : Step t u
  | request (result : UInt64) (h : t.state ≠ .exited) : Step t (t.requestCancel result)
  | adopt (pid : ProcessId) (context : Context) (hclone : t.isUnattachedClone = true)
      (hstate : t.state = .runnable) (hlink : t.link = .unlinked) :
      Step t { t with process := some pid, flags := { t.flags with cloned := false }, context }
  | errno (errno : Int32) : Step t { t with errno }
  | load (context : Context) : Step t { t with context }

theorem Step.id_eq (h : t.Step u) : u.id = t.id := by
  cases h with
  | enqueue h => obtain ⟨-, -, rfl⟩ := enqueue_eq_ok.mp h; rfl
  | start h => obtain ⟨-, rfl⟩ := startOn_eq_ok.mp h; rfl
  | block h => obtain ⟨-, rfl⟩ := block_eq_ok.mp h; rfl
  | wake h => obtain ⟨-, rfl⟩ := wake_eq_ok.mp h; rfl
  | request result h => rfl
  | adopt pid context hclone hstate hlink => rfl
  | errno errno => rfl
  | load context => rfl

theorem Step.stack_eq (h : t.Step u) : u.stack = t.stack := by
  cases h with
  | enqueue h => obtain ⟨-, -, rfl⟩ := enqueue_eq_ok.mp h; rfl
  | start h => obtain ⟨-, rfl⟩ := startOn_eq_ok.mp h; rfl
  | block h => obtain ⟨-, rfl⟩ := block_eq_ok.mp h; rfl
  | wake h => obtain ⟨-, rfl⟩ := wake_eq_ok.mp h; rfl
  | request result h => rfl
  | adopt pid context hclone hstate hlink => rfl
  | errno errno => rfl
  | load context => rfl

/-- What the scheduler does to a thread. It lets nobody into a cancellable sleep
who has been asked to end. -/
inductive Shift (t : Thread) : Thread → Prop
  | enqueue {u : Thread} (h : t.enqueue.result = .ok u) : Shift t u
  | start {u : Thread} {cpu : UInt32} (h : (t.startOn cpu).result = .ok u) : Shift t u
  | sleep {u : Thread} {c : Channel} (h : (t.block c false).result = .ok u) : Shift t u
  | doze {u : Thread} {c : Channel} (hfree : t.flags.cancelRequested = false)
      (h : (t.block c true).result = .ok u) : Shift t u
  | wake {u : Thread} (h : t.wake.result = .ok u) : Shift t u

theorem Shift.step (h : t.Shift u) : t.Step u := by
  cases h with
  | enqueue h => exact .enqueue h
  | start h => exact .start h
  | sleep h => exact .block h
  | doze hfree h => exact .block h
  | wake h => exact .wake h

/-- `u` is what has become of `t`. -/
def Becomes : Thread → Thread → Prop := Relation.ReflTransGen Step

theorem Becomes.refl (t : Thread) : t.Becomes t := Relation.ReflTransGen.refl

theorem Becomes.trans (htu : t.Becomes u) (huv : u.Becomes v) : t.Becomes v :=
  Relation.ReflTransGen.trans htu huv

theorem Step.becomes (h : t.Step u) : t.Becomes u := Relation.ReflTransGen.single h

theorem Shift.becomes (h : t.Shift u) : t.Becomes u := h.step.becomes

theorem becomes_of_shifts (h : Relation.ReflTransGen Shift t u) : t.Becomes u :=
  Relation.ReflTransGen.mono (fun _ _ => Shift.step) t u h

theorem Becomes.id_eq (h : t.Becomes u) : u.id = t.id := by
  induction h with
  | refl => rfl
  | tail _ huv ih => exact huv.id_eq.trans ih

theorem Becomes.stack_eq (h : t.Becomes u) : u.stack = t.stack := by
  induction h with
  | refl => rfl
  | tail _ huv ih => exact huv.stack_eq.trans ih

/-- Once a thread is in a process it stays there. -/
theorem Step.process_eq {pid : ProcessId} (h : t.Step u) (ht : t.process = some pid) :
    u.process = some pid := by
  cases h with
  | enqueue h => obtain ⟨-, -, rfl⟩ := enqueue_eq_ok.mp h; exact ht
  | start h => obtain ⟨-, rfl⟩ := startOn_eq_ok.mp h; exact ht
  | block h => obtain ⟨-, rfl⟩ := block_eq_ok.mp h; exact ht
  | wake h => obtain ⟨-, rfl⟩ := wake_eq_ok.mp h; exact ht
  | request result h => exact ht
  | adopt pid' context hclone hstate hlink => simp [isUnattachedClone, ht] at hclone
  | errno errno => exact ht
  | load context => exact ht

theorem Becomes.process_eq {pid : ProcessId} (h : t.Becomes u) (ht : t.process = some pid) :
    u.process = some pid := by
  induction h with
  | refl => exact ht
  | tail _ huv ih => exact huv.process_eq ih

/-- Apart from its error number and its registers, `u` is as `t`. -/
structure Unmoved (t u : Thread) : Prop where
  state : u.state = t.state
  link : u.link = t.link
  flags : u.flags = t.flags
  pending : u.pending = t.pending
  process : u.process = t.process
  stack : u.stack = t.stack

theorem Unmoved.refl (t : Thread) : t.Unmoved t := ⟨rfl, rfl, rfl, rfl, rfl, rfl⟩

theorem Unmoved.trans (htu : t.Unmoved u) (huv : u.Unmoved v) : t.Unmoved v where
  state := huv.state.trans htu.state
  link := huv.link.trans htu.link
  flags := huv.flags.trans htu.flags
  pending := huv.pending.trans htu.pending
  process := huv.process.trans htu.process
  stack := huv.stack.trans htu.stack

/-- An exit is final. -/
theorem Step.unmoved (h : t.Step u) (ht : t.state = .exited) : t.Unmoved u := by
  cases h with
  | enqueue h => obtain ⟨hstate, -⟩ := enqueue_eq_ok.mp h; cases hstate.symm.trans ht
  | start h => obtain ⟨⟨hstate, -⟩, -⟩ := startOn_eq_ok.mp h; cases hstate.symm.trans ht
  | block h => obtain ⟨⟨hstate, -⟩, -⟩ := block_eq_ok.mp h; cases hstate.symm.trans ht
  | wake h =>
    obtain ⟨hsleeping, -⟩ := wake_eq_ok.mp h
    rw [ht] at hsleeping
    cases hsleeping
  | request result hstate => exact absurd ht hstate
  | adopt pid context hclone hstate hlink => cases hstate.symm.trans ht
  | errno errno => exact ⟨rfl, rfl, rfl, rfl, rfl, rfl⟩
  | load context => exact ⟨rfl, rfl, rfl, rfl, rfl, rfl⟩

theorem Becomes.unmoved (h : t.Becomes u) (ht : t.state = .exited) : t.Unmoved u := by
  induction h with
  | refl => exact .refl t
  | tail _ huv ih => exact ih.trans (huv.unmoved (ih.state.trans ht))

/-- None of the steps is an exit. -/
theorem Step.exited (h : t.Step u) (hu : u.state = .exited) : t.state = .exited := by
  cases h with
  | enqueue h => obtain ⟨-, -, rfl⟩ := enqueue_eq_ok.mp h; exact hu
  | start h => obtain ⟨-, rfl⟩ := startOn_eq_ok.mp h; exact hu
  | block h =>
    rename_i c cancellable
    obtain ⟨-, rfl⟩ := block_eq_ok.mp h
    cases cancellable <;> cases hu
  | wake h => obtain ⟨-, rfl⟩ := wake_eq_ok.mp h; cases hu
  | request result hstate => exact hu
  | adopt pid context hclone hstate hlink => exact hu
  | errno errno => exact hu
  | load context => exact hu

theorem Becomes.exited (h : t.Becomes u) (hu : u.state = .exited) : t.state = .exited := by
  induction h with
  | refl => exact hu
  | tail _ huv ih => exact ih (huv.exited hu)

end KernelThreads.Thread
