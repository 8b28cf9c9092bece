import KernelThreads.Numbered
import KernelThreads.Thread.Basic

/-!
The run queue and the wait queues, first in first out. Each operation moves one
thread, and gives back that thread together with the queues.
-/
namespace KernelThreads

open Logged (bind_eq_ok demand demand_eq_ok emit emit_eq_ok pure_eq_ok)

structure Queues where
  run : List Handle := []
  /-- The waiters of each channel, oldest first. Channels are numbered from 1. -/
  waiting : Numbered (List Handle) := .empty
deriving DecidableEq

namespace Queues

def push (q : Queues) (h : Handle) : Queues := { q with run := q.run ++ [h] }

def waiters? (q : Queues) (c : Channel) : Option (List Handle) := q.waiting.get? c.number

def setWaiters (q : Queues) (c : Channel) (hs : List Handle) : Queues :=
  { q with waiting := q.waiting.set c.number hs }

def newChannel (q : Queues) : Channel × Queues :=
  let waiting := q.waiting.add []
  (⟨waiting.size⟩, { q with waiting })

def makeRunnable (q : Queues) (t : Thread) : Logged (Thread × Queues) := do
  let t ← t.enqueue
  return (t, q.push t.id)

def block (q : Queues) (t : Thread) (c : Channel) (cancellable : Bool) :
    Logged (Thread × Queues) := do
  let waiters ← demand (q.waiters? c) (.unknownChannel c)
  let t ← t.block c cancellable
  emit (.sleeping t.id c)
  return (t, q.setWaiters c (waiters ++ [t.id]))

/-- Of a thread that has already been taken out of its wait queue. -/
def wake (q : Queues) (t : Thread) : Logged (Thread × Queues) := do
  let t ← t.wake
  return (t, q.push t.id)

/-- Ends a cancellable sleep; any other thread is left as it is. -/
def interrupt (q : Queues) (t : Thread) : Logged (Thread × Queues) :=
  match t.state, t.link.channel? with
  | .sleepingCancellable, some c => do
    let waiters ← demand (q.waiters? c) (.unknownChannel c)
    let (t, q) ← (q.setWaiters c (waiters.filter (· ≠ t.id))).wake t
    emit (.sleepCancelled t.id c)
    return (t, q)
  | _, _ => return (t, q)

section Moves
variable {q r : Queues} {t u : Thread}

theorem makeRunnable_eq_ok : (q.makeRunnable t).result = .ok (u, r) ↔
    t.enqueue.result = .ok u ∧ q.push u.id = r := by
  simp only [makeRunnable, bind_eq_ok, pure_eq_ok, Prod.mk.injEq]
  exact ⟨fun ⟨_, h, e, hr⟩ => by subst e; exact ⟨h, hr⟩, fun ⟨h, hr⟩ => ⟨u, h, rfl, hr⟩⟩

theorem block_eq_ok {c : Channel} {cancellable : Bool} :
    (q.block t c cancellable).result = .ok (u, r) ↔
      ∃ hs, q.waiters? c = some hs ∧ (t.block c cancellable).result = .ok u ∧
        q.setWaiters c (hs ++ [u.id]) = r := by
  simp only [block, bind_eq_ok, demand_eq_ok, emit_eq_ok, pure_eq_ok, Prod.mk.injEq, true_and,
    exists_const]
  refine exists_congr fun hs => and_congr_right fun _ => ?_
  exact ⟨fun ⟨_, h, e, hr⟩ => by subst e; exact ⟨h, hr⟩, fun ⟨h, hr⟩ => ⟨u, h, rfl, hr⟩⟩

theorem wake_eq_ok : (q.wake t).result = .ok (u, r) ↔
    t.wake.result = .ok u ∧ q.push u.id = r := by
  simp only [wake, bind_eq_ok, pure_eq_ok, Prod.mk.injEq]
  exact ⟨fun ⟨_, h, e, hr⟩ => by subst e; exact ⟨h, hr⟩, fun ⟨h, hr⟩ => ⟨u, h, rfl, hr⟩⟩

end Moves

end Queues

/-- The scheduler that the life cycle reports to. -/
inductive Hooks where
  /-- The queues of this library. -/
  | fifo
  /-- Does nothing, and leaves scheduling to somebody else. -/
  | inert
deriving DecidableEq, Repr

namespace Hooks

def makeRunnable (hooks : Hooks) (q : Queues) (t : Thread) : Logged (Thread × Queues) :=
  match hooks with
  | .fifo => q.makeRunnable t
  | .inert => return (t, q)

def cancel (hooks : Hooks) (q : Queues) (t : Thread) : Logged (Thread × Queues) :=
  match hooks with
  | .fifo => q.interrupt t
  | .inert => return (t, q)

end Hooks

end KernelThreads
