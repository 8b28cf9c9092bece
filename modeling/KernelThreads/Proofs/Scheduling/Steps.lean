import KernelThreads.Scheduling.Machine
import KernelThreads.Proofs.Thread.Occupancy

/-!
What each scheduler operation does when it returns, guards included. Later proofs
read the operations through these equivalences and do not unfold them.
-/
namespace KernelThreads

open Logged (bind_eq_ok demand_eq_ok emit_eq_ok pure_eq_ok)

namespace Queues
variable {q r : Queues} {t u : Thread}

theorem waiters?_setWaiters (q : Queues) (c d : Channel) (hs : List Handle) :
    (q.setWaiters c hs).waiters? d =
      if c = d then (q.waiters? c).map fun _ => hs else q.waiters? d := by
  cases c
  cases d
  simp only [waiters?, setWaiters, Numbered.get?_set, Channel.mk.injEq]

theorem waiters?_newChannel (q : Queues) (d : Channel) :
    q.newChannel.2.waiters? d = if d = q.newChannel.1 then some [] else q.waiters? d := by
  cases d
  simp only [waiters?, newChannel, Numbered.get?_add, Channel.mk.injEq]

/-- The channel that is to be opened next is not there yet. -/
theorem waiters?_unopened (q : Queues) : q.waiters? q.newChannel.1 = none := by
  simp [waiters?, newChannel, Numbered.add, Numbered.size, Numbered.get?]

theorem size_setWaiters (q : Queues) (c : Channel) (hs : List Handle) :
    (q.setWaiters c hs).waiting.size = q.waiting.size :=
  Numbered.size_set q.waiting c.number hs

theorem setWaiters_setWaiters (q : Queues) (c : Channel) (hs hs' : List Handle) :
    (q.setWaiters c hs).setWaiters c hs' = q.setWaiters c hs' := by
  obtain ⟨number⟩ := c
  cases number with
  | zero => rfl
  | succ number => simp [setWaiters, Numbered.set, List.set_set]

theorem setWaiters_self {c : Channel} {hs : List Handle} (hc : q.waiters? c = some hs) :
    q.setWaiters c hs = q := by
  obtain ⟨number⟩ := c
  cases number with
  | zero => rfl
  | succ number =>
    have hget : q.waiting.items[number]? = some hs := hc
    obtain ⟨hlt, rfl⟩ := List.getElem?_eq_some_iff.mp hget
    simp only [setWaiters, Numbered.set, List.set_getElem_self]

/-- The channels that there are, are those that have been numbered. -/
theorem waiters?_isSome {c : Channel} :
    (q.waiters? c).isSome = true ↔ c.number ≠ 0 ∧ c.number ≤ q.waiting.size := by
  obtain ⟨number⟩ := c
  cases number with
  | zero =>
    constructor
    · intro hopened
      cases hopened
    · rintro ⟨hnumber, -⟩
      exact absurd rfl hnumber
  | succ number =>
    have hget : q.waiters? ⟨number + 1⟩ = q.waiting.items[number]? := rfl
    rw [hget]
    constructor
    · intro hopened
      obtain ⟨hs, hhs⟩ := Option.isSome_iff_exists.mp hopened
      exact ⟨Nat.succ_ne_zero number, (List.getElem?_eq_some_iff.mp hhs).1⟩
    · rintro ⟨-, hlt⟩
      rw [List.getElem?_eq_getElem hlt, Option.isSome_some]

theorem interrupt_eq_ok : (q.interrupt t).result = .ok (u, r) ↔
    (∃ c hs, t.state = .sleepingCancellable ∧ t.link = .waitQueue c ∧ q.waiters? c = some hs ∧
        ((q.setWaiters c (hs.filter (· ≠ t.id))).wake t).result = .ok (u, r)) ∨
      (t.state ≠ .sleepingCancellable ∨ t.link.channel? = none) ∧ u = t ∧ r = q := by
  unfold interrupt
  cases hstate : t.state with
  | sleepingCancellable =>
    cases hlink : t.link with
    | waitQueue c =>
      simp [Link.channel?, bind_eq_ok, demand_eq_ok, -Logged.result_bind]
    | unlinked => simp [Link.channel?, eq_comm]
    | runQueue => simp [Link.channel?, eq_comm]
    | onCpu id => simp [Link.channel?, eq_comm]
  | runnable => simp [eq_comm]
  | sleeping => simp [eq_comm]
  | exited => simp [eq_comm]

end Queues

namespace Machine
variable {n : Nat} {m p : Machine n} {i : Fin n} {h : Handle} {t : Thread} {c : Channel}

/-- The thread `h` becomes `t` and the queues become `q`. -/
def put (m : Machine n) (h : Handle) (t : Thread) (q : Queues) : Machine n :=
  { m.setThread h t with queues := q }

@[simp] theorem put_queues (m : Machine n) (h : Handle) (t : Thread) (q : Queues) :
    (m.put h t q).queues = q := rfl

@[simp] theorem setCpu_queues (m : Machine n) (i : Fin n) (c : Cpu) :
    (m.setCpu i c).queues = m.queues := rfl

@[simp] theorem clearCpu_queues (m : Machine n) (i : Fin n) : (m.clearCpu i).queues = m.queues :=
  rfl

theorem put_put (m : Machine n) (h : Handle) (t u : Thread) (q r : Queues) :
    (m.put h t q).put h u r = m.put h u r := by
  unfold put setThread
  rw [Registry.set_set]

theorem put_self (ht : m.threads.get? h = some t) (q : Queues) :
    m.put h t q = { m with queues := q } := by
  unfold put setThread
  rw [Registry.set_self ht]

theorem setCpu_setCpu (m : Machine n) (i : Fin n) (c d : Cpu) :
    (m.setCpu i c).setCpu i d = m.setCpu i d := by
  unfold setCpu
  rw [Vector.set_set]

theorem setCpu_self (m : Machine n) (i : Fin n) : m.setCpu i (m.cpu i) = m := by
  unfold setCpu cpu
  simp

theorem onThread_eq_ok {f : Queues → Thread → Logged (Thread × Queues)} {b : Bool} :
    (m.onThread h f).result = .ok (b, p) ↔
      (m.threads.get? h = none ∧ b = false ∧ p = m) ∨
        ∃ t u q, m.threads.get? h = some t ∧ (f m.queues t).result = .ok (u, q) ∧ b = true ∧
          p = m.put h u q := by
  unfold onThread
  cases hget : m.threads.get? h with
  | none => simp [eq_comm]
  | some t =>
    simp only [bind_eq_ok, pure_eq_ok, Prod.exists, Prod.mk.injEq]
    constructor
    · rintro ⟨u, q, hf, rfl, rfl⟩
      exact .inr ⟨t, u, q, rfl, hf, rfl, rfl⟩
    · rintro (⟨hnone, -⟩ | ⟨t', u, q, ht, hf, rfl, rfl⟩)
      · cases hnone
      · cases ht
        exact ⟨u, q, hf, rfl, rfl⟩

theorem current_eq_ok : (m.current i).result = .ok t ↔
    ∃ h, (m.cpu i).thread? = some h ∧ m.threads.get? h = some t := by
  simp only [current, bind_eq_ok, demand_eq_ok]

theorem preempt_eq_ok : (m.preempt i).result = .ok p ↔
    ((m.cpu i).thread? = none ∧ p = m) ∨
      ∃ h, (m.cpu i).thread? = some h ∧
        ((∀ t, m.threads.get? h = some t → t.link ≠ .onCpu (m.cpu i).id) ∧ p = m.clearCpu i ∨
          ∃ t u q, m.threads.get? h = some t ∧ t.link = .onCpu (m.cpu i).id ∧
            (m.queues.makeRunnable t).result = .ok (u, q) ∧ p = (m.put h u q).clearCpu i) := by
  unfold preempt
  cases hcpu : (m.cpu i).thread? with
  | none => simp [eq_comm]
  | some h =>
    cases hget : m.threads.get? h with
    | none => simp [hget, eq_comm]
    | some t =>
      by_cases hlink : t.link = .onCpu (m.cpu i).id
      · simp only [hget, if_pos hlink, bind_eq_ok, pure_eq_ok, Prod.exists]
        constructor
        · rintro ⟨u, q, hq, rfl⟩
          exact .inr ⟨h, rfl, .inr ⟨t, u, q, hget, hlink, hq, rfl⟩⟩
        · rintro (⟨hnone, -⟩ | ⟨h', hh, ⟨haway, -⟩ | ⟨t', u, q, ht, -, hq, rfl⟩⟩)
          · cases hnone
          · cases hh
            exact absurd hlink (haway t hget)
          · cases hh
            cases hget.symm.trans ht
            exact ⟨u, q, hq, rfl⟩
      · simp [hget, hlink, eq_comm]

/-- The second half of a dispatch: the next thread takes processor `i`. -/
def runNext (m : Machine n) (i : Fin n) : Logged (Option Handle × Machine n) :=
  match m.queues.run with
  | [] => return (none, m)
  | h :: rest => do
    let cpu := m.cpu i
    let t ← Logged.demand (m.threads.get? h) (.staleInRunQueue h)
    let t ← t.startOn cpu.id
    Logged.emit (.dispatched cpu.id h)
    return (some h,
      { m.setThread h t with queues := { m.queues with run := rest } }.setCpu i
        (cpu.run h t.process))

theorem dispatch_eq (m : Machine n) (i : Fin n) :
    m.dispatch i = m.preempt i >>= fun p => p.runNext i := rfl

theorem runNext_eq_ok {h? : Option Handle} : (m.runNext i).result = .ok (h?, p) ↔
    (m.queues.run = [] ∧ h? = none ∧ p = m) ∨
      ∃ h rest t u, m.queues.run = h :: rest ∧ m.threads.get? h = some t ∧
        (t.startOn (m.cpu i).id).result = .ok u ∧ h? = some h ∧
          p = (m.put h u { m.queues with run := rest }).setCpu i ((m.cpu i).run h u.process) := by
  unfold runNext
  cases hrun : m.queues.run with
  | nil => simp [eq_comm]
  | cons h rest =>
    simp only [bind_eq_ok, demand_eq_ok, emit_eq_ok, pure_eq_ok, Prod.mk.injEq, true_and,
      exists_const]
    constructor
    · rintro ⟨t, ht, u, hu, rfl, rfl⟩
      exact .inr ⟨h, rest, t, u, rfl, ht, hu, rfl, rfl⟩
    · rintro (⟨hnil, -⟩ | ⟨h', rest', t, u, hcons, ht, hu, rfl, rfl⟩)
      · cases hnil
      · cases hcons
        exact ⟨t, ht, u, hu, rfl, rfl⟩

theorem dispatch_eq_ok {h? : Option Handle} : (m.dispatch i).result = .ok (h?, p) ↔
    ∃ q, (m.preempt i).result = .ok q ∧ (q.runNext i).result = .ok (h?, p) := by
  rw [dispatch_eq, bind_eq_ok]

theorem yieldCpu_eq_ok {h? : Option Handle} : (m.yieldCpu i).result = .ok (h?, p) ↔
    ∃ t, (m.current i).result = .ok t ∧
      ((m.queues.run = [] ∧ h? = none ∧ p = m) ∨
        m.queues.run ≠ [] ∧ (m.dispatch i).result = .ok (h?, p)) := by
  unfold yieldCpu
  rw [bind_eq_ok]
  refine exists_congr fun t => and_congr_right fun _ => ?_
  cases m.queues.run with
  | nil =>
    simp only [bind_eq_ok, emit_eq_ok, pure_eq_ok, Prod.mk.injEq, true_and, exists_const]
    constructor
    · rintro ⟨rfl, rfl⟩
      exact .inl ⟨rfl, rfl⟩
    · rintro (⟨rfl, rfl⟩ | ⟨hne, -⟩)
      · exact ⟨rfl, rfl⟩
      · exact absurd rfl hne
  | cons h rest => simp

theorem block_eq_ok {cancellable : Bool} : (m.block i t c cancellable).result = .ok p ↔
    ∃ u q, (m.queues.block t c cancellable).result = .ok (u, q) ∧
      p = (m.put u.id u q).clearCpu i := by
  simp only [block, bind_eq_ok, pure_eq_ok, Prod.exists]
  exact exists_congr fun u => exists_congr fun q => and_congr_right fun _ => eq_comm

theorem sleep_eq_ok : (m.sleep i c).result = .ok p ↔
    ∃ t, (m.current i).result = .ok t ∧ (m.block i t c false).result = .ok p := by
  simp only [sleep, bind_eq_ok]

theorem cancellableSleep_eq_ok {o : SleepOutcome} :
    (m.cancellableSleep i c).result = .ok (o, p) ↔
      ∃ t, (m.current i).result = .ok t ∧
        ((t.flags.cancelRequested = true ∧ o = .interrupted ∧ p = m) ∨
          t.flags.cancelRequested = false ∧ o = .blocked ∧
            (m.block i t c true).result = .ok p) := by
  unfold cancellableSleep
  rw [bind_eq_ok]
  refine exists_congr fun t => and_congr_right fun _ => ?_
  cases t.flags.cancelRequested with
  | true =>
    simp only [if_true, bind_eq_ok, emit_eq_ok, pure_eq_ok, Prod.mk.injEq, true_and, exists_const]
    constructor
    · rintro ⟨rfl, rfl⟩
      exact .inl ⟨rfl, rfl⟩
    · rintro (⟨rfl, rfl⟩ | ⟨hnot, -⟩)
      · exact ⟨rfl, rfl⟩
      · cases hnot
  | false =>
    simp only [if_neg Bool.false_ne_true, bind_eq_ok, pure_eq_ok, Prod.mk.injEq]
    constructor
    · rintro ⟨q, hq, rfl, rfl⟩
      exact .inr ⟨trivial, rfl, hq⟩
    · rintro (⟨hrequested, -⟩ | ⟨-, rfl, hq⟩)
      · cases hrequested
      · exact ⟨p, hq, rfl, rfl⟩

theorem wakeThread_eq_ok : (m.wakeThread h).result = .ok p ↔
    ∃ t u q, m.threads.get? h = some t ∧ (m.queues.wake t).result = .ok (u, q) ∧
      p = m.put h u q := by
  simp only [wakeThread, bind_eq_ok, demand_eq_ok, pure_eq_ok, Prod.exists, exists_and_left]
  refine exists_congr fun t => and_congr_right fun _ => exists_congr fun u =>
    exists_congr fun q => and_congr_right fun _ => eq_comm

theorem wakeup_eq_ok {h? : Option Handle} : (m.wakeup c).result = .ok (h?, p) ↔
    ∃ hs, m.queues.waiters? c = some hs ∧
      ((hs = [] ∧ h? = none ∧ p = m) ∨
        ∃ h rest, hs = h :: rest ∧ h? = some h ∧
          ({ m with queues := m.queues.setWaiters c rest }.wakeThread h).result = .ok p) := by
  simp only [wakeup, bind_eq_ok, demand_eq_ok]
  refine exists_congr fun hs => and_congr_right fun _ => ?_
  cases hs with
  | nil => simp [eq_comm]
  | cons h rest =>
    simp only [bind_eq_ok, pure_eq_ok, Prod.mk.injEq]
    constructor
    · rintro ⟨q, hq, rfl, rfl⟩
      exact .inr ⟨h, rest, rfl, rfl, hq⟩
    · rintro (⟨hnil, -⟩ | ⟨h', rest', hcons, rfl, hq⟩)
      · cases hnil
      · cases hcons
        exact ⟨p, hq, rfl, rfl⟩

theorem broadcast_eq_ok {count : Nat} : (m.broadcast c).result = .ok (count, p) ↔
    ∃ hs, m.queues.waiters? c = some hs ∧ count = hs.length ∧
      (hs.foldlM wakeThread { m with queues := m.queues.setWaiters c [] }).result = .ok p := by
  simp only [broadcast, bind_eq_ok, demand_eq_ok, pure_eq_ok, Prod.mk.injEq]
  refine exists_congr fun hs => and_congr_right fun _ => ?_
  constructor
  · rintro ⟨q, hq, rfl, rfl⟩
    exact ⟨rfl, hq⟩
  · rintro ⟨rfl, hq⟩
    exact ⟨p, hq, rfl, rfl⟩

theorem foldlM_wakeThread_cons {hs : List Handle} :
    ((h :: hs).foldlM wakeThread m).result = .ok p ↔
      ∃ q, (m.wakeThread h).result = .ok q ∧ (hs.foldlM wakeThread q).result = .ok p := by
  rw [List.foldlM_cons, bind_eq_ok]

end Machine

end KernelThreads
