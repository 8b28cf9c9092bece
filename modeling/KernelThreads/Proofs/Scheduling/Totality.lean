import KernelThreads.Proofs.Scheduling.Moves

/-!
On a coherent machine no check inside the scheduler fails: an operation stops the
machine only on an idle processor or a channel that there is not.
-/
namespace KernelThreads

theorem Cpu.isIdle_iff {c : Cpu} : c.isIdle = true ↔ c.thread? = none := by
  rw [Cpu.isIdle, Cpu.thread?, Option.isNone_iff_eq_none, Option.map_eq_none_iff]

namespace Machine.Coherent

variable {n : Nat} {m : Machine n} {i : Fin n} {h : Handle} {t : Thread} {c : Channel}

theorem preempt_ok (hm : m.Coherent) (i : Fin n) : ∃ p, (m.preempt i).result = .ok p := by
  cases hi : (m.cpu i).thread? with
  | none => exact ⟨m, preempt_eq_ok.mpr (.inl ⟨hi, rfl⟩)⟩
  | some h =>
    obtain ⟨t, ht, -⟩ := hm.running hi
    exact ⟨_, hm.preempt_eq hi ht⟩

/-- The first thread of the run queue takes the processor. -/
theorem runNext_eq {rest : List Handle} (hm : m.Coherent) (hrun : m.queues.run = h :: rest)
    (ht : m.threads.get? h = some t) (i : Fin n) : (m.runNext i).result =
      .ok (some h, (m.put h { t with link := .onCpu (m.cpu i).id }
        { m.queues with run := rest }).setCpu i ((m.cpu i).run h t.process)) := by
  obtain ⟨t', ht', hlink⟩ := hm.mem_run.mp (hrun ▸ List.mem_cons_self)
  cases ht.symm.trans ht'
  have hstate := (hm.sound h t ht).scheduled (.inl hlink)
  have hstart : (t.startOn (m.cpu i).id).result = .ok { t with link := .onCpu (m.cpu i).id } :=
    Thread.startOn_eq_ok.mpr ⟨⟨hstate, hlink⟩, rfl⟩
  exact runNext_eq_ok.mpr (.inr ⟨h, rest, t, _, hrun, ht, hstart, rfl, rfl⟩)

theorem runNext_ok (hm : m.Coherent) (i : Fin n) : ∃ h? p, (m.runNext i).result = .ok (h?, p) := by
  cases hrun : m.queues.run with
  | nil => exact ⟨none, m, runNext_eq_ok.mpr (.inl ⟨hrun, rfl, rfl⟩)⟩
  | cons h rest =>
    obtain ⟨t, ht, -⟩ := hm.mem_run.mp (hrun ▸ List.mem_cons_self)
    exact ⟨some h, _, hm.runNext_eq hrun ht i⟩

theorem dispatch_ok (hm : m.Coherent) (i : Fin n) :
    ∃ h? p, (m.dispatch i).result = .ok (h?, p) := by
  obtain ⟨q, hq⟩ := hm.preempt_ok i
  obtain ⟨h?, p, hp⟩ := (hm.preempt hq).runNext_ok i
  exact ⟨h?, p, dispatch_eq_ok.mpr ⟨q, hq, hp⟩⟩

theorem busy_of_current (ht : (m.current i).result = .ok t) : (m.cpu i).isIdle = false := by
  obtain ⟨h, hi, -⟩ := current_eq_ok.mp ht
  rw [← Bool.not_eq_true, Cpu.isIdle_iff, hi]
  simp

theorem opened_of_block {cancellable : Bool} {p : Machine n}
    (hp : (m.block i t c cancellable).result = .ok p) : (m.queues.waiters? c).isSome = true := by
  obtain ⟨u, q, hq, -⟩ := block_eq_ok.mp hp
  obtain ⟨hs, hc, -⟩ := Queues.block_eq_ok.mp hq
  exact Option.isSome_iff_exists.mpr ⟨hs, hc⟩

theorem current_ok (hm : m.Coherent) (hbusy : (m.cpu i).isIdle = false) :
    ∃ t, (m.current i).result = .ok t := by
  cases hi : (m.cpu i).thread? with
  | none =>
    rw [Cpu.isIdle_iff.mpr hi] at hbusy
    cases hbusy
  | some h =>
    obtain ⟨t, ht, -⟩ := hm.running hi
    exact ⟨t, current_eq_ok.mpr ⟨h, hi, ht⟩⟩

theorem yieldCpu_returns (hm : m.Coherent) :
    (∃ h? p, (m.yieldCpu i).result = .ok (h?, p)) ↔ (m.cpu i).isIdle = false := by
  constructor
  · rintro ⟨h?, p, hp⟩
    obtain ⟨t, ht, -⟩ := yieldCpu_eq_ok.mp hp
    exact busy_of_current ht
  · intro hbusy
    obtain ⟨t, ht⟩ := hm.current_ok hbusy
    by_cases hrun : m.queues.run = []
    · exact ⟨none, m, yieldCpu_eq_ok.mpr ⟨t, ht, .inl ⟨hrun, rfl, rfl⟩⟩⟩
    · obtain ⟨h?, p, hp⟩ := hm.dispatch_ok i
      exact ⟨h?, p, yieldCpu_eq_ok.mpr ⟨t, ht, .inr ⟨hrun, hp⟩⟩⟩

theorem block_ok (hm : m.Coherent) (ht : (m.current i).result = .ok t)
    (hc : (m.queues.waiters? c).isSome = true) (cancellable : Bool) :
    ∃ p, (m.block i t c cancellable).result = .ok p := by
  obtain ⟨hs, hc⟩ := Option.isSome_iff_exists.mp hc
  obtain ⟨h, hi, ht⟩ := current_eq_ok.mp ht
  have honCpu : t.link.isOnCpu = true := congrArg Link.isOnCpu (hm.running_link hi ht)
  have hblock : (t.block c cancellable).result = .ok { t with
      state := if cancellable then .sleepingCancellable else .sleeping
      link := .waitQueue c } :=
    Thread.block_eq_ok.mpr ⟨⟨hm.running_state hi ht, honCpu⟩, rfl⟩
  exact ⟨_, block_eq_ok.mpr ⟨_, _, Queues.block_eq_ok.mpr ⟨hs, hc, hblock, rfl⟩, rfl⟩⟩

theorem sleep_returns (hm : m.Coherent) : (∃ p, (m.sleep i c).result = .ok p) ↔
    (m.cpu i).isIdle = false ∧ (m.queues.waiters? c).isSome = true := by
  constructor
  · rintro ⟨p, hp⟩
    obtain ⟨t, ht, hp⟩ := sleep_eq_ok.mp hp
    exact ⟨busy_of_current ht, opened_of_block hp⟩
  · rintro ⟨hbusy, hc⟩
    obtain ⟨t, ht⟩ := hm.current_ok hbusy
    obtain ⟨p, hp⟩ := hm.block_ok ht hc false
    exact ⟨p, sleep_eq_ok.mpr ⟨t, ht, hp⟩⟩

theorem cancellableSleep_returns (hm : m.Coherent) :
    (∃ o p, (m.cancellableSleep i c).result = .ok (o, p)) ↔
      ∃ t, (m.current i).result = .ok t ∧
        (t.flags.cancelRequested = true ∨ (m.queues.waiters? c).isSome = true) := by
  constructor
  · rintro ⟨o, p, hp⟩
    obtain ⟨t, ht, ⟨hrequested, -⟩ | ⟨-, -, hp⟩⟩ := cancellableSleep_eq_ok.mp hp
    · exact ⟨t, ht, .inl hrequested⟩
    · exact ⟨t, ht, .inr (opened_of_block hp)⟩
  · rintro ⟨t, ht, hc⟩
    cases hrequested : t.flags.cancelRequested with
    | true =>
      exact ⟨.interrupted, m, cancellableSleep_eq_ok.mpr ⟨t, ht, .inl ⟨hrequested, rfl, rfl⟩⟩⟩
    | false =>
      obtain ⟨p, hp⟩ := hm.block_ok ht (hc.resolve_left (by simp [hrequested])) true
      exact ⟨.blocked, p, cancellableSleep_eq_ok.mpr ⟨t, ht, .inr ⟨hrequested, rfl, hp⟩⟩⟩

theorem wakeup_returns (hm : m.Coherent) : (∃ h? p, (m.wakeup c).result = .ok (h?, p)) ↔
    (m.queues.waiters? c).isSome = true := by
  constructor
  · rintro ⟨h?, p, hp⟩
    obtain ⟨hs, hc, -⟩ := wakeup_eq_ok.mp hp
    exact Option.isSome_iff_exists.mpr ⟨hs, hc⟩
  · intro hc
    obtain ⟨hs, hc⟩ := Option.isSome_iff_exists.mp hc
    cases hs with
    | nil => exact ⟨none, m, wakeup_eq_ok.mpr ⟨[], hc, .inl ⟨rfl, rfl, rfl⟩⟩⟩
    | cons h rest =>
      obtain ⟨t, ht, hlink⟩ := (hm.mem_waiters hc).mp List.mem_cons_self
      have hwake := Thread.wake_eq_ok.mpr ⟨(hm.sound h t ht).waiting c hlink, rfl⟩
      have hwoken := wakeThread_eq_ok
        (m := { m with queues := m.queues.setWaiters c rest }).mpr
          ⟨t, _, _, ht, Queues.wake_eq_ok.mpr ⟨hwake, rfl⟩, rfl⟩
      exact ⟨some h, _, wakeup_eq_ok.mpr ⟨_, hc, .inr ⟨h, rest, rfl, rfl, hwoken⟩⟩⟩

theorem broadcast_returns (hm : m.Coherent) : (∃ count p, (m.broadcast c).result = .ok (count, p)) ↔
    (m.queues.waiters? c).isSome = true := by
  constructor
  · rintro ⟨count, p, hp⟩
    obtain ⟨hs, hc, -⟩ := broadcast_eq_ok.mp hp
    exact Option.isSome_iff_exists.mpr ⟨hs, hc⟩
  · intro hc
    obtain ⟨hs, hc⟩ := Option.isSome_iff_exists.mp hc
    obtain ⟨p, hp, -⟩ := hm.wakeAll hc
    exact ⟨hs.length, p, broadcast_eq_ok.mpr ⟨hs, hc, rfl, hp⟩⟩

/-- A sleeper whose cancellation is requested can be taken out of its queue. -/
theorem interrupt_ok {v : Thread} (hm : m.Coherent) (ht : m.threads.get? h = some t)
    (hlink : v.link = t.link) : ∃ u q, (m.queues.interrupt v).result = .ok (u, q) := by
  have hkept (hno : v.state ≠ .sleepingCancellable ∨ v.link.channel? = none) :
      ∃ u q, (m.queues.interrupt v).result = .ok (u, q) :=
    ⟨v, m.queues, Queues.interrupt_eq_ok.mpr (.inr ⟨hno, rfl, rfl⟩)⟩
  by_cases hstate : v.state = .sleepingCancellable
  · cases hchannel : v.link with
    | waitQueue c =>
      obtain ⟨hs, hc⟩ := Option.isSome_iff_exists.mp (hm.waits_opened ht (hlink ▸ hchannel))
      have hwake := Thread.wake_eq_ok (t := v).mpr ⟨by rw [hstate]; rfl, rfl⟩
      exact ⟨_, _, Queues.interrupt_eq_ok.mpr
        (.inl ⟨c, hs, hstate, hchannel, hc, Queues.wake_eq_ok.mpr ⟨hwake, rfl⟩⟩)⟩
    | unlinked => exact hkept (.inr (by rw [hchannel]; rfl))
    | runQueue => exact hkept (.inr (by rw [hchannel]; rfl))
    | onCpu id => exact hkept (.inr (by rw [hchannel]; rfl))
  · exact hkept (.inl hstate)

end Machine.Coherent

end KernelThreads
