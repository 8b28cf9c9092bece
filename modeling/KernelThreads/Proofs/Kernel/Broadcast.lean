import KernelThreads.Proofs.Kernel.Processors
import KernelThreads.Proofs.Kernel.Waiting

/-!
A broadcast is as many wakeups as there are waiters. The broadcast empties the wait queue before
it wakes the first of them, and a wakeup takes out only the one that it wakes, but what they leave
in the end is the same.
-/
namespace KernelThreads.Kernel

variable {P O : Type} {n : Nat} {k₀ k k' k'' : Kernel P O n} {calls : List (Call n)}
  {c : Channel} {h : Handle} {hs hs' : List Handle} {m : Machine n}

/-- The waiters of `c` are at the back of the run queue, the oldest first, and nothing else is
different. -/
structure Emptied (k : Kernel P O n) (c : Channel) (k' : Kernel P O n) : Prop where
  run : k'.machine.queues.run = k.machine.queues.run ++ k.waiters c
  waiters : ∀ d, k'.waiters d = if c = d then [] else k.waiters d
  woken : ∀ h ∈ k.waiters c, ∃ t, k.thread? h = some t ∧
    k'.thread? h = some { t with state := .runnable, link := .runQueue }
  others : ∀ h ∉ k.waiters c, k'.thread? h = k.thread? h
  rest : k' = { k with machine := { k.machine with
    threads := k'.machine.threads, queues := k'.machine.queues } }

theorem Placed.emptied (hk : k.Placed) (hc : k.machine.queues.waiters? c = some hs)
    (hwoken : (hs.foldlM Machine.wakeThread
      { k.machine with queues := k.machine.queues.setWaiters c [] }).result = .ok m) :
    k.Emptied c { k with machine := m } := by
  have hcpus : m.cpus = k.machine.cpus := (Machine.wakeAll_cpus hwoken).trans rfl
  obtain ⟨hwaiting, hrun, hothers, hwoken⟩ :=
    Machine.wakeAll_order (m := { k.machine with queues := k.machine.queues.setWaiters c [] })
      hk.machine.named hwoken
  have hwaiters : k.waiters c = hs := Queues.waiters_eq hc
  rw [← hwaiters] at hrun hothers hwoken
  refine ⟨hrun, fun d => ?_, hwoken, hothers, ?_⟩
  · rw [waiters, Queues.waiters, Queues.waiters?, hwaiting]
    exact Queues.waiters_setWaiters hc [] d
  · exact congrArg (fun cpus => { k with machine := { m with cpus } }) hcpus

/-- Who waits in another channel, runs or has ended does not wait in `c`. -/
theorem Placed.not_waiting {t : Thread} (hk : k.Placed) (ht : k.thread? h = some t)
    (haway : (∃ d, d ≠ c ∧ t.link = .waitQueue d) ∨
      (∃ i, (k.machine.cpu i).thread? = some h) ∨ t.state = .exited) : h ∉ k.waiters c := by
  intro hmem
  obtain ⟨t', ht', hlink⟩ := hk.machine.mem_waiting.mp hmem
  cases ht.symm.trans ht'
  rcases haway with ⟨d, hd, hwaits⟩ | ⟨i, hi⟩ | hended
  · cases hlink.symm.trans hwaits
    exact hd rfl
  · cases hlink.symm.trans (hk.machine.running_link hi ht)
  · cases hlink.symm.trans ((hk.machine.sound h t ht).ended hended)

variable [PageSource P] [SlotSource O]

/-- Wakeups of `c` until one finds nobody: whom they wake, in turn, and what they leave. -/
inductive Drains (c : Channel) : Kernel P O n → List Handle → Kernel P O n → Prop where
  | done {k k' : Kernel P O n} :
      (k.perform (.wakeup c)).result = .ok (.thread none, k') → Drains c k [] k'
  | next {k k₁ k' : Kernel P O n} {h : Handle} {hs : List Handle} :
      (k.perform (.wakeup c)).result = .ok (.thread (some h), k₁) → Drains c k₁ hs k' →
        Drains c k (h :: hs) k'

theorem Drains.unique (hk' : Drains c k hs k') (hk'' : Drains c k hs' k'') :
    hs = hs' ∧ k' = k'' := by
  induction hk' generalizing hs' with
  | done hlast =>
    cases hk'' with
    | done hlast' =>
      cases hlast.symm.trans hlast'
      exact ⟨rfl, rfl⟩
    | next hfirst => cases hlast.symm.trans hfirst
  | next hfirst _ ih =>
    cases hk'' with
    | done hlast => cases hfirst.symm.trans hlast
    | next hfirst' hrest' =>
      cases hfirst.symm.trans hfirst'
      obtain ⟨rfl, rfl⟩ := ih hrest'
      exact ⟨rfl, rfl⟩

theorem Placed.drains (hk : k.Placed) (hc : k.machine.queues.waiters? c = some hs)
    (hwoken : (hs.foldlM Machine.wakeThread
      { k.machine with queues := k.machine.queues.setWaiters c [] }).result = .ok m) :
    Drains c k hs { k with machine := m } := by
  -- the first wakeup leaves a kernel in which the broadcast has one thread less to wake
  induction hs generalizing k with
  | nil =>
    rw [Queues.setWaiters_self hc] at hwoken
    cases hwoken
    have hnobody := Machine.wakeup_eq_ok.mpr ⟨[], hc, .inl ⟨rfl, rfl, rfl⟩⟩
    exact .done (onMachine_eq_ok.mpr ⟨none, k.machine, hnobody, rfl, rfl⟩)
  | cons h rest ih =>
    obtain ⟨q, hwakeup, hrest, hfirst⟩ := hk.machine.wakeFirst hc
    obtain ⟨q', hfirst', hwoken⟩ := Machine.foldlM_wakeThread_cons.mp hwoken
    cases hfirst.symm.trans hfirst'
    have hcall : (k.perform (.wakeup c)).result = .ok (.thread (some h), { k with machine := q }) :=
      onMachine_eq_ok.mpr ⟨some h, q, hwakeup, rfl, rfl⟩
    exact .next hcall (ih (hk.perform rfl hcall) hrest hwoken)

/-- At any time, a broadcast on a channel that has been opened leaves exactly what wakeups leave
that go on until one finds nobody, and counts the threads that they wake. These are the waiters in
their order, who queue up behind all that are in the run queue, and nobody else is touched. -/
theorem broadcast_drains {config : StackConfig} {pages : P} {slots : O} {ids : Vector UInt32 n}
    (hboot : (boot config pages slots ids).result = .ok k₀)
    (hmanaged : ∀ call ∈ calls, call.isManaged = true) (hrun : k₀.run calls = .ok k)
    (hopened : Occurs (fun _ call reply _ => call = .newChannel ∧ reply = .channel c) k₀ calls) :
    ∃ k', (k.perform (.broadcast c)).result = .ok (.woken (k.waiters c).length, k') ∧
      (∀ hs k'', Drains c k hs k'' ↔ hs = k.waiters c ∧ k'' = k') ∧
      k.Emptied c k' ∧
      ∀ h t, k.thread? h = some t → ((∃ d, d ≠ c ∧ t.link = .waitQueue d) ∨
        (∃ i, (k.machine.cpu i).thread? = some h) ∨ t.state = .exited) →
          k'.thread? h = some t := by
  have hk := (Placed.boot hboot).run hmanaged hrun
  obtain ⟨hs, hc⟩ := Option.isSome_iff_exists.mp ((opened_iff hboot hrun c).mpr hopened)
  obtain ⟨m, hwoken, -⟩ := hk.machine.wakeAll hc
  have hbroadcast := Machine.broadcast_eq_ok.mpr ⟨hs, hc, rfl, hwoken⟩
  have hwaiters : k.waiters c = hs := Queues.waiters_eq hc
  have hdrains := hk.drains hc hwoken
  have hemptied := hk.emptied hc hwoken
  refine ⟨{ k with machine := m }, onMachine_eq_ok.mpr ⟨_, m, hbroadcast, hwaiters ▸ rfl, rfl⟩,
    fun hs' k'' => ⟨fun hdrains' => ?_, ?_⟩, hemptied, fun h t ht haway => ?_⟩
  · rw [hwaiters]
    exact hdrains'.unique hdrains
  · rintro ⟨rfl, rfl⟩
    rwa [hwaiters]
  · exact (hemptied.others h (hk.not_waiting ht haway)).trans ht

theorem broadcast_drains_small : ∃ k k', small.run [.newProcess .zero .running, .newChannel,
      .create 1 ⟨"first"⟩ 0 0, .create 1 ⟨"second"⟩ 0 0, .dispatch 0, .cancellableSleep 0 ⟨1⟩,
      .dispatch 0, .sleep 0 ⟨1⟩] = .ok k ∧
    (k.perform (.broadcast ⟨1⟩)).result = .ok (.woken 2, k') ∧
    Drains ⟨1⟩ k [⟨0, 1⟩, ⟨1, 1⟩] k' ∧ k'.machine.queues.run = [⟨0, 1⟩, ⟨1, 1⟩] := by
  obtain ⟨k, hrun, hobserved⟩ := run_observe small
    [.newProcess .zero .running, .newChannel, .create 1 ⟨"first"⟩ 0 0, .create 1 ⟨"second"⟩ 0 0,
      .dispatch 0, .cancellableSleep 0 ⟨1⟩, .dispatch 0, .sleep 0 ⟨1⟩]
    (fun k => (k.machine.queues.waiters? ⟨1⟩, k.machine.queues.run))
    (a := (some [⟨0, 1⟩, ⟨1, 1⟩], [])) (by decide +kernel)
  obtain ⟨hc, hempty⟩ := Prod.mk.inj hobserved
  have hwaiters : k.waiters ⟨1⟩ = [⟨0, 1⟩, ⟨1, 1⟩] := Queues.waiters_eq hc
  have hopened := (opened_iff boot_small hrun ⟨1⟩).mp (by rw [hc]; rfl)
  obtain ⟨k', hcall, hdrains, hemptied, -⟩ :=
    broadcast_drains boot_small (by decide) hrun hopened
  rw [hwaiters] at hcall hdrains
  have hqueued := hemptied.run
  rw [hempty, hwaiters] at hqueued
  exact ⟨k, k', hrun, hcall, (hdrains _ _).mpr ⟨rfl, rfl⟩, hqueued⟩

end KernelThreads.Kernel
