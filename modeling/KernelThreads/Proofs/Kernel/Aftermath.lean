import KernelThreads.Proofs.Kernel.Lasting
import KernelThreads.Proofs.Kernel.Requests

/-!
Requests that come too late. A thread that has exited, or whose handle is stale, is past
asking, and a request to it does nothing. Only a processor that still takes it for the
thread it runs cannot make one: there the request is an exit, and the kernel stops.
-/
namespace KernelThreads

/-- Whoever has exited is in no queue and on no processor. -/
def Thread.Released (t : Thread) : Prop := t.state = .exited → t.link = .unlinked

namespace Thread
variable {t u : Thread} {hooks : Hooks}

/-- No step but an exit lets a thread end, and an exited thread is not linked again. -/
theorem Becomes.released (h : t.Becomes u) (ht : t.Released) : u.Released := fun hu =>
  have hexited := h.exited hu
  (h.unmoved hexited).link.trans (ht hexited)

theorem Released.lasting : Lasting hooks Released where
  move _ _ hu ht := hu.becomes.released ht
  created h pid stack context q r u hu := by
    refine (Hooks.makeRunnable_becomes hu).1.released ?_
    rintro ⟨⟩
  copied t h stack context _ _ := by
    rintro ⟨⟩
  finished t u result hu _ := by
    obtain ⟨-, rfl⟩ := finish_eq_ok.mp hu
    exact fun _ => rfl

end Thread

namespace Kernel

variable {P O : Type} {n : Nat} {k₀ k : Kernel P O n} {calls : List (Call n)} {i : Fin n}
  {h : Handle} {t : Thread}

/-- The handle `h` is stale, or its thread has exited. -/
def Gone (k : Kernel P O n) (h : Handle) : Prop := ∀ t, k.thread? h = some t → t.state = .exited

variable [PageSource P] [SlotSource O] {config : StackConfig} {pages : P} {slots : O}
  {ids : Vector UInt32 n} {hooks : Hooks} {exitClearsCpu : Bool}

theorem released_run
    (hboot : (boot config pages slots ids hooks exitClearsCpu).result = .ok k₀)
    (hrun : k₀.run calls = .ok k) : k.All Thread.Released :=
  .run Thread.Released.lasting hboot hrun fun _ _ _ _ _ _ hu ht =>
    (Thread.Step.block hu).becomes.released ht

theorem perform_exit_stale (hcpu : (k.machine.cpu i).thread? = some h) (hnone : k.thread? h = none)
    (result : UInt64) : (k.perform (.exit i result)).result =
      .error (.violation (.exitOfStale h (k.machine.cpu i).id)) := by
  simp [perform, exit, hcpu, hnone, Except.bind]

theorem perform_exit_unlinked (hcpu : (k.machine.cpu i).thread? = some h)
    (ht : k.thread? h = some t) (hlink : t.link = .unlinked) (result : UInt64) :
    (k.perform (.exit i result)).result = .error (.violation (.exitWhileLinked h .unlinked)) := by
  simp [perform, exit, hcpu, ht, hlink, Link.channel?, Except.bind]

/-- In every state of every run, a request to a thread that is gone returns and changes
nothing, unless it is made on a processor that still records the thread. Made there, it
stops the kernel. No processor records such a thread where the calls are managed and the
process layer empties the processor that it takes a thread from. -/
theorem late_request
    (hboot : (boot config pages slots ids hooks exitClearsCpu).result = .ok k₀)
    (hrun : k₀.run calls = .ok k) (hgone : k.Gone h) (i : Fin n) (result : UInt64) :
    ((k.machine.cpu i).thread? ≠ some h →
      (k.perform (.cancel i h result)).result = .ok (.handoff none, k)) ∧
    ((k.machine.cpu i).thread? = some h →
      (k.thread? h = none → (k.perform (.cancel i h result)).result =
        .error (.violation (.exitOfStale h (k.machine.cpu i).id))) ∧
      ∀ t, k.thread? h = some t → (k.perform (.cancel i h result)).result =
        .error (.violation (.exitWhileLinked h .unlinked))) ∧
    (hooks = .fifo → exitClearsCpu = true → (∀ call ∈ calls, call.isManaged = true) →
      (k.machine.cpu i).thread? ≠ some h) := by
  refine ⟨fun hother => perform_cancel_gone hother hgone, fun hself => ⟨?stale, ?exited⟩, ?kept⟩
  case stale =>
    intro hnone
    rw [perform_cancel_self hself]
    exact perform_exit_stale hself hnone result
  case exited =>
    intro t ht
    rw [perform_cancel_self hself]
    exact perform_exit_unlinked hself ht (released_run hboot hrun h t ht (hgone t ht)) result
  case kept =>
    rintro rfl rfl hmanaged hself
    have hk := (Placed.boot hboot).run hmanaged hrun
    obtain ⟨t, ht, hstanding⟩ := hk.machine.running_standing hself
    cases (hgone t ht).symm.trans (congrArg Prod.fst hstanding)

/-- The small kernel under a process layer that leaves its processors alone. -/
def smallLax : Kernel Arena SlotPool 2 := { small with exitClearsCpu := false }

theorem boot_smallLax :
    (boot ⟨4096⟩ Arena.small (SlotPool.new 2) #v[0, 1] .fifo false).result = .ok smallLax := by
  rfl

/-- The thread has exited on processor 0. Processor 1 may still ask it to end, processor 0
may not. -/
theorem late_request_small : ∃ k, smallLax.run [.newProcess .zero .running,
      .create 1 ⟨"first"⟩ 0 0, .dispatch 0, .exit 0 7] = .ok k ∧ k.Gone ⟨0, 1⟩ ∧
    (k.perform (.cancel 1 ⟨0, 1⟩ 9)).result = .ok (.handoff none, k) ∧
    (k.perform (.cancel 0 ⟨0, 1⟩ 9)).result =
      .error (.violation (.exitWhileLinked ⟨0, 1⟩ .unlinked)) := by
  obtain ⟨k, hrun, hobserved⟩ := run_observe smallLax
    [.newProcess .zero .running, .create 1 ⟨"first"⟩ 0 0, .dispatch 0, .exit 0 7]
    (fun k => ((k.thread? ⟨0, 1⟩).map (·.state), (k.machine.cpu 0).thread?,
      (k.machine.cpu 1).thread?))
    (a := (some .exited, some ⟨0, 1⟩, none)) (by decide +kernel)
  simp only [Prod.mk.injEq] at hobserved
  obtain ⟨hstate, hself, hidle⟩ := hobserved
  obtain ⟨t, ht, hexited⟩ := Option.map_eq_some_iff.mp hstate
  have hgone : k.Gone ⟨0, 1⟩ := by
    intro u hu
    cases ht.symm.trans hu
    exact hexited
  obtain ⟨hother, -, -⟩ := late_request boot_smallLax hrun hgone 1 9
  obtain ⟨-, hstops, -⟩ := late_request boot_smallLax hrun hgone 0 9
  exact ⟨k, hrun, hgone, hother (by simp [hidle]), (hstops hself).2 t ht⟩

/-- An exited thread, and then its stale handle, are asked to end on the processor that
still records them, and the kernel stops. -/
theorem late_request_stops : ∃ k k', smallLax.run [.newProcess .zero .running,
      .create 1 ⟨"sum"⟩ 0 0, .dispatch 0, .exit 0 7] = .ok k ∧
    (k.thread? ⟨0, 1⟩).map (·.state) = some .exited ∧
    (k.perform (.cancel 0 ⟨0, 1⟩ 9)).result =
      .error (.violation (.exitWhileLinked ⟨0, 1⟩ .unlinked)) ∧
    k.run [.destroy ⟨0, 1⟩] = .ok k' ∧ k'.thread? ⟨0, 1⟩ = none ∧
    (k'.perform (.cancel 0 ⟨0, 1⟩ 9)).result = .error (.violation (.exitOfStale ⟨0, 1⟩ 0)) := by
  obtain ⟨k, hrun, hobserved⟩ := run_observe smallLax
    [.newProcess .zero .running, .create 1 ⟨"sum"⟩ 0 0, .dispatch 0, .exit 0 7]
    (fun k => ((k.thread? ⟨0, 1⟩).map (·.standing), (k.machine.cpu 0).thread?))
    (a := (some (.exited, .unlinked), some ⟨0, 1⟩)) (by decide +kernel)
  obtain ⟨hstanding, hself⟩ := Prod.mk.inj hobserved
  obtain ⟨t, ht, hended⟩ := Option.map_eq_some_iff.mp hstanding
  obtain ⟨hexited, hlink⟩ := Prod.mk.inj hended
  obtain ⟨k', hall, hobserved'⟩ := run_observe smallLax
    ([.newProcess .zero .running, .create 1 ⟨"sum"⟩ 0 0, .dispatch 0, .exit 0 7] ++
      [.destroy ⟨0, 1⟩])
    (fun k => (k.thread? ⟨0, 1⟩, (k.machine.cpu 0).thread?, (k.machine.cpu 0).id))
    (a := (none, some ⟨0, 1⟩, 0)) (by decide +kernel)
  simp only [Prod.mk.injEq] at hobserved'
  obtain ⟨hstale, hself', hid⟩ := hobserved'
  refine ⟨k, k', hrun, by rw [ht]; exact congrArg some hexited, ?_, run_rest hall hrun, hstale, ?_⟩
  · rw [perform_cancel_self hself]
    exact perform_exit_unlinked hself ht hlink 9
  · rw [perform_cancel_self hself', perform_exit_stale hself' hstale, hid]

end Kernel

end KernelThreads
