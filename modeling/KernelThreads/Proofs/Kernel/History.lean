import KernelThreads.Proofs.Kernel.Run

/-!
Facts of every run, whatever its calls: live threads are found by their own
handles, and the channels that there are have been opened in the run.
-/
namespace KernelThreads.Kernel

variable {P O : Type} [PageSource P] [SlotSource O] {n : Nat} {k₀ k k' : Kernel P O n}
  {call : Call n} {calls : List (Call n)} {reply : Reply} {c : Channel}
  {config : StackConfig} {pages : P} {slots : O} {ids : Vector UInt32 n} {hooks : Hooks}
  {exitClearsCpu : Bool}

/-- No call changes how the kernel has been set up. -/
theorem Transition.settings (h : k.Transition call reply k') :
    k'.config = k.config ∧ k'.hooks = k.hooks ∧ k'.exitClearsCpu = k.exitClearsCpu := by
  cases h with
  | quiet hcontinues hreply =>
    exact ⟨hcontinues.config, hcontinues.hooks, hcontinues.exitClearsCpu⟩
  | opened => exact ⟨rfl, rfl, rfl⟩
  | refused hreserve =>
    obtain ⟨threads, hk', -⟩ := reserve_frame hreserve
    rw [hk']
    exact ⟨rfl, rfl, rfl⟩
  | made hreserve hstate hlink hhouse hrest =>
    obtain ⟨threads, hk₁, -⟩ := reserve_frame hreserve
    obtain ⟨threads', -, rfl⟩ := house_eq_ok.mp hhouse
    rw [hrest.config, hrest.hooks, hrest.exitClearsCpu, hk₁]
    exact ⟨rfl, rfl, rfl⟩
  | destroyed hdestroy =>
    obtain ⟨t, -, -, -, hk'⟩ := destroy_frame hdestroy
    rw [hk']
    exact ⟨rfl, rfl, rfl⟩
  | ended hcall hcpu hexit =>
    obtain ⟨h, t, u, -, -, -, -, -, -, rfl⟩ := exit_eq_ok.mp hexit
    exact ⟨rfl, rfl, rfl⟩

theorem named_reserve {r : Except Exhausted (Handle × Stack)} (hk : k.machine.threads.Named)
    (hreserve : k.reserve.result = .ok (r, k')) : k'.machine.threads.Named := by
  obtain ⟨threads, hk', rfl | ⟨slot, h, hissue⟩⟩ := reserve_frame hreserve
  · rw [hk']
    exact hk
  · rw [hk']
    exact Registry.named_issue hk hissue

theorem Transition.named (hk : k.machine.threads.Named) (h : k.Transition call reply k') :
    k'.machine.threads.Named := by
  cases h with
  | quiet hcontinues hreply => exact hcontinues.machine.named hk
  | opened => exact hk
  | refused hreserve => exact named_reserve hk hreserve
  | made hreserve hstate hlink hhouse hrest =>
    obtain ⟨threads, hinsert, rfl⟩ := house_eq_ok.mp hhouse
    exact hrest.machine.named (Registry.named_insert (named_reserve hk hreserve) hinsert)
  | destroyed hdestroy =>
    obtain ⟨t, -, -, -, hk'⟩ := destroy_frame hdestroy
    rw [hk']
    exact Registry.named_erase hk _
  | ended hcall hcpu hexit =>
    obtain ⟨h, t, u, -, ht, -, -, hfinish, -, rfl⟩ := exit_eq_ok.mp hexit
    obtain ⟨-, rfl⟩ := Thread.finish_eq_ok.mp hfinish
    rw [ended_threads]
    exact Registry.named_set hk ht rfl

omit [PageSource P] in
theorem named_boot (hboot : (boot config pages slots ids hooks exitClearsCpu).result = .ok k) :
    k.machine.threads.Named := by
  obtain ⟨-, rfl⟩ := boot_eq_ok.mp hboot
  exact Registry.named_new _

theorem named_run (hk₀ : k₀.machine.threads.Named) (hrun : k₀.run calls = .ok k) :
    k.machine.threads.Named :=
  run_invariant hrun hk₀ fun _ _ _ _ _ hk hcall => (perform_transition hk hcall).named hk

theorem settings_run (hk₀ : k₀.machine.threads.Named) (hrun : k₀.run calls = .ok k) :
    k.config = k₀.config ∧ k.hooks = k₀.hooks ∧ k.exitClearsCpu = k₀.exitClearsCpu := by
  induction hrun using run_induction with
  | start => exact ⟨rfl, rfl, rfl⟩
  | call k calls call reply k' hbefore hcall ih =>
    obtain ⟨hconfig, hhooks, hclears⟩ :=
      (perform_transition (named_run hk₀ hbefore) hcall).settings
    exact ⟨hconfig.trans ih.1, hhooks.trans ih.2.1, hclears.trans ih.2.2⟩

/-- Only a call that opens a channel changes which channels there are. -/
theorem Transition.waiters?_isSome (h : k.Transition call reply k') (c : Channel) :
    (k'.machine.queues.waiters? c).isSome = true ↔
      (k.machine.queues.waiters? c).isSome = true ∨ call = .newChannel ∧ reply = .channel c := by
  have hkept {reply : Reply}
      (hsize : k'.machine.queues.waiting.size = k.machine.queues.waiting.size)
      (hreply : reply ≠ .channel c) : (k'.machine.queues.waiters? c).isSome = true ↔
        (k.machine.queues.waiters? c).isSome = true ∨
          call = .newChannel ∧ reply = .channel c := by
    rw [Queues.waiters?_isSome, Queues.waiters?_isSome, hsize]
    simp [hreply]
  cases h with
  | quiet hcontinues hreply =>
    apply hkept hcontinues.machine.channels
    intro e
    rw [e] at hreply
    cases hreply
  | opened =>
    rw [Queues.waiters?_newChannel]
    by_cases hc : c = k.machine.queues.newChannel.1
    · simp [hc]
    · simp [hc, Ne.symm hc]
  | refused hreserve =>
    rw [reserve_queues hreserve]
    simp
  | made hreserve hstate hlink hhouse hrest =>
    obtain ⟨threads, -, rfl⟩ := house_eq_ok.mp hhouse
    have hsize := hrest.machine.channels
    rw [reserve_queues hreserve] at hsize
    exact hkept hsize (by simp)
  | destroyed hdestroy =>
    obtain ⟨t, -, -, -, hk'⟩ := destroy_frame hdestroy
    rw [hk']
    simp
  | ended hcall hcpu hexit =>
    obtain ⟨h, t, u, -, -, -, -, -, -, rfl⟩ := exit_eq_ok.mp hexit
    rw [ended_queues]
    simp

/-- The channels of a kernel are those that calls have opened. -/
theorem opened_iff (hboot : (boot config pages slots ids hooks exitClearsCpu).result = .ok k₀)
    (hrun : k₀.run calls = .ok k) (c : Channel) :
    (k.machine.queues.waiters? c).isSome = true ↔
      Occurs (fun _ call reply _ => call = .newChannel ∧ reply = .channel c) k₀ calls := by
  induction hrun using run_induction with
  | start =>
    obtain ⟨-, rfl⟩ := boot_eq_ok.mp hboot
    have hnone : ({} : Queues).waiters? c = none := by
      unfold Queues.waiters?
      cases c.number <;> rfl
    simp [hnone, Occurs]
  | call k calls call reply k' hbefore hcall ih =>
    rw [occurs_concat hbefore hcall, ← ih]
    exact (perform_transition (named_run (named_boot hboot) hbefore) hcall).waiters?_isSome c

end KernelThreads.Kernel
