import KernelThreads.Proofs.Kernel.Lasting

/-!
No request to end is lost. It stays with its thread until the thread is destroyed,
and keeps the thread, and every later clone of it, out of cancellable sleeps.
-/
namespace KernelThreads

namespace Thread
variable {t u : Thread}

/-- Whoever sleeps a cancellable sleep has not been asked to end, and waits in a queue
where a request finds him. -/
structure Heedful (t : Thread) : Prop where
  unasked : t.state = .sleepingCancellable → t.flags.cancelRequested = false
  found : t.state = .sleepingCancellable → ∃ c, t.link = .waitQueue c

namespace Heedful

theorem ofAwake (h : t.state ≠ .sleepingCancellable) : t.Heedful :=
  ⟨fun hasleep => absurd hasleep h, fun hasleep => absurd hasleep h⟩

theorem shift (hu : t.Shift u) : u.Heedful := by
  cases hu with
  | enqueue hu =>
    obtain ⟨hstate, -, rfl⟩ := enqueue_eq_ok.mp hu
    apply ofAwake
    simp [hstate]
  | start hu =>
    obtain ⟨⟨hstate, -⟩, rfl⟩ := startOn_eq_ok.mp hu
    apply ofAwake
    simp [hstate]
  | sleep hu =>
    obtain ⟨-, rfl⟩ := block_eq_ok.mp hu
    apply ofAwake
    simp
  | @doze c hfree hu =>
    obtain ⟨-, rfl⟩ := block_eq_ok.mp hu
    exact ⟨fun _ => hfree, fun _ => ⟨c, rfl⟩⟩
  | wake hu =>
    obtain ⟨-, rfl⟩ := wake_eq_ok.mp hu
    apply ofAwake
    simp

/-- A request ends a cancellable sleep, since the sleeper is in the queue of its channel. -/
theorem ask {result : UInt64} {q r : Queues} (ht : t.Heedful)
    (hu : (q.interrupt (t.requestCancel result)).result = .ok (u, r)) : u.Heedful := by
  rcases Queues.interrupt_eq_ok.mp hu with ⟨c, hs, -, -, -, hwoken⟩ | ⟨hmissed, rfl, -⟩
  · obtain ⟨hwake, -⟩ := Queues.wake_eq_ok.mp hwoken
    exact shift (.wake hwake)
  · apply ofAwake
    intro hasleep
    obtain ⟨c, hlink⟩ := ht.found hasleep
    rcases hmissed with hawake | hchannel
    · exact hawake hasleep
    · rw [show (t.requestCancel result).link = .waitQueue c from hlink] at hchannel
      cases hchannel

theorem move (ht : t.Heedful) (hu : t.Move .fifo u) : u.Heedful := by
  cases hu with
  | shift hu => exact shift hu
  | ask result hstate hu => exact ht.ask hu
  | adopt pid context hclone hstate hlink hu =>
    obtain ⟨hu, -⟩ := Queues.makeRunnable_eq_ok.mp hu
    exact shift (.enqueue hu)
  | errno errno => exact ⟨ht.unasked, ht.found⟩
  | load context => exact ⟨ht.unasked, ht.found⟩

theorem lasting : Lasting .fifo Heedful where
  move t u hu ht := ht.move hu
  created h pid stack context q r u hu := shift (.enqueue (Queues.makeRunnable_eq_ok.mp hu).1)
  copied t h stack context _ _ := ofAwake (by simp [copy])
  finished t u result hu _ := by
    obtain ⟨-, rfl⟩ := finish_eq_ok.mp hu
    exact ofAwake (by simp)

end Heedful

theorem Step.asked (h : t.Step u) (ht : t.flags.cancelRequested = true) :
    u.flags.cancelRequested = true := by
  cases h with
  | enqueue h => obtain ⟨-, -, rfl⟩ := enqueue_eq_ok.mp h; exact ht
  | start h => obtain ⟨-, rfl⟩ := startOn_eq_ok.mp h; exact ht
  | block h => obtain ⟨-, rfl⟩ := block_eq_ok.mp h; exact ht
  | wake h => obtain ⟨-, rfl⟩ := wake_eq_ok.mp h; exact ht
  | request result h => rfl
  | adopt pid context hclone hstate hlink => exact ht
  | errno errno => exact ht
  | load context => exact ht

theorem Becomes.asked (h : t.Becomes u) (ht : t.flags.cancelRequested = true) :
    u.flags.cancelRequested = true := by
  induction h with
  | refl => exact ht
  | tail _ huv ih => exact huv.asked ih

end Thread

namespace Kernel

variable {P O : Type} {n : Nat} {k₀ k k' : Kernel P O n} {call : Call n} {calls : List (Call n)}
  {reply : Reply} {h source : Handle} {t : Thread} {i : Fin n} {result : UInt64}

/-- The live thread `h` has been asked to end. -/
def Asked (k : Kernel P O n) (h : Handle) : Prop :=
  ∃ t, k.thread? h = some t ∧ t.flags.cancelRequested = true

/-- The live thread `h` has been asked to end, and is not in a cancellable sleep. -/
def Heeds (k : Kernel P O n) (h : Handle) : Prop :=
  ∃ t, k.thread? h = some t ∧ t.flags.cancelRequested = true ∧ t.state ≠ .sleepingCancellable

theorem Asked.heeds (hk : k.All Thread.Heedful) (hh : k.Asked h) : k.Heeds h := by
  obtain ⟨t, ht, hasked⟩ := hh
  refine ⟨t, ht, hasked, fun hasleep => ?_⟩
  cases ((hk h t ht).unasked hasleep).symm.trans hasked

variable [PageSource P] [SlotSource O]

theorem Transition.asked (hk : k.Transition call reply k') (hh : k.Asked h)
    (hcall : call ≠ .destroy h) : k'.Asked h := by
  obtain ⟨t, ht, hasked⟩ := hh
  obtain ⟨u, hu, hbecomes | ⟨result, hfinish⟩⟩ := hk.stays ht hcall
  · exact ⟨u, hu, hbecomes.asked hasked⟩
  · obtain ⟨-, rfl⟩ := Thread.finish_eq_ok.mp hfinish
    exact ⟨_, hu, hasked⟩

theorem Asked.run (hh : k.Asked h) (hk : k.machine.threads.Named) (hrun : k.run calls = .ok k')
    (hkept : .destroy h ∉ calls) : k'.Asked h := by
  have hboth : k'.machine.threads.Named ∧ k'.Asked h := by
    refine run_invariant (I := fun k => k.machine.threads.Named ∧ k.Asked h) hrun ⟨hk, hh⟩ ?_
    intro k call reply k' hmem hk hcall
    have htransition := perform_transition hk.1 hcall
    refine ⟨htransition.named hk.1, htransition.asked hk.2 ?_⟩
    rintro rfl
    exact hkept hmem
  exact hboth.2

/-- A request to a live thread that has not exited and does not run on `i` reaches it. -/
theorem asked_of_cancel (hcall : (k.perform (.cancel i h result)).result = .ok (reply, k'))
    (ht : k.thread? h = some t) (hstate : t.state ≠ .exited)
    (hcpu : (k.machine.cpu i).thread? ≠ some h) : k'.Asked h := by
  obtain ⟨x?, hcancel, -⟩ := (reply_eq_ok .handoff).mp hcall
  rcases cancel_eq_ok.mp hcancel with ⟨hself, -⟩ | ⟨-, -, ⟨hnone, -⟩ | ⟨t', ht', hrest⟩⟩
  · exact absurd hself hcpu
  · cases hnone.symm.trans ht
  · cases ht'.symm.trans ht
    rcases hrest with ⟨hexited, -⟩ | ⟨-, u, q, hu, rfl⟩
    · exact absurd hexited hstate
    · refine ⟨u, ?_, (Hooks.cancel_becomes hu).1.asked rfl⟩
      exact (Registry.get?_set_live ht u h).trans (if_pos rfl)

/-- A clone takes the request over. -/
theorem asked_of_clone (hcall : (k.perform (.clone source)).result = .ok (.made (.ok h), k'))
    (hsource : k.Asked source) : k'.Asked h := by
  obtain ⟨r, hclone, hr⟩ := (reply_eq_ok .made).mp hcall
  cases hr
  obtain ⟨t, ht, hasked⟩ := hsource
  obtain ⟨t', ht', -, ⟨e, -, hr⟩ | ⟨h', stack, context, k₁, -, -, hhouse, hr⟩⟩ :=
    clone_eq_ok.mp hclone
  · cases hr
  · cases hr
    cases ht'.symm.trans ht
    exact ⟨_, house_thread hhouse, hasked⟩

/-- Whoever blocks through the scheduler, sleeps heedfully. -/
theorem heedful_run {config : StackConfig} {pages : P} {slots : O} {ids : Vector UInt32 n}
    {exitClearsCpu : Bool}
    (hboot : (boot config pages slots ids .fifo exitClearsCpu).result = .ok k₀)
    (hrun : k₀.run calls = .ok k) (hscheduled : ∀ h c, .block h c true ∉ calls) :
    k.All Thread.Heedful := by
  refine .run Thread.Heedful.lasting hboot hrun fun h c cancellable hmem t u hu _ => ?_
  obtain ⟨-, rfl⟩ := Thread.block_eq_ok.mp hu
  cases cancellable with
  | false => exact .ofAwake (by simp)
  | true => exact absurd hmem (hscheduled h c)

/-- In every state of a run whose only blocks are those of the scheduler, nobody who has
been asked to end is in a cancellable sleep. A request stays until its thread is
destroyed, so from a cancellation on its target, and from then on every clone of the
target, is in no such sleep. -/
theorem cancellation_kept {config : StackConfig} {pages : P} {slots : O} {ids : Vector UInt32 n}
    {exitClearsCpu : Bool}
    (hboot : (boot config pages slots ids .fifo exitClearsCpu).result = .ok k₀)
    (hrun : k₀.run calls = .ok k) (hscheduled : ∀ h c, .block h c true ∉ calls) :
    (∀ h t, k.thread? h = some t → t.state = .sleepingCancellable →
      t.flags.cancelRequested = false) ∧
    (∀ before after k₁ h, calls = before ++ after → k₀.run before = .ok k₁ → k₁.Asked h →
      .destroy h ∉ after → k.Asked h) ∧
    ∀ before call after k₁ reply k₂, calls = before ++ call :: after → k₀.run before = .ok k₁ →
      (k₁.perform call).result = .ok (reply, k₂) →
        (∀ i h result t, call = .cancel i h result → k₁.thread? h = some t → t.state ≠ .exited →
          (k₁.machine.cpu i).thread? ≠ some h → .destroy h ∉ after → k.Heeds h) ∧
        ∀ source h, call = .clone source → reply = .made (.ok h) → k₁.Asked source →
          .destroy h ∉ after → k.Heeds h := by
  have hnamed := named_boot hboot
  have hall := heedful_run hboot hrun hscheduled
  refine ⟨fun h t ht hasleep => (hall h t ht).unasked hasleep, ?_, ?_⟩
  · rintro before after k₁ h rfl hbefore hh hkept
    exact hh.run (named_run hnamed hbefore) (run_rest hrun hbefore) hkept
  · rintro before call after k₁ reply k₂ rfl hbefore hcall
    have hrest : k₂.run after = .ok k := run_tail (run_rest hrun hbefore) hcall
    have hnamed₂ := (perform_transition (named_run hnamed hbefore) hcall).named
      (named_run hnamed hbefore)
    constructor
    · rintro i h result t rfl ht hstate hcpu hkept
      exact ((asked_of_cancel hcall ht hstate hcpu).run hnamed₂ hrest hkept).heeds hall
    · rintro source h rfl rfl hsource hkept
      exact ((asked_of_clone hcall hsource).run hnamed₂ hrest hkept).heeds hall

/-- The request comes during the sleep; the second sleep is refused. -/
theorem cancellation_kept_small : ∃ k, small.run ([.newProcess .zero .running,
      .create 1 ⟨"first"⟩ 0 0, .newChannel, .dispatch 0, .cancellableSleep 0 ⟨1⟩] ++
        .cancel 1 ⟨0, 1⟩ 7 :: [.dispatch 0, .cancellableSleep 0 ⟨1⟩]) = .ok k ∧
    k.Heeds ⟨0, 1⟩ := by
  obtain ⟨k, hrun, -⟩ := run_observe small
    ([.newProcess .zero .running, .create 1 ⟨"first"⟩ 0 0, .newChannel, .dispatch 0,
      .cancellableSleep 0 ⟨1⟩] ++
        .cancel 1 ⟨0, 1⟩ 7 :: [.dispatch 0, .cancellableSleep 0 ⟨1⟩])
    (fun k => k.threadCount) (a := 1) (by decide +kernel)
  obtain ⟨k₁, hbefore, hsleeper⟩ := run_observe small
    [.newProcess .zero .running, .create 1 ⟨"first"⟩ 0 0, .newChannel, .dispatch 0,
      .cancellableSleep 0 ⟨1⟩]
    (fun k => ((k.thread? ⟨0, 1⟩).map (·.state), (k.machine.cpu 1).thread?))
    (a := (some .sleepingCancellable, none)) (by decide +kernel)
  obtain ⟨hstate, hcpu⟩ := Prod.mk.inj hsleeper
  obtain ⟨t, ht, hasleep⟩ := Option.map_eq_some_iff.mp hstate
  obtain ⟨reply, k₂, hcall, -⟩ := run_cons_eq_ok.mp (run_rest hrun hbefore)
  obtain ⟨-, -, hkept⟩ := cancellation_kept boot_small hrun (by simp)
  obtain ⟨hcancel, -⟩ := hkept _ _ _ k₁ reply k₂ rfl hbefore hcall
  refine ⟨k, hrun, hcancel 1 ⟨0, 1⟩ 7 t rfl ht ?_ ?_ (by simp)⟩
  · rw [hasleep]
    decide
  · rw [hcpu]
    decide

end Kernel

end KernelThreads
