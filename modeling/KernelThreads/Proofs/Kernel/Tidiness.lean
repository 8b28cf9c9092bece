import KernelThreads.Proofs.Kernel.Lasting

/-!
State, link, flags and process of a thread agree. The guards of the transitions
are strong enough for that, so also calls past the scheduler, in any order, leave
every live thread as its own check wants it.
-/
namespace KernelThreads

open Logged (bind_eq_ok)

namespace Thread
variable {t u : Thread} {hooks : Hooks}

/-- A thread sleeps exactly while it waits in a queue, and is a clone exactly while it
has no process; only such a clone is runnable without a place. -/
structure Tidy (t : Thread) : Prop where
  asleep : t.state = .sleeping ∨ t.state = .sleepingCancellable ↔ ∃ c, t.link = .waitQueue c
  exited : t.state = .exited → t.link = .unlinked
  runnable : t.state = .runnable →
    t.link = .runQueue ∨ (∃ cpu, t.link = .onCpu cpu) ∨
      t.link = .unlinked ∧ t.flags.cloned = true
  cloned : t.flags.cloned = true ↔ t.process = none

theorem check_eq_ok : t.check.result = .ok () ↔ t.consistent = true := Logged.ensure_eq_ok

namespace Tidy

theorem consistent (ht : t.Tidy) : t.consistent = true := by
  unfold Thread.consistent
  cases hstate : t.state with
  | runnable =>
    rcases ht.runnable hstate with hlink | ⟨cpu, hlink⟩ | ⟨hlink, hcloned⟩
    · rw [hlink]
    · rw [hlink]
    · rw [hlink, hcloned]
  | sleeping =>
    obtain ⟨c, hlink⟩ := ht.asleep.mp (.inl hstate)
    rw [hlink]
  | sleepingCancellable =>
    obtain ⟨c, hlink⟩ := ht.asleep.mp (.inr hstate)
    rw [hlink]
  | exited => rw [ht.exited hstate]

/-- A runnable thread with a place is tidy, if it is a clone as long as it has no process. -/
theorem ofPlaced (hstate : t.state = .runnable)
    (hlink : t.link = .runQueue ∨ ∃ cpu, t.link = .onCpu cpu)
    (hcloned : t.flags.cloned = true ↔ t.process = none) : t.Tidy where
  asleep := by
    rw [hstate]
    rcases hlink with hlink | ⟨cpu, hlink⟩
    · simp [hlink]
    · simp [hlink]
  exited hexited := by
    rw [hstate] at hexited
    cases hexited
  runnable _ := hlink.imp_right .inl
  cloned := hcloned

theorem ofWaiting {c : Channel} (hstate : t.state = .sleeping ∨ t.state = .sleepingCancellable)
    (hlink : t.link = .waitQueue c) (hcloned : t.flags.cloned = true ↔ t.process = none) :
    t.Tidy where
  asleep := ⟨fun _ => ⟨c, hlink⟩, fun _ => hstate⟩
  exited hexited := by
    rw [hexited] at hstate
    simp at hstate
  runnable hrunnable := by
    rw [hrunnable] at hstate
    simp at hstate
  cloned := hcloned

/-- Only state, link, the mark of a clone and the process matter. -/
theorem congr (ht : t.Tidy) (hstate : u.state = t.state) (hlink : u.link = t.link)
    (hcloned : u.flags.cloned = t.flags.cloned) (hprocess : u.process = t.process) : u.Tidy where
  asleep := by
    rw [hstate, hlink]
    exact ht.asleep
  exited := by
    rw [hstate, hlink]
    exact ht.exited
  runnable := by
    rw [hstate, hlink, hcloned]
    exact ht.runnable
  cloned := by
    rw [hcloned, hprocess]
    exact ht.cloned

theorem block {c : Channel} {cancellable : Bool} (ht : t.Tidy)
    (hu : (t.block c cancellable).result = .ok u) : u.Tidy := by
  obtain ⟨-, rfl⟩ := block_eq_ok.mp hu
  refine ofWaiting ?_ rfl ht.cloned
  cases cancellable with
  | false => exact .inl rfl
  | true => exact .inr rfl

theorem shift (ht : t.Tidy) (hu : t.Shift u) : u.Tidy := by
  cases hu with
  | enqueue hu =>
    obtain ⟨hstate, -, rfl⟩ := enqueue_eq_ok.mp hu
    exact ofPlaced hstate (.inl rfl) ht.cloned
  | start hu =>
    obtain ⟨⟨hstate, -⟩, rfl⟩ := startOn_eq_ok.mp hu
    exact ofPlaced hstate (.inr ⟨_, rfl⟩) ht.cloned
  | sleep hu => exact ht.block hu
  | doze hfree hu => exact ht.block hu
  | wake hu =>
    obtain ⟨-, rfl⟩ := wake_eq_ok.mp hu
    exact ofPlaced rfl (.inl rfl) ht.cloned

theorem shifts (ht : t.Tidy) (hu : Relation.ReflTransGen Shift t u) : u.Tidy := by
  induction hu with
  | refl => exact ht
  | tail _ hshift ih => exact ih.shift hshift

theorem move (ht : t.Tidy) (hu : t.Move .fifo u) : u.Tidy := by
  cases hu with
  | shift hu => exact ht.shift hu
  | ask result hstate hu =>
    have hasked : (t.requestCancel result).Tidy := ht.congr rfl rfl rfl rfl
    exact hasked.shifts (Hooks.cancel_shifts hu).1
  | adopt pid context hclone hstate hlink hu =>
    -- between joining its process and its place in the queue the thread is not tidy
    obtain ⟨hu, -⟩ := Queues.makeRunnable_eq_ok.mp hu
    obtain ⟨hstate, -, rfl⟩ := enqueue_eq_ok.mp hu
    exact ofPlaced hstate (.inl rfl) (by simp)
  | errno errno => exact ht.congr rfl rfl rfl rfl
  | load context => exact ht.congr rfl rfl rfl rfl

theorem lasting : Lasting .fifo Tidy where
  move t u hu ht := ht.move hu
  created h pid stack context q r u hu := by
    obtain ⟨hu, -⟩ := Queues.makeRunnable_eq_ok.mp hu
    obtain ⟨hstate, -, rfl⟩ := enqueue_eq_ok.mp hu
    exact ofPlaced hstate (.inl rfl) (by simp)
  copied t h stack context _ _ := {
    asleep := by simp [copy]
    exited := fun hexited => nomatch hexited
    runnable := fun _ => .inr (.inr ⟨rfl, rfl⟩)
    cloned := by simp [copy] }
  finished t u result hu ht := by
    obtain ⟨-, rfl⟩ := finish_eq_ok.mp hu
    exact {
      asleep := by simp
      exited := fun _ => rfl
      runnable := fun hrunnable => nomatch hrunnable
      cloned := ht.cloned }

end Tidy

end Thread

theorem Logged.forM_eq_ok {α : Type} {f : α → Logged Unit} {l : List α} :
    (l.forM f).result = .ok () ↔ ∀ a ∈ l, (f a).result = .ok () := by
  induction l with
  | nil => simp [List.forM]
  | cons a l ih =>
    have hcons : (a :: l).forM f = f a >>= fun _ => l.forM f := rfl
    rw [hcons, bind_eq_ok]
    simp only [List.forall_mem_cons, ← ih]
    constructor
    · rintro ⟨⟨⟩, ha, hl⟩
      exact ⟨ha, hl⟩
    · rintro ⟨ha, hl⟩
      exact ⟨(), ha, hl⟩

namespace Kernel

variable {P O : Type} [PageSource P] [SlotSource O] {n : Nat} {k₀ k : Kernel P O n}
  {calls : List (Call n)} {config : StackConfig} {pages : P} {slots : O} {ids : Vector UInt32 n}
  {exitClearsCpu : Bool}

/-- In every state of every run, whatever has been called past the scheduler and
whatever processors have been told to run, every live thread is tidy and no check fails. -/
theorem threads_tidy
    (hboot : (boot config pages slots ids .fifo exitClearsCpu).result = .ok k₀)
    (hrun : k₀.run calls = .ok k) :
    (∀ h t, k.thread? h = some t → t.Tidy ∧ t.check.result = .ok ()) ∧
      k.check.result = .ok () := by
  have hnamed := named_run (named_boot hboot) hrun
  have hall : k.All Thread.Tidy :=
    .run Thread.Tidy.lasting hboot hrun fun _ _ _ _ _ _ hu ht => ht.block hu
  refine ⟨fun h t ht => ⟨hall h t ht, ?_⟩, ?_⟩
  · exact Thread.check_eq_ok.mpr (hall h t ht).consistent
  · refine Logged.forM_eq_ok.mpr fun t ht => Thread.check_eq_ok.mpr ?_
    exact (hall t.id t (hnamed.mem_threads.mp ht)).consistent

theorem threads_tidy_small : ∃ k, small.run [.newProcess .zero .running,
      .create 1 ⟨"first"⟩ 0 0, .startOn ⟨0, 1⟩ 5, .clone ⟨0, 1⟩, .block ⟨0, 1⟩ ⟨9⟩ true,
      .setRunning 1 ⟨0, 1⟩ none] = .ok k ∧ k.threadCount = 2 ∧ k.check.result = .ok () := by
  obtain ⟨k, hrun, hcount⟩ := run_observe small
    [.newProcess .zero .running, .create 1 ⟨"first"⟩ 0 0, .startOn ⟨0, 1⟩ 5, .clone ⟨0, 1⟩,
      .block ⟨0, 1⟩ ⟨9⟩ true, .setRunning 1 ⟨0, 1⟩ none]
    (fun k => k.threadCount) (a := 2) (by decide +kernel)
  obtain ⟨-, hcheck⟩ := threads_tidy boot_small hrun
  exact ⟨k, hrun, hcount, hcheck⟩

end Kernel

end KernelThreads
