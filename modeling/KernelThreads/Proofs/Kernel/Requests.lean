import KernelThreads.Proofs.Kernel.Cancellation
import KernelThreads.Proofs.Kernel.Faults
import KernelThreads.Proofs.Kernel.Lifecycle

/-!
What a request to end a thread changes: its result and its mark, and where the thread
stands if the request finds it in a cancellable sleep. The rest of the kernel does not
see it, and of several requests only the last one's result stays.
-/
namespace KernelThreads

variable {P O : Type} {n : Nat} {k : Kernel P O n} {m : Machine n} {i j : Fin n} {h : Handle}
  {t : Thread} {result later : UInt64}

/-- The thread after a request to end with `result`. -/
def Thread.cancelled (t : Thread) (result : UInt64) : Thread :=
  if t.state = .sleepingCancellable then
    { t.requestCancel result with state := .runnable, link := .runQueue }
  else t.requestCancel result

/-- The queues after a request to end `t`. -/
def Queues.cancelled (q : Queues) (t : Thread) : Queues :=
  match t.state, t.link.channel? with
  | .sleepingCancellable, some c => (q.setWaiters c ((q.waiters c).filter (· ≠ t.id))).push t.id
  | _, _ => q

namespace Thread

theorem cancelled_of_awake (hstate : t.state ≠ .sleepingCancellable) :
    t.cancelled result = t.requestCancel result := if_neg hstate

theorem cancelled_of_asleep (hstate : t.state = .sleepingCancellable) :
    t.cancelled result = { t.requestCancel result with state := .runnable, link := .runQueue } :=
  if_pos hstate

/-- A request leaves nobody in a cancellable sleep. -/
theorem cancelled_awake (t : Thread) (result : UInt64) :
    (t.cancelled result).state ≠ .sleepingCancellable := by
  unfold cancelled
  split
  case isTrue => simp
  case isFalse hstate => exact hstate

theorem cancelled_alive (t : Thread) (result : UInt64) (hstate : t.state ≠ .exited) :
    (t.cancelled result).state ≠ .exited := by
  unfold cancelled
  split
  case isTrue => simp
  case isFalse => exact hstate

theorem cancelled_frame (t : Thread) (result : UInt64) : t.cancelled result = { t with
    state := (t.cancelled result).state
    link := (t.cancelled result).link
    pending := some result
    flags := { t.flags with cancelRequested := true } } := by
  unfold cancelled
  split
  case isTrue => rfl
  case isFalse => rfl

/-- The last request counts. -/
theorem cancelled_cancelled (t : Thread) (result later : UInt64) :
    (t.cancelled result).cancelled later = t.cancelled later := by
  rw [cancelled_of_awake (cancelled_awake t result)]
  by_cases hstate : t.state = .sleepingCancellable
  · rw [cancelled_of_asleep hstate, cancelled_of_asleep hstate]
    rfl
  · rw [cancelled_of_awake hstate, cancelled_of_awake hstate]
    rfl

end Thread

namespace Queues

theorem cancelled_of_awake (q : Queues) (hstate : t.state ≠ .sleepingCancellable) :
    q.cancelled t = q := by
  unfold cancelled
  split
  case h_1 hasleep _ => exact absurd hasleep hstate
  case h_2 => rfl

theorem cancelled_of_asleep {q : Queues} {c : Channel} {hs : List Handle}
    (hstate : t.state = .sleepingCancellable) (hlink : t.link = .waitQueue c)
    (hc : q.waiters? c = some hs) :
    q.cancelled t = (q.setWaiters c (hs.filter (· ≠ t.id))).push t.id := by
  rw [cancelled, hstate, hlink, ← waiters_eq hc]
  rfl

end Queues

/-- In a coherent machine, nothing stands against a request. -/
theorem Machine.Coherent.interrupt_eq (hm : m.Coherent) (ht : m.threads.get? h = some t)
    (hheedful : t.Heedful) (result : UInt64) :
    (m.queues.interrupt (t.requestCancel result)).result =
      .ok (t.cancelled result, m.queues.cancelled t) := by
  apply Queues.interrupt_eq_ok.mpr
  by_cases hstate : t.state = .sleepingCancellable
  · obtain ⟨c, hlink⟩ := hheedful.found hstate
    obtain ⟨hs, hc⟩ := Option.isSome_iff_exists.mp (hm.waits_opened ht hlink)
    have hsleeping : (t.requestCancel result).state.isSleeping = true :=
      congrArg State.isSleeping hstate
    rw [Thread.cancelled_of_asleep hstate, Queues.cancelled_of_asleep hstate hlink hc]
    exact .inl ⟨c, hs, hstate, hlink, hc,
      Queues.wake_eq_ok.mpr ⟨Thread.wake_eq_ok.mpr ⟨hsleeping, rfl⟩, rfl⟩⟩
  · rw [Thread.cancelled_of_awake hstate, Queues.cancelled_of_awake _ hstate]
    exact .inr ⟨.inl hstate, rfl, rfl⟩

namespace Kernel

/-- The kernel after a request to end `t`, which `h` names. -/
def cancelled (k : Kernel P O n) (h : Handle) (t : Thread) (result : UInt64) : Kernel P O n :=
  { k with machine := k.machine.put h (t.cancelled result) (k.machine.queues.cancelled t) }

theorem cancelled_cancelled (k : Kernel P O n) (h : Handle) (t : Thread) (result later : UInt64) :
    (k.cancelled h t result).cancelled h (t.cancelled result) later = k.cancelled h t later := by
  unfold cancelled
  rw [Thread.cancelled_cancelled, Machine.put_queues,
    Queues.cancelled_of_awake _ (t.cancelled_awake result), Machine.put_put]

section Requests
variable [PageSource P] [SlotSource O]

/-- Who asks himself, exits. -/
theorem perform_cancel_self (hself : (k.machine.cpu i).thread? = some h) :
    (k.perform (.cancel i h result)).result = (k.perform (.exit i result)).result := by
  unfold perform cancel
  simp only [if_pos hself, Logged.result_bind]
  cases (k.exit i result).result with
  | ok x => rfl
  | error e => rfl

theorem perform_cancel_gone (hother : (k.machine.cpu i).thread? ≠ some h)
    (hgone : ∀ t, k.thread? h = some t → t.state = .exited) :
    (k.perform (.cancel i h result)).result = .ok (.handoff none, k) := by
  refine (reply_eq_ok .handoff).mpr ⟨none, cancel_eq_ok.mpr (.inr ⟨hother, rfl, ?_⟩), rfl⟩
  cases ht : k.thread? h with
  | none => exact .inl ⟨rfl, rfl⟩
  | some t => exact .inr ⟨t, rfl, .inl ⟨hgone t ht, rfl⟩⟩

theorem perform_cancel_other (hk : k.Placed) (hheedful : k.All Thread.Heedful)
    (ht : k.thread? h = some t) (hstate : t.state ≠ .exited)
    (hother : (k.machine.cpu i).thread? ≠ some h) (result : UInt64) :
    (k.perform (.cancel i h result)).result = .ok (.handoff none, k.cancelled h t result) := by
  have hcancel : (k.hooks.cancel k.machine.queues (t.requestCancel result)).result =
      .ok (t.cancelled result, k.machine.queues.cancelled t) := by
    rw [hk.hooks]
    exact hk.machine.interrupt_eq ht (hheedful h t ht) result
  exact (reply_eq_ok .handoff).mpr
    ⟨none, cancel_eq_ok.mpr (.inr ⟨hother, rfl, .inr ⟨t, ht, .inr ⟨hstate, _, _, hcancel, rfl⟩⟩⟩),
      rfl⟩

/-- Whatever was asked before, the later request leaves what it would have left alone. -/
theorem run_cancel_twice (hk : k.Placed) (hheedful : k.All Thread.Heedful)
    (ht : k.thread? h = some t) (hstate : t.state ≠ .exited)
    (hi : (k.machine.cpu i).thread? ≠ some h) (hj : (k.machine.cpu j).thread? ≠ some h) :
    k.run [.cancel i h result, .cancel j h later] = .ok (k.cancelled h t later) ∧
      k.run [.cancel j h later] = .ok (k.cancelled h t later) := by
  have hfirst := perform_cancel_other hk hheedful ht hstate hi result
  have hget (g : Handle) : (k.cancelled h t result).thread? g =
      if h = g then some (t.cancelled result) else k.thread? g := Registry.get?_set_live ht _ g
  have hheedful' : (k.cancelled h t result).All Thread.Heedful := by
    refine hheedful.update _ hget fun u hu => ?_
    cases hu
    exact .ofAwake (t.cancelled_awake result)
  have hstate' : (t.cancelled result).state ≠ .exited := t.cancelled_alive result hstate
  have hsecond := perform_cancel_other (hk.perform rfl hfirst) hheedful'
    ((hget h).trans (if_pos rfl)) hstate' hj later
  rw [cancelled_cancelled] at hsecond
  have halone := perform_cancel_other hk hheedful ht hstate hj later
  exact ⟨run_cons_eq_ok.mpr ⟨_, _, hfirst, run_cons_eq_ok.mpr ⟨_, _, hsecond, rfl⟩⟩,
    run_cons_eq_ok.mpr ⟨_, _, halone, rfl⟩⟩

/-- In every state of a run, a request to the thread of the caller's processor is an exit,
and one to a thread that is gone or has exited is none. Any other leaves its result and
its mark on the thread and takes it out of a cancellable sleep, to the back of the run
queue. It changes nothing else, and a later request leaves no trace of it. -/
theorem cancel_frame {config : StackConfig} {pages : P} {slots : O} {ids : Vector UInt32 n}
    {k₀ : Kernel P O n} {calls : List (Call n)}
    (hboot : (boot config pages slots ids).result = .ok k₀)
    (hmanaged : ∀ call ∈ calls, call.isManaged = true) (hrun : k₀.run calls = .ok k)
    (i : Fin n) (h : Handle) (result : UInt64) :
    ((k.machine.cpu i).thread? = some h →
      (k.perform (.cancel i h result)).result = (k.perform (.exit i result)).result ∧
        ∃ x k', (k.perform (.exit i result)).result = .ok (.handoff (some x), k')) ∧
    ((∀ t, k.thread? h = some t → t.state = .exited) →
      (k.perform (.cancel i h result)).result = .ok (.handoff none, k)) ∧
    ∀ t, k.thread? h = some t → t.state ≠ .exited → (k.machine.cpu i).thread? ≠ some h →
      (∃ u q k', (k.perform (.cancel i h result)).result = .ok (.handoff none, k') ∧
        k' = { k with machine := k.machine.put h u q } ∧
        (∀ g, k'.thread? g = if h = g then some u else k.thread? g) ∧
        u = { t with
          state := u.state
          link := u.link
          pending := some result
          flags := { t.flags with cancelRequested := true } } ∧
        (t.state = .sleepingCancellable → u.standing = (.runnable, .runQueue) ∧
          q.run = k.machine.queues.run ++ [h] ∧
          ∃ c hs, t.link = .waitQueue c ∧ k.machine.queues.waiters? c = some hs ∧
            ∀ d, q.waiters? d =
              if c = d then some (hs.filter (· ≠ h)) else k.machine.queues.waiters? d) ∧
        (t.state ≠ .sleepingCancellable →
          u.standing = t.standing ∧ q = k.machine.queues)) ∧
      ∀ j later, (k.machine.cpu j).thread? ≠ some h →
        ∃ k', k.run [.cancel i h result, .cancel j h later] = .ok k' ∧
          k.run [.cancel j h later] = .ok k' := by
  have hk := (Placed.boot hboot).run hmanaged hrun
  have hheedful : k.All Thread.Heedful := by
    refine heedful_run hboot hrun fun h c hmem => ?_
    cases hmanaged _ hmem
  refine ⟨fun hself => ⟨perform_cancel_self hself, ?_⟩, fun hgone => ?_, ?_⟩
  · obtain ⟨k', hexit, -⟩ := hk.exit_ok hself result
    exact ⟨_, k', (reply_eq_ok fun x => .handoff (some x)).mpr ⟨_, hexit, rfl⟩⟩
  · apply perform_cancel_gone _ hgone
    intro hself
    obtain ⟨t, ht, hstanding⟩ := hk.machine.running_standing hself
    cases (hgone t ht).symm.trans (congrArg Prod.fst hstanding)
  · intro t ht hstate hi
    refine ⟨⟨t.cancelled result, k.machine.queues.cancelled t, _,
      perform_cancel_other hk hheedful ht hstate hi result, rfl, Registry.get?_set_live ht _,
      ?_, fun hasleep => ?_, fun hawake => ?_⟩, fun j later hj => ?_⟩
    · exact t.cancelled_frame result
    · obtain ⟨c, hlink⟩ := (hheedful h t ht).found hasleep
      obtain ⟨hs, hc⟩ := Option.isSome_iff_exists.mp (hk.machine.waits_opened ht hlink)
      have hid : t.id = h := hk.machine.named.id_eq ht
      rw [Thread.cancelled_of_asleep hasleep, Queues.cancelled_of_asleep hasleep hlink hc, hid]
      refine ⟨rfl, rfl, c, hs, hlink, hc, fun d => ?_⟩
      refine (Queues.waiters?_setWaiters ..).trans ?_
      rw [hc]
      rfl
    · rw [Thread.cancelled_of_awake hawake, Queues.cancelled_of_awake _ hawake]
      exact ⟨rfl, rfl⟩
    · exact ⟨_, run_cancel_twice hk hheedful ht hstate hi hj⟩

end Requests

/-- Of two sleepers on a channel, the first one is asked to end. -/
theorem cancel_frame_small : ∃ k k', small.run [.newProcess .zero .running, .newChannel,
      .create 1 ⟨"first"⟩ 0 0, .create 1 ⟨"second"⟩ 0 0, .dispatch 0, .cancellableSleep 0 ⟨1⟩,
      .dispatch 0, .cancellableSleep 0 ⟨1⟩] = .ok k ∧
    (k.perform (.cancel 1 ⟨0, 1⟩ 7)).result = .ok (.handoff none, k') ∧
    k'.machine.queues.run = [⟨0, 1⟩] ∧ k'.machine.queues.waiters? ⟨1⟩ = some [⟨1, 1⟩] := by
  obtain ⟨k, hrun, hobserved⟩ := run_observe small
    [.newProcess .zero .running, .newChannel, .create 1 ⟨"first"⟩ 0 0,
      .create 1 ⟨"second"⟩ 0 0, .dispatch 0, .cancellableSleep 0 ⟨1⟩, .dispatch 0,
      .cancellableSleep 0 ⟨1⟩]
    (fun k => ((k.thread? ⟨0, 1⟩).map (·.standing), (k.machine.cpu 1).thread?,
      k.machine.queues.run, k.machine.queues.waiters? ⟨1⟩))
    (a := (some (.sleepingCancellable, .waitQueue ⟨1⟩), none, [], some [⟨0, 1⟩, ⟨1, 1⟩]))
    (by decide +kernel)
  simp only [Prod.mk.injEq] at hobserved
  obtain ⟨hstanding, hidle, hempty, hwaiting⟩ := hobserved
  obtain ⟨t, ht, hasleep⟩ := Option.map_eq_some_iff.mp hstanding
  obtain ⟨hstate, hlink⟩ := Prod.mk.inj hasleep
  obtain ⟨-, -, hasked⟩ := cancel_frame boot_small (by decide) hrun 1 ⟨0, 1⟩ 7
  obtain ⟨⟨u, q, k', hcall, rfl, -, -, hwoken, -⟩, -⟩ :=
    hasked t ht (by simp [hstate]) (by simp [hidle])
  obtain ⟨-, hqueued, c, hs, hlink', hc, hothers⟩ := hwoken hstate
  cases hlink.symm.trans hlink'
  cases hwaiting.symm.trans hc
  refine ⟨k, _, hrun, hcall, ?_, ?_⟩
  · rw [Machine.put_queues, hqueued, hempty]
    rfl
  · rw [Machine.put_queues, hothers, if_pos rfl]
    rfl

end Kernel

end KernelThreads
