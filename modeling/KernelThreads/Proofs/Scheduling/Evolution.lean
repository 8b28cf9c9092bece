import KernelThreads.Proofs.Scheduling.Steps
import KernelThreads.Proofs.Thread.Occupancy
import KernelThreads.Proofs.Thread.Progress

/-!
What scheduling leaves alone: threads stay in their slots and only make progress
there, no channel comes or goes, and processors keep their ids.
-/
namespace KernelThreads.Machine

open Relation (ReflTransGen)

variable {n : Nat} {m p q : Machine n} {i : Fin n} {h : Handle} {t u : Thread} {c : Channel}
  {R S : Thread → Thread → Prop}

/-- Every thread stays in its slot and takes some steps of `R` there. -/
structure Carries (R : Thread → Thread → Prop) (m p : Machine n) : Prop where
  threads : m.threads.Related (ReflTransGen R) p.threads
  channels : p.queues.waiting.size = m.queues.waiting.size
  ids : ∀ i, (p.cpu i).id = (m.cpu i).id

namespace Carries

theorem refl (m : Machine n) : m.Carries R m :=
  ⟨.refl (fun _ => .refl) _, rfl, fun _ => rfl⟩

theorem trans (hmp : m.Carries R p) (hpq : p.Carries R q) : m.Carries R q where
  threads := hmp.threads.trans (fun _ _ _ => .trans) hpq.threads
  channels := hpq.channels.trans hmp.channels
  ids i := (hpq.ids i).trans (hmp.ids i)

theorem mono (hmp : m.Carries R p) (hRS : ∀ t u, R t u → ReflTransGen S t u) : m.Carries S p where
  threads := hmp.threads.mono (Relation.reflTransGen_closed hRS)
  channels := hmp.channels
  ids := hmp.ids

theorem put (ht : m.threads.get? h = some t) (hu : ReflTransGen R t u) {q : Queues}
    (hq : q.waiting.size = m.queues.waiting.size) : m.Carries R (m.put h u q) :=
  ⟨Registry.related_set (fun _ => .refl) ht hu, hq, fun _ => rfl⟩

theorem setCpu {c : Cpu} (hmp : m.Carries R p) (hc : c.id = (m.cpu i).id) :
    m.Carries R (p.setCpu i c) where
  threads := hmp.threads
  channels := hmp.channels
  ids j := by
    rw [cpu_setCpu]
    split
    case isTrue hij => exact hij ▸ hc
    case isFalse => exact hmp.ids j

theorem clearCpu (hmp : m.Carries R p) (i : Fin n) : m.Carries R (p.clearCpu i) :=
  hmp.setCpu (hmp.ids i)

end Carries

/-- Every thread stays in its slot and makes progress there. -/
def Evolves (m p : Machine n) : Prop := m.Carries Thread.Step p

theorem Carries.evolves (hmp : m.Carries R p) (hR : ∀ t u, R t u → t.Becomes u) : m.Evolves p :=
  hmp.mono hR

namespace Evolves

theorem threads (hmp : m.Evolves p) : m.threads.Related Thread.Becomes p.threads :=
  Carries.threads hmp

theorem named (hmp : m.Evolves p) (hm : m.threads.Named) : p.threads.Named :=
  hmp.threads.named (fun _ _ h => h.id_eq.symm) hm

/-- Who is live stays live. -/
theorem thread (hmp : m.Evolves p) (ht : m.threads.get? h = some t) :
    ∃ u, p.threads.get? h = some u ∧ t.Becomes u := by
  rcases Registry.rel_cases (hmp.threads.get? h) with ⟨hnone, -⟩ | ⟨t', u, ht', hu, hbecomes⟩
  · cases hnone.symm.trans ht
  · cases ht'.symm.trans ht
    exact ⟨u, hu, hbecomes⟩

end Evolves

theorem onThread_carries {f : Queues → Thread → Logged (Thread × Queues)} {b : Bool}
    (hp : (m.onThread h f).result = .ok (b, p))
    (hf : ∀ t u q, (f m.queues t).result = .ok (u, q) →
      ReflTransGen R t u ∧ q.waiting.size = m.queues.waiting.size) : m.Carries R p := by
  rcases onThread_eq_ok.mp hp with ⟨-, -, rfl⟩ | ⟨t, u, q, ht, hu, -, rfl⟩
  · exact .refl _
  · obtain ⟨hsteps, hsize⟩ := hf t u q hu
    exact .put ht hsteps hsize

theorem makeRunnable_shift {q r : Queues} (h : (q.makeRunnable t).result = .ok (u, r)) :
    t.Shift u ∧ r.waiting.size = q.waiting.size := by
  obtain ⟨henqueue, rfl⟩ := Queues.makeRunnable_eq_ok.mp h
  exact ⟨.enqueue henqueue, rfl⟩

theorem interrupt_shifts {q r : Queues} (h : (q.interrupt t).result = .ok (u, r)) :
    ReflTransGen Thread.Shift t u ∧ r.waiting.size = q.waiting.size := by
  rcases Queues.interrupt_eq_ok.mp h with ⟨c, hs, -, -, -, hwoken⟩ | ⟨-, rfl, rfl⟩
  · obtain ⟨hwake, rfl⟩ := Queues.wake_eq_ok.mp hwoken
    exact ⟨.single (.wake hwake), Queues.size_setWaiters q c _⟩
  · exact ⟨.refl, rfl⟩

theorem preempt_carries (hp : (m.preempt i).result = .ok p) : m.Carries Thread.Shift p := by
  rcases preempt_eq_ok.mp hp with ⟨-, rfl⟩ | ⟨h, -, ⟨-, rfl⟩ | ⟨t, u, q, ht, -, hq, rfl⟩⟩
  · exact .refl _
  · exact (Carries.refl _).clearCpu i
  · obtain ⟨hshift, hsize⟩ := makeRunnable_shift hq
    exact (Carries.put ht (.single hshift) hsize).clearCpu i

theorem runNext_carries {h? : Option Handle} (hp : (m.runNext i).result = .ok (h?, p)) :
    m.Carries Thread.Shift p := by
  rcases runNext_eq_ok.mp hp with ⟨-, -, rfl⟩ | ⟨h, rest, t, u, -, ht, hu, -, rfl⟩
  · exact .refl _
  · have hput : m.Carries Thread.Shift (m.put h u { m.queues with run := rest }) :=
      .put ht (.single (.start hu)) rfl
    exact hput.setCpu rfl

theorem dispatch_carries {h? : Option Handle} (hp : (m.dispatch i).result = .ok (h?, p)) :
    m.Carries Thread.Shift p := by
  obtain ⟨q, hq, hp⟩ := dispatch_eq_ok.mp hp
  exact (preempt_carries hq).trans (runNext_carries hp)

theorem yieldCpu_carries {h? : Option Handle} (hp : (m.yieldCpu i).result = .ok (h?, p)) :
    m.Carries Thread.Shift p := by
  obtain ⟨t, -, ⟨-, -, rfl⟩ | ⟨-, hp⟩⟩ := yieldCpu_eq_ok.mp hp
  · exact .refl _
  · exact dispatch_carries hp

theorem block_carries {cancellable : Bool} (hm : m.threads.Named)
    (ht : (m.current i).result = .ok t)
    (hfree : cancellable = true → t.flags.cancelRequested = false)
    (hp : (m.block i t c cancellable).result = .ok p) : m.Carries Thread.Shift p := by
  obtain ⟨h, -, ht⟩ := current_eq_ok.mp ht
  obtain ⟨u, q, hq, rfl⟩ := block_eq_ok.mp hp
  obtain ⟨hs, -, hu, rfl⟩ := Queues.block_eq_ok.mp hq
  have hshift : t.Shift u := by
    cases cancellable with
    | false => exact .sleep hu
    | true => exact .doze (hfree rfl) hu
  rw [hshift.step.id_eq, hm.id_eq ht]
  exact (Carries.put ht (.single hshift) (Queues.size_setWaiters _ c _)).clearCpu i

theorem sleep_carries (hm : m.threads.Named) (hp : (m.sleep i c).result = .ok p) :
    m.Carries Thread.Shift p := by
  obtain ⟨t, ht, hp⟩ := sleep_eq_ok.mp hp
  exact block_carries hm ht (fun hcancellable : false = true => nomatch hcancellable) hp

theorem cancellableSleep_carries {o : SleepOutcome} (hm : m.threads.Named)
    (hp : (m.cancellableSleep i c).result = .ok (o, p)) : m.Carries Thread.Shift p := by
  obtain ⟨t, ht, ⟨-, -, rfl⟩ | ⟨hfree, -, hp⟩⟩ := cancellableSleep_eq_ok.mp hp
  · exact .refl _
  · exact block_carries hm ht (fun _ => hfree) hp

theorem wakeThread_carries (hp : (m.wakeThread h).result = .ok p) : m.Carries Thread.Shift p := by
  obtain ⟨t, u, q, ht, hq, rfl⟩ := wakeThread_eq_ok.mp hp
  obtain ⟨hwake, rfl⟩ := Queues.wake_eq_ok.mp hq
  exact .put ht (.single (.wake hwake)) rfl

theorem setWaiters_carries (m : Machine n) (c : Channel) (hs : List Handle) :
    m.Carries R { m with queues := m.queues.setWaiters c hs } :=
  ⟨.refl (fun _ => .refl) _, Queues.size_setWaiters _ c hs, fun _ => rfl⟩

theorem wakeup_carries {h? : Option Handle} (hp : (m.wakeup c).result = .ok (h?, p)) :
    m.Carries Thread.Shift p := by
  obtain ⟨hs, -, ⟨-, -, rfl⟩ | ⟨h, rest, -, -, hp⟩⟩ := wakeup_eq_ok.mp hp
  · exact .refl _
  · exact (setWaiters_carries m c rest).trans (wakeThread_carries hp)

theorem wakeAll_carries {hs : List Handle} (hp : (hs.foldlM wakeThread m).result = .ok p) :
    m.Carries Thread.Shift p := by
  induction hs generalizing m with
  | nil =>
    cases hp
    exact .refl _
  | cons h hs ih =>
    obtain ⟨q, hq, hp⟩ := foldlM_wakeThread_cons.mp hp
    exact (wakeThread_carries hq).trans (ih hp)

theorem broadcast_carries {count : Nat} (hp : (m.broadcast c).result = .ok (count, p)) :
    m.Carries Thread.Shift p := by
  obtain ⟨hs, -, -, hp⟩ := broadcast_eq_ok.mp hp
  exact (setWaiters_carries m c []).trans (wakeAll_carries hp)

end KernelThreads.Machine
