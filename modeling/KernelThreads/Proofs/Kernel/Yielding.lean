import KernelThreads.Proofs.Kernel.Placement
import KernelThreads.Proofs.Scheduling.Order
import KernelThreads.Proofs.Scheduling.Totality

/-!
A yield is a dispatch. With nobody in the run queue it does nothing at all, where a dispatch takes
the thread off its processor, queues it, finds it first in the queue and starts it again. The two
agree because nothing is lost on that way: the processor has the id that the thread's link names,
and it knows the process that the thread is in.
-/
namespace KernelThreads

/-- A processor takes up again what it has just left. -/
theorem Cpu.clear_run {c : Cpu} {h : Handle} (hc : c.thread? = some h) :
    c.clear.run h c.process? = c := by
  obtain ⟨r, hr, rfl⟩ := Option.map_eq_some_iff.mp hc
  unfold clear run process?
  rw [hr]
  exact congrArg (fun running => { c with running }) hr.symm

namespace Machine

variable {n : Nat} {m : Machine n} {i : Fin n} {h : Handle} {t : Thread}

/-- A thread, the queues and a processor are put back as they were. -/
theorem put_back (ht : m.threads.get? h = some t) (u : Thread) (q : Queues) (i : Fin n) :
    (((m.put h u q).clearCpu i).put h t m.queues).setCpu i (m.cpu i) = m :=
  calc
    _ = (((m.put h u q).put h t m.queues).clearCpu i).setCpu i (m.cpu i) := rfl
    _ = (m.put h t m.queues).setCpu i (m.cpu i) := by
      rw [put_put]
      exact setCpu_setCpu ..
    _ = m := by
      rw [put_self ht]
      exact setCpu_self m i

namespace Coherent

/-- The only thread that could run goes through the empty queue and leaves no trace there. -/
theorem dispatch_alone (hm : m.Coherent) (hi : (m.cpu i).thread? = some h)
    (halone : m.queues.run = []) : (m.dispatch i).result = .ok (some h, m) := by
  obtain ⟨t, ht, hlink, hprocess⟩ := hm.running hi
  let p := (m.put h { t with link := .runQueue } (m.queues.push h)).clearCpu i
  have hpreempt : (m.preempt i).result = .ok p := hm.preempt_eq hi ht
  have hcpu : p.cpu i = (m.cpu i).clear := (cpu_setCpu _ i i _).trans (if_pos rfl)
  have hqueued : p.queues.run = [h] := congrArg (· ++ [h]) halone
  have hthread : p.threads.get? h = some { t with link := .runQueue } :=
    (Registry.get?_set_live ht _ h).trans (if_pos rfl)
  have hnext := (hm.preempt hpreempt).runNext_eq hqueued hthread i
  -- all that the second half writes is what the first half has overwritten
  have hstarted : { t with link := .onCpu (p.cpu i).id } = t := by
    rw [hcpu]
    exact congrArg (fun link => { t with link }) hlink.symm
  have htaken : { p.queues with run := [] } = m.queues :=
    congrArg (fun run => { m.queues with run }) halone.symm
  have hrunning : (p.cpu i).run h t.process = m.cpu i := by
    rw [hcpu, hprocess]
    exact Cpu.clear_run hi
  rw [hstarted, htaken, hrunning, put_back ht] at hnext
  exact dispatch_eq_ok.mpr ⟨p, hpreempt, hnext⟩

/-- On a busy processor, a yield answers with the first thread of the run queue, and a dispatch with
the first once the processor's own thread has queued up behind. Both leave the same machine. -/
theorem yieldCpu_dispatch (hm : m.Coherent) (hi : (m.cpu i).thread? = some h) :
    ∃ p, (m.yieldCpu i).result = .ok (m.queues.run.head?, p) ∧
      (m.dispatch i).result = .ok ((m.queues.run ++ [h]).head?, p) ∧
      (p.cpu i).thread? = (m.queues.run ++ [h]).head? ∧ (m.queues.run = [] → p = m) := by
  obtain ⟨t, ht, -⟩ := hm.running hi
  have hcurrent := current_eq_ok.mpr ⟨h, hi, ht⟩
  cases hrun : m.queues.run with
  | nil =>
    have hkept := yieldCpu_eq_ok.mpr ⟨t, hcurrent, .inl ⟨hrun, rfl, rfl⟩⟩
    exact ⟨m, hkept, hm.dispatch_alone hi hrun, hi, fun _ => rfl⟩
  | cons next rest =>
    have hqueued : m.queues.run ≠ [] := by
      rw [hrun]
      exact List.cons_ne_nil next rest
    obtain ⟨h?, p, hp⟩ := hm.dispatch_ok i
    obtain ⟨-, hfirst, -, hcpu⟩ := hm.dispatch_order hp
    rw [hrun] at hfirst
    cases hfirst
    exact ⟨p, yieldCpu_eq_ok.mpr ⟨t, hcurrent, .inr ⟨hqueued, hp⟩⟩, hp, hcpu, nofun⟩

end Coherent

end Machine

/-- A dispatch in place of a yield. -/
def Call.asDispatch {n : Nat} : Call n → Call n
  | .yieldCpu i => .dispatch i
  | call => call

namespace Kernel

variable {P O : Type} [PageSource P] [SlotSource O] {n : Nat} {k₀ k k' : Kernel P O n}
  {call : Call n} {calls : List (Call n)} {reply : Reply}

theorem Placed.perform_asDispatch (hk : k.Placed)
    (hcall : (k.perform call).result = .ok (reply, k')) :
    ∃ reply', (k.perform call.asDispatch).result = .ok (reply', k') := by
  cases call with
  | yieldCpu i =>
    obtain ⟨h?, m, hm, -, rfl⟩ := onMachine_eq_ok.mp hcall
    obtain ⟨t, ht, -⟩ := Machine.yieldCpu_eq_ok.mp hm
    obtain ⟨h, hi, -⟩ := Machine.current_eq_ok.mp ht
    obtain ⟨p, hyield, hdispatch, -⟩ := hk.machine.yieldCpu_dispatch hi
    cases hm.symm.trans hyield
    exact ⟨_, onMachine_eq_ok.mpr ⟨_, m, hdispatch, rfl, rfl⟩⟩
  | _ => exact ⟨reply, hcall⟩

/-- A run ends in the same state if it dispatches wherever it yields. -/
theorem Placed.run_asDispatch (hk : k.Placed) (hmanaged : ∀ call ∈ calls, call.isManaged = true)
    (hrun : k.run calls = .ok k') : k.run (calls.map Call.asDispatch) = .ok k' := by
  induction hrun, hmanaged using managed_induction with
  | start => rfl
  | call k₁ calls call reply k' hbefore hearlier hnext hcall ih =>
    obtain ⟨reply', hcall'⟩ := (hk.run hearlier hbefore).perform_asDispatch hcall
    rw [List.map_append]
    exact run_concat_eq_ok.mpr ⟨k₁, reply', ih, hcall'⟩

/-- At any time, a yield and a dispatch on a busy processor lead to the same state. With somebody
in the run queue both switch to the first of them; with nobody there the state is the one before,
with the same thread and process on the processor, and only the answer differs: nobody, or the
thread that keeps it. So no state tells whether the run has yielded or dispatched before. -/
theorem yield_dispatches {config : StackConfig} {pages : P} {slots : O} {ids : Vector UInt32 n}
    (hboot : (boot config pages slots ids).result = .ok k₀)
    (hmanaged : ∀ call ∈ calls, call.isManaged = true) (hrun : k₀.run calls = .ok k) :
    (∀ i h, (k.machine.cpu i).thread? = some h → ∃ yielded dispatched k',
      (k.perform (.yieldCpu i)).result = .ok (.thread yielded, k') ∧
      (k.perform (.dispatch i)).result = .ok (.thread dispatched, k') ∧
      (k'.machine.cpu i).thread? = dispatched ∧
      (∀ next rest, k.machine.queues.run = next :: rest →
        yielded = some next ∧ dispatched = some next) ∧
      (k.machine.queues.run = [] → yielded = none ∧ dispatched = some h ∧ k' = k)) ∧
    k₀.run (calls.map Call.asDispatch) = .ok k := by
  have hk₀ := Placed.boot hboot
  have hk := hk₀.run hmanaged hrun
  refine ⟨fun i h hi => ?_, hk₀.run_asDispatch hmanaged hrun⟩
  obtain ⟨m, hyield, hdispatch, hcpu, hkept⟩ := hk.machine.yieldCpu_dispatch hi
  refine ⟨_, _, { k with machine := m }, onMachine_eq_ok.mpr ⟨_, m, hyield, rfl, rfl⟩,
    onMachine_eq_ok.mpr ⟨_, m, hdispatch, rfl, rfl⟩, hcpu, fun next rest hqueued => ?_,
    fun halone => ?_⟩
  · rw [hqueued]
    exact ⟨rfl, rfl⟩
  · rw [hkept halone, halone]
    exact ⟨rfl, rfl, rfl⟩

theorem yield_dispatches_small : ∃ k, small.run [.newProcess .zero .running, .newChannel,
      .create 1 ⟨"first"⟩ 0 0, .create 1 ⟨"second"⟩ 0 0, .dispatch 0, .yieldCpu 0, .dispatch 1,
      .sleep 0 ⟨1⟩] = .ok k ∧
    small.run [.newProcess .zero .running, .newChannel, .create 1 ⟨"first"⟩ 0 0,
      .create 1 ⟨"second"⟩ 0 0, .dispatch 0, .dispatch 0, .dispatch 1, .sleep 0 ⟨1⟩] = .ok k ∧
    (k.machine.cpu 1).running = some ⟨⟨0, 1⟩, some 1⟩ ∧
    (k.perform (.yieldCpu 1)).result = .ok (.thread none, k) ∧
    (k.perform (.dispatch 1)).result = .ok (.thread (some ⟨0, 1⟩), k) := by
  obtain ⟨k, hrun, hobserved⟩ := run_observe small
    [.newProcess .zero .running, .newChannel, .create 1 ⟨"first"⟩ 0 0, .create 1 ⟨"second"⟩ 0 0,
      .dispatch 0, .yieldCpu 0, .dispatch 1, .sleep 0 ⟨1⟩]
    (fun k => ((k.machine.cpu 1).running, k.machine.queues.run))
    (a := (some ⟨⟨0, 1⟩, some 1⟩, [])) (by decide +kernel)
  obtain ⟨hrunning, halone⟩ := Prod.mk.inj hobserved
  have hi : (k.machine.cpu 1).thread? = some ⟨0, 1⟩ := congrArg (Option.map Running.thread) hrunning
  obtain ⟨hagree, hdispatching⟩ := yield_dispatches boot_small (by decide) hrun
  obtain ⟨yielded, dispatched, k', hyield, hdispatch, -, -, hkept⟩ := hagree 1 ⟨0, 1⟩ hi
  obtain ⟨rfl, rfl, rfl⟩ := hkept halone
  exact ⟨k', hrun, hdispatching, hrunning, hyield, hdispatch⟩

end Kernel

end KernelThreads
