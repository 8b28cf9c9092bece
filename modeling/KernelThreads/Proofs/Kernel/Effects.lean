import KernelThreads.Proofs.Kernel.Run

/-!
What a managed call does to the threads, the queues and the processes, with the
guards that it has passed. Later proofs about managed calls split on these effects
and do not open the operations again.
-/
namespace KernelThreads

open Logged (bind_eq_ok pure_eq_ok)

variable {P O : Type} {n : Nat} {h : Handle} {t : Thread} {pid : ProcessId} {call : Call n}
  {reply : Reply}

/-- What a call to the scheduler has made of a machine. -/
inductive Machine.Schedules (m : Machine n) : Call n → Reply → Machine n → Prop
  | dispatched {i : Fin n} {h? : Option Handle} {p : Machine n}
      (h : (m.dispatch i).result = .ok (h?, p)) : Schedules m (.dispatch i) (.thread h?) p
  | yielded {i : Fin n} {h? : Option Handle} {p : Machine n}
      (h : (m.yieldCpu i).result = .ok (h?, p)) : Schedules m (.yieldCpu i) (.thread h?) p
  | slept {i : Fin n} {c : Channel} {p : Machine n} (h : (m.sleep i c).result = .ok p) :
      Schedules m (.sleep i c) .done p
  | dozed {i : Fin n} {c : Channel} {o : SleepOutcome} {p : Machine n}
      (h : (m.cancellableSleep i c).result = .ok (o, p)) :
      Schedules m (.cancellableSleep i c) (.slept o) p
  | woke {c : Channel} {h? : Option Handle} {p : Machine n}
      (h : (m.wakeup c).result = .ok (h?, p)) : Schedules m (.wakeup c) (.thread h?) p
  | wokeAll {c : Channel} {count : Nat} {p : Machine n}
      (h : (m.broadcast c).result = .ok (count, p)) : Schedules m (.broadcast c) (.woken count) p
  | opened : Schedules m .newChannel (.channel m.queues.newChannel.1)
      { m with queues := m.queues.newChannel.2 }

/-- The scheduler moves threads, and neither makes nor destroys any. -/
theorem Machine.Schedules.related {m p : Machine n} (h : m.Schedules call reply p)
    (hm : m.threads.Named) : m.threads.Related (Relation.ReflTransGen Thread.Shift) p.threads := by
  cases h with
  | dispatched h => exact (dispatch_carries h).threads
  | yielded h => exact (yieldCpu_carries h).threads
  | slept h => exact (sleep_carries hm h).threads
  | dozed h => exact (cancellableSleep_carries hm h).threads
  | woke h => exact (wakeup_carries h).threads
  | wokeAll h => exact (broadcast_carries h).threads
  | opened => exact .refl (fun _ => .refl) m.threads

namespace Kernel

variable {k k₁ k₂ k' : Kernel P O n}

/-- At most one thread has changed, with the queues and the processes: `h` names `o` now. -/
structure Update (k : Kernel P O n) (h : Handle) (o : Option Thread) (q : Queues) (ps : Processes)
    (k' : Kernel P O n) : Prop where
  thread? : ∀ g, k'.thread? g = if h = g then o else k.thread? g
  queues : k'.machine.queues = q
  processes : k'.processes = ps

/-- No thread, queue or process has changed. -/
structure Rests (k k' : Kernel P O n) : Prop where
  thread? : ∀ g, k'.thread? g = k.thread? g
  queues : k'.machine.queues = k.machine.queues
  processes : k'.processes = k.processes

/-- A live thread is replaced. -/
theorem Update.put (ht : k.thread? h = some t) (u : Thread) (q : Queues) :
    k.Update h (some u) q k.processes { k with machine := k.machine.put h u q } :=
  ⟨Registry.get?_set_live ht u, rfl, rfl⟩

theorem Update.house (hk : k.Rests k₁) (hhouse : (k₁.house t).result = .ok k') :
    k.Update t.id (some t) k.machine.queues k.processes k' := by
  have hthreads := house_thread? hhouse
  obtain ⟨threads, -, rfl⟩ := house_eq_ok.mp hhouse
  refine ⟨fun g => ?_, hk.queues, hk.processes⟩
  rw [hthreads, hk.thread?]

/-- A thread that has just moved in, or that awaited its process, is enlisted. -/
theorem Update.enlist {u : Thread} (hk : k.Update t.id (some u) k.machine.queues k.processes k₁)
    (hhooks : k₁.hooks = k.hooks) (henlist : (k₁.enlist pid t).result = .ok k') :
    ∃ p v q, k.processes.get? pid = some p ∧ t.id ∉ p.members ∧
      (k.hooks.makeRunnable k.machine.queues t).result = .ok (v, q) ∧
        k.Update t.id (some v) q
          (k.processes.set pid { p with members := p.members ++ [t.id] }) k' := by
  obtain ⟨p, v, q, hp, hfree, hq, rfl⟩ := enlist_eq_ok.mp henlist
  have hlive : k₁.thread? t.id = some u := (hk.thread? t.id).trans (if_pos rfl)
  have hput := Update.put hlive v q
  rw [hk.processes] at hp
  rw [hhooks, hk.queues] at hq
  refine ⟨p, v, q, hp, hfree, hq, fun g => ?_, rfl, ?_⟩
  · refine (hput.thread? g).trans ?_
    rw [hk.thread?]
    split <;> rfl
  · exact congrArg (·.set pid { p with members := p.members ++ [t.id] }) hk.processes

inductive Effect (k : Kernel P O n) : Call n → Reply → Kernel P O n → Prop
  | scheduled {call : Call n} {reply : Reply} {m : Machine n}
      (hm : k.machine.Schedules call reply m) : Effect k call reply { k with machine := m }
  | founded (directory : PhysAddr) (phase : Phase) :
      Effect k (.newProcess directory phase) (.process (k.processes.add { directory, phase }).1)
        { k with processes := (k.processes.add { directory, phase }).2 }
  | dropped (pid : ProcessId) :
      Effect k (.dropProcess pid) (.answer (k.processes.get? pid).isSome)
        { k with processes := k.processes.drop pid }
  | phased {pid : ProcessId} {p : Process} (phase : Phase) (hp : k.processes.get? pid = some p) :
      Effect k (.setPhase pid phase) .done
        { k with processes := k.processes.set pid { p with phase } }
  | named {pid : ProcessId} {p : Process} (name : String) (hp : k.processes.get? pid = some p) :
      Effect k (.setName pid name) .done
        { k with processes := k.processes.set pid { p with name := some name } }
  | refused {call : Call n} {e : Exhausted} {k' : Kernel P O n} (hcall : call.makesThread = true)
      (hk : k.Rests k') : Effect k call (.made (.error e)) k'
  | created {pid : ProcessId} {entry : EntryPoint} {arg1 : Int64} {arg2 : UInt64} {p : Process}
      {h : Handle} {stack : Stack} {context : Context} {u : Thread} {q : Queues}
      {k' : Kernel P O n} (hp : k.processes.get? pid = some p)
      (haccepts : p.phase.acceptsThreads = true) (hvacant : k.thread? h = none)
      (hfree : h ∉ p.members)
      (hcontext : Context.start entry arg1 arg2 stack p.directory = .ok context)
      (hq : (k.hooks.makeRunnable k.machine.queues
        { id := h, process := some pid, stack, context }).result = .ok (u, q))
      (hk : k.Update h (some u) q
        (k.processes.set pid { p with members := p.members ++ [h] }) k') :
      Effect k (.create pid entry arg1 arg2) (.made (.ok h)) k'
  | cloned {source h : Handle} {t : Thread} {stack : Stack} {context : Context}
      {k' : Kernel P O n} (ht : k.thread? source = some t) (hstate : t.state = .runnable)
      (hvacant : k.thread? h = none) (hcontext : Context.empty stack = .ok context)
      (hk : k.Update h (some (t.copy h stack context)) k.machine.queues k.processes k') :
      Effect k (.clone source) (.made (.ok h)) k'
  | attached {h : Handle} {pid : ProcessId} {p : Process} {t u : Thread} {q : Queues}
      {k' : Kernel P O n} (hp : k.processes.get? pid = some p) (ht : k.thread? h = some t)
      (hclone : t.isUnattachedClone = true) (hplace : t.state = .runnable ∧ t.link = .unlinked)
      (hfree : h ∉ p.members)
      (hq : (k.hooks.makeRunnable k.machine.queues { t with
          process := some pid
          flags := { t.flags with cloned := false }
          context := { t.context with pageDirectory := p.directory } }).result = .ok (u, q))
      (hk : k.Update h (some u) q
        (k.processes.set pid { p with members := p.members ++ [h] }) k') :
      Effect k (.attach h pid) .done k'
  | destroyed {h : Handle} {t : Thread} {k' : Kernel P O n} (ht : k.thread? h = some t)
      (hstate : t.state = .exited ∨ t.state = .runnable ∧ t.isUnattachedClone = true)
      (hlink : t.link = .unlinked)
      (hk : k.Update h none k.machine.queues (k.processes.without h t.process) k') :
      Effect k (.destroy h) .done k'
  | ended {call : Call n} {i : Fin n} {h : Handle} {t u : Thread} {result : UInt64} {x : Handoff}
      {k' : Kernel P O n} (hcall : call = .exit i result ∨ call = .cancel i h result)
      (hcpu : (k.machine.cpu i).thread? = some h) (ht : k.thread? h = some t)
      (hlink : t.link = .onCpu (k.machine.cpu i).id) (hfinish : (t.finish result).result = .ok u)
      (hk : k.Update h (some u) k.machine.queues k.processes k') :
      Effect k call (.handoff (some x)) k'
  | asked {i : Fin n} {target : Handle} {result : UInt64} {t u : Thread} {q : Queues}
      {k' : Kernel P O n} (hcpu : (k.machine.cpu i).thread? ≠ some target)
      (ht : k.thread? target = some t) (hstate : t.state ≠ .exited)
      (hq : (k.hooks.cancel k.machine.queues (t.requestCancel result)).result = .ok (u, q))
      (hk : k.Update target (some u) q k.processes k') :
      Effect k (.cancel i target result) (.handoff none) k'
  | ignored {i : Fin n} {target : Handle} {result : UInt64}
      (htarget : ∀ t, k.thread? target = some t → t.state = .exited) :
      Effect k (.cancel i target result) (.handoff none) k
  | noted {h : Handle} {errno : Int32} {t : Thread} {k' : Kernel P O n}
      (ht : k.thread? h = some t)
      (hk : k.Update h (some { t with errno }) k.machine.queues k.processes k') :
      Effect k (.setErrno h errno) (.answer true) k'
  | loaded {h : Handle} {registers : List (Register × UInt64)} {t : Thread} {k' : Kernel P O n}
      (ht : k.thread? h = some t)
      (hk : k.Update h (some { t with
          context := registers.foldl (fun c (r, w) => c.load r w) t.context })
        k.machine.queues k.processes k') :
      Effect k (.loadRegisters h registers) (.answer true) k'
  | missed {call : Call n} {h : Handle}
      (hcall : (∃ errno, call = .setErrno h errno) ∨ ∃ registers, call = .loadRegisters h registers)
      (hgone : k.thread? h = none) : Effect k call (.answer false) k

theorem Effect.attach (hnamed : k.machine.threads.Named)
    (hattach : (k.attach h pid).result = .ok k') : k.Effect (.attach h pid) .done k' := by
  obtain ⟨p, t, hp, ht, hclone, hplace, henlist⟩ := attach_eq_ok.mp hattach
  have hid : t.id = h := hnamed.id_eq ht
  subst hid
  have hstays : k.Update t.id (some t) k.machine.queues k.processes k := by
    refine ⟨fun g => ?_, rfl, rfl⟩
    split
    case isTrue hg => exact hg ▸ ht
    case isFalse => rfl
  obtain ⟨p', u, q, hp', hfree, hq, hk⟩ := Update.enlist (t := { t with
    process := some pid
    flags := { t.flags with cloned := false }
    context := { t.context with pageDirectory := p.directory } }) hstays rfl henlist
  cases hp.symm.trans hp'
  exact .attached hp ht hclone hplace hfree hq hk

theorem Effect.exit {i : Fin n} {result : UInt64} {x : Handoff}
    (hcall : call = .exit i result ∨
      ∃ target, (k.machine.cpu i).thread? = some target ∧ call = .cancel i target result)
    (hexit : (k.exit i result).result = .ok (x, k')) :
    k.Effect call (.handoff (some x)) k' := by
  obtain ⟨h, t, u, hcpu, ht, hlink, -, hfinish, -, rfl⟩ := exit_eq_ok.mp hexit
  have hcalled : call = .exit i result ∨ call = .cancel i h result := by
    rcases hcall with hexits | ⟨target, htarget, hcancels⟩
    · exact .inl hexits
    · cases hcpu.symm.trans htarget
      exact .inr hcancels
  exact .ended hcalled hcpu ht hlink hfinish ⟨ended_thread? ht i result, ended_queues .., rfl⟩

theorem Effect.cancel {i : Fin n} {target : Handle} {result : UInt64} {x? : Option Handoff}
    (hcancel : (k.cancel i target result).result = .ok (x?, k')) :
    k.Effect (.cancel i target result) (.handoff x?) k' := by
  rcases cancel_eq_ok.mp hcancel with ⟨hself, x, hexit, rfl⟩ | ⟨hother, rfl, hrest⟩
  · exact .exit (.inr ⟨target, hself, rfl⟩) hexit
  · rcases hrest with ⟨hgone, rfl⟩ | ⟨t, ht, ⟨hexited, rfl⟩ | ⟨hstate, u, q, hq, rfl⟩⟩
    · refine .ignored fun t ht => ?_
      cases hgone.symm.trans ht
    · refine .ignored fun u hu => ?_
      cases ht.symm.trans hu
      exact hexited
    · exact .asked hother ht hstate hq (.put ht u q)

/-- A thread is changed past the scheduler, if it is there. -/
theorem Effect.onThread {f : Thread → Thread}
    (hcall : (k.onThread h fun t => pure (f t)).result = .ok (reply, k')) :
    (k.thread? h = none ∧ reply = .answer false ∧ k' = k) ∨
      ∃ t, k.thread? h = some t ∧ reply = .answer true ∧
        k.Update h (some (f t)) k.machine.queues k.processes k' := by
  obtain ⟨b, m, hm, rfl, rfl⟩ := onMachine_eq_ok.mp hcall
  rcases Machine.onThread_eq_ok.mp hm with ⟨hgone, rfl, rfl⟩ | ⟨t, u, q, ht, hu, rfl, rfl⟩
  · exact .inl ⟨hgone, rfl, rfl⟩
  · cases hu
    exact .inr ⟨t, ht, rfl, .put ht (f t) k.machine.queues⟩

variable [PageSource P] [SlotSource O]

theorem Rests.reserve {r : Except Exhausted (Handle × Stack)}
    (hreserve : k.reserve.result = .ok (r, k')) : k.Rests k' :=
  ⟨reserve_thread? hreserve, reserve_queues hreserve, reserve_processes hreserve⟩

theorem Effect.create {entry : EntryPoint} {arg1 : Int64} {arg2 : UInt64}
    {r : Except Exhausted Handle} (hcreate : (k.create pid entry arg1 arg2).result = .ok (r, k')) :
    k.Effect (.create pid entry arg1 arg2) (.made r) k' := by
  obtain ⟨p, hp, haccepts, hrest⟩ := create_eq_ok.mp hcreate
  rcases hrest with ⟨e, hreserve, rfl⟩ |
    ⟨h, stack, context, k₁, k₂, hreserve, hcontext, hhouse, henlist, rfl⟩
  · exact .refused rfl (.reserve hreserve)
  · have hvacant := (reserve_thread? hreserve h).symm.trans (house_vacant hhouse)
    have hhooks := (house_hooks hhouse).trans (reserve_hooks hreserve)
    obtain ⟨p', v, q, hp', hfree, hq, hk⟩ :=
      (Update.house (.reserve hreserve) hhouse).enlist hhooks henlist
    cases hp.symm.trans hp'
    exact .created hp haccepts hvacant hfree hcontext hq hk

theorem Effect.clone {source : Handle} {r : Except Exhausted Handle}
    (hclone : (k.clone source).result = .ok (r, k')) : k.Effect (.clone source) (.made r) k' := by
  obtain ⟨t, ht, hstate, hrest⟩ := clone_eq_ok.mp hclone
  rcases hrest with ⟨e, hreserve, rfl⟩ | ⟨h, stack, context, k₁, hreserve, hcontext, hhouse, rfl⟩
  · exact .refused rfl (.reserve hreserve)
  · have hvacant := (reserve_thread? hreserve h).symm.trans (house_vacant hhouse)
    exact .cloned ht hstate hvacant hcontext (.house (.reserve hreserve) hhouse)

theorem Effect.destroy (hdestroy : (k.destroy h).result = .ok k') :
    k.Effect (.destroy h) .done k' := by
  obtain ⟨t, ht, hstate, hlink, hk'⟩ := destroy_frame hdestroy
  refine .destroyed ht hstate hlink ⟨destroy_thread? hdestroy, ?_, ?_⟩
  · rw [hk']
  · rw [hk']

/-- Every managed call that returns has had one of the effects. -/
theorem perform_effect (hnamed : k.machine.threads.Named) (hmanaged : call.isManaged = true)
    (hcall : (k.perform call).result = .ok (reply, k')) : k.Effect call reply k' := by
  cases hmanaged using Call.managed_cases with
  | newProcess directory phase =>
    cases hcall
    exact .founded directory phase
  | dropProcess pid =>
    cases hcall
    exact .dropped pid
  | setPhase pid phase =>
    obtain ⟨hstep, rfl⟩ := done_eq_ok.mp hcall
    obtain ⟨p, q, hp, hq, rfl⟩ := onProcess_eq_ok.mp hstep
    cases hq
    exact .phased phase hp
  | setName pid name =>
    obtain ⟨hstep, rfl⟩ := done_eq_ok.mp hcall
    obtain ⟨p, q, hp, hq, rfl⟩ := onProcess_eq_ok.mp hstep
    cases hq
    exact .named name hp
  | create pid entry arg1 arg2 =>
    obtain ⟨r, hcreate, rfl⟩ := (reply_eq_ok .made).mp hcall
    exact .create hcreate
  | clone source =>
    obtain ⟨r, hclone, rfl⟩ := (reply_eq_ok .made).mp hcall
    exact .clone hclone
  | attach h pid =>
    obtain ⟨hattach, rfl⟩ := done_eq_ok.mp hcall
    exact .attach hnamed hattach
  | destroy h =>
    obtain ⟨hdestroy, rfl⟩ := done_eq_ok.mp hcall
    exact .destroy hdestroy
  | cancel i target result =>
    obtain ⟨x?, hcancel, rfl⟩ := (reply_eq_ok .handoff).mp hcall
    exact .cancel hcancel
  | exit i result =>
    obtain ⟨x, hexit, rfl⟩ := (reply_eq_ok fun x => .handoff (some x)).mp hcall
    exact .exit (.inl rfl) hexit
  | dispatch i =>
    obtain ⟨h?, m, hm, rfl, rfl⟩ := onMachine_eq_ok.mp hcall
    exact .scheduled (.dispatched hm)
  | yieldCpu i =>
    obtain ⟨h?, m, hm, rfl, rfl⟩ := onMachine_eq_ok.mp hcall
    exact .scheduled (.yielded hm)
  | sleep i c =>
    simp only [Kernel.perform, bind_eq_ok, pure_eq_ok, Prod.mk.injEq] at hcall
    obtain ⟨m, hm, rfl, rfl⟩ := hcall
    exact .scheduled (.slept hm)
  | cancellableSleep i c =>
    obtain ⟨o, m, hm, rfl, rfl⟩ := onMachine_eq_ok.mp hcall
    exact .scheduled (.dozed hm)
  | wakeup c =>
    obtain ⟨h?, m, hm, rfl, rfl⟩ := onMachine_eq_ok.mp hcall
    exact .scheduled (.woke hm)
  | broadcast c =>
    obtain ⟨count, m, hm, rfl, rfl⟩ := onMachine_eq_ok.mp hcall
    exact .scheduled (.wokeAll hm)
  | newChannel =>
    cases hcall
    exact .scheduled .opened
  | setErrno h errno =>
    rcases Effect.onThread hcall with ⟨hgone, rfl, rfl⟩ | ⟨t, ht, rfl, hk⟩
    · exact .missed (.inl ⟨errno, rfl⟩) hgone
    · exact .noted ht hk
  | loadRegisters h registers =>
    rcases Effect.onThread hcall with ⟨hgone, rfl, rfl⟩ | ⟨t, ht, rfl, hk⟩
    · exact .missed (.inr ⟨registers, rfl⟩) hgone
    · exact .loaded ht hk

end Kernel

end KernelThreads
