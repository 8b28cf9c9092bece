import KernelThreads.Proofs.Kernel.Admission
import KernelThreads.Proofs.Kernel.Fairness
import KernelThreads.Proofs.Kernel.Faults
import KernelThreads.Proofs.Kernel.Lasting

/-!
A process lists its live threads in the order in which they joined it, and each of them has
the address space of the process and a stack of its own. The threads of a process that is
gone live on without it.
-/
namespace KernelThreads

open Relation (ReflTransGen)

namespace Context
variable {stack : Stack} {c : Context}

theorem empty_stack (h : empty stack = .ok c) :
    stack.bottom = .ok c.stackBottom ∧ c.stackSize = stack.size := by
  unfold empty at h
  cases hbottom : stack.bottom with
  | error e =>
    rw [hbottom] at h
    cases h
  | ok bottom =>
    rw [hbottom] at h
    cases h
    exact ⟨rfl, rfl⟩

theorem start_stack {entry : EntryPoint} {arg1 : Int64} {arg2 : UInt64} {directory : PhysAddr}
    (h : start entry arg1 arg2 stack directory = .ok c) :
    stack.bottom = .ok c.stackBottom ∧ c.stackSize = stack.size ∧ c.pageDirectory = directory := by
  unfold start at h
  cases hempty : empty stack with
  | error e =>
    rw [hempty] at h
    cases h
  | ok context =>
    obtain ⟨hbottom, hsize⟩ := empty_stack hempty
    cases htop : stack.top with
    | error e =>
      rw [hempty, htop] at h
      cases h
    | ok top =>
      rw [hempty, htop] at h
      simp only [bind, Except.bind] at h
      split at h
      · cases h
        exact ⟨hbottom, hsize, rfl⟩
      · cases h

end Context

/-- What a thread has from its making and from its process. No step of the scheduler
changes it. -/
structure Holding where
  id : Handle
  process : Option ProcessId
  stack : Stack
  directory : PhysAddr
  stackBottom : VirtAddr
  stackSize : UInt64

namespace Thread
variable {t u : Thread}

def holding (t : Thread) : Holding :=
  ⟨t.id, t.process, t.stack, t.context.pageDirectory, t.context.stackBottom, t.context.stackSize⟩

theorem Shift.holding_eq (h : t.Shift u) : u.holding = t.holding := by
  cases h with
  | enqueue h =>
    obtain ⟨-, -, rfl⟩ := enqueue_eq_ok.mp h
    rfl
  | start h =>
    obtain ⟨-, rfl⟩ := startOn_eq_ok.mp h
    rfl
  | sleep h =>
    obtain ⟨-, rfl⟩ := block_eq_ok.mp h
    rfl
  | doze hfree h =>
    obtain ⟨-, rfl⟩ := block_eq_ok.mp h
    rfl
  | wake h =>
    obtain ⟨-, rfl⟩ := wake_eq_ok.mp h
    rfl

theorem holding_of_shifts (h : ReflTransGen Shift t u) : u.holding = t.holding := by
  induction h with
  | refl => rfl
  | tail _ huv ih => exact huv.holding_eq.trans ih

/-- Loading registers moves no thread to another stack or another address space. -/
theorem holding_load (t : Thread) (registers : List (Register × UInt64)) :
    holding { t with context := registers.foldl (fun c (r, w) => c.load r w) t.context } =
      t.holding := by
  induction registers generalizing t with
  | nil => rfl
  | cons x rest ih =>
    obtain ⟨r, w⟩ := x
    refine (ih { t with context := t.context.load r w }).trans ?_
    cases r <;> rfl

end Thread

/-- The registers name the stack, and the process, while it is there, knows the thread. -/
structure Holding.Entered (ps : Processes) (x : Holding) : Prop where
  bottom : x.stack.bottom = .ok x.stackBottom
  size : x.stackSize = x.stack.size
  known : ∀ pid, x.process = some pid → pid ≤ ps.count
  member : ∀ pid p, x.process = some pid → ps.get? pid = some p →
    x.id ∈ p.members ∧ x.directory = p.directory

namespace Holding.Entered
variable {ps : Processes} {x : Holding} {h : Handle} {pid : ProcessId} {p : Process}

theorem free (hprocess : x.process = none) (hbottom : x.stack.bottom = .ok x.stackBottom)
    (hsize : x.stackSize = x.stack.size) : x.Entered ps := by
  refine ⟨hbottom, hsize, fun pid hpid => ?_, fun pid p hpid => ?_⟩
  · cases hprocess.symm.trans hpid
  · cases hprocess.symm.trans hpid

theorem join (hp : ps.get? pid = some p) (hid : x.id = h) (hprocess : x.process = some pid)
    (hdirectory : x.directory = p.directory) (hbottom : x.stack.bottom = .ok x.stackBottom)
    (hsize : x.stackSize = x.stack.size) :
    x.Entered (ps.set pid { p with members := p.members ++ [h] }) := by
  refine ⟨hbottom, hsize, fun pid' hpid' => ?_, fun pid' q hpid' hq => ?_⟩
  · cases hprocess.symm.trans hpid'
    rw [Processes.count_set]
    exact Processes.le_count hp
  · cases hprocess.symm.trans hpid'
    rw [Processes.get?_set, if_pos rfl, hp] at hq
    cases hq
    exact ⟨by simp [hid], hdirectory⟩

end Holding.Entered

variable {n : Nat} {call : Call n} {calls : List (Call n)} {log : List (Call n × Reply)}
  {reply : Reply} {pid : ProcessId}

/-- Who has joined process `pid` in the calls of a log and has not been destroyed since, in
the order of joining. -/
def roster (pid : ProcessId) : List (Call n × Reply) → List Handle
  | [] => []
  | (call, reply) :: rest =>
    (call.newcomers pid reply).filter (fun h => rest.all (·.1.spares h)) ++ roster pid rest

theorem roster_concat : roster pid (log ++ [(call, reply)]) =
    (roster pid log).filter (call.spares ·) ++ call.newcomers pid reply := by
  induction log with
  | nil => simp [roster]
  | cons first rest ih =>
    obtain ⟨call₀, reply₀⟩ := first
    simp only [List.cons_append, roster, ih, List.filter_append, List.filter_filter,
      List.all_append, List.all_cons, List.all_nil, Bool.and_true, List.append_assoc]
    simp only [Bool.and_comm]

namespace Kernel

variable {P O : Type} {k₀ k k₁ k' : Kernel P O n} {h : Handle} {t u : Thread} {p p' : Process}
  {q : Queues} {ps : Processes}

/-- The members of the processes, and the threads that are in a process, are those of `log`. -/
structure Rostered (log : List (Call n × Reply)) (k : Kernel P O n) : Prop where
  named : k.machine.threads.Named
  enrolled : k.Enrolled
  entered : k.All fun t => t.holding.Entered k.processes
  listed : ∀ pid p, k.processes.get? pid = some p → p.members = roster pid log
  /-- Nobody has joined a process that there has not been so far. -/
  unfounded : ∀ pid, k.processes.count < pid → roster pid log = []

/-- A process lists exactly the live threads that are in it. -/
theorem Rostered.mem_iff (hk : k.Rostered log) (hp : k.processes.get? pid = some p) :
    h ∈ p.members ↔ ∃ t, k.thread? h = some t ∧ t.process = some pid := by
  constructor
  · exact (hk.enrolled pid p hp).2 h
  · rintro ⟨t, ht, hpid⟩
    obtain ⟨hmember, -⟩ := (hk.entered h t ht).member pid p hpid hp
    exact hk.named.id_eq ht ▸ hmember

/-- Who is not destroyed stays a member of its process, whose directory never changes. -/
theorem Effect.entered_of_spares {x : Holding} (hk : k.Enrolled) (heffect : k.Effect call reply k')
    (hx : x.Entered k.processes) (hspares : call.spares x.id = true) :
    x.Entered k'.processes := by
  refine ⟨hx.bottom, hx.size, fun pid hpid => ?_, fun pid p' hpid hp' => ?_⟩
  · exact Nat.le_trans (hx.known pid hpid) heffect.count_le
  · cases heffect.succeeds hk hp' with
    | @kept p hp hdirectory hphase hmembers =>
      obtain ⟨hmember, hsame⟩ := hx.member pid p hpid hp
      refine ⟨?_, hsame.trans hdirectory.symm⟩
      rw [hmembers]
      exact List.mem_append_left _ (List.mem_filter.mpr ⟨hmember, hspares⟩)
    | founded hnew hmembers => exact absurd (hx.known pid hpid) (Nat.not_le.mpr hnew)

theorem Effect.entered (hk : k.Rostered log) (heffect : k.Effect call reply k') :
    k'.All fun t => t.holding.Entered k'.processes := by
  -- all but the thread that a call is about are as they were, so each case is about that one
  have hspared (g : Handle) (t : Thread) (ht : k.thread? g = some t)
      (hspares : call.spares g = true) : t.holding.Entered k'.processes := by
    refine heffect.entered_of_spares hk.enrolled (hk.entered g t ht) ?_
    exact (congrArg (call.spares ·) (hk.named.id_eq ht)).trans hspares
  have hsame {h : Handle} {t u : Thread} {q : Queues} {ps : Processes} (ht : k.thread? h = some t)
      (hspares : ∀ g, call.spares g = true) (hupdate : k.Update h (some u) q ps k')
      (hu : u.holding = t.holding) : k'.All fun t => t.holding.Entered k'.processes := by
    refine .change _ hupdate.thread? (fun g v _ hv => hspared g v hv (hspares g)) fun v hv => ?_
    cases hv
    exact hu ▸ hspared h t ht (hspares h)
  cases heffect with
  | scheduled hm =>
    intro g u hu
    rcases Registry.rel_cases ((hm.related hk.named).get? g) with
      ⟨-, hnone⟩ | ⟨t, u', ht, hu', hshifts⟩
    · cases hnone.symm.trans hu
    · cases hu'.symm.trans hu
      exact Thread.holding_of_shifts hshifts ▸ hspared g t ht (by cases hm <;> rfl)
  | founded directory phase => exact fun g t ht => hspared g t ht rfl
  | dropped pid => exact fun g t ht => hspared g t ht rfl
  | phased phase hp => exact fun g t ht => hspared g t ht rfl
  | named name hp => exact fun g t ht => hspared g t ht rfl
  | refused hcall hrests =>
    intro g t ht
    refine hspared g t ((hrests.thread? g).symm.trans ht) ?_
    cases call with
    | destroy h => cases hcall
    | _ => rfl
  | @created pid entry arg1 arg2 p h stack context u q _ hp _ _ _ hcontext hq hupdate =>
    obtain ⟨hbottom, hsize, hdirectory⟩ := Context.start_stack hcontext
    have hu := Thread.holding_of_shifts (Hooks.makeRunnable_shifts hq).1
    refine .change _ hupdate.thread? (fun g v _ hv => hspared g v hv rfl) fun v hv => ?_
    cases hv
    rw [hu, hupdate.processes]
    exact .join hp rfl rfl hdirectory hbottom hsize
  | cloned ht hstate hvacant hcontext hupdate =>
    obtain ⟨hbottom, hsize⟩ := Context.empty_stack hcontext
    refine .change _ hupdate.thread? (fun g v _ hv => hspared g v hv rfl) fun v hv => ?_
    cases hv
    exact .free rfl hbottom hsize
  | @attached h pid p t u q _ hp ht hclone hplace hfree hq hupdate =>
    obtain ⟨hbottom, hsize, -, -⟩ := hk.entered h t ht
    have hu := Thread.holding_of_shifts (Hooks.makeRunnable_shifts hq).1
    have hid : t.id = h := hk.named.id_eq ht
    subst hid
    refine .change _ hupdate.thread? (fun g v _ hv => hspared g v hv rfl) fun v hv => ?_
    cases hv
    rw [hu, hupdate.processes]
    exact .join hp rfl rfl rfl hbottom hsize
  | destroyed ht hstate hlink hupdate =>
    refine .change _ hupdate.thread? (fun g v hg hv => hspared g v hv (bne_iff_ne.mpr hg))
      fun v hv => ?_
    cases hv
  | ended hcall hcpu ht hlink hfinish hupdate =>
    obtain ⟨-, rfl⟩ := Thread.finish_eq_ok.mp hfinish
    refine hsame ht (fun g => ?_) hupdate rfl
    rcases hcall with rfl | rfl
    · rfl
    · rfl
  | asked hcpu ht hstate hq hupdate =>
    have hu := Thread.holding_of_shifts (Hooks.cancel_shifts hq).1
    exact hsame ht (fun _ => rfl) hupdate hu
  | ignored htarget => exact fun g t ht => hspared g t ht rfl
  | noted ht hupdate => exact hsame ht (fun _ => rfl) hupdate rfl
  | @loaded h registers t _ ht hupdate =>
    exact hsame ht (fun _ => rfl) hupdate (t.holding_load registers)
  | missed hcall hgone =>
    intro g t ht
    rcases hcall with ⟨errno, rfl⟩ | ⟨registers, rfl⟩
    · exact hspared g t ht rfl
    · exact hspared g t ht rfl

variable [PageSource P] [SlotSource O]

/-- The calls of a run with their replies. -/
def transcript (k : Kernel P O n) (calls : List (Call n)) : List (Call n × Reply) :=
  gather (fun _ call reply => [(call, reply)]) k calls

namespace Rostered

omit [PageSource P] in
theorem boot {config : StackConfig} {pages : P} {slots : O} {ids : Vector UInt32 n}
    (hboot : (Kernel.boot config pages slots ids).result = .ok k) : k.Rostered [] where
  named := named_boot hboot
  enrolled := .boot hboot
  entered h t ht := by
    obtain ⟨-, rfl⟩ := boot_eq_ok.mp hboot
    cases (Registry.get?_new _ h).symm.trans ht
  listed pid p hp := by
    obtain ⟨-, rfl⟩ := boot_eq_ok.mp hboot
    cases pid with
    | zero => cases hp
    | succ i => cases hp
  unfounded pid hpid := rfl

theorem perform (hk : k.Rostered log) (hmanaged : call.isManaged = true)
    (hcall : (k.perform call).result = .ok (reply, k')) :
    k'.Rostered (log ++ [(call, reply)]) := by
  have heffect := perform_effect hk.named hmanaged hcall
  have hunfounded (pid : ProcessId) (hpid : k.processes.count < pid) :
      roster pid (log ++ [(call, reply)]) = [] := by
    rw [roster_concat, hk.unfounded pid hpid, List.filter_nil, List.nil_append,
      List.eq_nil_iff_forall_not_mem]
    intro h hh
    obtain ⟨p, hp, -⟩ := heffect.newcomer hh
    exact absurd (Processes.le_count hp) (Nat.not_le.mpr hpid)
  exact {
    named := (perform_transition hk.named hcall).named hk.named
    enrolled := hk.enrolled.perform hk.named hmanaged hcall
    entered := heffect.entered hk
    listed := fun pid p' hp' => by
      cases heffect.succeeds hk.enrolled hp' with
      | kept hp hdirectory hphase hmembers => rw [hmembers, hk.listed pid _ hp, roster_concat]
      | founded hnew hmembers => rw [hmembers, hunfounded pid hnew]
    unfounded := fun pid hpid => hunfounded pid (Nat.lt_of_le_of_lt heffect.count_le hpid) }

theorem run (hk : k₀.Rostered []) (hmanaged : ∀ call ∈ calls, call.isManaged = true)
    (hrun : k₀.run calls = .ok k) : k.Rostered (k₀.transcript calls) := by
  induction hrun, hmanaged using managed_induction with
  | start => exact hk
  | call k₁ calls call reply k' hbefore hearlier hnext hcall ih =>
    rw [transcript, gather_concat hbefore hcall]
    exact ih.perform hnext hcall

end Rostered

section Threads

/-- Whoever is runnable gets any processor after a number of dispatches. -/
theorem Placed.runs (hk : k.Placed) (ht : k.thread? h = some t) (hlink : t.link = .runQueue)
    (i : Fin n) : ∃ m k', k.run (List.replicate m (.dispatch i)) = .ok k' ∧
      (k'.machine.cpu i).thread? = some h := by
  obtain ⟨j, hat⟩ := List.getElem?_of_mem (hk.machine.mem_run.mpr ⟨t, ht, hlink⟩)
  exact ⟨j + 1, hk.dispatched i hat⟩

theorem Placed.wakes {c : Channel} (hk : k.Placed) (ht : k.thread? h = some t)
    (hlink : t.link = .waitQueue c) :
    ∃ count k', (k.perform (.broadcast c)).result = .ok (.woken count, k') ∧
      ∃ u, k'.thread? h = some u ∧ u.link = .runQueue := by
  obtain ⟨count, m, hm⟩ := hk.machine.broadcast_returns.mpr (hk.machine.waits_opened ht hlink)
  have hcall : (k.perform (.broadcast c)).result = .ok (.woken count, { k with machine := m }) :=
    onMachine_eq_ok.mpr ⟨count, m, hm, rfl, rfl⟩
  obtain ⟨u, hu, -, hqueued⟩ :=
    (hk.machine.broadcast_order hm).2.leaves c h t ht hlink (decide_eq_true rfl)
  exact ⟨count, _, hcall, u, hu, hqueued⟩

theorem Placed.exits {i : Fin n} (hk : k.Placed) (hi : (k.machine.cpu i).thread? = some h)
    (result : UInt64) : ∃ k', (k.perform (.exit i result)).result =
        .ok (.handoff (some ⟨(k.machine.cpu i).id, h, result⟩), k') ∧
      ∃ u, k'.thread? h = some u ∧ u.state = .exited := by
  obtain ⟨k', hexit, hended⟩ := hk.exit_ok hi result
  have hcall := (reply_eq_ok fun x => .handoff (some x)).mpr ⟨_, hexit, rfl⟩
  exact ⟨k', hcall, hended⟩

end Threads

/-- Every process lists its live threads, each once and in the order of joining, and they have
its address space and their own stacks; nobody is listed twice, a clone without a process
nowhere. A destroyed thread goes from its own list alone. Who has lost its process still runs,
wakes up and ends. It can be destroyed if the machine can address the whole arena, and nothing
but this last clause depends on that. -/
theorem rosters_kept {config : StackConfig} {base : VirtAddr} {pages capacity : Nat}
    {arena : Arena} {ids : Vector UInt32 n} {k₀ k : Kernel Arena SlotPool n}
    (harena : (Arena.new base pages).result = .ok arena) (hcapacity : capacity ≤ UInt32.size)
    (hboot : (boot config arena (SlotPool.new capacity) ids).result = .ok k₀)
    (hmanaged : ∀ call ∈ calls, call.isManaged = true) (hrun : k₀.run calls = .ok k) :
    (∀ pid p, k.processes.get? pid = some p →
      p.members.Nodup ∧ p.members = roster pid (k₀.transcript calls) ∧
        ∀ h, h ∈ p.members ↔ ∃ t, k.thread? h = some t ∧ t.process = some pid) ∧
    (∀ h t, k.thread? h = some t →
      t.stack.bottom = .ok t.context.stackBottom ∧ t.context.stackSize = t.stack.size ∧
        (∀ pid p, k.processes.get? pid = some p → t.process = some pid →
          t.context.pageDirectory = p.directory) ∧
        (t.isUnattachedClone = true → ∀ pid p, k.processes.get? pid = some p →
          h ∉ p.members)) ∧
    (∀ h pid pid' p p', k.processes.get? pid = some p → k.processes.get? pid' = some p' →
      h ∈ p.members → h ∈ p'.members → pid = pid') ∧
    (∀ h reply k', (k.perform (.destroy h)).result = .ok (reply, k') →
      ∃ t, k.thread? h = some t ∧ k'.thread? h = none ∧
        ∀ pid, k'.processes.get? pid = (k.processes.get? pid).map fun p =>
          if t.process = some pid then { p with members := p.members.erase h } else p) ∧
    ∀ h t pid, k.thread? h = some t → t.process = some pid → k.processes.get? pid = none →
      (t.link = .runQueue → ∀ i, ∃ m k', k.run (List.replicate m (.dispatch i)) = .ok k' ∧
        (k'.machine.cpu i).thread? = some h) ∧
      (∀ c, t.link = .waitQueue c →
        ∃ count k', (k.perform (.broadcast c)).result = .ok (.woken count, k') ∧
          ∃ u, k'.thread? h = some u ∧ u.link = .runQueue) ∧
      (∀ i result, (k.machine.cpu i).thread? = some h →
        ∃ k', (k.perform (.exit i result)).result =
            .ok (.handoff (some ⟨(k.machine.cpu i).id, h, result⟩), k') ∧
          ∃ u, k'.thread? h = some u ∧ u.state = .exited) ∧
      (t.state = .exited → CanonicalSpan base pages →
        ∃ k', (k.perform (.destroy h)).result = .ok (.done, k') ∧ k'.thread? h = none ∧
          k'.processes = k.processes) := by
  have hk := (Rostered.boot hboot).run hmanaged hrun
  have hplaced := (Placed.boot hboot).run hmanaged hrun
  refine ⟨fun pid p hp => ⟨?_, hk.listed pid p hp, fun h => hk.mem_iff hp⟩,
    fun h t ht => ?_, fun h pid pid' p p' hp hp' hh hh' => ?_, fun h reply k' hcall => ?_,
    fun h t pid ht hpid hgone => ⟨?_, ?_, ?_, ?_⟩⟩
  · exact (hk.enrolled pid p hp).1
  · obtain ⟨hbottom, hsize, -, hmember⟩ := hk.entered h t ht
    refine ⟨hbottom, hsize, fun pid p hp hpid => (hmember pid p hpid hp).2, ?_⟩
    intro hclone pid p hp hh
    obtain ⟨u, hu, hpid⟩ := (hk.mem_iff hp).mp hh
    cases ht.symm.trans hu
    rw [Thread.isUnattachedClone, hpid] at hclone
    simp at hclone
  · obtain ⟨t, ht, hpid⟩ := (hk.mem_iff hp).mp hh
    obtain ⟨u, hu, hpid'⟩ := (hk.mem_iff hp').mp hh'
    cases ht.symm.trans hu
    exact Option.some.inj (hpid.symm.trans hpid')
  · obtain ⟨hdestroy, -⟩ := done_eq_ok.mp hcall
    obtain ⟨t, ht, -, -, hk'⟩ := destroy_frame hdestroy
    refine ⟨t, ht, (destroy_thread? hdestroy h).trans (if_pos rfl), fun pid => ?_⟩
    rw [hk']
    exact Processes.get?_without k.processes h t.process pid
  · exact fun hlink i => hplaced.runs ht hlink i
  · exact fun c hlink => hplaced.wakes ht hlink
  · exact fun i result hi => hplaced.exits hi result
  · intro hexited hspan
    have hm := Managed.run harena hspan hcapacity hboot hmanaged hrun
    obtain ⟨k', hdestroy⟩ := hm.destroy_returns.mpr ⟨t, ht, .inl hexited⟩
    refine ⟨k', done_eq_ok.mpr ⟨hdestroy, rfl⟩,
      (destroy_thread? hdestroy h).trans (if_pos rfl), ?_⟩
    obtain ⟨u, hu, -, -, hk'⟩ := destroy_frame hdestroy
    cases ht.symm.trans hu
    rw [hk']
    simp [Processes.without, hpid, hgone]

theorem rosters_kept_small : ∃ k, small.run [.newProcess .zero .running,
      .newProcess .zero .running, .create 1 ⟨"first"⟩ 0 0, .dispatch 0, .clone ⟨0, 1⟩,
      .attach ⟨1, 1⟩ 2, .exit 0 7, .dropProcess 1] = .ok k ∧
    (∃ p, k.processes.get? 2 = some p ∧ p.members = [⟨1, 1⟩]) ∧
    ∃ k', (k.perform (.destroy ⟨0, 1⟩)).result = .ok (.done, k') ∧
      k'.processes = k.processes := by
  obtain ⟨k, hrun, hobserved⟩ := run_observe small
    [.newProcess .zero .running, .newProcess .zero .running, .create 1 ⟨"first"⟩ 0 0,
      .dispatch 0, .clone ⟨0, 1⟩, .attach ⟨1, 1⟩ 2, .exit 0 7, .dropProcess 1]
    (fun k => ((k.thread? ⟨0, 1⟩).map fun t => (t.process, t.state), k.processes.get? 1,
      (k.processes.get? 2).isSome))
    (a := (some (some 1, .exited), none, true)) (by decide +kernel)
  simp only [Prod.mk.injEq, Option.map_eq_some_iff, Option.isSome_iff_exists] at hobserved
  obtain ⟨⟨t, ht, hprocess, hexited⟩, hgone, p, hp⟩ := hobserved
  obtain ⟨hlists, -, -, -, horphans⟩ :=
    rosters_kept Arena.new_small (by decide) boot_small (by decide) hrun
  obtain ⟨-, hmembers, -⟩ := hlists 2 p hp
  obtain ⟨-, -, -, hdestroyed⟩ := horphans ⟨0, 1⟩ t 1 ht hprocess hgone
  obtain ⟨k', hcall, -, hsame⟩ := hdestroyed hexited span_small
  exact ⟨k, hrun, ⟨p, hp, hmembers.trans (by decide +kernel)⟩, k', hcall, hsame⟩

/-- The small kernel on the last two pages of the lower half and the two behind them. -/
def straddling : Kernel Arena SlotPool 2 :=
  { small with pages := { Arena.small with
      base := ⟨0x7fffffffe000, by decide⟩, total := 4, taken := .clear 4, available := 4 } }

/-- The lowest address of the upper half. -/
def upperHalf : VirtAddr := ⟨0xffff800000000000, by decide⟩

/-- The pages of the second thread have no addresses where the arena puts them. The thread
loses its process, runs and ends, but it cannot be destroyed. -/
theorem rosters_kept_strays : ∃ k t,
    (Arena.new straddling.pages.base 4).result = .ok straddling.pages ∧
    (boot ⟨4096⟩ straddling.pages (SlotPool.new 2) #v[0, 1]).result = .ok straddling ∧
    straddling.run [.newProcess .zero .running, .create 1 ⟨"first"⟩ 0 0,
      .create 1 ⟨"second"⟩ 0 0, .dropProcess 1, .dispatch 0, .dispatch 0, .exit 0 7] = .ok k ∧
    k.thread? ⟨1, 1⟩ = some t ∧ t.process = some 1 ∧ k.processes.get? 1 = none ∧
    t.state = .exited ∧ t.stack.base = upperHalf ∧
    (k.perform (.destroy ⟨1, 1⟩)).result = .error (.violation (.freeOutsideArena upperHalf)) := by
  obtain ⟨k, hrun, hobserved⟩ := run_observe straddling
    [.newProcess .zero .running, .create 1 ⟨"first"⟩ 0 0, .create 1 ⟨"second"⟩ 0 0,
      .dropProcess 1, .dispatch 0, .dispatch 0, .exit 0 7]
    (fun k => ((k.thread? ⟨1, 1⟩).map fun t => (t.process, t.state, t.stack.base),
      k.processes.get? 1, (k.perform (.destroy ⟨1, 1⟩)).result.map fun _ => ()))
    (a := (some (some 1, .exited, upperHalf), none,
      .error (.violation (.freeOutsideArena upperHalf)))) (by decide +kernel)
  simp only [Prod.mk.injEq, Option.map_eq_some_iff] at hobserved
  obtain ⟨⟨t, ht, hprocess, hexited, hbase⟩, hgone, hfails⟩ := hobserved
  refine ⟨k, t, rfl, rfl, hrun, ht, hprocess, hgone, hexited, hbase, ?_⟩
  cases hcall : (k.perform (.destroy ⟨1, 1⟩)).result with
  | ok x =>
    rw [hcall] at hfails
    cases hfails
  | error e =>
    rw [hcall] at hfails
    cases hfails
    rfl

end Kernel

end KernelThreads
