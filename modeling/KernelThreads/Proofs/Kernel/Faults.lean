import KernelThreads.Proofs.Kernel.Accounts
import KernelThreads.Proofs.Kernel.Membership
import KernelThreads.Proofs.Kernel.Placement
import KernelThreads.Proofs.Scheduling.Totality

/-!
When a call stops the kernel. In a run that goes through the scheduler and the
life cycle no internal check ever fails: a call that stops the kernel is one that
its caller must not make.
-/
namespace KernelThreads

open Logged (bind_eq_ok emit_eq_ok pure_eq_ok)

/-- The process without which there is no such call to make. -/
def Call.process? {n : Nat} : Call n → Option ProcessId
  | .setPhase pid _ | .setName pid _ | .addMember pid _ | .removeMember pid _ | .create pid _ _ _
  | .attach _ pid => some pid
  | .newProcess _ _ | .dropProcess _ | .clone _ | .destroy _ | .cancel _ _ _ | .exit _ _
  | .dispatch _ | .yieldCpu _ | .sleep _ _ | .cancellableSleep _ _ | .wakeup _ | .broadcast _
  | .newChannel | .makeRunnable _ | .interrupt _ | .enqueue _ | .startOn _ _ | .block _ _ _
  | .wake _ | .setErrno _ _ | .loadRegisters _ _ | .setRunning _ _ _ | .clearRunning _ => none

theorem Logged.fails_iff {α : Type} {x : Logged α} :
    (∃ e, x.result = .error e) ↔ ¬ ∃ a, x.result = .ok a := by
  cases x.result <;> simp

/-- To be made runnable changes nothing of a thread but its place. -/
theorem Hooks.makeRunnable_image {hooks : Hooks} {t u : Thread} {q r : Queues}
    (hq : (hooks.makeRunnable q t).result = .ok (u, r)) :
    u.context = t.context ∧ u.stack = t.stack := by
  cases hooks with
  | fifo =>
    obtain ⟨-, -, rfl⟩ := Thread.enqueue_eq_ok.mp (Queues.makeRunnable_eq_ok.mp hq).1
    exact ⟨rfl, rfl⟩
  | inert =>
    cases hq
    exact ⟨rfl, rfl⟩

namespace Kernel

section Breaks
variable {P O : Type} {n : Nat}

/-- The rule of its caller that a call breaks. `opened` says which channels there are. -/
def Breaks (k : Kernel P O n) (opened : Channel → Prop) : Call n → Prop
  | .create pid _ _ _ => ∃ p, k.processes.get? pid = some p ∧ (p.phase = .exiting ∨ p.phase = .dead)
  | .clone h => ∀ t, k.thread? h = some t → t.state ≠ .runnable
  | .attach h _ => ∀ t, k.thread? h = some t → t.isUnattachedClone = false
  | .destroy h => ∀ t, k.thread? h = some t → t.state ≠ .exited ∧ t.isUnattachedClone = false
  | .exit i _ | .yieldCpu i => (k.machine.cpu i).isIdle = true
  | .sleep i c => (k.machine.cpu i).isIdle = true ∨ ¬ opened c
  | .cancellableSleep i c => (k.machine.cpu i).isIdle = true ∨
      ¬ opened c ∧ ∀ h t, (k.machine.cpu i).thread? = some h → k.thread? h = some t →
        t.flags.cancelRequested = false
  | .wakeup c | .broadcast c => ¬ opened c
  | _ => False

end Breaks

/-- The thread of a processor can always end. -/
theorem Placed.exit_ok {P O : Type} {n : Nat} {k : Kernel P O n} {h : Handle} {i : Fin n}
    (hk : k.Placed) (hi : (k.machine.cpu i).thread? = some h) (result : UInt64) :
    ∃ k', (k.exit i result).result = .ok (⟨(k.machine.cpu i).id, h, result⟩, k') ∧
      ∃ u, k'.thread? h = some u ∧ u.state = .exited := by
  obtain ⟨t, ht, hlink, hprocess⟩ := hk.machine.running hi
  have hstate := hk.machine.running_state hi ht
  let u : Thread := { t with pending := some result, state := .exited, link := .unlinked }
  have hfinish : (t.finish result).result = .ok u :=
    Thread.finish_eq_ok.mpr ⟨by simp [hstate], rfl⟩
  refine ⟨k.ended i h u result,
    exit_eq_ok.mpr ⟨h, t, u, hi, ht, hlink, hprocess, hfinish, rfl, rfl⟩, u, ?_, rfl⟩
  exact (ended_thread? ht i result h).trans (if_pos rfl)

/-- With a handle, a stack and a first image in hand, nothing stands against a creation. -/
theorem Tenancy.create_made {P : Type} [PageSource P] {n : Nat} {k k₁ : Kernel P SlotPool n}
    {pid : ProcessId} {p : Process} {entry : EntryPoint} {arg1 : Int64} {arg2 : UInt64} {h : Handle}
    {stack : Stack} {context : Context} (hk : k.Tenancy []) (henrolled : k.Enrolled)
    (hp : k.processes.get? pid = some p) (haccepts : p.phase.acceptsThreads = true)
    (hreserve : k.reserve.result = .ok (.ok (h, stack), k₁))
    (hcontext : Context.start entry arg1 arg2 stack p.directory = .ok context) :
    ∃ k' t, (k.create pid entry arg1 arg2).result = .ok (.ok h, k') ∧
      k'.thread? h = some t ∧ t.context = context ∧ t.stack = stack := by
  obtain ⟨slot, hissue⟩ := reserve_issued hreserve
  obtain ⟨-, hawaits⟩ := Registry.awaits_issue hissue (hk.capacity ▸ hk.bound)
  let t : Thread := { id := h, process := some pid, stack, context }
  obtain ⟨k₂, hhouse⟩ := house_ok (t := t) hawaits
  have hp₁ : k₁.processes.get? pid = some p :=
    (congrArg (·.get? pid) (reserve_processes hreserve)).trans hp
  have hp₂ : k₂.processes.get? pid = some p := by
    obtain ⟨threads, -, rfl⟩ := house_eq_ok.mp hhouse
    exact hp₁
  have hfree : h ∉ p.members := by
    intro hmem
    obtain ⟨u, hu, -⟩ := (henrolled pid p hp).2 h hmem
    cases (house_vacant hhouse).symm.trans ((reserve_thread? hreserve h).trans hu)
  obtain ⟨k', henlist⟩ := enlist_ok (t := t) hp₂ hfree rfl rfl
  obtain ⟨u, q, r, hq, hget⟩ := enlist_thread? (house_thread hhouse) henlist
  obtain ⟨hcontext', hstack'⟩ := Hooks.makeRunnable_image hq
  exact ⟨k', u, create_eq_ok.mpr ⟨p, hp, haccepts,
    .inr ⟨h, stack, context, k₁, k₂, hreserve, hcontext, hhouse, henlist, rfl⟩⟩,
    (hget h).trans (if_pos rfl), hcontext', hstack'⟩

variable {n : Nat} {k k' : Kernel Arena SlotPool n} {h : Handle} {t : Thread} {i : Fin n}
  {pid : ProcessId} {p : Process} {call : Call n} {calls : List (Call n)} {reply : Reply}

structure Managed (k : Kernel Arena SlotPool n) : Prop where
  placed : k.Placed
  accounts : k.Accounts [] []
  enrolled : k.Enrolled

namespace Managed

theorem perform (hk : k.Managed) (hmanaged : call.isManaged = true)
    (hcall : (k.perform call).result = .ok (reply, k')) : k'.Managed where
  placed := hk.placed.perform hmanaged hcall
  accounts := hk.accounts.transition (perform_transition hk.accounts.named hcall)
  enrolled := hk.enrolled.perform hk.accounts.named hmanaged hcall

/-- The states of a run over an arena that the machine can address whole. -/
theorem run {config : StackConfig} {base : VirtAddr} {pages capacity : Nat} {arena : Arena}
    {ids : Vector UInt32 n} {k₀ : Kernel Arena SlotPool n}
    (harena : (Arena.new base pages).result = .ok arena) (hspan : CanonicalSpan base pages)
    (hcapacity : capacity ≤ UInt32.size)
    (hboot : (boot config arena (SlotPool.new capacity) ids).result = .ok k₀)
    (hmanaged : ∀ call ∈ calls, call.isManaged = true) (hrun : k₀.run calls = .ok k) :
    k.Managed :=
  run_invariant hrun ⟨.boot hboot, .boot harena hspan hcapacity hboot, .boot hboot⟩
    fun _ _ _ _ hmem hk hcall => hk.perform (hmanaged _ hmem) hcall

theorem create_returns (hk : k.Managed) (hp : k.processes.get? pid = some p) (entry : EntryPoint)
    (arg1 : Int64) (arg2 : UInt64) :
    (∃ r k', (k.create pid entry arg1 arg2).result = .ok (r, k')) ↔
      p.phase.acceptsThreads = true := by
  constructor
  · rintro ⟨r, k', hcreate⟩
    obtain ⟨q, hq, haccepts, -⟩ := create_eq_ok.mp hcreate
    cases hp.symm.trans hq
    exact haccepts
  · intro haccepts
    obtain ⟨r, k₁, hreserve⟩ := hk.accounts.reserve_ok
    cases r with
    | error e =>
      exact ⟨_, _, create_eq_ok.mpr ⟨p, hp, haccepts, .inl ⟨e, hreserve, rfl⟩⟩⟩
    | ok x =>
      obtain ⟨h, stack⟩ := x
      obtain ⟨-, -, hpages, hspan⟩ := hk.accounts.reserve hreserve
      have hpos : 0 < stack.pages := hpages ▸ k.config.extentPages_pos
      obtain ⟨context, hcontext⟩ := Context.start_ok hspan hpos entry arg1 arg2 p.directory
      obtain ⟨k', -, hcreate, -⟩ :=
        hk.accounts.tenancy.create_made hk.enrolled hp haccepts hreserve hcontext
      exact ⟨_, k', hcreate⟩

theorem clone_returns (hk : k.Managed) :
    (∃ r k', (k.clone h).result = .ok (r, k')) ↔
      ∃ t, k.thread? h = some t ∧ t.state = .runnable := by
  constructor
  · rintro ⟨r, k', hclone⟩
    obtain ⟨t, ht, hstate, -⟩ := clone_eq_ok.mp hclone
    exact ⟨t, ht, hstate⟩
  · rintro ⟨t, ht, hstate⟩
    obtain ⟨r, k₁, hreserve⟩ := hk.accounts.reserve_ok
    cases r with
    | error e => exact ⟨_, _, clone_eq_ok.mpr ⟨t, ht, hstate, .inl ⟨e, hreserve, rfl⟩⟩⟩
    | ok x =>
      obtain ⟨g, stack⟩ := x
      obtain ⟨hreserved, hawaits, hpages, hspan⟩ := hk.accounts.reserve hreserve
      have hpos : 0 < stack.pages := hpages ▸ k.config.extentPages_pos
      obtain ⟨context, hcontext⟩ := Context.empty_ok hspan hpos
      obtain ⟨k₂, hhouse⟩ := house_ok (t := t.copy g stack context) hawaits
      exact ⟨_, _, clone_eq_ok.mpr
        ⟨t, ht, hstate, .inr ⟨g, stack, context, k₁, hreserve, hcontext, hhouse, rfl⟩⟩⟩

theorem attach_returns (hk : k.Managed) (hp : k.processes.get? pid = some p) :
    (∃ k', (k.attach h pid).result = .ok k') ↔
      ∃ t, k.thread? h = some t ∧ t.isUnattachedClone = true := by
  constructor
  · rintro ⟨k', hattach⟩
    obtain ⟨q, t, -, ht, hclone, -⟩ := attach_eq_ok.mp hattach
    exact ⟨t, ht, hclone⟩
  · rintro ⟨t, ht, hclone⟩
    obtain ⟨hcloned, hprocess⟩ := Bool.and_eq_true_iff.mp hclone
    obtain ⟨hstate, hlink⟩ := (hk.placed.machine.sound h t ht).cloned hcloned
    have hfree : t.id ∉ p.members := by
      intro hmem
      obtain ⟨u, hu, hpid⟩ := (hk.enrolled pid p hp).2 t.id hmem
      rw [hk.accounts.named.id_eq ht] at hu
      cases ht.symm.trans hu
      rw [hpid] at hprocess
      cases hprocess
    obtain ⟨k', henlist⟩ := enlist_ok (t := { t with
      process := some pid
      flags := { t.flags with cloned := false }
      context := { t.context with pageDirectory := p.directory } }) hp hfree hstate hlink
    exact ⟨k', attach_eq_ok.mpr ⟨p, t, hp, ht, hclone, ⟨hstate, hlink⟩, henlist⟩⟩

theorem destroy_returns (hk : k.Managed) : (∃ k', (k.destroy h).result = .ok k') ↔
    ∃ t, k.thread? h = some t ∧ (t.state = .exited ∨ t.isUnattachedClone = true) := by
  constructor
  · rintro ⟨k', hdestroy⟩
    obtain ⟨t, ht, hstate, -⟩ := destroy_frame hdestroy
    exact ⟨t, ht, hstate.imp_right And.right⟩
  · rintro ⟨t, ht, hstate⟩
    have hsound := hk.placed.machine.sound h t ht
    rcases hstate with hexited | hclone
    · exact hk.accounts.destroy_ok ht (.inl hexited) (hsound.ended hexited)
    · obtain ⟨hstate, hlink⟩ := hsound.cloned (Bool.and_eq_true_iff.mp hclone).1
      exact hk.accounts.destroy_ok ht (.inr ⟨hstate, hclone⟩) hlink

theorem exit_returns (hk : k.Managed) (result : UInt64) :
    (∃ x k', (k.exit i result).result = .ok (x, k')) ↔ (k.machine.cpu i).isIdle = false := by
  constructor
  · rintro ⟨x, k', hexit⟩
    obtain ⟨h, -, -, hi, -⟩ := exit_eq_ok.mp hexit
    rw [← Bool.not_eq_true, Cpu.isIdle_iff, hi]
    simp
  · intro hbusy
    obtain ⟨t, ht⟩ := hk.placed.machine.current_ok hbusy
    obtain ⟨h, hi, -⟩ := Machine.current_eq_ok.mp ht
    obtain ⟨k', hexit, -⟩ := hk.placed.exit_ok hi result
    exact ⟨_, k', hexit⟩

theorem cancel_ok (hk : k.Managed) (i : Fin n) (target : Handle) (result : UInt64) :
    ∃ x? k', (k.cancel i target result).result = .ok (x?, k') := by
  by_cases hself : (k.machine.cpu i).thread? = some target
  · have hbusy : (k.machine.cpu i).isIdle = false := by
      rw [← Bool.not_eq_true, Cpu.isIdle_iff, hself]
      simp
    obtain ⟨x, k', hexit⟩ := (hk.exit_returns result).mpr hbusy
    exact ⟨_, _, cancel_eq_ok.mpr (.inl ⟨hself, x, hexit, rfl⟩)⟩
  · cases ht : k.thread? target with
    | none => exact ⟨_, _, cancel_eq_ok.mpr (.inr ⟨hself, rfl, .inl ⟨ht, rfl⟩⟩)⟩
    | some t =>
      by_cases hexited : t.state = .exited
      · exact ⟨_, _, cancel_eq_ok.mpr (.inr ⟨hself, rfl, .inr ⟨t, ht, .inl ⟨hexited, rfl⟩⟩⟩)⟩
      · obtain ⟨u, q, hu⟩ := hk.placed.machine.interrupt_ok (v := t.requestCancel result) ht rfl
        have hcancel : (k.hooks.cancel k.machine.queues (t.requestCancel result)).result =
            .ok (u, q) := by
          rw [hk.placed.hooks]
          exact hu
        exact ⟨_, _, cancel_eq_ok.mpr
          (.inr ⟨hself, rfl, .inr ⟨t, ht, .inr ⟨hexited, u, q, hcancel, rfl⟩⟩⟩)⟩

section Returns
variable {α : Type}

theorem onMachine_returns {f : Machine n → Logged (α × Machine n)} {g : α → Reply} :
    (∃ x, (k.onMachine f g).result = .ok x) ↔ ∃ a m, (f k.machine).result = .ok (a, m) := by
  constructor
  · rintro ⟨⟨reply, k'⟩, hcall⟩
    obtain ⟨a, m, hm, -⟩ := onMachine_eq_ok.mp hcall
    exact ⟨a, m, hm⟩
  · rintro ⟨a, m, hm⟩
    exact ⟨_, onMachine_eq_ok.mpr ⟨a, m, hm, rfl, rfl⟩⟩

theorem reply_returns {x : Logged (α × Kernel Arena SlotPool n)} (f : α → Reply) :
    (∃ y, (x >>= fun a => pure (f a.1, a.2)).result = .ok y) ↔
      ∃ a k', x.result = .ok (a, k') := by
  constructor
  · rintro ⟨⟨reply, k'⟩, hcall⟩
    obtain ⟨a, hx, -⟩ := (reply_eq_ok f).mp hcall
    exact ⟨a, k', hx⟩
  · rintro ⟨a, k', hx⟩
    exact ⟨_, (reply_eq_ok f).mpr ⟨a, hx, rfl⟩⟩

theorem done_returns {x : Logged (Kernel Arena SlotPool n)} :
    (∃ y, (done x).result = .ok y) ↔ ∃ k', x.result = .ok k' := by
  constructor
  · rintro ⟨⟨reply, k'⟩, hcall⟩
    exact ⟨k', (done_eq_ok.mp hcall).1⟩
  · rintro ⟨k', hx⟩
    exact ⟨_, done_eq_ok.mpr ⟨hx, rfl⟩⟩

theorem sleep_returns {c : Channel} : (∃ x, (k.perform (.sleep i c)).result = .ok x) ↔
    ∃ m, (k.machine.sleep i c).result = .ok m := by
  simp only [Kernel.perform, bind_eq_ok, pure_eq_ok]
  constructor
  · rintro ⟨x, m, hm, -⟩
    exact ⟨m, hm⟩
  · rintro ⟨m, hm⟩
    exact ⟨_, m, hm, rfl⟩

theorem onThread_returns {f : Thread → Logged Thread} (hf : ∀ t, ∃ u, (f t).result = .ok u) :
    ∃ x, (k.onThread h f).result = .ok x := by
  apply onMachine_returns.mpr
  cases ht : k.machine.threads.get? h with
  | none => exact ⟨_, _, Machine.onThread_eq_ok.mpr (.inl ⟨ht, rfl, rfl⟩)⟩
  | some t =>
    obtain ⟨u, hu⟩ := hf t
    have hpair : (do return (← f t, k.machine.queues) : Logged (Thread × Queues)).result =
        .ok (u, k.machine.queues) := by
      rw [bind_eq_ok]
      exact ⟨u, hu, rfl⟩
    exact ⟨_, _, Machine.onThread_eq_ok.mpr (.inr ⟨t, u, _, ht, hpair, rfl, rfl⟩)⟩

end Returns

/-- A managed call on processes that exist returns exactly if it breaks no rule. -/
theorem perform_returns {opened : Channel → Prop} (hk : k.Managed)
    (hopened : ∀ c, (k.machine.queues.waiters? c).isSome = true ↔ opened c)
    (hmanaged : call.isManaged = true)
    (hprocess : ∀ pid, call.process? = some pid → (k.processes.get? pid).isSome = true) :
    (∃ x, (k.perform call).result = .ok x) ↔ ¬ k.Breaks opened call := by
  have hm := hk.placed.machine
  cases hmanaged using Call.managed_cases with
  | newProcess directory phase => exact iff_of_true ⟨_, rfl⟩ not_false
  | dropProcess pid => exact iff_of_true ⟨_, rfl⟩ not_false
  | setPhase pid phase =>
    obtain ⟨p, hp⟩ := Option.isSome_iff_exists.mp (hprocess pid rfl)
    exact iff_of_true (done_returns.mpr ⟨_, onProcess_eq_ok.mpr ⟨p, _, hp, rfl, rfl⟩⟩) not_false
  | setName pid name =>
    obtain ⟨p, hp⟩ := Option.isSome_iff_exists.mp (hprocess pid rfl)
    exact iff_of_true (done_returns.mpr ⟨_, onProcess_eq_ok.mpr ⟨p, _, hp, rfl, rfl⟩⟩) not_false
  | create pid entry arg1 arg2 =>
    obtain ⟨p, hp⟩ := Option.isSome_iff_exists.mp (hprocess pid rfl)
    apply ((reply_returns .made).trans (hk.create_returns hp entry arg1 arg2)).trans
    simp only [Breaks, hp, Option.some.injEq, exists_eq_left']
    cases p.phase <;> simp [Phase.acceptsThreads]
  | clone source =>
    apply ((reply_returns .made).trans hk.clone_returns).trans
    simp only [Breaks, not_forall, ne_eq, not_not, exists_prop]
  | attach h pid =>
    obtain ⟨p, hp⟩ := Option.isSome_iff_exists.mp (hprocess pid rfl)
    apply (done_returns.trans (hk.attach_returns hp)).trans
    simp only [Breaks, not_forall, Bool.not_eq_false, exists_prop]
  | destroy h =>
    apply (done_returns.trans hk.destroy_returns).trans
    simp only [Breaks, not_forall, not_and_or, ne_eq, not_not, Bool.not_eq_false, exists_prop]
  | cancel i target result =>
    exact iff_of_true ((reply_returns .handoff).mpr (hk.cancel_ok i target result)) not_false
  | exit i result =>
    refine ((reply_returns fun x => .handoff (some x)).trans (hk.exit_returns result)).trans ?_
    simp only [Breaks, Bool.not_eq_true]
  | dispatch i => exact iff_of_true (onMachine_returns.mpr (hm.dispatch_ok i)) not_false
  | yieldCpu i =>
    apply (onMachine_returns.trans hm.yieldCpu_returns).trans
    simp only [Breaks, Bool.not_eq_true]
  | sleep i c =>
    apply (sleep_returns.trans hm.sleep_returns).trans
    simp only [Breaks, not_or, not_not, Bool.not_eq_true, hopened]
  | cancellableSleep i c =>
    apply (onMachine_returns.trans hm.cancellableSleep_returns).trans
    simp only [Breaks, ← hopened]
    constructor
    · rintro ⟨t, ht, hc⟩ (hidle | ⟨hclosed, hunasked⟩)
      · rw [Machine.Coherent.busy_of_current ht] at hidle
        cases hidle
      · obtain ⟨h, hi, ht⟩ := Machine.current_eq_ok.mp ht
        have hrequested := hc.resolve_right hclosed
        rw [hunasked h t hi ht] at hrequested
        cases hrequested
    · intro hkept
      obtain ⟨hbusy, hopen⟩ := not_or.mp hkept
      obtain ⟨t, ht⟩ := hm.current_ok (Bool.not_eq_true _ ▸ hbusy)
      refine ⟨t, ht, or_iff_not_imp_right.mpr fun hclosed => ?_⟩
      obtain ⟨h, hi, ht⟩ := Machine.current_eq_ok.mp ht
      by_contra hrequested
      refine hopen ⟨hclosed, fun g u hg hu => ?_⟩
      cases hi.symm.trans hg
      cases ht.symm.trans hu
      exact Bool.not_eq_true _ ▸ hrequested
  | wakeup c =>
    apply (onMachine_returns.trans hm.wakeup_returns).trans
    simp only [Breaks, hopened, not_not]
  | broadcast c =>
    apply (onMachine_returns.trans hm.broadcast_returns).trans
    simp only [Breaks, hopened, not_not]
  | newChannel => exact iff_of_true ⟨_, rfl⟩ not_false
  | setErrno h errno => exact iff_of_true (onThread_returns fun t => ⟨_, rfl⟩) not_false
  | loadRegisters h registers => exact iff_of_true (onThread_returns fun t => ⟨_, rfl⟩) not_false

end Managed

/-- In every state of a run, the next call stops the kernel exactly if it breaks the
rule of its caller. -/
theorem fails_iff_breaks {config : StackConfig} {base : VirtAddr} {pages capacity : Nat}
    {arena : Arena} {ids : Vector UInt32 n} {k₀ : Kernel Arena SlotPool n}
    (harena : (Arena.new base pages).result = .ok arena) (hspan : CanonicalSpan base pages)
    (hcapacity : capacity ≤ UInt32.size)
    (hboot : (boot config arena (SlotPool.new capacity) ids).result = .ok k₀)
    (hmanaged : ∀ call ∈ calls, call.isManaged = true) (hrun : k₀.run calls = .ok k)
    (hnext : call.isManaged = true)
    (hprocess : ∀ pid, call.process? = some pid → (k.processes.get? pid).isSome = true) :
    (∃ e, (k.perform call).result = .error e) ↔
      k.Breaks (fun c => Occurs (fun _ call reply _ => call = .newChannel ∧ reply = .channel c)
        k₀ calls) call := by
  have hk₀ : k₀.Managed := by
    refine ⟨.boot hboot, .boot harena hspan hcapacity hboot, ?_⟩
    obtain ⟨-, rfl⟩ := boot_eq_ok.mp hboot
    intro pid p hp
    cases pid <;> cases hp
  have hk : k.Managed := run_invariant hrun hk₀ fun _ _ _ _ hmem hk hcall =>
    hk.perform (hmanaged _ hmem) hcall
  rw [Logged.fails_iff, hk.perform_returns (opened_iff hboot hrun) hnext hprocess, not_not]

theorem fails_iff_breaks_small : ∃ k, small.run [.newProcess .zero .running,
      .create 1 ⟨"first"⟩ 0 0, .dispatch 0] = .ok k ∧
    (∃ e, (k.perform (.exit 1 7)).result = .error e) ∧
    ¬ ∃ e, (k.perform (.exit 0 7)).result = .error e := by
  obtain ⟨k, hrun, hidle⟩ := run_observe small
    [.newProcess .zero .running, .create 1 ⟨"first"⟩ 0 0, .dispatch 0]
    (fun k => ((k.machine.cpu 0).isIdle, (k.machine.cpu 1).isIdle)) (a := (false, true))
    (by decide +kernel)
  obtain ⟨hbusy, hidle⟩ := Prod.mk.injEq .. ▸ hidle
  have hexits (i : Fin 2) : (∃ e, (k.perform (.exit i 7)).result = .error e) ↔
      (k.machine.cpu i).isIdle = true := by
    refine fails_iff_breaks Arena.new_small span_small (by decide) boot_small (by decide) hrun
      rfl ?_
    intro pid hpid
    cases hpid
  refine ⟨k, hrun, (hexits 1).mpr hidle, fun hfails => ?_⟩
  rw [hexits 0, hbusy] at hfails
  cases hfails

end Kernel

end KernelThreads
