import KernelThreads.Proofs.Kernel.Accounts
import KernelThreads.Proofs.Kernel.Interleaving
import KernelThreads.Proofs.Kernel.MemorySafety

/-!
Calls of any number of callers, interleaved at the locks they take. What is under way
holds slots and stacks of its own, so the accounts stay in balance after every single
step, and no step meets a slot or an extent in a state that it did not leave it in.
-/
namespace KernelThreads

open Logged (MemorySafe bind_eq_ok pure_eq_ok)

/-- The process that the thread joins as soon as it is there. -/
def Plan.process? : Plan → Option ProcessId
  | .start pid _ _ _ _ => some pid
  | .copy _ _ => none

namespace Task

/-- The slots that a call has reserved and not yet filled or given back. -/
def slots : Task → List Nat
  | .admitted _ | .evicted _ _ | .delisted _ _ => []
  | .slotted _ slot => [slot]
  | .named _ h | .refused h _ | .equipped _ h _ => [h.slot.toNat]

/-- The stacks that a call holds and that no live thread has. -/
def areas : Task → List Stack
  | .admitted _ | .slotted _ _ | .named _ _ | .refused _ _ => []
  | .equipped _ _ stack | .delisted _ stack => [stack]
  | .evicted _ t => [t.stack]

/-- The handles under which a thread is still to move in. -/
def handles : Task → List Handle
  | .named _ h | .equipped _ h _ => [h]
  | .admitted _ | .slotted _ _ | .refused _ _ | .evicted _ _ | .delisted _ _ => []

/-- The process that the next step joins, and the handle of the new member. -/
def joins? : Task → Option (ProcessId × Handle)
  | .equipped plan h _ => plan.process?.map (·, h)
  | .admitted _ | .slotted _ _ | .named _ _ | .refused _ _ | .evicted _ _ | .delisted _ _ => none

theorem slot_mem {task : Task} {h : Handle} (hh : h ∈ task.handles) :
    h.slot.toNat ∈ task.slots := by
  cases task with
  | named plan g | equipped plan g stack =>
    cases List.mem_singleton.mp hh
    exact List.mem_singleton_self _
  | admitted | slotted | refused | evicted | delisted => cases hh

end Task

namespace Kernel

variable {n : Nat} {k k' : Kernel Arena SlotPool n} {call : Call n} {task : Task}
  {tasks tasks' : List Task} {stage : Stage} {reply : Reply} {h : Handle} {t : Thread}
  {config : StackConfig}

theorem Turn.awaits (hk : k.Turn call reply k') (hcall : call.isVital = false)
    (hh : k.machine.threads.awaits h = true) : k'.machine.threads.awaits h = true := by
  cases hk with
  | quiet hcall hproceeds hreply => exact hproceeds.machine.threads.awaits hh
  | blocked hproceeds => exact hproceeds.machine.threads.awaits hh
  | opened => exact hh
  | refused hmakes hreserve =>
    cases (Call.isVital_of_makesThread hmakes).symm.trans hcall
  | created hreserve hhouse henlist => cases hcall
  | cloned ht hstate hreserve hhouse => cases hcall
  | destroyed hdestroy => cases hcall
  | ended hends hcpu hexit =>
    obtain ⟨g, v, u, -, hv, -, -, -, -, rfl⟩ := exit_eq_ok.mp hexit
    rw [ended_threads]
    exact (Registry.related_set (R := fun _ _ => True) (fun _ => trivial) hv trivial).awaits hh

/-- Process `pid` is there and does not have the member `h` yet. -/
def Admits (k : Kernel Arena SlotPool n) (pid : ProcessId) (h : Handle) : Prop :=
  ∃ p, k.processes.get? pid = some p ∧ h ∉ p.members

/-- The accounts with what the calls under way hold, each of them in an empty slot. -/
structure Balanced (k : Kernel Arena SlotPool n) (config : StackConfig) (tasks : List Task) :
    Prop where
  config : k.config = config
  accounts : k.Accounts (tasks.flatMap Task.slots) (tasks.flatMap Task.areas)
  awaited : ∀ h ∈ tasks.flatMap Task.handles, k.machine.threads.awaits h = true

theorem slot_mem_tasks (hh : h ∈ tasks.flatMap Task.handles) :
    h.slot.toNat ∈ tasks.flatMap Task.slots := by
  obtain ⟨task, hmem, hh⟩ := List.mem_flatMap.mp hh
  exact List.mem_flatMap.mpr ⟨task, hmem, Task.slot_mem hh⟩

namespace Balanced

theorem perm (hk : k.Balanced config tasks) (hperm : tasks.Perm tasks') :
    k.Balanced config tasks' where
  config := hk.config
  accounts := hk.accounts.perm (hperm.flatMap_right _) (hperm.flatMap_right _)
  awaited h hh := hk.awaited h ((hperm.flatMap_right _).mem_iff.mpr hh)

/-- Steps that leave the registry as it is. -/
theorem keep (hk : k.Balanced config tasks)
    (hsame : k'.config = k.config ∧ k'.machine.threads = k.machine.threads)
    (haccounts : k'.Accounts (tasks'.flatMap Task.slots) (tasks'.flatMap Task.areas))
    (hhandles : tasks'.flatMap Task.handles ⊆ tasks.flatMap Task.handles) :
    k'.Balanced config tasks' where
  config := hsame.1.trans hk.config
  accounts := haccounts
  awaited h hh := by
    rw [hsame.2]
    exact hk.awaited h (hhandles hh)

theorem takeSlot {plan : Plan} {slot? : Option Nat}
    (hk : k.Balanced config (.admitted plan :: tasks))
    (htake : k.takeSlot.result = .ok (slot?, k')) :
    k'.Balanced config ((slot?.map (Task.slotted plan)).toList ++ tasks) := by
  obtain ⟨slots, -, hk'⟩ := takeSlot_eq_ok.mp htake
  have hsame : k'.config = k.config ∧ k'.machine.threads = k.machine.threads := by simp [hk']
  cases slot? with
  | none =>
    cases Accounts.takeSlot_none htake
    exact hk.keep hsame hk.accounts fun _ => id
  | some slot => exact hk.keep hsame (hk.accounts.takeSlot htake).1 fun _ => id

theorem issueHandle {plan : Plan} {slot : Nat}
    (hk : k.Balanced config (.slotted plan slot :: tasks))
    (hissue : (k.issueHandle slot).result = .ok (h, k')) :
    k'.Balanced config (.named plan h :: tasks) := by
  obtain ⟨haccounts, hslot, hawaits⟩ := hk.accounts.issueHandle hissue
  obtain ⟨threads, hissued, rfl⟩ := issueHandle_eq_ok.mp hissue
  refine ⟨hk.config, ?_, fun g hg => ?_⟩
  · subst hslot
    exact haccounts
  · rcases List.mem_cons.mp hg with rfl | hg
    · exact hawaits
    · -- another call's handle is of another slot
      have hother : g.slot.toNat ≠ slot := by
        rintro rfl
        exact hk.accounts.fresh (slot_mem_tasks hg)
      exact Registry.awaits_issue_other hissued hother (hk.awaited g hg)

theorem takeStack {plan : Plan} {stack? : Except Exhausted Stack}
    (hk : k.Balanced config (.named plan h :: tasks))
    (htake : k.takeStack.result = .ok (stack?, k')) :
    k'.Balanced config ((match stack? with
      | .ok stack => .equipped plan h stack
      | .error e => .refused h e) :: tasks) := by
  obtain ⟨pages, -, hk'⟩ := takeStack_eq_ok.mp htake
  have hsame : k'.config = k.config ∧ k'.machine.threads = k.machine.threads := by simp [hk']
  cases stack? with
  | error e =>
    cases Accounts.takeStack_error htake
    exact hk.keep hsame hk.accounts (List.subset_cons_self _ _)
  | ok stack => exact hk.keep hsame (hk.accounts.takeStack htake).1 fun _ => id

theorem returnSlot {e : Exhausted} (hk : k.Balanced config (.refused h e :: tasks))
    (hreturn : (k.returnSlot h).result = .ok k') : k'.Balanced config tasks := by
  obtain ⟨slots, -, hk'⟩ := returnSlot_eq_ok.mp hreturn
  have hsame : k'.config = k.config ∧ k'.machine.threads = k.machine.threads := by simp [hk']
  exact hk.keep hsame (hk.accounts.returnSlot hreturn) fun _ => id

theorem returnStack {stack : Stack} (hk : k.Balanced config (.delisted h stack :: tasks))
    (hreturn : (k.returnStack stack).result = .ok k') : k'.Balanced config tasks := by
  obtain ⟨pages, -, hk'⟩ := returnStack_eq_ok.mp hreturn
  have hsame : k'.config = k.config ∧ k'.machine.threads = k.machine.threads := by simp [hk']
  exact hk.keep hsame (hk.accounts.returnStack hreturn) fun _ => id

theorem delist (hk : k.Balanced config (.evicted h t :: tasks)) :
    (k.delist h t.process).Balanced config (.delisted h t.stack :: tasks) := by
  have hsame : (k.delist h t.process).config = k.config ∧
      (k.delist h t.process).machine.threads = k.machine.threads := by
    rw [delist_eq]
    exact ⟨rfl, rfl⟩
  exact hk.keep hsame (hk.accounts.delist h t.process) fun _ => id

theorem evict (hk : k.Balanced config tasks) (hevict : (k.evict h).result = .ok (t, k')) :
    k'.Balanced config (.evicted h t :: tasks) := by
  have haccounts := hk.accounts.evict hevict
  obtain ⟨-, -, -, hreturn⟩ := evict_eq_ok.mp hevict
  obtain ⟨slots, -, rfl⟩ := returnSlot_eq_ok.mp hreturn
  exact ⟨hk.config, haccounts, fun g hg => Registry.awaits_erase (hk.awaited g hg)⟩

/-- What has been reserved for a thread lets it in. -/
theorem house_ok {plan : Plan} (hk : k.Balanced config (.equipped plan t.id t.stack :: tasks)) :
    ∃ k', (k.house t).result = .ok k' :=
  Kernel.house_ok (hk.awaited t.id List.mem_cons_self)

theorem house {plan : Plan} (hk : k.Balanced config (.equipped plan t.id t.stack :: tasks))
    (hhouse : (k.house t).result = .ok k') : k'.Balanced config tasks := by
  have haccounts := hk.accounts.house hhouse
  obtain ⟨threads, hinsert, rfl⟩ := house_eq_ok.mp hhouse
  refine ⟨hk.config, haccounts, fun g hg => ?_⟩
  have hother : g.slot.toNat ≠ t.id.slot.toNat := by
    intro hsame
    exact hk.accounts.fresh (hsame ▸ slot_mem_tasks hg)
  exact Registry.awaits_insert_other hinsert hother (hk.awaited g (List.mem_cons_of_mem _ hg))

theorem continues (hk : k.Balanced config tasks) (h : k.Continues k') :
    k'.Balanced config tasks where
  config := h.config.trans hk.config
  accounts := hk.accounts.continues h
  awaited g hg := h.machine.threads.awaits (hk.awaited g hg)

theorem realize {plan : Plan} {stack : Stack}
    (hk : k.Balanced config (.equipped plan h stack :: tasks))
    (hrealize : (k.realize h stack plan).result = .ok k') : k'.Balanced config tasks := by
  cases plan with
  | start pid directory entry arg1 arg2 =>
    simp only [Kernel.realize, publish, bind_eq_ok, Logged.liftM_eq, Logged.emit_eq_ok, pure_eq_ok,
      true_and, exists_const] at hrealize
    obtain ⟨context, -, k₂, ⟨k₁, hhouse, henlist⟩, rfl⟩ := hrealize
    have hhoused := house (t := { id := h, process := some pid, stack, context }) hk hhouse
    exact hhoused.continues (.enlist (house_thread hhouse) henlist)
  | copy source sample =>
    simp only [Kernel.realize, bind_eq_ok, Logged.liftM_eq, Logged.emit_eq_ok, pure_eq_ok,
      true_and, exists_const] at hrealize
    obtain ⟨context, -, k₁, hhouse, rfl⟩ := hrealize
    exact house (t := sample.copy h stack context) hk hhouse

theorem stack_span {plan : Plan} {stack : Stack}
    (hk : k.Balanced config (.equipped plan h stack :: tasks)) :
    CanonicalSpan stack.base stack.pages ∧ 0 < stack.pages := by
  have hmem : stack ∈ (Task.equipped plan h stack :: tasks).flatMap Task.areas ++
      k.threads.map (·.stack) := List.mem_append_left _ List.mem_cons_self
  refine ⟨hk.accounts.arena.span_of_mem hk.accounts.span
    (hk.accounts.regions.mem_iff.mpr (List.mem_map_of_mem hmem)), ?_⟩
  rw [hk.accounts.sized stack hmem]
  exact k.config.extentPages_pos

theorem realize_ok {plan : Plan} {stack : Stack}
    (hk : k.Balanced config (.equipped plan h stack :: tasks))
    (hopen : ∀ pid, plan.process? = some pid → k.Admits pid h) :
    ∃ k', (k.realize h stack plan).result = .ok k' := by
  obtain ⟨hspan, hpages⟩ := hk.stack_span
  cases plan with
  | start pid directory entry arg1 arg2 =>
    obtain ⟨context, hcontext⟩ := Context.start_ok hspan hpages entry arg1 arg2 directory
    let t : Thread := { id := h, process := some pid, stack, context }
    obtain ⟨k₁, hhouse⟩ := house_ok (t := t) hk
    obtain ⟨p, hp, hfree⟩ := hopen pid rfl
    have hp₁ : k₁.processes.get? pid = some p := by
      obtain ⟨threads, -, rfl⟩ := house_eq_ok.mp hhouse
      exact hp
    obtain ⟨k₂, henlist⟩ := enlist_ok (t := t) hp₁ hfree rfl rfl
    have hpublish : (k.publish pid t).result = .ok k₂ := bind_eq_ok.mpr ⟨k₁, hhouse, henlist⟩
    exact ⟨k₂, bind_eq_ok.mpr ⟨context, Logged.ofAddress_eq_ok.mpr hcontext,
      bind_eq_ok.mpr ⟨k₂, hpublish, rfl⟩⟩⟩
  | copy source sample =>
    obtain ⟨context, hcontext⟩ := Context.empty_ok hspan hpages
    obtain ⟨k₁, hhouse⟩ := house_ok (t := sample.copy h stack context) hk
    exact ⟨k₁, bind_eq_ok.mpr ⟨context, Logged.ofAddress_eq_ok.mpr hcontext,
      bind_eq_ok.mpr ⟨k₁, hhouse, rfl⟩⟩⟩

theorem realize_safe {plan : Plan} {stack : Stack}
    (hk : k.Balanced config (.equipped plan h stack :: tasks)) :
    (k.realize h stack plan).MemorySafe := by
  cases plan with
  | start pid directory entry arg1 arg2 =>
    obtain ⟨hspan, hpages⟩ := hk.stack_span
    obtain ⟨context, hcontext⟩ := Context.start_ok hspan hpages entry arg1 arg2 directory
    have hlift := MemorySafe.of_ok ⟨context, Logged.ofAddress_eq_ok.mpr hcontext⟩
    refine hlift.bind fun context _ => ?_
    refine MemorySafe.bind (MemorySafe.bind ?_ fun k₁ _ => k₁.enlist_safe pid _) fun _ _ =>
      (MemorySafe.emit _).bind_pure
    exact .of_ok (house_ok (t := { id := h, process := some pid, stack, context }) hk)
  | copy source sample => exact .of_ok (hk.realize_ok fun pid hpid => nomatch hpid)

theorem advance (hk : k.Balanced config (task :: tasks))
    (hadvance : (k.advance task).result = .ok (stage, k')) :
    k'.Balanced config (stage.tasks ++ tasks) := by
  cases task with
  | admitted plan =>
    simp only [Kernel.advance, bind_eq_ok] at hadvance
    obtain ⟨⟨slot?, k₁⟩, htake, hrest⟩ := hadvance
    have hk₁ := hk.takeSlot htake
    cases slot? with
    | none =>
      cases hrest
      exact hk₁
    | some slot =>
      cases hrest
      exact hk₁
  | slotted plan slot =>
    simp only [Kernel.advance, bind_eq_ok, pure_eq_ok, Prod.exists] at hadvance
    obtain ⟨h, k₁, hissue, hrest⟩ := hadvance
    cases hrest
    exact hk.issueHandle hissue
  | named plan h =>
    simp only [Kernel.advance, bind_eq_ok] at hadvance
    obtain ⟨⟨stack?, k₁⟩, htake, hrest⟩ := hadvance
    have hk₁ := hk.takeStack htake
    cases stack? with
    | error e =>
      cases hrest
      exact hk₁
    | ok stack =>
      cases hrest
      exact hk₁
  | refused h e =>
    simp only [Kernel.advance, bind_eq_ok] at hadvance
    obtain ⟨k₁, hreturn, -, -, hrest⟩ := hadvance
    cases hrest
    exact hk.returnSlot hreturn
  | equipped plan h stack =>
    simp only [Kernel.advance, bind_eq_ok] at hadvance
    obtain ⟨k₁, hrealize, hrest⟩ := hadvance
    cases hrest
    exact hk.realize hrealize
  | evicted h t =>
    cases hadvance
    exact hk.delist
  | delisted h stack =>
    simp only [Kernel.advance, bind_eq_ok] at hadvance
    obtain ⟨k₁, hreturn, -, -, hrest⟩ := hadvance
    cases hrest
    exact hk.returnStack hreturn

/-- A call that is under way goes on, as long as its new thread may become a member. -/
theorem advance_ok (hk : k.Balanced config (task :: tasks))
    (hopen : ∀ pid h, task.joins? = some (pid, h) → k.Admits pid h) :
    ∃ x, (k.advance task).result = .ok x := by
  cases task with
  | admitted plan =>
    obtain ⟨⟨slot?, k₁⟩, htake⟩ : ∃ x, k.takeSlot.result = .ok x := ⟨_, rfl⟩
    cases slot? with
    | none => exact ⟨_, bind_eq_ok.mpr ⟨_, htake, rfl⟩⟩
    | some slot => exact ⟨_, bind_eq_ok.mpr ⟨_, htake, rfl⟩⟩
  | slotted plan slot =>
    obtain ⟨h, k₁, hissue⟩ := hk.accounts.tenancy.issueHandle_ok
    exact ⟨_, bind_eq_ok.mpr ⟨_, hissue, rfl⟩⟩
  | named plan h =>
    obtain ⟨stack?, k₁, htake⟩ := hk.accounts.takeStack_ok
    cases stack? with
    | error e => exact ⟨_, bind_eq_ok.mpr ⟨_, htake, rfl⟩⟩
    | ok stack => exact ⟨_, bind_eq_ok.mpr ⟨_, htake, rfl⟩⟩
  | refused h e =>
    obtain ⟨k₁, hreturn⟩ := hk.accounts.tenancy.returnSlot_ok
    exact ⟨_, bind_eq_ok.mpr ⟨k₁, hreturn, rfl⟩⟩
  | equipped plan h stack =>
    obtain ⟨k₁, hrealize⟩ := hk.realize_ok fun pid hpid => hopen pid h (by simp [Task.joins?, hpid])
    exact ⟨_, bind_eq_ok.mpr ⟨k₁, hrealize, rfl⟩⟩
  | evicted h t => exact ⟨_, rfl⟩
  | delisted h stack =>
    obtain ⟨k₁, hreturn⟩ := hk.accounts.returnStack_ok
    exact ⟨_, bind_eq_ok.mpr ⟨k₁, hreturn, rfl⟩⟩

theorem advance_safe (hk : k.Balanced config (task :: tasks)) : (k.advance task).MemorySafe := by
  cases task with
  | equipped plan h stack => exact hk.realize_safe.bind_pure
  | _ => exact .of_ok (hk.advance_ok fun pid h hjoins => nomatch hjoins)

/-- What a call that neither makes nor destroys a thread does, it does in one step. -/
theorem enter_eq_perform (k : Kernel Arena SlotPool n) (hcall : call.isVital = false) :
    k.enter call = k.perform call >>= fun x => pure (.replied x.1, x.2) := by
  cases call with
  | create pid entry arg1 arg2 => cases hcall
  | clone source => cases hcall
  | destroy h => cases hcall
  | _ => rfl

theorem enter (hk : k.Balanced config tasks) (henter : (k.enter call).result = .ok (stage, k')) :
    k'.Balanced config (stage.tasks ++ tasks) := by
  cases hcall : call.isVital with
  | false =>
    rw [enter_eq_perform k hcall, bind_eq_ok] at henter
    obtain ⟨⟨reply, k₁⟩, hperform, hrest⟩ := henter
    cases hrest
    have hturn := perform_turn hk.accounts.named hperform
    exact ⟨hturn.transition.settings.1.trans hk.config, hk.accounts.transition hturn.transition,
      fun h hh => hturn.awaits hcall (hk.awaited h hh)⟩
  | true =>
    cases call with
    | create pid entry arg1 arg2 =>
      simp only [Kernel.enter, bind_eq_ok, pure_eq_ok] at henter
      obtain ⟨p, -, -, -, hrest⟩ := henter
      cases hrest
      exact hk.keep ⟨rfl, rfl⟩ hk.accounts fun _ => id
    | clone source =>
      simp only [Kernel.enter, bind_eq_ok, pure_eq_ok] at henter
      obtain ⟨t, -, hrest⟩ := henter
      cases hrest
      exact hk.keep ⟨rfl, rfl⟩ hk.accounts fun _ => id
    | destroy h =>
      simp only [Kernel.enter, bind_eq_ok, pure_eq_ok, Prod.exists] at henter
      obtain ⟨t, k₁, hevict, hrest⟩ := henter
      cases hrest
      exact hk.evict hevict
    | _ => cases hcall

theorem evict_safe (hk : k.Balanced config tasks) (h : Handle) : (k.evict h).MemorySafe := by
  refine (MemorySafe.demand rfl).bind fun t ht => (MemorySafe.ensure rfl).bind fun _ _ =>
    (MemorySafe.ensure rfl).bind fun _ _ => MemorySafe.bind_pure (.of_ok ?_)
  exact (hk.accounts.tenancy.vacate (Logged.demand_eq_ok.mp ht)).returnSlot_ok

theorem enter_safe (hk : k.Balanced config tasks) (call : Call n) : (k.enter call).MemorySafe := by
  cases hcall : call.isVital with
  | false =>
    rw [enter_eq_perform k hcall]
    exact (k.perform_safe hcall).bind_pure
  | true =>
    cases call with
    | create pid entry arg1 arg2 =>
      exact (k.processes.find_safe pid).bind fun _ _ => (MemorySafe.ensure rfl).bind_pure
    | clone source => exact (k.sample_safe source).bind_pure
    | destroy h => exact (hk.evict_safe h).bind_pure
    | _ => cases hcall

end Balanced

end Kernel

namespace Traffic

variable {n : Nat} {s s' : Traffic Arena SlotPool n} {action : Action n}
  {actions : List (Action n)} {reply? : Option Reply} {k₀ : Kernel Arena SlotPool n}
  {config : StackConfig}

def Balanced (s : Traffic Arena SlotPool n) (config : StackConfig) : Prop :=
  s.kernel.Balanced config s.tasks

theorem Balanced.step (hs : s.Balanced config) (hstep : (s.step action).result = .ok (reply?, s')) :
    s'.Balanced config := by
  cases action with
  | call call =>
    simp only [Traffic.step, bind_eq_ok] at hstep
    obtain ⟨⟨stage, k'⟩, henter, hrest⟩ := hstep
    have hk' := Kernel.Balanced.enter hs henter
    cases stage with
    | replied reply =>
      cases hrest
      exact hk'
    | pending task =>
      cases hrest
      exact hk'.perm (List.perm_append_singleton task s.tasks).symm
  | advance i =>
    cases htask : s.tasks[i]? with
    | none =>
      simp only [Traffic.step, htask] at hstep
      cases hstep
      exact hs
    | some task =>
      simp only [Traffic.step, htask, bind_eq_ok] at hstep
      obtain ⟨⟨stage, k'⟩, hadvance, hrest⟩ := hstep
      obtain ⟨hi, rfl⟩ := List.getElem?_eq_some_iff.mp htask
      have hk' := (Kernel.Balanced.perm hs (List.getElem_cons_eraseIdx_perm hi).symm).advance
        hadvance
      cases stage with
      | replied reply =>
        cases hrest
        exact hk'
      | pending task =>
        cases hrest
        exact hk'.perm (List.set_perm_cons_eraseIdx hi task).symm

theorem Balanced.step_safe (hs : s.Balanced config) (action : Action n) :
    (s.step action).MemorySafe := by
  cases action with
  | call call =>
    refine (Kernel.Balanced.enter_safe hs call).bind fun x _ => ?_
    obtain ⟨stage, k'⟩ := x
    cases stage with
    | replied reply => exact .pure _
    | pending task => exact .pure _
  | advance i =>
    cases htask : s.tasks[i]? with
    | none =>
      simp only [Traffic.step, htask]
      exact .pure _
    | some task =>
      simp only [Traffic.step, htask]
      obtain ⟨hi, rfl⟩ := List.getElem?_eq_some_iff.mp htask
      have htasks := Kernel.Balanced.perm hs (List.getElem_cons_eraseIdx_perm hi).symm
      refine htasks.advance_safe.bind fun x _ => ?_
      obtain ⟨stage, k'⟩ := x
      cases stage with
      | replied reply => exact .pure _
      | pending task => exact .pure _

theorem Balanced.step_ok {i : Nat} {task : Task} (hs : s.Balanced config)
    (htask : s.tasks[i]? = some task)
    (hopen : ∀ pid h, task.joins? = some (pid, h) → s.kernel.Admits pid h) :
    ∃ x, (s.step (.advance i)).result = .ok x := by
  obtain ⟨hi, rfl⟩ := List.getElem?_eq_some_iff.mp htask
  have htasks := Kernel.Balanced.perm hs (List.getElem_cons_eraseIdx_perm hi).symm
  obtain ⟨⟨stage, k'⟩, hadvance⟩ := htasks.advance_ok hopen
  simp only [Traffic.step, htask]
  cases stage with
  | replied reply => exact ⟨_, bind_eq_ok.mpr ⟨_, hadvance, rfl⟩⟩
  | pending task => exact ⟨_, bind_eq_ok.mpr ⟨_, hadvance, rfl⟩⟩

theorem Balanced.run (hs : s.Balanced config) (hrun : s.run actions = .ok s') :
    s'.Balanced config := by
  induction actions generalizing s with
  | nil =>
    cases hrun
    exact hs
  | cons action actions ih =>
    rw [Traffic.run] at hrun
    split at hrun
    case h_1 s₁ hstep => exact ih (hs.step hstep) hrun
    case h_2 => cases hrun

theorem Balanced.run_safe {e : Fault} (hs : s.Balanced config) (hrun : s.run actions = .error e) :
    e.isMemory = false := by
  induction actions generalizing s with
  | nil => cases hrun
  | cons action actions ih =>
    rw [Traffic.run] at hrun
    split at hrun
    case h_1 s₁ hstep => exact ih (hs.step hstep) hrun
    case h_2 e' hstep =>
      cases hrun
      exact hs.step_safe action e hstep

/-- The stacks that are out: of the calls under way and of the live threads. -/
def heldStacks (s : Traffic Arena SlotPool n) : List Stack :=
  s.tasks.flatMap Task.areas ++ s.kernel.threads.map (·.stack)

/-- The slots that are out: of the calls under way and of the live threads. -/
def heldSlots (s : Traffic Arena SlotPool n) : List Nat :=
  s.tasks.flatMap Task.slots ++ s.kernel.threads.map fun t => t.id.slot.toNat

/-- However the steps of any number of calls are interleaved, none of them stops the
kernel over slots and pages, and a call under way can go on, unless its process is gone
or has the new member already. After each step the slots and the extents that are out
are held once each, by a call under way or by a live thread. With no call under way the
live threads hold them all. -/
theorem interleavings_safe {base : VirtAddr} {pages capacity : Nat}
    {arena : Arena} {ids : Vector UInt32 n} {hooks : Hooks} {exitClearsCpu : Bool}
    (harena : (Arena.new base pages).result = .ok arena) (hspan : CanonicalSpan base pages)
    (hcapacity : capacity ≤ UInt32.size)
    (hboot : (Kernel.boot config arena (SlotPool.new capacity) ids hooks exitClearsCpu).result =
      .ok k₀) (actions : List (Action n)) :
    (∀ e, run { kernel := k₀ } actions = .error e → e.isMemory = false) ∧
    ∀ s, run { kernel := k₀ } actions = .ok s →
      (∀ action e, (s.step action).result = .error e → e.isMemory = false) ∧
      (∀ i task, s.tasks[i]? = some task →
        (∀ pid h, task.joins? = some (pid, h) → s.kernel.Admits pid h) →
          ∃ x, (s.step (.advance i)).result = .ok x) ∧
      s.kernel.slots.taken.Perm s.heldSlots ∧ s.heldSlots.Nodup ∧
      s.kernel.pages.regions.Perm (s.heldStacks.map Stack.region) ∧
      (s.heldStacks.Pairwise fun a b => a.overlaps b = .ok false) ∧
      (∀ a ∈ s.heldStacks, a.pages = config.extentPages) ∧
      s.kernel.pages.available + s.heldStacks.length * config.extentPages = s.kernel.pages.total ∧
      (s.tasks = [] → s.kernel.slots.count = s.kernel.threadCount ∧
        s.kernel.pages.extents.length = s.kernel.threadCount ∧
        s.kernel.pages.available =
          s.kernel.pages.total - s.kernel.threadCount * config.extentPages) := by
  have hk₀ := Kernel.Accounts.boot harena hspan hcapacity hboot
  have hconfig : k₀.config = config := by
    obtain ⟨-, rfl⟩ := Kernel.boot_eq_ok.mp hboot
    rfl
  have hbalanced : Balanced { kernel := k₀ } config := ⟨hconfig, hk₀, by simp⟩
  refine ⟨fun e => hbalanced.run_safe, fun s hrun => ?_⟩
  have hs := hbalanced.run hrun
  have hconfig : s.kernel.config = config := hs.config
  have haccounts : s.kernel.Accounts (s.tasks.flatMap Task.slots) (s.tasks.flatMap Task.areas) :=
    hs.accounts
  have havailable := haccounts.available
  have hstacks : s.heldStacks.length =
      (s.tasks.flatMap Task.areas).length + s.kernel.threadCount := by
    simp [heldStacks, Kernel.threadCount, Registry.size, Kernel.threads]
  rw [hconfig, ← hstacks] at havailable
  refine ⟨hs.step_safe, fun i task => hs.step_ok, haccounts.slots,
    haccounts.slots.nodup_iff.mp (SlotPool.nodup_taken _), haccounts.regions,
    haccounts.apart.imp fun hab => hab.1, fun a ha => hconfig ▸ haccounts.sized a ha,
    havailable, ?_⟩
  intro hnone
  have hcount : s.kernel.slots.count = s.heldSlots.length := by
    rw [haccounts.pool]
    exact haccounts.slots.length_eq
  have hextents : s.kernel.pages.extents.length = s.heldStacks.length := by
    have hlength := haccounts.regions.length_eq
    rwa [Arena.regions, List.length_map, List.length_map] at hlength
  have hslots : s.heldSlots.length = s.kernel.threadCount := by
    simp [heldSlots, hnone, Kernel.threadCount, Registry.size, Kernel.threads]
  rw [hnone, List.flatMap_nil, List.length_nil, Nat.zero_add] at hstacks
  rw [hstacks] at havailable hextents
  exact ⟨hcount.trans hslots, hextents, by omega⟩

/-- A clone moves into the slot that a thread is on its way out of, and gets a stack
while the other is still out. -/
theorem interleavings_safe_small : ∃ s, run { kernel := .small }
      ([.call (.newProcess .zero .running), .call (.create 1 ⟨"first"⟩ 0 0)] ++
        List.replicate 4 (.advance 0) ++ [.call (.clone ⟨0, 1⟩)] ++
        List.replicate 4 (.advance 0) ++ [.call (.destroy ⟨1, 1⟩), .call (.clone ⟨0, 1⟩)] ++
        List.replicate 4 (.advance 1)) = .ok s ∧
    s.heldStacks.length = 3 ∧ (s.heldStacks.Pairwise fun a b => a.overlaps b = .ok false) ∧
    s.kernel.pages.available + 3 * 2 = s.kernel.pages.total := by
  obtain ⟨s, hrun, hheld⟩ := observe_ok (b := 3) (x := run { kernel := .small }
      ([.call (.newProcess .zero .running), .call (.create 1 ⟨"first"⟩ 0 0)] ++
        List.replicate 4 (.advance 0) ++ [.call (.clone ⟨0, 1⟩)] ++
        List.replicate 4 (.advance 0) ++ [.call (.destroy ⟨1, 1⟩), .call (.clone ⟨0, 1⟩)] ++
        List.replicate 4 (.advance 1)))
    (fun s => s.heldStacks.length) (by decide +kernel)
  obtain ⟨-, hsafe⟩ := interleavings_safe Arena.new_small Kernel.span_small (by decide)
    Kernel.boot_small _
  obtain ⟨-, -, -, -, -, hapart, -, havailable, -⟩ := hsafe s hrun
  rw [hheld] at havailable
  exact ⟨s, hrun, hheld, hapart, havailable⟩

end Traffic

end KernelThreads
