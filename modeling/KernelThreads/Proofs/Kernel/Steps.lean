import KernelThreads.Kernel.Call
import KernelThreads.Proofs.Memory.Spans
import KernelThreads.Proofs.Scheduling.Steps
import KernelThreads.Proofs.Thread.Occupancy

/-!
What each step of the life cycle does when it returns, guards included, from the
small steps under one lock to the operations that are made of them.
-/
namespace KernelThreads

open Logged (bind_eq_ok demand_eq_ok emit_eq_ok ensure_eq_ok ofAddress_eq_ok pure_eq_ok)

theorem Process.join_eq_ok {p q : Process} {pid : ProcessId} {h : Handle} :
    (p.join pid h).result = .ok q ↔ h ∉ p.members ∧ q = { p with members := p.members ++ [h] } := by
  simp only [join, bind_eq_ok, ensure_eq_ok, pure_eq_ok, exists_and_left, exists_const]
  exact and_congr_right fun _ => eq_comm

theorem Processes.find_eq_ok {ps : Processes} {pid : ProcessId} {p : Process} :
    (ps.find pid).result = .ok p ↔ ps.get? pid = some p := by
  unfold find
  cases ps.get? pid <;> simp

/-- The processes without `h` among the members of one of them. -/
def Processes.without (ps : Processes) (h : Handle) : Option ProcessId → Processes
  | none => ps
  | some pid =>
    match ps.get? pid with
    | none => ps
    | some p => ps.set pid (p.leave h)

/-- One process at most loses a member; its order and all else stays. -/
theorem Processes.get?_without (ps : Processes) (h : Handle) (pid? : Option ProcessId)
    (pid : ProcessId) : (ps.without h pid?).get? pid = (ps.get? pid).map fun p =>
      if pid? = some pid then { p with members := p.members.erase h } else p := by
  cases pid? with
  | none => simp [without]
  | some pid' =>
    by_cases hpid : pid' = pid
    · subst hpid
      cases hp : ps.get? pid' with
      | none => simp [without, hp]
      | some p => simp [without, hp, get?_set, Process.leave]
    · cases hp : ps.get? pid' with
      | none => simp [without, hp, hpid]
      | some p => simp [without, hp, get?_set, hpid]

namespace Kernel

variable {P O : Type} {n : Nat} {k k' : Kernel P O n} {h : Handle} {t : Thread}
  {pid : ProcessId} {i : Fin n}

theorem delist_eq (k : Kernel P O n) (h : Handle) (pid? : Option ProcessId) :
    k.delist h pid? = { k with processes := k.processes.without h pid? } := by
  unfold delist Processes.without
  cases pid? with
  | none => rfl
  | some pid =>
    dsimp only
    cases k.processes.get? pid with
    | none => rfl
    | some p => rfl

theorem issueHandle_eq_ok {slot : Nat} : (k.issueHandle slot).result = .ok (h, k') ↔
    ∃ threads, (k.machine.threads.issue slot).result = .ok (h, threads) ∧
      k' = { k with machine := { k.machine with threads } } := by
  simp only [issueHandle, bind_eq_ok, pure_eq_ok, Prod.exists, Prod.mk.injEq]
  constructor
  · rintro ⟨g, threads, hissue, rfl, rfl⟩
    exact ⟨threads, hissue, rfl⟩
  · rintro ⟨threads, hissue, rfl⟩
    exact ⟨h, threads, hissue, rfl, rfl⟩

theorem house_eq_ok : (k.house t).result = .ok k' ↔
    ∃ threads, (k.machine.threads.insert t).result = .ok threads ∧
      k' = { k with machine := { k.machine with threads } } := by
  simp only [house, bind_eq_ok, pure_eq_ok, @eq_comm _ k']

theorem house_ok (hawaits : k.machine.threads.awaits t.id = true) :
    ∃ k', (k.house t).result = .ok k' :=
  ⟨_, house_eq_ok.mpr ⟨_, Registry.insert_eq_ok.mpr ⟨hawaits, rfl⟩, rfl⟩⟩

/-- The thread that moves in has its slot to itself. -/
theorem house_vacant (hhouse : (k.house t).result = .ok k') : k.thread? t.id = none := by
  obtain ⟨threads, hinsert, -⟩ := house_eq_ok.mp hhouse
  obtain ⟨hawaits, -⟩ := Registry.insert_eq_ok.mp hinsert
  exact Registry.get?_awaits hawaits

theorem house_thread? (hhouse : (k.house t).result = .ok k') (g : Handle) :
    k'.thread? g = if t.id = g then some t else k.thread? g := by
  obtain ⟨threads, hinsert, rfl⟩ := house_eq_ok.mp hhouse
  exact Registry.get?_insert hinsert g

theorem house_thread (hhouse : (k.house t).result = .ok k') : k'.thread? t.id = some t :=
  (house_thread? hhouse t.id).trans (if_pos rfl)

theorem house_hooks (hhouse : (k.house t).result = .ok k') : k'.hooks = k.hooks := by
  obtain ⟨threads, -, rfl⟩ := house_eq_ok.mp hhouse
  rfl

theorem enlist_eq_ok : (k.enlist pid t).result = .ok k' ↔
    ∃ p u queues, k.processes.get? pid = some p ∧ t.id ∉ p.members ∧
      (k.hooks.makeRunnable k.machine.queues t).result = .ok (u, queues) ∧
        k' = { k with
          processes := k.processes.set pid { p with members := p.members ++ [t.id] }
          machine := k.machine.put t.id u queues } := by
  simp only [enlist, bind_eq_ok, Processes.find_eq_ok, Process.join_eq_ok, pure_eq_ok, Prod.exists]
  constructor
  · rintro ⟨p, hp, q, ⟨hfree, rfl⟩, u, queues, hq, rfl⟩
    exact ⟨p, u, queues, hp, hfree, hq, rfl⟩
  · rintro ⟨p, u, queues, hp, hfree, hq, rfl⟩
    exact ⟨p, hp, _, ⟨hfree, rfl⟩, u, queues, hq, rfl⟩

theorem enlist_ok {p : Process} (hp : k.processes.get? pid = some p) (hfree : t.id ∉ p.members)
    (hstate : t.state = .runnable) (hlink : t.link = .unlinked) :
    ∃ k', (k.enlist pid t).result = .ok k' := by
  obtain ⟨u, q, hrunnable⟩ :
      ∃ u q, (k.hooks.makeRunnable k.machine.queues t).result = .ok (u, q) := by
    cases k.hooks with
    | fifo =>
      have henqueue := Thread.enqueue_eq_ok.mpr ⟨hstate, .inl hlink, rfl⟩
      exact ⟨_, _, Queues.makeRunnable_eq_ok.mpr ⟨henqueue, rfl⟩⟩
    | inert => exact ⟨t, _, rfl⟩
  exact ⟨_, enlist_eq_ok.mpr ⟨p, u, q, hp, hfree, hrunnable, rfl⟩⟩

/-- Of the threads, an enlistment changes one: it is made runnable. -/
theorem enlist_thread? (ht : k.thread? t.id = some t) (henlist : (k.enlist pid t).result = .ok k') :
    ∃ u q r, (k.hooks.makeRunnable q t).result = .ok (u, r) ∧
      ∀ g, k'.thread? g = if t.id = g then some u else k.thread? g := by
  obtain ⟨p, u, r, -, -, hq, rfl⟩ := enlist_eq_ok.mp henlist
  exact ⟨u, _, r, hq, Registry.get?_set_live ht u⟩

theorem attach_eq_ok : (k.attach h pid).result = .ok k' ↔
    ∃ p t, k.processes.get? pid = some p ∧ k.thread? h = some t ∧ t.isUnattachedClone = true ∧
      (t.state = .runnable ∧ t.link = .unlinked) ∧
        (k.enlist pid { t with
          process := some pid
          flags := { t.flags with cloned := false }
          context := { t.context with pageDirectory := p.directory } }).result = .ok k' := by
  simp only [attach, bind_eq_ok, Processes.find_eq_ok, demand_eq_ok, ensure_eq_ok, emit_eq_ok,
    pure_eq_ok, exists_and_left, exists_const, true_and]
  refine exists_congr fun p => ⟨?_, ?_⟩
  · rintro ⟨hp, t, ht, hclone, hstate, k₁, henlist, rfl⟩
    exact ⟨hp, t, ht, hclone, hstate, henlist⟩
  · rintro ⟨hp, t, ht, hclone, hstate, henlist⟩
    exact ⟨hp, t, ht, hclone, hstate, k', henlist, rfl⟩

/-- The kernel after the thread `h` has ended as `t` on processor `i`. -/
def ended (k : Kernel P O n) (i : Fin n) (h : Handle) (t : Thread) (result : UInt64) :
    Kernel P O n :=
  { k with
    machine :=
      if k.exitClearsCpu then (k.machine.setThread h t).clearCpu i else k.machine.setThread h t
    handoffs := k.handoffs ++ [⟨(k.machine.cpu i).id, h, result⟩] }

@[simp] theorem ended_threads (k : Kernel P O n) (i : Fin n) (h : Handle) (t : Thread)
    (result : UInt64) : (k.ended i h t result).machine.threads = k.machine.threads.set h t := by
  unfold ended
  cases k.exitClearsCpu <;> rfl

theorem ended_thread? {u : Thread} (ht : k.thread? h = some t) (i : Fin n) (result : UInt64)
    (g : Handle) : (k.ended i h u result).thread? g = if h = g then some u else k.thread? g := by
  rw [thread?, ended_threads]
  exact Registry.get?_set_live ht u g

@[simp] theorem ended_queues (k : Kernel P O n) (i : Fin n) (h : Handle) (t : Thread)
    (result : UInt64) : (k.ended i h t result).machine.queues = k.machine.queues := by
  unfold ended
  cases k.exitClearsCpu <;> rfl

theorem exit_eq_ok {result : UInt64} {x : Handoff} : (k.exit i result).result = .ok (x, k') ↔
    ∃ h t u, (k.machine.cpu i).thread? = some h ∧ k.thread? h = some t ∧
      t.link = .onCpu (k.machine.cpu i).id ∧ t.process = (k.machine.cpu i).process? ∧
      (t.finish result).result = .ok u ∧ x = ⟨(k.machine.cpu i).id, h, result⟩ ∧
      k' = k.ended i h u result := by
  simp only [exit, bind_eq_ok, demand_eq_ok, exists_and_left]
  refine exists_congr fun h => and_congr_right fun _ => exists_congr fun t =>
    and_congr_right fun _ => ?_
  cases hchannel : t.link.channel? with
  | some c =>
    constructor
    · intro hviolate
      cases hviolate
    · rintro ⟨hlink, -⟩
      rw [hlink] at hchannel
      cases hchannel
  | none =>
    simp only [bind_eq_ok, ensure_eq_ok, emit_eq_ok, pure_eq_ok, Prod.mk.injEq, exists_and_left,
      exists_const, true_and]
    refine and_congr_right fun _ => and_congr_right fun _ => exists_congr fun u =>
      and_congr_right fun _ => ?_
    constructor
    · rintro ⟨rfl, rfl⟩
      exact ⟨rfl, rfl⟩
    · rintro ⟨rfl, rfl⟩
      exact ⟨rfl, rfl⟩

theorem cancel_eq_ok {target : Handle} {result : UInt64} {x? : Option Handoff} :
    (k.cancel i target result).result = .ok (x?, k') ↔
      ((k.machine.cpu i).thread? = some target ∧
          ∃ x, (k.exit i result).result = .ok (x, k') ∧ x? = some x) ∨
        (k.machine.cpu i).thread? ≠ some target ∧ x? = none ∧
          ((k.thread? target = none ∧ k' = k) ∨
            ∃ t, k.thread? target = some t ∧
              ((t.state = .exited ∧ k' = k) ∨
                t.state ≠ .exited ∧ ∃ u q,
                  (k.hooks.cancel k.machine.queues (t.requestCancel result)).result = .ok (u, q) ∧
                    k' = { k with machine := k.machine.put target u q })) := by
  unfold cancel
  by_cases hself : (k.machine.cpu i).thread? = some target
  · rw [if_pos hself]
    simp only [bind_eq_ok, pure_eq_ok, Prod.exists, Prod.mk.injEq, hself, true_and, ne_eq,
      not_true_eq_false, false_and, or_false]
    constructor
    · rintro ⟨x, k₁, hexit, rfl, rfl⟩
      exact ⟨x, hexit, rfl⟩
    · rintro ⟨x, hexit, rfl⟩
      exact ⟨x, k', hexit, rfl, rfl⟩
  · rw [if_neg hself]
    simp only [hself, false_and, false_or, ne_eq, not_false_eq_true, true_and]
    cases htarget : k.thread? target with
    | none =>
      simp only [bind_eq_ok, emit_eq_ok, pure_eq_ok, Prod.mk.injEq, true_and, exists_const]
      constructor
      · rintro ⟨rfl, rfl⟩
        exact ⟨rfl, .inl rfl⟩
      · rintro ⟨rfl, rfl | ⟨t, ht, -⟩⟩
        · exact ⟨rfl, rfl⟩
        · cases ht
    | some t =>
      by_cases hexited : t.state = .exited
      · simp only [if_pos hexited, bind_eq_ok, emit_eq_ok, pure_eq_ok, Prod.mk.injEq, true_and,
          exists_const]
        constructor
        · rintro ⟨rfl, rfl⟩
          exact ⟨rfl, .inr ⟨t, rfl, .inl ⟨hexited, rfl⟩⟩⟩
        · rintro ⟨rfl, ⟨hnone, -⟩ | ⟨t', ht', ⟨-, rfl⟩ | ⟨hgoing, -⟩⟩⟩
          · cases hnone
          · exact ⟨rfl, rfl⟩
          · cases ht'
            exact absurd hexited hgoing
      · simp only [if_neg hexited, bind_eq_ok, emit_eq_ok, pure_eq_ok, Prod.exists, Prod.mk.injEq,
          true_and, exists_const]
        constructor
        · rintro ⟨u, q, hcancel, rfl, rfl⟩
          exact ⟨rfl, .inr ⟨t, rfl, .inr ⟨hexited, u, q, hcancel, rfl⟩⟩⟩
        · rintro ⟨rfl, ⟨hnone, -⟩ | ⟨t', ht', ⟨hend, -⟩ | ⟨-, u, q, hcancel, rfl⟩⟩⟩
          · cases hnone
          · cases ht'
            exact absurd hend hexited
          · cases ht'
            exact ⟨u, q, hcancel, rfl, rfl⟩

section Slots
variable [SlotSource O]

theorem boot_eq_ok {config : StackConfig} {pages : P} {slots : O} {ids : Vector UInt32 n}
    {hooks : Hooks} {exitClearsCpu : Bool} :
    (boot config pages slots ids hooks exitClearsCpu).result = .ok k ↔
      config.validate.result = .ok () ∧ k = {
        config, hooks, exitClearsCpu, pages, slots
        machine := {
          threads := .new (SlotSource.capacity slots)
          queues := {}
          cpus := ids.map fun id => { id } }
        processes := .empty
        handoffs := [] } := by
  simp only [boot, bind_eq_ok, emit_eq_ok, pure_eq_ok, true_and, exists_const]
  exact ⟨fun ⟨_, hvalid, hk⟩ => ⟨hvalid, hk.symm⟩, fun ⟨hvalid, hk⟩ => ⟨(), hvalid, hk.symm⟩⟩

theorem takeSlot_eq_ok {slot? : Option Nat} : k.takeSlot.result = .ok (slot?, k') ↔
    ∃ slots, (SlotSource.alloc k.slots).result = .ok (slot?, slots) ∧ k' = { k with slots } := by
  simp only [takeSlot, bind_eq_ok, pure_eq_ok, Prod.exists, Prod.mk.injEq]
  constructor
  · rintro ⟨s, slots, halloc, rfl, rfl⟩
    exact ⟨slots, halloc, rfl⟩
  · rintro ⟨slots, halloc, rfl⟩
    exact ⟨slot?, slots, halloc, rfl, rfl⟩

theorem returnSlot_eq_ok : (k.returnSlot h).result = .ok k' ↔
    ∃ slots, (SlotSource.free k.slots h.slot.toNat).result = .ok slots ∧
      k' = { k with slots } := by
  simp only [returnSlot, bind_eq_ok, pure_eq_ok, @eq_comm _ k']

theorem evict_eq_ok : (k.evict h).result = .ok (t, k') ↔
    k.thread? h = some t ∧ (t.state = .exited ∨ t.state = .runnable ∧ t.isUnattachedClone = true) ∧
      t.link = .unlinked ∧
        (returnSlot { k with
          machine := { k.machine with threads := k.machine.threads.erase h } } h).result =
            .ok k' := by
  simp only [evict, bind_eq_ok, demand_eq_ok, ensure_eq_ok, pure_eq_ok, Prod.mk.injEq,
    exists_and_left, exists_const]
  constructor
  · rintro ⟨t, ht, hstate, hlink, k₁, hreturn, rfl, rfl⟩
    exact ⟨ht, hstate, hlink, hreturn⟩
  · rintro ⟨ht, hstate, hlink, hreturn⟩
    exact ⟨t, ht, hstate, hlink, k', hreturn, rfl, rfl⟩

end Slots

section Stacks
variable [PageSource P]

theorem takeStack_eq_ok {r : Except Exhausted Stack} : k.takeStack.result = .ok (r, k') ↔
    ∃ pages, (k.config.acquire k.pages).result = .ok (r, pages) ∧ k' = { k with pages } := by
  simp only [takeStack, bind_eq_ok, pure_eq_ok, Prod.exists, Prod.mk.injEq]
  constructor
  · rintro ⟨s, pages, hacquire, rfl, rfl⟩
    exact ⟨pages, hacquire, rfl⟩
  · rintro ⟨pages, hacquire, rfl⟩
    exact ⟨r, pages, hacquire, rfl, rfl⟩

theorem returnStack_eq_ok {s : Stack} : (k.returnStack s).result = .ok k' ↔
    ∃ pages, (k.config.release k.pages s).result = .ok pages ∧ k' = { k with pages } := by
  simp only [returnStack, bind_eq_ok, pure_eq_ok, @eq_comm _ k']

end Stacks

section Lives
variable [PageSource P] [SlotSource O]

/-- A reservation ends for want of a slot, or for want of a stack with the slot
given back, or with a handle and a stack. -/
theorem reserve_eq_ok {r : Except Exhausted (Handle × Stack)} :
    k.reserve.result = .ok (r, k') ↔
      (k.takeSlot.result = .ok (none, k') ∧ r = .error .threadObject) ∨
        ∃ slot k₁ h k₂, k.takeSlot.result = .ok (some slot, k₁) ∧
          (k₁.issueHandle slot).result = .ok (h, k₂) ∧
            ((∃ stack, k₂.takeStack.result = .ok (.ok stack, k') ∧ r = .ok (h, stack)) ∨
              ∃ e k₃, k₂.takeStack.result = .ok (.error e, k₃) ∧
                (k₃.returnSlot h).result = .ok k' ∧ r = .error e) := by
  unfold reserve
  rw [bind_eq_ok]
  constructor
  · rintro ⟨⟨slot?, k₁⟩, hslot, hr⟩
    cases slot? with
    | none =>
      simp only [bind_eq_ok, emit_eq_ok, pure_eq_ok, Prod.mk.injEq, true_and, exists_const] at hr
      obtain ⟨rfl, rfl⟩ := hr
      exact .inl ⟨hslot, rfl⟩
    | some slot =>
      simp only [bind_eq_ok] at hr
      obtain ⟨⟨h, k₂⟩, hissue, ⟨stack?, k₃⟩, hstack, hr⟩ := hr
      refine .inr ⟨slot, k₁, h, k₂, hslot, hissue, ?_⟩
      cases stack? with
      | ok stack =>
        cases hr
        exact .inl ⟨stack, hstack, rfl⟩
      | error e =>
        simp only [bind_eq_ok, emit_eq_ok, pure_eq_ok, Prod.mk.injEq, true_and,
          exists_const] at hr
        obtain ⟨k₄, hreturn, rfl, rfl⟩ := hr
        exact .inr ⟨e, k₃, hstack, hreturn, rfl⟩
  · rintro (⟨hslot, rfl⟩ | ⟨slot, k₁, h, k₂, hslot, hissue, hrest⟩)
    · exact ⟨(none, k'), hslot, rfl⟩
    · refine ⟨(some slot, k₁), hslot, ?_⟩
      simp only [bind_eq_ok]
      rcases hrest with ⟨stack, hstack, rfl⟩ | ⟨e, k₃, hstack, hreturn, rfl⟩
      · exact ⟨(h, k₂), hissue, (.ok stack, k'), hstack, rfl⟩
      · refine ⟨(h, k₂), hissue, (.error e, k₃), hstack, ?_⟩
        simp only [bind_eq_ok, emit_eq_ok, pure_eq_ok, true_and, exists_const]
        exact ⟨k', hreturn, rfl⟩

/-- Of the machine, a reservation changes the generation of one slot at most. -/
theorem reserve_frame {r : Except Exhausted (Handle × Stack)}
    (hreserve : k.reserve.result = .ok (r, k')) :
    ∃ threads, k' = { k with
        pages := k'.pages
        slots := k'.slots
        machine := { k.machine with threads } } ∧
      (threads = k.machine.threads ∨
        ∃ slot h, (k.machine.threads.issue slot).result = .ok (h, threads)) := by
  rcases reserve_eq_ok.mp hreserve with ⟨hslot, -⟩ |
    ⟨slot, k₁, h, k₂, hslot, hissue, ⟨stack, hstack, -⟩ | ⟨e, k₃, hstack, hreturn, -⟩⟩
  · obtain ⟨slots, -, rfl⟩ := takeSlot_eq_ok.mp hslot
    exact ⟨_, rfl, .inl rfl⟩
  · obtain ⟨slots, -, rfl⟩ := takeSlot_eq_ok.mp hslot
    obtain ⟨threads, hissued, rfl⟩ := issueHandle_eq_ok.mp hissue
    obtain ⟨pages, -, rfl⟩ := takeStack_eq_ok.mp hstack
    exact ⟨threads, rfl, .inr ⟨slot, h, hissued⟩⟩
  · obtain ⟨slots, -, rfl⟩ := takeSlot_eq_ok.mp hslot
    obtain ⟨threads, hissued, rfl⟩ := issueHandle_eq_ok.mp hissue
    obtain ⟨pages, -, rfl⟩ := takeStack_eq_ok.mp hstack
    obtain ⟨slots', -, rfl⟩ := returnSlot_eq_ok.mp hreturn
    exact ⟨threads, rfl, .inr ⟨slot, h, hissued⟩⟩

theorem reserve_thread? {r : Except Exhausted (Handle × Stack)}
    (hreserve : k.reserve.result = .ok (r, k')) (h : Handle) : k'.thread? h = k.thread? h := by
  obtain ⟨threads, hk', rfl | ⟨slot, g, hissue⟩⟩ := reserve_frame hreserve
  · rw [hk']
    rfl
  · rw [hk']
    exact Registry.get?_issue hissue h

theorem reserve_queues {r : Except Exhausted (Handle × Stack)}
    (hreserve : k.reserve.result = .ok (r, k')) : k'.machine.queues = k.machine.queues := by
  obtain ⟨threads, hk', -⟩ := reserve_frame hreserve
  rw [hk']

theorem reserve_processes {r : Except Exhausted (Handle × Stack)}
    (hreserve : k.reserve.result = .ok (r, k')) : k'.processes = k.processes := by
  obtain ⟨threads, hk', -⟩ := reserve_frame hreserve
  rw [hk']

theorem reserve_hooks {r : Except Exhausted (Handle × Stack)}
    (hreserve : k.reserve.result = .ok (r, k')) : k'.hooks = k.hooks := by
  obtain ⟨threads, hk', -⟩ := reserve_frame hreserve
  rw [hk']

theorem reserve_handoffs {r : Except Exhausted (Handle × Stack)}
    (hreserve : k.reserve.result = .ok (r, k')) : k'.handoffs = k.handoffs := by
  obtain ⟨threads, hk', -⟩ := reserve_frame hreserve
  rw [hk']

theorem reserve_capacity {r : Except Exhausted (Handle × Stack)}
    (hreserve : k.reserve.result = .ok (r, k')) :
    k'.machine.threads.capacity = k.machine.threads.capacity := by
  obtain ⟨threads, hk', rfl | ⟨slot, g, hissue⟩⟩ := reserve_frame hreserve
  · rw [hk']
  · rw [hk']
    exact Registry.capacity_issue hissue

/-- The handle that a reservation gives has just been issued. -/
theorem reserve_issued {stack : Stack} (hreserve : k.reserve.result = .ok (.ok (h, stack), k')) :
    ∃ slot, (k.machine.threads.issue slot).result = .ok (h, k'.machine.threads) := by
  rcases reserve_eq_ok.mp hreserve with ⟨-, hr⟩ |
    ⟨slot, k₁, h, k₂, hslot, hissue, ⟨stack, hstack, hr⟩ | ⟨e, k₃, -, -, hr⟩⟩
  · cases hr
  · cases hr
    obtain ⟨slots, -, rfl⟩ := takeSlot_eq_ok.mp hslot
    obtain ⟨threads, hissued, rfl⟩ := issueHandle_eq_ok.mp hissue
    obtain ⟨pages, -, rfl⟩ := takeStack_eq_ok.mp hstack
    exact ⟨slot, hissued⟩
  · cases hr

theorem create_eq_ok {entry : EntryPoint} {arg1 : Int64} {arg2 : UInt64}
    {r : Except Exhausted Handle} : (k.create pid entry arg1 arg2).result = .ok (r, k') ↔
      ∃ p, k.processes.get? pid = some p ∧ p.phase.acceptsThreads = true ∧
        ((∃ e, k.reserve.result = .ok (.error e, k') ∧ r = .error e) ∨
          ∃ h stack context k₁ k₂, k.reserve.result = .ok (.ok (h, stack), k₁) ∧
            Context.start entry arg1 arg2 stack p.directory = .ok context ∧
            (k₁.house { id := h, process := some pid, stack, context }).result = .ok k₂ ∧
            (k₂.enlist pid { id := h, process := some pid, stack, context }).result = .ok k' ∧
            r = .ok h) := by
  simp only [create, bind_eq_ok, Processes.find_eq_ok, ensure_eq_ok]
  constructor
  · rintro ⟨p, hp, -, haccepts, ⟨reserved, k₁⟩, hreserve, hr⟩
    refine ⟨p, hp, haccepts, ?_⟩
    cases reserved with
    | error e =>
      cases hr
      exact .inl ⟨e, hreserve, rfl⟩
    | ok x =>
      obtain ⟨h, stack⟩ := x
      simp only [bind_eq_ok, Logged.liftM_eq, ofAddress_eq_ok, publish, emit_eq_ok, pure_eq_ok,
        Prod.mk.injEq, true_and, exists_const] at hr
      obtain ⟨context, hcontext, k₃, ⟨k₂, hhouse, henlist⟩, rfl, rfl⟩ := hr
      exact .inr ⟨h, stack, context, k₁, k₂, hreserve, hcontext, hhouse, henlist, rfl⟩
  · rintro ⟨p, hp, haccepts, hrest⟩
    refine ⟨p, hp, (), haccepts, ?_⟩
    rcases hrest with ⟨e, hreserve, rfl⟩ |
      ⟨h, stack, context, k₁, k₂, hreserve, hcontext, hhouse, henlist, rfl⟩
    · exact ⟨_, hreserve, rfl⟩
    · refine ⟨_, hreserve, ?_⟩
      simp only [bind_eq_ok, Logged.liftM_eq, ofAddress_eq_ok, publish, emit_eq_ok, pure_eq_ok,
        true_and, exists_const]
      exact ⟨context, hcontext, k', ⟨k₂, hhouse, henlist⟩, rfl⟩

theorem clone_eq_ok {source : Handle} {r : Except Exhausted Handle} :
    (k.clone source).result = .ok (r, k') ↔
      ∃ t, k.thread? source = some t ∧ t.state = .runnable ∧
        ((∃ e, k.reserve.result = .ok (.error e, k') ∧ r = .error e) ∨
          ∃ h stack context k₁, k.reserve.result = .ok (.ok (h, stack), k₁) ∧
            Context.empty stack = .ok context ∧
            (k₁.house (t.copy h stack context)).result = .ok k' ∧ r = .ok h) := by
  simp only [clone, sample, bind_eq_ok, demand_eq_ok, ensure_eq_ok, pure_eq_ok]
  constructor
  · rintro ⟨_, ⟨t, ht, -, hstate, rfl⟩, ⟨reserved, k₁⟩, hreserve, hr⟩
    refine ⟨t, ht, hstate, ?_⟩
    cases reserved with
    | error e =>
      cases hr
      exact .inl ⟨e, hreserve, rfl⟩
    | ok x =>
      obtain ⟨h, stack⟩ := x
      simp only [bind_eq_ok, Logged.liftM_eq, ofAddress_eq_ok, emit_eq_ok, pure_eq_ok,
        Prod.mk.injEq, true_and, exists_const] at hr
      obtain ⟨context, hcontext, k₂, hhouse, rfl, rfl⟩ := hr
      exact .inr ⟨h, stack, context, k₁, hreserve, hcontext, hhouse, rfl⟩
  · rintro ⟨t, ht, hstate, hrest⟩
    refine ⟨t, ⟨t, ht, (), hstate, rfl⟩, ?_⟩
    rcases hrest with ⟨e, hreserve, rfl⟩ | ⟨h, stack, context, k₁, hreserve, hcontext, hhouse, rfl⟩
    · exact ⟨_, hreserve, rfl⟩
    · refine ⟨_, hreserve, ?_⟩
      simp only [bind_eq_ok, Logged.liftM_eq, ofAddress_eq_ok, emit_eq_ok, pure_eq_ok, true_and,
        exists_const]
      exact ⟨context, hcontext, k', hhouse, rfl⟩

theorem destroy_eq_ok : (k.destroy h).result = .ok k' ↔
    ∃ t k₁, (k.evict h).result = .ok (t, k₁) ∧
      ((k₁.delist h t.process).returnStack t.stack).result = .ok k' := by
  simp only [destroy, bind_eq_ok, emit_eq_ok, pure_eq_ok, Prod.exists, true_and, exists_const]
  constructor
  · rintro ⟨t, k₁, hevict, k₂, hreturn, rfl⟩
    exact ⟨t, k₁, hevict, hreturn⟩
  · rintro ⟨t, k₁, hevict, hreturn⟩
    exact ⟨t, k₁, hevict, k', hreturn, rfl⟩

/-- Of the machine, a destruction empties one slot, whose thread stands nowhere. -/
theorem destroy_frame (hdestroy : (k.destroy h).result = .ok k') :
    ∃ t, k.thread? h = some t ∧
      (t.state = .exited ∨ t.state = .runnable ∧ t.isUnattachedClone = true) ∧
      t.link = .unlinked ∧
        k' = { k with
          pages := k'.pages
          slots := k'.slots
          machine := { k.machine with threads := k.machine.threads.erase h }
          processes := k.processes.without h t.process } := by
  obtain ⟨t, k₁, hevict, hreturn⟩ := destroy_eq_ok.mp hdestroy
  obtain ⟨ht, hstate, hlink, hslot⟩ := evict_eq_ok.mp hevict
  obtain ⟨slots, -, rfl⟩ := returnSlot_eq_ok.mp hslot
  obtain ⟨pages, -, rfl⟩ := returnStack_eq_ok.mp hreturn
  refine ⟨t, ht, hstate, hlink, ?_⟩
  rw [delist_eq]

theorem destroy_thread? (hdestroy : (k.destroy h).result = .ok k') (g : Handle) :
    k'.thread? g = if h = g then none else k.thread? g := by
  obtain ⟨t, -, -, -, hk'⟩ := destroy_frame hdestroy
  rw [hk']
  exact Registry.get?_erase _ h g

end Lives

end Kernel

end KernelThreads
