import KernelThreads.Proofs.Kernel.History
import KernelThreads.Proofs.Memory.Rotation

/-!
Who holds which slot. Each slot that the pool has handed out is the slot of one live
thread, or is on its way to or from one, whatever pages the stacks are made of.
-/
namespace KernelThreads.Kernel

variable {P : Type} {n : Nat} {k k' : Kernel P SlotPool n} {slots : List Nat} {h : Handle}
  {t : Thread} {slot : Nat}

/-- The slots that are out are those of the live threads and, on their way, `slots`. -/
structure Tenancy (k : Kernel P SlotPool n) (slots : List Nat) : Prop where
  named : k.machine.threads.Named
  capacity : k.machine.threads.capacity = k.slots.capacity
  bound : k.slots.capacity ≤ UInt32.size
  pool : k.slots.Valid
  slots : k.slots.taken.Perm (slots ++ k.threads.map fun t => t.id.slot.toNat)

namespace Tenancy

/-- Where only the threads change, the slots they hold together with those on their
way have to stay. -/
theorem rethread {slots' : List Nat} (hk : k.Tenancy slots) (hpool : k'.slots = k.slots)
    (hnamed : k'.machine.threads.Named)
    (hcapacity : k'.machine.threads.capacity = k.machine.threads.capacity)
    (hslots : (slots ++ k.threads.map fun t => t.id.slot.toNat).Perm
      (slots' ++ k'.threads.map fun t => t.id.slot.toNat)) : k'.Tenancy slots' where
  named := hnamed
  capacity := by rw [hcapacity, hpool, hk.capacity]
  bound := hpool ▸ hk.bound
  pool := hpool ▸ hk.pool
  slots := by
    rw [hpool]
    exact hk.slots.trans hslots

/-- Threads that keep their slots change nothing. -/
theorem related (hk : k.Tenancy slots) (hpool : k'.slots = k.slots)
    (hthreads : k.machine.threads.Related (fun t u => t.id = u.id) k'.machine.threads) :
    k'.Tenancy slots := by
  have hslots : k'.threads.map (fun t => t.id.slot.toNat) =
      k.threads.map fun t => t.id.slot.toNat :=
    hthreads.map_eq fun _ _ hsame => by rw [hsame]
  exact hk.rethread hpool (hthreads.named (fun _ _ hsame => hsame) hk.named)
    hthreads.capacity_eq (by rw [hslots])

theorem continues (hk : k.Tenancy slots) (h : k.Continues k') : k'.Tenancy slots :=
  hk.related h.slots (h.machine.threads.mono fun _ _ hbecomes => hbecomes.id_eq.symm)

theorem takeSlot (hk : k.Tenancy slots) (htake : k.takeSlot.result = .ok (some slot, k')) :
    k'.Tenancy (slot :: slots) ∧ slot < k.slots.capacity := by
  obtain ⟨pool, halloc, rfl⟩ := takeSlot_eq_ok.mp htake
  obtain ⟨hpool, hcapacity, hlt, hperm⟩ := hk.pool.alloc_some (Except.ok.inj halloc)
  exact ⟨{ hk with
    capacity := hk.capacity.trans hcapacity.symm
    bound := hcapacity ▸ hk.bound
    pool := hpool
    slots := hperm.trans (hk.slots.cons slot) }, hlt⟩

theorem returnSlot (hk : k.Tenancy (h.slot.toNat :: slots))
    (hreturn : (k.returnSlot h).result = .ok k') : k'.Tenancy slots := by
  obtain ⟨pool, hfree, rfl⟩ := returnSlot_eq_ok.mp hreturn
  obtain ⟨hpool, hcapacity, hperm⟩ := hk.pool.free_perm hfree
  exact { hk with
    capacity := hk.capacity.trans hcapacity.symm
    bound := hcapacity ▸ hk.bound
    pool := hpool
    slots := (hperm.symm.trans hk.slots).cons_inv }

theorem mem_taken (hk : k.Tenancy (slot :: slots)) : slot ∈ k.slots.taken :=
  hk.slots.mem_iff.mpr (List.mem_append_left _ List.mem_cons_self)

/-- A slot that is on its way is returned without fail. -/
theorem returnSlot_ok (hk : k.Tenancy (h.slot.toNat :: slots)) :
    ∃ k', (k.returnSlot h).result = .ok k' := by
  obtain ⟨pool, hfree⟩ : ∃ pool, (SlotSource.free k.slots h.slot.toNat).result = .ok pool :=
    ⟨_, SlotPool.free_eq_ok.mpr ⟨SlotPool.mem_taken.mp hk.mem_taken, rfl⟩⟩
  exact ⟨_, returnSlot_eq_ok.mpr ⟨pool, hfree, rfl⟩⟩

/-- A slot that is on its way stands empty. -/
theorem vacant (hk : k.Tenancy (slot :: slots)) :
    ∃ x : Slot, k.machine.threads.slots[slot]? = some x ∧ x.thread = none := by
  have hlt : slot < k.machine.threads.slots.size := by
    rw [← Registry.capacity, hk.capacity]
    exact (Array.getElem?_eq_some_iff.mp (SlotPool.mem_taken.mp hk.mem_taken)).1
  refine ⟨_, Array.getElem?_eq_getElem hlt, Option.eq_none_iff_forall_not_mem.mpr fun t ht => ?_⟩
  have hx := Array.getElem?_eq_getElem hlt
  have hnodup := hk.slots.nodup_iff.mp (SlotPool.nodup_taken _)
  refine (List.nodup_cons.mp hnodup).1 (List.mem_append_right _ (List.mem_map.mpr ⟨t, ?_, ?_⟩))
  · exact Registry.mem_threads.mpr ⟨slot, _, hx, ht⟩
  · exact (hk.named slot _ t hx ht).1

theorem issueHandle_ok (hk : k.Tenancy (slot :: slots)) :
    ∃ h k', (k.issueHandle slot).result = .ok (h, k') := by
  obtain ⟨x, hx, hthread⟩ := hk.vacant
  exact ⟨_, _, issueHandle_eq_ok.mpr
    ⟨_, Registry.issue_eq_ok.mpr ⟨x, hx, hthread, rfl, rfl⟩, rfl⟩⟩

theorem issueHandle (hk : k.Tenancy slots) (hissue : (k.issueHandle slot).result = .ok (h, k')) :
    k'.Tenancy slots ∧ h.slot.toNat = slot ∧ k'.machine.threads.awaits h = true := by
  obtain ⟨threads, hissued, rfl⟩ := issueHandle_eq_ok.mp hissue
  obtain ⟨hslot, hawaits⟩ := Registry.awaits_issue hissued (hk.capacity ▸ hk.bound)
  refine ⟨hk.rethread rfl (Registry.named_issue hk.named hissued)
    (Registry.capacity_issue hissued) ?_, hslot, hawaits⟩
  rw [Kernel.threads, Kernel.threads, Registry.threads_issue hissued]

theorem house (hk : k.Tenancy (t.id.slot.toNat :: slots))
    (hhouse : (k.house t).result = .ok k') : k'.Tenancy slots := by
  obtain ⟨threads, hinsert, rfl⟩ := house_eq_ok.mp hhouse
  refine hk.rethread rfl (Registry.named_insert hk.named hinsert) ?_ ?_
  · obtain ⟨-, rfl⟩ := Registry.insert_eq_ok.mp hinsert
    exact Registry.capacity_modify _ _ _
  · refine List.perm_middle.symm.trans (List.Perm.append_left slots ?_)
    exact ((Registry.threads_insert hinsert).map fun t => t.id.slot.toNat).symm

theorem vacate (hk : k.Tenancy slots) (ht : k.thread? h = some t) :
    Tenancy { k with machine := { k.machine with threads := k.machine.threads.erase h } }
      (h.slot.toNat :: slots) := by
  refine hk.rethread rfl (Registry.named_erase hk.named h) (Registry.capacity_modify _ _ _) ?_
  refine List.Perm.trans (List.Perm.append_left slots ?_) List.perm_middle
  have hslots := (Registry.threads_erase ht).map fun t => t.id.slot.toNat
  rwa [List.map_cons, hk.named.id_eq ht] at hslots

theorem evict (hk : k.Tenancy slots) (hevict : (k.evict h).result = .ok (t, k')) :
    k'.Tenancy slots := by
  obtain ⟨ht, -, -, hreturn⟩ := evict_eq_ok.mp hevict
  exact (hk.vacate ht).returnSlot hreturn

theorem exit {i : Fin n} {result : UInt64} {x : Handoff} (hk : k.Tenancy slots)
    (hexit : (k.exit i result).result = .ok (x, k')) : k'.Tenancy slots := by
  obtain ⟨h, t, u, -, ht, -, -, hfinish, -, rfl⟩ := exit_eq_ok.mp hexit
  obtain ⟨-, rfl⟩ := Thread.finish_eq_ok.mp hfinish
  refine hk.related rfl ?_
  rw [ended_threads]
  exact Registry.related_set (fun _ => rfl) ht rfl

theorem boot {config : StackConfig} {pages : P} {capacity : Nat} {ids : Vector UInt32 n}
    {hooks : Hooks} {exitClearsCpu : Bool} (hcapacity : capacity ≤ UInt32.size)
    (hboot : (boot config pages (SlotPool.new capacity) ids hooks exitClearsCpu).result = .ok k) :
    k.Tenancy [] := by
  obtain ⟨-, rfl⟩ := boot_eq_ok.mp hboot
  have hbound : (SlotPool.new capacity).capacity ≤ UInt32.size := by
    rwa [SlotPool.new, SlotPool.capacity, Array.size_replicate]
  refine ⟨Registry.named_new _, Array.size_replicate, hbound, SlotPool.valid_new _, ?_⟩
  simp only [SlotPool.taken_new]
  simp [Kernel.threads, SlotSource.capacity, Registry.threads_new]

section Calls
variable [PageSource P] {call : Call n} {reply : Reply}

theorem reserve (hk : k.Tenancy slots) {stack : Stack}
    (hreserve : k.reserve.result = .ok (.ok (h, stack), k')) :
    k'.Tenancy (h.slot.toNat :: slots) := by
  rcases reserve_eq_ok.mp hreserve with ⟨-, hr⟩ |
    ⟨slot, k₁, h', k₂, htake, hissue, ⟨stack', hstack, hr⟩ | ⟨e, k₃, -, -, hr⟩⟩
  · cases hr
  · cases hr
    obtain ⟨hk₁, -⟩ := hk.takeSlot htake
    obtain ⟨hk₂, rfl, -⟩ := hk₁.issueHandle hissue
    obtain ⟨pages, -, rfl⟩ := takeStack_eq_ok.mp hstack
    exact { hk₂ with }
  · cases hr

/-- A reservation may come to nothing, but it stops the kernel only if the page source does. -/
theorem reserve_ok (hk : k.Tenancy slots)
    (hpages : ∃ base? q, (PageSource.alloc k.pages k.config.extentPages).result = .ok (base?, q)) :
    ∃ r k', k.reserve.result = .ok (r, k') := by
  cases halloc : k.slots.alloc with
  | mk slot? pool =>
    have htake : k.takeSlot.result = .ok (slot?, { k with slots := pool }) :=
      takeSlot_eq_ok.mpr ⟨pool, congrArg Except.ok halloc, rfl⟩
    cases slot? with
    | none => exact ⟨_, _, reserve_eq_ok.mpr (.inl ⟨htake, rfl⟩)⟩
    | some slot =>
      obtain ⟨hk₁, -⟩ := hk.takeSlot htake
      obtain ⟨h, k₂, hissue⟩ := hk₁.issueHandle_ok
      obtain ⟨hk₂, rfl, -⟩ := hk₁.issueHandle hissue
      obtain ⟨base?, pages, hbase⟩ := hpages
      have hstack : ∃ r, k₂.takeStack.result = .ok (r, { k₂ with pages }) := by
        obtain ⟨threads, -, rfl⟩ := issueHandle_eq_ok.mp hissue
        exact ⟨_, takeStack_eq_ok.mpr
          ⟨pages, StackConfig.acquire_eq_ok.mpr ⟨base?, hbase, rfl⟩, rfl⟩⟩
      obtain ⟨r, hstack⟩ := hstack
      cases r with
      | ok stack =>
        exact ⟨_, _, reserve_eq_ok.mpr
          (.inr ⟨_, _, h, k₂, htake, hissue, .inl ⟨stack, hstack, rfl⟩⟩)⟩
      | error e =>
        have hk₃ : Tenancy { k₂ with pages } (h.slot.toNat :: slots) := { hk₂ with }
        obtain ⟨k₄, hreturn⟩ := hk₃.returnSlot_ok
        exact ⟨_, _, reserve_eq_ok.mpr
          (.inr ⟨_, _, h, k₂, htake, hissue, .inr ⟨e, _, hstack, hreturn, rfl⟩⟩)⟩

theorem reserve_error {e : Exhausted} (hk : k.Tenancy slots)
    (hreserve : k.reserve.result = .ok (.error e, k')) : k'.Tenancy slots := by
  rcases reserve_eq_ok.mp hreserve with ⟨htake, -⟩ |
    ⟨slot, k₁, h, k₂, htake, hissue, ⟨stack, -, hr⟩ | ⟨e', k₃, hstack, hreturn, -⟩⟩
  · obtain ⟨pool, halloc, rfl⟩ := takeSlot_eq_ok.mp htake
    cases SlotPool.alloc_none (Except.ok.inj halloc)
    exact hk
  · cases hr
  · obtain ⟨hk₁, -⟩ := hk.takeSlot htake
    obtain ⟨hk₂, rfl, -⟩ := hk₁.issueHandle hissue
    obtain ⟨pages, -, rfl⟩ := takeStack_eq_ok.mp hstack
    have hk₃ : Tenancy { k₂ with pages } (h.slot.toNat :: slots) := { hk₂ with }
    exact hk₃.returnSlot hreturn

theorem destroy (hk : k.Tenancy slots) (hdestroy : (k.destroy h).result = .ok k') :
    k'.Tenancy slots := by
  obtain ⟨t, k₁, hevict, hreturn⟩ := destroy_eq_ok.mp hdestroy
  obtain ⟨pages, -, rfl⟩ := returnStack_eq_ok.mp hreturn
  rw [delist_eq]
  exact { hk.evict hevict with }

theorem transition (hk : k.Tenancy slots) (h : k.Transition call reply k') :
    k'.Tenancy slots := by
  cases h with
  | quiet hcontinues hreply => exact hk.continues hcontinues
  | opened => exact { hk with }
  | refused hreserve => exact hk.reserve_error hreserve
  | made hreserve hstate hlink hhouse hrest =>
    exact ((hk.reserve hreserve).house hhouse).continues hrest
  | destroyed hdestroy => exact hk.destroy hdestroy
  | ended hcall hcpu hexit => exact hk.exit hexit

theorem run {calls : List (Call n)} (hk : k.Tenancy slots) (hrun : k.run calls = .ok k') :
    k'.Tenancy slots :=
  run_invariant (I := (Tenancy · slots)) hrun hk fun _ _ _ _ _ hk hcall =>
    hk.transition (perform_transition hk.named hcall)

end Calls

end Tenancy

end KernelThreads.Kernel
