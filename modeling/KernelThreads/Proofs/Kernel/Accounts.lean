import KernelThreads.Proofs.Kernel.Tenancy

/-!
Who holds which slot and which pages. Each slot that the pool has handed out and
each extent of the arena is held by one live thread, or is on its way to or from
one. The accounts balance after every single step, so a call, whatever becomes of
it, neither loses anything nor gives anything back twice.
-/
namespace KernelThreads.Kernel

variable {n : Nat} {k k₁ k' : Kernel Arena SlotPool n} {slots : List Nat} {areas : List Stack}
  {h : Handle} {t : Thread} {slot : Nat} {stack : Stack}

/-- The slots and stacks that are out are those of the live threads and, on their
way, `slots` and `areas`. -/
structure Accounts (k : Kernel Arena SlotPool n) (slots : List Nat) (areas : List Stack) :
    Prop where
  named : k.machine.threads.Named
  capacity : k.machine.threads.capacity = k.slots.capacity
  bound : k.slots.capacity ≤ UInt32.size
  pool : k.slots.Valid
  arena : k.pages.Valid
  span : CanonicalSpan k.pages.base k.pages.total
  slots : k.slots.taken.Perm (slots ++ k.threads.map fun t => t.id.slot.toNat)
  regions : k.pages.regions.Perm ((areas ++ k.threads.map (·.stack)).map Stack.region)
  sized : ∀ s ∈ areas ++ k.threads.map (·.stack), s.pages = k.config.extentPages

namespace Accounts

theorem tenancy (hk : k.Accounts slots areas) : k.Tenancy slots :=
  ⟨hk.named, hk.capacity, hk.bound, hk.pool, hk.slots⟩

/-- Where no pages change hands but through the threads, the stacks they hold together
with those on their way have to stay. -/
theorem keep {slots' : List Nat} {areas' : List Stack} (hk : k.Accounts slots areas)
    (htenancy : k'.Tenancy slots') (hconfig : k'.config = k.config) (hpages : k'.pages = k.pages)
    (hstacks : (areas ++ k.threads.map (·.stack)).Perm (areas' ++ k'.threads.map (·.stack))) :
    k'.Accounts slots' areas' where
  named := htenancy.named
  capacity := htenancy.capacity
  bound := htenancy.bound
  pool := htenancy.pool
  slots := htenancy.slots
  arena := hpages ▸ hk.arena
  span := hpages ▸ hk.span
  regions := by
    rw [hpages]
    exact hk.regions.trans (hstacks.map _)
  sized s hs := by
    rw [hconfig]
    exact hk.sized s (hstacks.mem_iff.mpr hs)

/-- Threads that keep their slots and their stacks change nothing. -/
theorem related (hk : k.Accounts slots areas) (hconfig : k'.config = k.config)
    (hpages : k'.pages = k.pages) (hpool : k'.slots = k.slots)
    (hthreads : k.machine.threads.Related (fun t u => t.id = u.id ∧ t.stack = u.stack)
      k'.machine.threads) : k'.Accounts slots areas := by
  have hstacks : k'.threads.map (·.stack) = k.threads.map (·.stack) :=
    hthreads.map_eq fun _ _ hsame => hsame.2
  have htenancy := hk.tenancy.related hpool (hthreads.mono fun _ _ hsame => hsame.1)
  exact hk.keep htenancy hconfig hpages (by rw [hstacks])

theorem continues (hk : k.Accounts slots areas) (h : k.Continues k') :
    k'.Accounts slots areas :=
  hk.related h.config h.pages h.slots
    (h.machine.threads.mono fun _ _ hbecomes => ⟨hbecomes.id_eq.symm, hbecomes.stack_eq.symm⟩)

theorem takeSlot_none (htake : k.takeSlot.result = .ok (none, k')) : k' = k := by
  obtain ⟨pool, halloc, rfl⟩ := takeSlot_eq_ok.mp htake
  cases SlotPool.alloc_none (Except.ok.inj halloc)
  rfl

theorem takeSlot (hk : k.Accounts slots areas)
    (htake : k.takeSlot.result = .ok (some slot, k')) :
    k'.Accounts (slot :: slots) areas ∧ slot < k.slots.capacity := by
  obtain ⟨htenancy, hlt⟩ := hk.tenancy.takeSlot htake
  obtain ⟨pool, -, rfl⟩ := takeSlot_eq_ok.mp htake
  exact ⟨hk.keep htenancy rfl rfl (.refl _), hlt⟩

theorem returnSlot (hk : k.Accounts (h.slot.toNat :: slots) areas)
    (hreturn : (k.returnSlot h).result = .ok k') : k'.Accounts slots areas := by
  have htenancy := hk.tenancy.returnSlot hreturn
  obtain ⟨pool, -, rfl⟩ := returnSlot_eq_ok.mp hreturn
  exact hk.keep htenancy rfl rfl (.refl _)

theorem issueHandle (hk : k.Accounts slots areas)
    (hissue : (k.issueHandle slot).result = .ok (h, k')) :
    k'.Accounts slots areas ∧ h.slot.toNat = slot ∧ k'.machine.threads.awaits h = true := by
  obtain ⟨htenancy, hslot, hawaits⟩ := hk.tenancy.issueHandle hissue
  obtain ⟨threads, hissued, rfl⟩ := issueHandle_eq_ok.mp hissue
  refine ⟨hk.keep htenancy rfl rfl ?_, hslot, hawaits⟩
  rw [Kernel.threads, Kernel.threads, Registry.threads_issue hissued]

theorem takeStack_error {e : Exhausted} (htake : k.takeStack.result = .ok (.error e, k')) :
    k' = k := by
  obtain ⟨pages, hacquire, rfl⟩ := takeStack_eq_ok.mp htake
  obtain ⟨base?, halloc, hbase⟩ := StackConfig.acquire_eq_ok.mp hacquire
  cases base? with
  | none =>
    cases Arena.Valid.alloc_none halloc
    rfl
  | some base => cases hbase

theorem takeStack (hk : k.Accounts slots areas)
    (htake : k.takeStack.result = .ok (.ok stack, k')) :
    k'.Accounts slots (stack :: areas) ∧ stack.pages = k.config.extentPages ∧
      CanonicalSpan stack.base stack.pages := by
  obtain ⟨pages, hacquire, rfl⟩ := takeStack_eq_ok.mp htake
  obtain ⟨base?, halloc, hbase⟩ := StackConfig.acquire_eq_ok.mp hacquire
  cases base? with
  | none => cases hbase
  | some base =>
    cases hbase
    obtain ⟨harena, hsame, htotal, hspan, hperm⟩ := hk.arena.alloc_some hk.span halloc
    refine ⟨{ hk with
      arena := harena
      span := by rw [hsame, htotal]; exact hk.span
      regions := hperm.trans (hk.regions.cons _)
      sized := ?_ }, rfl, hspan⟩
    intro s hs
    rcases List.mem_cons.mp hs with rfl | hs
    · rfl
    · exact hk.sized s hs

theorem takeStack_ok (hk : k.Accounts slots areas) : ∃ r k', k.takeStack.result = .ok (r, k') := by
  obtain ⟨base?, pages, halloc⟩ := Arena.Valid.alloc_ok hk.span k.config.extentPages
  exact ⟨_, _, takeStack_eq_ok.mpr ⟨pages, StackConfig.acquire_eq_ok.mpr ⟨base?, halloc, rfl⟩, rfl⟩⟩

theorem returnStack (hk : k.Accounts slots (stack :: areas))
    (hreturn : (k.returnStack stack).result = .ok k') : k'.Accounts slots areas := by
  obtain ⟨pages, hrelease, rfl⟩ := returnStack_eq_ok.mp hreturn
  obtain ⟨-, hfree⟩ := StackConfig.release_eq_ok.mp hrelease
  obtain ⟨harena, hsame, htotal, hperm⟩ := hk.arena.free_perm hfree
  exact { hk with
    arena := harena
    span := by rw [hsame, htotal]; exact hk.span
    regions := (hperm.symm.trans hk.regions).cons_inv
    sized := fun s hs => hk.sized s (List.mem_cons_of_mem stack hs) }

/-- A stack that is on its way is returned without fail. -/
theorem returnStack_ok (hk : k.Accounts slots (stack :: areas)) :
    ∃ k', (k.returnStack stack).result = .ok k' := by
  have hmem : stack.region ∈ k.pages.regions :=
    hk.regions.mem_iff.mpr (List.mem_map_of_mem List.mem_cons_self)
  obtain ⟨pages, hfree⟩ := hk.arena.free_ok hmem
  have hsize := hk.sized stack List.mem_cons_self
  exact ⟨_, returnStack_eq_ok.mpr ⟨pages, StackConfig.release_eq_ok.mpr ⟨hsize, hfree⟩, rfl⟩⟩

theorem house (hk : k.Accounts (t.id.slot.toNat :: slots) (t.stack :: areas))
    (hhouse : (k.house t).result = .ok k') : k'.Accounts slots areas := by
  have htenancy := hk.tenancy.house hhouse
  obtain ⟨threads, hinsert, rfl⟩ := house_eq_ok.mp hhouse
  refine hk.keep htenancy rfl rfl ?_
  refine List.perm_middle.symm.trans (List.Perm.append_left areas ?_)
  exact ((Registry.threads_insert hinsert).map (·.stack)).symm

theorem vacate (hk : k.Accounts slots areas) (ht : k.thread? h = some t) :
    Accounts { k with machine := { k.machine with threads := k.machine.threads.erase h } }
      (h.slot.toNat :: slots) (t.stack :: areas) := by
  refine hk.keep (hk.tenancy.vacate ht) rfl rfl ?_
  refine List.Perm.trans (List.Perm.append_left areas ?_) List.perm_middle
  exact (Registry.threads_erase ht).map (·.stack)

theorem evict (hk : k.Accounts slots areas) (hevict : (k.evict h).result = .ok (t, k')) :
    k'.Accounts slots (t.stack :: areas) := by
  obtain ⟨ht, -, -, hreturn⟩ := evict_eq_ok.mp hevict
  exact (hk.vacate ht).returnSlot hreturn

theorem reserve_ok (hk : k.Accounts slots areas) : ∃ r k', k.reserve.result = .ok (r, k') :=
  hk.tenancy.reserve_ok (Arena.Valid.alloc_ok hk.span k.config.extentPages)

theorem reserve_error {e : Exhausted} (hk : k.Accounts slots areas)
    (hreserve : k.reserve.result = .ok (.error e, k')) : k'.Accounts slots areas := by
  rcases reserve_eq_ok.mp hreserve with ⟨htake, -⟩ |
    ⟨slot, k₁, h, k₂, htake, hissue, ⟨stack, -, hr⟩ | ⟨e', k₃, hstack, hreturn, -⟩⟩
  · exact takeSlot_none htake ▸ hk
  · cases hr
  · obtain ⟨hk₁, -⟩ := hk.takeSlot htake
    obtain ⟨hk₂, rfl, -⟩ := hk₁.issueHandle hissue
    cases takeStack_error hstack
    exact hk₂.returnSlot hreturn

theorem reserve (hk : k.Accounts slots areas)
    (hreserve : k.reserve.result = .ok (.ok (h, stack), k')) :
    k'.Accounts (h.slot.toNat :: slots) (stack :: areas) ∧
      k'.machine.threads.awaits h = true ∧ stack.pages = k.config.extentPages ∧
        CanonicalSpan stack.base stack.pages := by
  rcases reserve_eq_ok.mp hreserve with ⟨-, hr⟩ |
    ⟨slot, k₁, h', k₂, htake, hissue, ⟨stack', hstack, hr⟩ | ⟨e, k₃, -, -, hr⟩⟩
  · cases hr
  · cases hr
    obtain ⟨hk₁, -⟩ := hk.takeSlot htake
    obtain ⟨hk₂, rfl, hawaits⟩ := hk₁.issueHandle hissue
    obtain ⟨hk₃, hpages, hspan⟩ := hk₂.takeStack hstack
    obtain ⟨slots, -, rfl⟩ := takeSlot_eq_ok.mp htake
    obtain ⟨threads, -, rfl⟩ := issueHandle_eq_ok.mp hissue
    obtain ⟨pages, -, rfl⟩ := takeStack_eq_ok.mp hstack
    exact ⟨hk₃, hawaits, hpages, hspan⟩
  · cases hr

theorem delist (hk : k.Accounts slots areas) (h : Handle) (pid? : Option ProcessId) :
    (k.delist h pid?).Accounts slots areas := by
  rw [delist_eq]
  exact { hk with }

theorem destroy (hk : k.Accounts slots areas) (hdestroy : (k.destroy h).result = .ok k') :
    k'.Accounts slots areas := by
  obtain ⟨t, k₁, hevict, hreturn⟩ := destroy_eq_ok.mp hdestroy
  exact ((hk.evict hevict).delist h t.process).returnStack hreturn

/-- Nothing that a destroyed thread held is refused on its return. -/
theorem destroy_ok (hk : k.Accounts slots areas) (ht : k.thread? h = some t)
    (hstate : t.state = .exited ∨ t.state = .runnable ∧ t.isUnattachedClone = true)
    (hlink : t.link = .unlinked) : ∃ k', (k.destroy h).result = .ok k' := by
  obtain ⟨k₁, hslot⟩ := (hk.tenancy.vacate ht).returnSlot_ok
  have hevict := evict_eq_ok.mpr ⟨ht, hstate, hlink, hslot⟩
  obtain ⟨k₂, hstack⟩ := ((hk.evict hevict).delist h t.process).returnStack_ok
  exact ⟨k₂, destroy_eq_ok.mpr ⟨t, k₁, hevict, hstack⟩⟩

theorem exit {i : Fin n} {result : UInt64} {x : Handoff} (hk : k.Accounts slots areas)
    (hexit : (k.exit i result).result = .ok (x, k')) : k'.Accounts slots areas := by
  obtain ⟨h, t, u, -, ht, -, -, hfinish, -, rfl⟩ := exit_eq_ok.mp hexit
  obtain ⟨-, rfl⟩ := Thread.finish_eq_ok.mp hfinish
  refine hk.related rfl rfl rfl ?_
  rw [ended_threads]
  exact Registry.related_set (fun _ => ⟨rfl, rfl⟩) ht ⟨rfl, rfl⟩

theorem transition {call : Call n} {reply : Reply} (hk : k.Accounts slots areas)
    (h : k.Transition call reply k') : k'.Accounts slots areas := by
  cases h with
  | quiet hcontinues hreply => exact hk.continues hcontinues
  | opened => exact { hk with }
  | refused hreserve => exact hk.reserve_error hreserve
  | made hreserve hstate hlink hhouse hrest =>
    obtain ⟨hreserved, -⟩ := hk.reserve hreserve
    exact (hreserved.house hhouse).continues hrest
  | destroyed hdestroy => exact hk.destroy hdestroy
  | ended hcall hcpu hexit => exact hk.exit hexit

theorem boot {config : StackConfig} {base : VirtAddr} {pages capacity : Nat} {arena : Arena}
    {ids : Vector UInt32 n} {hooks : Hooks} {exitClearsCpu : Bool}
    (harena : (Arena.new base pages).result = .ok arena) (hspan : CanonicalSpan base pages)
    (hcapacity : capacity ≤ UInt32.size)
    (hboot : (boot config arena (SlotPool.new capacity) ids hooks exitClearsCpu).result = .ok k) :
    k.Accounts [] [] := by
  obtain ⟨hnamed, hsize, hbound, hpool, hslots⟩ := Tenancy.boot hcapacity hboot
  obtain ⟨-, rfl⟩ := boot_eq_ok.mp hboot
  have hvalid := Arena.valid_new harena
  obtain ⟨-, -, rfl⟩ := Arena.new_eq_ok.mp harena
  have hempty : (Registry.new (SlotPool.new capacity).capacity).threads = [] :=
    Registry.threads_new _
  refine ⟨hnamed, hsize, hbound, hpool, hvalid, hspan, hslots, ?_, ?_⟩
  · simp [Kernel.threads, SlotSource.capacity, hempty, Arena.regions]
  · simp [Kernel.threads, SlotSource.capacity, hempty]

theorem run {k₀ : Kernel Arena SlotPool n} {calls : List (Call n)} (hk : k₀.Accounts slots areas)
    (hrun : k₀.run calls = .ok k) : k.Accounts slots areas :=
  run_invariant (I := (Accounts · slots areas)) hrun hk fun _ _ _ _ _ hk hcall =>
    hk.transition (perform_transition hk.named hcall)

/-- No two stacks meet that are in use or on their way. -/
theorem apart (hk : k.Accounts slots areas) :
    (areas ++ k.threads.map (·.stack)).Pairwise fun s t =>
      s.overlaps t = .ok false ∧ t.overlaps s = .ok false := by
  let Apart (x y : Nat × Nat) : Prop := x.1 + x.2 * pageSize ≤ y.1 ∨ y.1 + y.2 * pageSize ≤ x.1
  have hregions : k.pages.regions.Pairwise Apart := hk.arena.regions_apart.imp fun hxy => .inl hxy
  have hstacks := List.pairwise_map.mp
    ((hk.regions.pairwise_iff fun hxy => hxy.symm).mp hregions)
  have hspan (s : Stack) (hs : s ∈ areas ++ k.threads.map (·.stack)) :
      CanonicalSpan s.base s.pages :=
    hk.arena.span_of_mem hk.span (hk.regions.mem_iff.mpr (List.mem_map_of_mem hs))
  refine hstacks.imp_of_mem fun {s t} hs ht hapart => ?_
  simp only [Apart, Stack.region] at hapart
  rw [Stack.overlaps_eq (hspan s hs) (hspan t ht), Stack.overlaps_eq (hspan t ht) (hspan s hs)]
  constructor
  · congr 1
    rw [decide_eq_false_iff_not]
    omega
  · congr 1
    rw [decide_eq_false_iff_not]
    omega

theorem available (hk : k.Accounts slots areas) :
    k.pages.available + (areas.length + k.threadCount) * k.config.extentPages = k.pages.total := by
  have hcounts : (k.pages.extents.map (·.count)).sum =
      ((areas ++ k.threads.map (·.stack)).map (·.pages)).sum := by
    have hsum := (hk.regions.map Prod.snd).sum_nat
    simpa only [Arena.regions, List.map_map, Function.comp_def, Stack.region] using hsum
  have hsame : (areas ++ k.threads.map (·.stack)).map (·.pages) =
      List.replicate (areas.length + k.threadCount) k.config.extentPages := by
    refine List.eq_replicate_iff.mpr ⟨by simp [threadCount, Registry.size, Kernel.threads], ?_⟩
    intro p hp
    obtain ⟨s, hs, rfl⟩ := List.mem_map.mp hp
    exact hk.sized s hs
  have hbalance := hk.arena.balance
  rwa [hcounts, hsame, List.sum_replicate_nat] at hbalance

/-- A slot that is on its way has no other holder. -/
theorem fresh (hk : k.Accounts (slot :: slots) areas) : slot ∉ slots := by
  have hnodup := hk.slots.nodup_iff.mp (SlotPool.nodup_taken _)
  exact fun hmem => (List.nodup_cons.mp hnodup).1 (List.mem_append_left _ hmem)

/-- It does not matter in which order things are on their way. -/
theorem perm {slots' : List Nat} {areas' : List Stack} (hk : k.Accounts slots areas)
    (hslots : slots.Perm slots') (hareas : areas.Perm areas') : k.Accounts slots' areas' :=
  hk.keep (hk.tenancy.rethread rfl hk.named rfl (hslots.append_right _)) rfl rfl
    (hareas.append_right _)

/-! What the accounts say once nothing is on its way. -/

section Settled
variable (hk : k.Accounts [] [])
include hk

theorem settled_regions : k.pages.regions.Perm (k.threads.map fun t => t.stack.region) := by
  have hregions := hk.regions
  rwa [List.nil_append, List.map_map] at hregions

theorem settled_pages (ht : t ∈ k.threads) : t.stack.pages = k.config.extentPages :=
  hk.sized t.stack (List.mem_map_of_mem ht)

theorem settled_apart {u : Thread} (ht : t ∈ k.threads) (hu : u ∈ k.threads) (hne : t ≠ u) :
    t.stack.overlaps u.stack = .ok false := by
  have hpair : k.threads.Pairwise fun t u =>
      t.stack.overlaps u.stack = .ok false ∧ u.stack.overlaps t.stack = .ok false :=
    List.pairwise_map.mp hk.apart
  have : Std.Symm fun t u : Thread =>
      t.stack.overlaps u.stack = .ok false ∧ u.stack.overlaps t.stack = .ok false :=
    ⟨fun _ _ hxy => hxy.symm⟩
  exact (hpair.forall ht hu hne).1

theorem settled_available :
    k.pages.available + k.threadCount * k.config.extentPages = k.pages.total := by
  have havailable := hk.available
  rwa [List.length_nil, Nat.zero_add] at havailable

theorem settled_slots (i : Nat) : k.slots.used[i]? = some true ↔
    ∃ x t, k.machine.threads.slots[i]? = some x ∧ x.thread = some t := by
  have hslots := hk.slots
  rw [List.nil_append] at hslots
  rw [← SlotPool.mem_taken, hslots.mem_iff, List.mem_map]
  constructor
  · rintro ⟨t, ht, rfl⟩
    obtain ⟨i, x, hx, hthread⟩ := Registry.mem_threads.mp ht
    obtain ⟨hslot, -⟩ := hk.named i x t hx hthread
    exact ⟨x, t, hslot ▸ hx, hthread⟩
  · rintro ⟨x, t, hx, hthread⟩
    obtain ⟨hslot, -⟩ := hk.named i x t hx hthread
    exact ⟨t, Registry.mem_threads.mpr ⟨i, x, hx, hthread⟩, hslot⟩

end Settled

end Accounts

/-- In every state of every run, the live threads hold all slots and all extents
that are out, each one slot and one stack, and no two stacks meet. -/
theorem resources_conserved {config : StackConfig} {base : VirtAddr} {pages capacity : Nat}
    {arena : Arena} {ids : Vector UInt32 n} {hooks : Hooks} {exitClearsCpu : Bool}
    {k₀ : Kernel Arena SlotPool n} {calls : List (Call n)}
    (harena : (Arena.new base pages).result = .ok arena) (hspan : CanonicalSpan base pages)
    (hcapacity : capacity ≤ UInt32.size)
    (hboot : (boot config arena (SlotPool.new capacity) ids hooks exitClearsCpu).result = .ok k₀)
    (hrun : k₀.run calls = .ok k) :
    k.pages.regions.Perm (k.threads.map fun t => t.stack.region) ∧
    (∀ t ∈ k.threads, t.stack.pages = config.extentPages) ∧
    (∀ h₁ h₂ t₁ t₂, k.thread? h₁ = some t₁ → k.thread? h₂ = some t₂ → h₁ ≠ h₂ →
      t₁.stack.overlaps t₂.stack = .ok false) ∧
    k.pages.available = k.pages.total - k.threadCount * config.extentPages ∧
    k.threadCount * config.extentPages ≤ k.pages.total ∧
    k.pages.extents.length = k.threadCount ∧ k.slots.count = k.threadCount ∧
    ∀ i : Nat, k.slots.used[i]? = some true ↔
      ∃ (x : Slot) (t : Thread), k.machine.threads.slots[i]? = some x ∧ x.thread = some t := by
  have hk₀ := Accounts.boot harena hspan hcapacity hboot
  have hk := hk₀.run hrun
  have hconfig : k.config = config := by
    obtain ⟨-, rfl⟩ := boot_eq_ok.mp hboot
    exact (settings_run hk₀.named hrun).1
  have havailable := hk.settled_available
  rw [hconfig] at havailable
  refine ⟨hk.settled_regions, fun t ht => hconfig ▸ hk.settled_pages ht, ?_, by omega, by omega,
    ?_, ?_, hk.settled_slots⟩
  · intro h₁ h₂ t₁ t₂ ht₁ ht₂ hne
    have hid₁ := hk.named.id_eq ht₁
    have hid₂ := hk.named.id_eq ht₂
    refine hk.settled_apart (hk.named.mem_threads.mpr ?_) (hk.named.mem_threads.mpr ?_) ?_
    · rw [hid₁]
      exact ht₁
    · rw [hid₂]
      exact ht₂
    · intro hsame
      exact hne (hid₁.symm.trans ((congrArg Thread.id hsame).trans hid₂))
  · have hlength := hk.settled_regions.length_eq
    rwa [Arena.regions, List.length_map, List.length_map] at hlength
  · have hlength := hk.slots.length_eq
    rwa [List.nil_append, List.length_map, ← hk.pool] at hlength

theorem span_small : CanonicalSpan Arena.small.base 6 := by
  intro w hlow hhigh
  simp only [Arena.small, pageSize] at hhigh
  unfold Canonical
  omega

theorem resources_conserved_small : ∃ k, small.run [.newProcess .zero .running,
      .create 1 ⟨"first"⟩ 0 0, .clone ⟨0, 1⟩, .clone ⟨0, 1⟩, .destroy ⟨1, 1⟩,
      .clone ⟨0, 1⟩] = .ok k ∧
    k.threadCount = 2 ∧ k.pages.available = k.pages.total - 2 * 2 ∧ k.slots.count = 2 := by
  obtain ⟨k, hrun, hcount⟩ := run_observe small
    [.newProcess .zero .running, .create 1 ⟨"first"⟩ 0 0, .clone ⟨0, 1⟩, .clone ⟨0, 1⟩,
      .destroy ⟨1, 1⟩, .clone ⟨0, 1⟩]
    (fun k => k.threadCount) (a := 2) (by decide +kernel)
  obtain ⟨-, -, -, havailable, -, -, hslots, -⟩ := resources_conserved Arena.new_small span_small
    (by decide) boot_small hrun
  rw [hcount] at havailable hslots
  exact ⟨k, hrun, hcount, havailable, hslots⟩

end KernelThreads.Kernel
