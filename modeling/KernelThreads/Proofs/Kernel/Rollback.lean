import KernelThreads.Memory.Scripted
import KernelThreads.Proofs.Kernel.Faults
import KernelThreads.Proofs.Memory.FirstFit

/-!
Creation that fails. Whatever the allocators answer, a thread that cannot be made
leaves no trace in the kernel, and the slot that its handle names goes back. Over an
arena and a pool, the two ways to fail are told by what is free.
-/
namespace KernelThreads

open Logged (bind_eq_ok pure_eq_ok)

/-- A call of a page allocator, with its answer. -/
inductive PageCall where
  | alloc (count : Nat) (answer : Option VirtAddr)
  | free (addr : VirtAddr) (count : Nat)

/-- A call of a slot allocator, with its answer. -/
inductive SlotCall where
  | alloc (answer : Option Nat)
  | free (slot : Nat)

/-- Asked so, `p` gives this answer and becomes `q`. -/
def PageSource.Answers {P : Type} [PageSource P] (p : P) : PageCall → P → Prop
  | .alloc count answer, q => (alloc p count).result = .ok (answer, q)
  | .free addr count, q => (free p addr count).result = .ok q

/-- Asked so, `o` gives this answer and becomes `r`. -/
def SlotSource.Answers {O : Type} [SlotSource O] (o : O) : SlotCall → O → Prop
  | .alloc answer, r => (alloc o).result = .ok (answer, r)
  | .free slot, r => (free o slot).result = .ok r

/-- Asked the calls in turn, and nothing else, `a` answers as they say and becomes `b`. -/
def Serves {A C : Type} (Answers : A → C → A → Prop) : A → List C → A → Prop
  | a, [], b => b = a
  | a, call :: calls, b => ∃ a', Answers a call a' ∧ Serves Answers a' calls b

/-- An allocator that keeps a record of what it is asked, oldest first. -/
structure Transcribed (A C : Type) where
  source : A
  calls : List C

instance {P : Type} [PageSource P] : PageSource (Transcribed P PageCall) where
  alloc p count := do
    let (answer, source) ← PageSource.alloc p.source count
    return (answer, ⟨source, p.calls ++ [.alloc count answer]⟩)
  free p addr count := do
    return ⟨← PageSource.free p.source addr count, p.calls ++ [.free addr count]⟩

instance {O : Type} [SlotSource O] : SlotSource (Transcribed O SlotCall) where
  alloc o := do
    let (answer, source) ← SlotSource.alloc o.source
    return (answer, ⟨source, o.calls ++ [.alloc answer]⟩)
  free o slot := do
    return ⟨← SlotSource.free o.source slot, o.calls ++ [.free slot]⟩
  capacity o := SlotSource.capacity o.source

theorem PageSource.Answers.transcribed {P : Type} [PageSource P] {p q : Transcribed P PageCall}
    {call : PageCall} (h : Answers p call q) : q.calls = p.calls ++ [call] := by
  cases call with
  | alloc count answer =>
    obtain ⟨⟨answer', source⟩, -, hq⟩ := bind_eq_ok.mp h
    cases pure_eq_ok.mp hq
    rfl
  | free addr count =>
    obtain ⟨source, -, hq⟩ := bind_eq_ok.mp h
    cases pure_eq_ok.mp hq
    rfl

theorem SlotSource.Answers.transcribed {O : Type} [SlotSource O] {o r : Transcribed O SlotCall}
    {call : SlotCall} (h : Answers o call r) : r.calls = o.calls ++ [call] := by
  cases call with
  | alloc answer =>
    obtain ⟨⟨answer', source⟩, -, hr⟩ := bind_eq_ok.mp h
    cases pure_eq_ok.mp hr
    rfl
  | free slot =>
    obtain ⟨source, -, hr⟩ := bind_eq_ok.mp h
    cases pure_eq_ok.mp hr
    rfl

/-- A record of single calls is a record of all calls. -/
theorem Serves.transcribed {A C : Type} {Answers : Transcribed A C → C → Transcribed A C → Prop}
    (hcall : ∀ a call b, Answers a call b → b.calls = a.calls ++ [call]) {a b : Transcribed A C}
    {calls : List C} (h : Serves Answers a calls b) : b.calls = a.calls ++ calls := by
  induction calls generalizing a with
  | nil => rw [show b = a from h, List.append_nil]
  | cons call calls ih =>
    obtain ⟨a', hfirst, hrest⟩ := h
    rw [ih hrest, hcall a call a' hfirst, List.append_assoc, List.singleton_append]

namespace Kernel

section Any
variable {P O : Type} {n : Nat} {k k' : Kernel P O n} {call : Call n} {e : Exhausted}

/-- A thread may be made: the process takes it, or there is a runnable one to copy. -/
def MayMake (k : Kernel P O n) : Call n → Prop
  | .create pid _ _ _ => ∃ p, k.processes.get? pid = some p ∧ p.phase.acceptsThreads = true
  | .clone source => ∃ t, k.thread? source = some t ∧ t.state = .runnable
  | _ => False

/-- Apart from its allocators, `k'` shows what `k` showed. -/
structure RollsBack (k k' : Kernel P O n) : Prop where
  thread? : ∀ h, k'.thread? h = k.thread? h
  threads : k'.threads = k.threads
  queues : k'.machine.queues = k.machine.queues
  cpus : k'.machine.cpus = k.machine.cpus
  processes : k'.processes = k.processes
  handoffs : k'.handoffs = k.handoffs

/-- What a creation that fails for want of `e` asks of the allocators. The handle keeps 32
bits of the slot, and the slot that goes back is read off the handle. -/
inductive Trial (k : Kernel P O n) : Exhausted → List SlotCall → List PageCall → Prop
  | noSlot : Trial k .threadObject [.alloc none] []
  | noStack (slot : Nat) : Trial k .kernelStack
      [.alloc (some slot), .free (slot % UInt32.size)] [.alloc k.config.extentPages none]

/-- The slot that was taken goes back, if a handle has room for it. -/
theorem Trial.returns {slotCalls : List SlotCall} {pageCalls : List PageCall} {slot : Nat}
    (h : k.Trial e slotCalls pageCalls) (hslot : .alloc (some slot) ∈ slotCalls) :
    .free slot ∈ slotCalls ↔ slot < UInt32.size := by
  cases h with
  | noSlot => simp at hslot
  | noStack taken =>
    obtain rfl : slot = taken := by simpa using hslot
    have hreturns : .free slot ∈ [.alloc (some slot), SlotCall.free (slot % UInt32.size)] ↔
        slot % UInt32.size = slot := by simp [eq_comm]
    rw [hreturns]
    exact Nat.mod_eq_iff_lt (by decide)

variable [PageSource P] [SlotSource O]

theorem refused_iff (hmay : k.MayMake call) :
    (k.perform call).result = .ok (.made (.error e), k') ↔
      k.reserve.result = .ok (.error e, k') := by
  cases call with
  | create pid entry arg1 arg2 =>
    obtain ⟨p, hp, haccepts⟩ := hmay
    constructor
    · intro hcall
      obtain ⟨r, hcreate, hr⟩ := (reply_eq_ok .made).mp hcall
      cases hr
      obtain ⟨-, -, -, ⟨e', hreserve, he⟩ | ⟨h, stack, context, k₁, k₂, -, -, -, -, he⟩⟩ :=
        create_eq_ok.mp hcreate
      · cases he
        exact hreserve
      · cases he
    · intro hreserve
      exact (reply_eq_ok .made).mpr
        ⟨_, create_eq_ok.mpr ⟨p, hp, haccepts, .inl ⟨e, hreserve, rfl⟩⟩, rfl⟩
  | clone source =>
    obtain ⟨t, ht, hstate⟩ := hmay
    constructor
    · intro hcall
      obtain ⟨r, hclone, hr⟩ := (reply_eq_ok .made).mp hcall
      cases hr
      obtain ⟨-, -, -, ⟨e', hreserve, he⟩ | ⟨h, stack, context, k₁, -, -, -, he⟩⟩ :=
        clone_eq_ok.mp hclone
      · cases he
        exact hreserve
      · cases he
    · intro hreserve
      exact (reply_eq_ok .made).mpr
        ⟨_, clone_eq_ok.mpr ⟨t, ht, hstate, .inl ⟨e, hreserve, rfl⟩⟩, rfl⟩
  | _ => cases hmay

theorem rollsBack_reserve {r : Except Exhausted (Handle × Stack)}
    (hreserve : k.reserve.result = .ok (r, k')) : k.RollsBack k' := by
  have hthread? := reserve_thread? hreserve
  obtain ⟨threads, hk', hthreads⟩ := reserve_frame hreserve
  have hsame : threads.threads = k.machine.threads.threads := by
    rcases hthreads with rfl | ⟨slot, h, hissue⟩
    · rfl
    · exact Registry.threads_issue hissue
  rw [hk'] at hthread? ⊢
  exact ⟨hthread?, hsame, rfl, rfl, rfl, rfl⟩

theorem trial_reserve (hreserve : k.reserve.result = .ok (.error e, k')) :
    ∃ slotCalls pageCalls, k.Trial e slotCalls pageCalls ∧
      Serves SlotSource.Answers k.slots slotCalls k'.slots ∧
        Serves PageSource.Answers k.pages pageCalls k'.pages := by
  rcases reserve_eq_ok.mp hreserve with ⟨hslot, he⟩ |
    ⟨slot, k₁, h, k₂, hslot, hissue, ⟨stack, -, he⟩ | ⟨e', k₃, hstack, hreturn, he⟩⟩
  · cases he
    obtain ⟨slots, halloc, rfl⟩ := takeSlot_eq_ok.mp hslot
    exact ⟨_, _, .noSlot, ⟨slots, halloc, rfl⟩, rfl⟩
  · cases he
  · cases he
    obtain ⟨slots, halloc, rfl⟩ := takeSlot_eq_ok.mp hslot
    obtain ⟨threads, hissued, rfl⟩ := issueHandle_eq_ok.mp hissue
    obtain ⟨pages, hacquire, rfl⟩ := takeStack_eq_ok.mp hstack
    obtain ⟨slots', hfree, rfl⟩ := returnSlot_eq_ok.mp hreturn
    obtain ⟨base?, hpages, hbase⟩ := StackConfig.acquire_eq_ok.mp hacquire
    cases base? with
    | none =>
      cases hbase
      obtain ⟨x, -, -, rfl, -⟩ := Registry.issue_eq_ok.mp hissued
      have hslot : slot.toUInt32.toNat = slot % UInt32.size := UInt32.toNat_ofNat'
      rw [hslot] at hfree
      exact ⟨_, _, .noStack slot, ⟨slots, halloc, slots', hfree, rfl⟩, pages, hpages, rfl⟩
    | some base => cases hbase

/-- With an empty slot in hand and no stack to be had, a reservation frees what the
handle says. -/
theorem reserve_frees {pages : P} {slots slots' : O} {slot : Nat} {x : Slot}
    (hx : k.machine.threads.slots[slot]? = some x) (hempty : x.thread = none)
    (hslot : (SlotSource.alloc k.slots).result = .ok (some slot, slots))
    (hpages : (PageSource.alloc k.pages k.config.extentPages).result = .ok (none, pages))
    (hfree : (SlotSource.free slots (slot % UInt32.size)).result = .ok slots') :
    ∃ k', k.reserve.result = .ok (.error .kernelStack, k') ∧ k'.slots = slots' := by
  have htake : k.takeSlot.result = .ok (some slot, { k with slots }) :=
    takeSlot_eq_ok.mpr ⟨slots, hslot, rfl⟩
  obtain ⟨threads, hissued⟩ : ∃ threads, (k.machine.threads.issue slot).result =
      .ok (⟨slot.toUInt32, x.generation + 1⟩, threads) :=
    ⟨_, Registry.issue_eq_ok.mpr ⟨x, hx, hempty, rfl, rfl⟩⟩
  let k₂ : Kernel P O n := { k with slots, machine := { k.machine with threads } }
  have hissue : (issueHandle { k with slots } slot).result = .ok (_, k₂) :=
    issueHandle_eq_ok.mpr ⟨threads, hissued, rfl⟩
  have hstack : k₂.takeStack.result = .ok (.error .kernelStack, { k₂ with pages }) :=
    takeStack_eq_ok.mpr ⟨pages, StackConfig.acquire_eq_ok.mpr ⟨none, hpages, rfl⟩, rfl⟩
  have hback : slot.toUInt32.toNat = slot % UInt32.size := UInt32.toNat_ofNat'
  rw [← hback] at hfree
  exact ⟨_, reserve_eq_ok.mpr (.inr ⟨slot, _, _, k₂, htake, hissue,
    .inr ⟨_, _, hstack, returnSlot_eq_ok.mpr ⟨slots', hfree, rfl⟩, rfl⟩⟩), rfl⟩

/-- Pages change hands through the page allocator only. -/
theorem Transition.pages {I : P → Prop} {reply : Reply} (h : k.Transition call reply k')
    (halloc : ∀ p count answer q, I p → (PageSource.alloc p count).result = .ok (answer, q) → I q)
    (hfree : ∀ p addr count q, I p → (PageSource.free p addr count).result = .ok q → I q)
    (hk : I k.pages) : I k'.pages := by
  have hreserve {r : Except Exhausted (Handle × Stack)} {k₁ : Kernel P O n}
      (hr : k.reserve.result = .ok (r, k₁)) : I k₁.pages := by
    rcases reserve_eq_ok.mp hr with ⟨hslot, -⟩ |
      ⟨slot, k₂, g, k₃, hslot, hissue, ⟨stack, hstack, -⟩ | ⟨e', k₄, hstack, hreturn, -⟩⟩
    · obtain ⟨slots, -, rfl⟩ := takeSlot_eq_ok.mp hslot
      exact hk
    · obtain ⟨slots, -, rfl⟩ := takeSlot_eq_ok.mp hslot
      obtain ⟨threads, -, rfl⟩ := issueHandle_eq_ok.mp hissue
      obtain ⟨pages, hacquire, rfl⟩ := takeStack_eq_ok.mp hstack
      obtain ⟨base?, hpages, -⟩ := StackConfig.acquire_eq_ok.mp hacquire
      exact halloc _ _ _ _ hk hpages
    · obtain ⟨slots, -, rfl⟩ := takeSlot_eq_ok.mp hslot
      obtain ⟨threads, -, rfl⟩ := issueHandle_eq_ok.mp hissue
      obtain ⟨pages, hacquire, rfl⟩ := takeStack_eq_ok.mp hstack
      obtain ⟨base?, hpages, -⟩ := StackConfig.acquire_eq_ok.mp hacquire
      obtain ⟨slots', -, rfl⟩ := returnSlot_eq_ok.mp hreturn
      exact halloc _ _ _ _ hk hpages
  cases h with
  | quiet hcontinues hreply => exact hcontinues.pages ▸ hk
  | opened => exact hk
  | refused hr => exact hreserve hr
  | made hr hstate hlink hhouse hrest =>
    have hpages := hreserve hr
    obtain ⟨threads, -, rfl⟩ := house_eq_ok.mp hhouse
    rwa [hrest.pages]
  | destroyed hdestroy =>
    obtain ⟨t, k₁, hevict, hreturn⟩ := destroy_eq_ok.mp hdestroy
    obtain ⟨-, -, -, hslot⟩ := evict_eq_ok.mp hevict
    obtain ⟨slots, -, rfl⟩ := returnSlot_eq_ok.mp hslot
    obtain ⟨pages, hrelease, rfl⟩ := returnStack_eq_ok.mp hreturn
    rw [delist_eq] at hrelease
    exact hfree _ _ _ _ hk (StackConfig.release_eq_ok.mp hrelease).2
  | ended hcall hcpu hexit =>
    obtain ⟨g, t, u, -, -, -, -, -, -, rfl⟩ := exit_eq_ok.mp hexit
    exact hk

end Any

section Pools
variable {n : Nat} {k₀ k k' : Kernel Arena SlotPool n} {call : Call n} {calls : List (Call n)}
  {e : Exhausted}

/-- The books of the arena stay in order, and it stays where it is. -/
theorem arena_run {config : StackConfig} {base : VirtAddr} {pages capacity : Nat} {arena : Arena}
    {ids : Vector UInt32 n} {hooks : Hooks} {exitClearsCpu : Bool}
    (harena : (Arena.new base pages).result = .ok arena)
    (hboot : (boot config arena (SlotPool.new capacity) ids hooks exitClearsCpu).result = .ok k₀)
    (hrun : k₀.run calls = .ok k) :
    k.pages.Valid ∧ k.pages.base = base ∧ k.pages.total = pages := by
  let Kept (a : Arena) : Prop := a.Valid ∧ a.base = base ∧ a.total = pages
  have hkept {a b : Arena} (ha : Kept a)
      (hb : b.Valid ∧ b.base = a.base ∧ b.total = a.total) : Kept b :=
    ⟨hb.1, hb.2.1.trans ha.2.1, hb.2.2.trans ha.2.2⟩
  have hstart : k₀.machine.threads.Named ∧ Kept k₀.pages := by
    refine ⟨named_boot hboot, ?_⟩
    obtain ⟨-, rfl⟩ := boot_eq_ok.mp hboot
    have hvalid := Arena.valid_new harena
    obtain ⟨-, -, rfl⟩ := Arena.new_eq_ok.mp harena
    exact ⟨hvalid, rfl, rfl⟩
  refine (run_invariant (I := fun k => k.machine.threads.Named ∧ Kept k.pages) hrun hstart
    fun k call reply k' _ hk hcall => ?_).2
  have htransition := perform_transition hk.1 hcall
  refine ⟨htransition.named hk.1, htransition.pages ?_ ?_ hk.2⟩
  · exact fun _ _ _ _ hp halloc => hkept hp (hp.1.alloc halloc)
  · exact fun _ addr count _ hp hfree => hkept hp (hp.1.answer (r := .free addr count) hfree)

theorem valid_run {config : StackConfig} {base : VirtAddr} {pages capacity : Nat} {arena : Arena}
    {ids : Vector UInt32 n} {hooks : Hooks} {exitClearsCpu : Bool}
    (harena : (Arena.new base pages).result = .ok arena)
    (hboot : (boot config arena (SlotPool.new capacity) ids hooks exitClearsCpu).result = .ok k₀)
    (hrun : k₀.run calls = .ok k) : k.pages.Valid := (arena_run harena hboot hrun).1

/-- The pool is asked first, and its answer tells whether a slot was to be had. -/
theorem Tenancy.reserve_noSlot (hk : k.Tenancy []) :
    (∃ k', k.reserve.result = .ok (.error .threadObject, k')) ↔
      k.slots.count = k.slots.capacity := by
  rw [← hk.pool.alloc_eq_none]
  constructor
  · rintro ⟨k', hreserve⟩
    rcases reserve_eq_ok.mp hreserve with ⟨hslot, -⟩ |
      ⟨slot, k₁, h, k₂, -, -, ⟨stack, -, he⟩ | ⟨e', k₃, hstack, -, he⟩⟩
    · obtain ⟨pool, halloc, -⟩ := takeSlot_eq_ok.mp hslot
      have hnone : k.slots.alloc = (none, pool) := Except.ok.inj halloc
      rwa [SlotPool.alloc_none hnone] at hnone
    · cases he
    · cases he
      obtain ⟨pages, hacquire, -⟩ := takeStack_eq_ok.mp hstack
      obtain ⟨base?, -, hbase⟩ := StackConfig.acquire_eq_ok.mp hacquire
      cases base? <;> cases hbase
  · intro hnone
    exact ⟨_, reserve_eq_ok.mpr
      (.inl ⟨takeSlot_eq_ok.mpr ⟨_, congrArg Except.ok hnone, rfl⟩, rfl⟩)⟩

/-- With a slot in hand, a reservation fails exactly where no gap holds a stack. -/
theorem Tenancy.reserve_noStack (hk : k.Tenancy []) (hpages : k.pages.Valid) :
    (∃ k', k.reserve.result = .ok (.error .kernelStack, k')) ↔
      k.slots.count < k.slots.capacity ∧ k.pages.Crowded k.config.extentPages := by
  have hroom : k.slots.count < k.slots.capacity ↔ ¬ k.slots.alloc = (none, k.slots) := by
    rw [hk.pool.alloc_eq_none]
    have := hk.pool.count_le
    omega
  rw [hroom]
  constructor
  · rintro ⟨k', hreserve⟩
    rcases reserve_eq_ok.mp hreserve with ⟨-, he⟩ |
      ⟨slot, k₁, h, k₂, hslot, hissue, ⟨stack, -, he⟩ | ⟨e', k₃, hstack, -, -⟩⟩
    · cases he
    · cases he
    · obtain ⟨pool, halloc, rfl⟩ := takeSlot_eq_ok.mp hslot
      obtain ⟨threads, -, rfl⟩ := issueHandle_eq_ok.mp hissue
      obtain ⟨pages, hacquire, -⟩ := takeStack_eq_ok.mp hstack
      obtain ⟨base?, halloc', hbase⟩ := StackConfig.acquire_eq_ok.mp hacquire
      have hsome : k.slots.alloc = (some slot, pool) := Except.ok.inj halloc
      refine ⟨by simp [hsome], ?_⟩
      cases base? with
      | none =>
        rcases (hpages.alloc_eq_none halloc').2 with hzero | hcrowded
        · exact absurd hzero (Nat.ne_of_gt k.config.extentPages_pos)
        · exact hcrowded
      | some base => cases hbase
  · rintro ⟨hsome, hcrowded⟩
    cases halloc : k.slots.alloc with
    | mk slot? pool =>
      have htake : k.takeSlot.result = .ok (slot?, { k with slots := pool }) :=
        takeSlot_eq_ok.mpr ⟨pool, congrArg Except.ok halloc, rfl⟩
      cases slot? with
      | none =>
        rw [SlotPool.alloc_none halloc] at halloc
        exact absurd halloc hsome
      | some slot =>
        obtain ⟨hk₁, -⟩ := hk.takeSlot htake
        obtain ⟨h, k₂, hissue⟩ := hk₁.issueHandle_ok
        obtain ⟨hk₂, rfl, -⟩ := hk₁.issueHandle hissue
        obtain ⟨k₃, hreturn⟩ := hk₂.returnSlot_ok
        have hstack : k₂.takeStack.result = .ok (.error .kernelStack, k₂) := by
          obtain ⟨threads, -, rfl⟩ := issueHandle_eq_ok.mp hissue
          exact takeStack_eq_ok.mpr ⟨_, StackConfig.acquire_eq_ok.mpr
            ⟨none, Arena.alloc_of_crowded hcrowded, rfl⟩, rfl⟩
        exact ⟨k₃, reserve_eq_ok.mpr
          (.inr ⟨_, _, h, k₂, htake, hissue, .inr ⟨_, k₂, hstack, hreturn, rfl⟩⟩)⟩

/-- What a failed reservation took, it has given back. -/
theorem Tenancy.reserve_restores (hk : k.Tenancy [])
    (hreserve : k.reserve.result = .ok (.error e, k')) :
    k'.pages = k.pages ∧ k'.slots.used = k.slots.used ∧ k'.slots.count = k.slots.count := by
  rcases reserve_eq_ok.mp hreserve with ⟨hslot, -⟩ |
    ⟨slot, k₁, h, k₂, hslot, hissue, ⟨stack, -, he⟩ | ⟨e', k₃, hstack, hreturn, -⟩⟩
  · cases Accounts.takeSlot_none hslot
    exact ⟨rfl, rfl, rfl⟩
  · cases he
  · obtain ⟨hk₁, -⟩ := hk.takeSlot hslot
    obtain ⟨-, rfl, -⟩ := hk₁.issueHandle hissue
    obtain ⟨pool, halloc, rfl⟩ := takeSlot_eq_ok.mp hslot
    obtain ⟨threads, -, rfl⟩ := issueHandle_eq_ok.mp hissue
    cases Accounts.takeStack_error hstack
    obtain ⟨pool', hfree, rfl⟩ := returnSlot_eq_ok.mp hreturn
    exact ⟨rfl, SlotPool.alloc_free (Except.ok.inj halloc) hfree⟩

/-- Over a span that the machine can address whole, a free slot and a gap are enough. -/
theorem Managed.made (hk : k.Managed) (hmay : k.MayMake call)
    (hroom : k.slots.count < k.slots.capacity) (hgap : ¬ k.pages.Crowded k.config.extentPages) :
    ∃ h k', (k.perform call).result = .ok (.made (.ok h), k') := by
  obtain ⟨r, k', hcall⟩ : ∃ r k', (k.perform call).result = .ok (.made r, k') := by
    cases call with
    | create pid entry arg1 arg2 =>
      obtain ⟨p, hp, haccepts⟩ := hmay
      obtain ⟨r, k', hcreate⟩ := (hk.create_returns hp entry arg1 arg2).mpr haccepts
      exact ⟨r, k', (reply_eq_ok .made).mpr ⟨r, hcreate, rfl⟩⟩
    | clone source =>
      obtain ⟨r, k', hclone⟩ := hk.clone_returns.mpr hmay
      exact ⟨r, k', (reply_eq_ok .made).mpr ⟨r, hclone, rfl⟩⟩
    | _ => cases hmay
  cases r with
  | ok h => exact ⟨h, k', hcall⟩
  | error e =>
    have hreserve := (refused_iff hmay).mp hcall
    cases e with
    | threadObject =>
      have hfull := hk.accounts.tenancy.reserve_noSlot.mp ⟨k', hreserve⟩
      omega
    | kernelStack =>
      have hcrowded := (hk.accounts.tenancy.reserve_noStack hk.accounts.arena).mp ⟨k', hreserve⟩
      exact absurd hcrowded.2 hgap

end Pools

/-- Creation that fails, of a new thread or of a clone, changes nothing that the kernel
shows, whatever its allocators are, and asks them for no more than it has to. A slot that
it took goes back exactly if it is below 2³²: of a greater one the handle keeps the low
bits, and another slot is freed. Over an arena and a pool with no more slots than that,
it fails exactly where no slot is free, or no gap holds a stack. -/
theorem failed_creation_rolls_back {n : Nat} (call : Call n) :
    (∀ (P O : Type) [PageSource P] [SlotSource O] (k k' : Kernel P O n) (e : Exhausted),
      k.MayMake call → (k.perform call).result = .ok (.made (.error e), k') →
      k.RollsBack k' ∧ ∃ slotCalls pageCalls, k.Trial e slotCalls pageCalls ∧
        (∀ slot, .alloc (some slot) ∈ slotCalls → (.free slot ∈ slotCalls ↔ slot < UInt32.size)) ∧
        Serves SlotSource.Answers k.slots slotCalls k'.slots ∧
          Serves PageSource.Answers k.pages pageCalls k'.pages) ∧
    (∀ (P O : Type) [PageSource P] [SlotSource O]
      (k k' : Kernel (Transcribed P PageCall) (Transcribed O SlotCall) n) (e : Exhausted),
      k.MayMake call → (k.perform call).result = .ok (.made (.error e), k') →
      ∃ slotCalls pageCalls, k.Trial e slotCalls pageCalls ∧
        (∀ slot, .alloc (some slot) ∈ slotCalls → (.free slot ∈ slotCalls ↔ slot < UInt32.size)) ∧
        k'.slots.calls = k.slots.calls ++ slotCalls ∧
          k'.pages.calls = k.pages.calls ++ pageCalls) ∧
    ∀ (config : StackConfig) (base : VirtAddr) (pages capacity : Nat) (arena : Arena)
      (ids : Vector UInt32 n) (k₀ k : Kernel Arena SlotPool n) (calls : List (Call n)),
      (Arena.new base pages).result = .ok arena → capacity ≤ UInt32.size →
      (boot config arena (SlotPool.new capacity) ids).result = .ok k₀ →
      (∀ call ∈ calls, call.isManaged = true) → k₀.run calls = .ok k → k.MayMake call →
      ((∃ k', (k.perform call).result = .ok (.made (.error .threadObject), k')) ↔
        k.slots.count = k.slots.capacity) ∧
      ((∃ k', (k.perform call).result = .ok (.made (.error .kernelStack), k')) ↔
        k.slots.count < k.slots.capacity ∧ k.pages.Crowded config.extentPages) ∧
      (∀ e k', (k.perform call).result = .ok (.made (.error e), k') →
        k'.pages = k.pages ∧ k'.slots.used = k.slots.used ∧ k'.slots.count = k.slots.count) ∧
      (CanonicalSpan base pages → k.slots.count < k.slots.capacity →
        ¬ k.pages.Crowded config.extentPages →
          ∃ h k', (k.perform call).result = .ok (.made (.ok h), k')) := by
  refine ⟨?any, ?transcribed, ?pools⟩
  case any =>
    intro P O _ _ k k' e hmay hcall
    have hreserve := (refused_iff hmay).mp hcall
    obtain ⟨slotCalls, pageCalls, htrial, hserved⟩ := trial_reserve hreserve
    exact ⟨rollsBack_reserve hreserve, slotCalls, pageCalls, htrial,
      fun _ hslot => htrial.returns hslot, hserved⟩
  case transcribed =>
    intro P O _ _ k k' e hmay hcall
    obtain ⟨slotCalls, pageCalls, htrial, hslots, hpages⟩ :=
      trial_reserve ((refused_iff hmay).mp hcall)
    exact ⟨slotCalls, pageCalls, htrial, fun _ hslot => htrial.returns hslot,
      hslots.transcribed fun _ _ _ => SlotSource.Answers.transcribed,
      hpages.transcribed fun _ _ _ => PageSource.Answers.transcribed⟩
  case pools =>
    intro config base pages capacity arena ids k₀ k calls harena hcapacity hboot hmanaged hrun hmay
    have hk := (Tenancy.boot hcapacity hboot).run hrun
    have hconfig : k.config = config := by
      have hsettings := (settings_run (named_boot hboot) hrun).1
      obtain ⟨-, rfl⟩ := boot_eq_ok.mp hboot
      exact hsettings
    rw [← hconfig]
    refine ⟨?_, ?_, fun e k' hcall => hk.reserve_restores ((refused_iff hmay).mp hcall),
      fun hspan => (Managed.run harena hspan hcapacity hboot hmanaged hrun).made hmay⟩
    · rw [← hk.reserve_noSlot]
      exact exists_congr fun k' => refused_iff hmay
    · rw [← hk.reserve_noStack (valid_run harena hboot hrun)]
      exact exists_congr fun k' => refused_iff hmay

/-- Both slots are taken: the third thread is refused, and the first two notice nothing. -/
theorem failed_creation_rolls_back_small : ∃ k k', small.run [.newProcess .zero .running,
      .create 1 ⟨"first"⟩ 0 0, .clone ⟨0, 1⟩] = .ok k ∧
    (k.perform (.create 1 ⟨"third"⟩ 0 0)).result = .ok (.made (.error .threadObject), k') ∧
    k'.threads = k.threads ∧ k'.slots.used = k.slots.used := by
  obtain ⟨k, hrun, hobserved⟩ := run_observe small
    [.newProcess .zero .running, .create 1 ⟨"first"⟩ 0 0, .clone ⟨0, 1⟩]
    (fun k => (k.slots.count, k.slots.capacity,
      (k.processes.get? 1).map (·.phase.acceptsThreads)))
    (a := (2, 2, some true)) (by decide +kernel)
  simp only [Prod.mk.injEq, Option.map_eq_some_iff] at hobserved
  obtain ⟨hcount, hcapacity, p, hp, haccepts⟩ := hobserved
  have hmay : k.MayMake (.create 1 ⟨"third"⟩ 0 0) := ⟨p, hp, haccepts⟩
  obtain ⟨hfull, -, hrestored, -⟩ := (failed_creation_rolls_back _).2.2 ⟨4096⟩ Arena.small.base 6 2
    Arena.small #v[0, 1] small k _ Arena.new_small (by decide) boot_small (by decide) hrun hmay
  obtain ⟨k', hcall⟩ := hfull.mpr (hcount.trans hcapacity.symm)
  obtain ⟨hsame, -⟩ := (failed_creation_rolls_back _).1 Arena SlotPool k k' _ hmay hcall
  exact ⟨k, k', hrun, hcall, hsame.threads, (hrestored _ k' hcall).2.1⟩

/-- In a table of 2³² + 1 slots the last one has no handle of its own. Where it is taken
and no stack is to be had, slot 0 goes back, and the last slot is lost. -/
theorem failed_creation_loses_slot : ∃ k₀ k k' : Kernel ScriptedPages ScriptedSlots 1,
    (boot ⟨4096⟩ { script := [none] } { capacity := 4294967297, script := [some 4294967296] }
      #v[0]).result = .ok k₀ ∧
    k₀.run [.newProcess .zero .running] = .ok k ∧
    k.slots = { capacity := 4294967297, script := [some 4294967296] } ∧
    k.MayMake (.create 1 ⟨"sum"⟩ 0 0) ∧
    (k.perform (.create 1 ⟨"sum"⟩ 0 0)).result = .ok (.made (.error .kernelStack), k') ∧
    k'.slots = { capacity := 4294967297, script := [], calls := 1, freed := [0] } := by
  obtain ⟨k₀, hboot⟩ : ∃ k₀ : Kernel ScriptedPages ScriptedSlots 1,
      (boot ⟨4096⟩ { script := [none] } { capacity := 4294967297, script := [some 4294967296] }
        #v[0]).result = .ok k₀ :=
    ⟨_, boot_eq_ok.mpr ⟨by decide, rfl⟩⟩
  obtain ⟨-, hk₀⟩ := boot_eq_ok.mp hboot
  obtain ⟨k, hrun, hmay, hempty, hpages, hslots⟩ : ∃ k,
      k₀.run [.newProcess .zero .running] = .ok k ∧ k.MayMake (.create 1 ⟨"sum"⟩ 0 0) ∧
      k.machine.threads.slots[4294967296]? = some ⟨0, none⟩ ∧ k.pages = { script := [none] } ∧
      k.slots = { capacity := 4294967297, script := [some 4294967296] } := by
    rw [hk₀]
    have hlt : 4294967296 < 4294967297 := by decide
    exact ⟨_, run_cons_eq_ok.mpr ⟨_, _, rfl, rfl⟩, ⟨_, rfl, rfl⟩,
      Array.getElem?_replicate.trans (if_pos hlt), rfl, rfl⟩
  obtain ⟨k', hreserve, hfreed⟩ :=
    reserve_frees hempty rfl (by rw [hslots]; rfl) (by rw [hpages]; rfl) rfl
  exact ⟨k₀, k, k', hboot, hrun, hslots, hmay, (refused_iff hmay).mpr hreserve, hfreed⟩

end Kernel

end KernelThreads
