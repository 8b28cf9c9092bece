import KernelThreads.Proofs.Kernel.Rollback
import KernelThreads.Proofs.Memory.Limits

/-!
Where a new thread starts. Its first image calls the entry function in the address space of
its process, at the limit of its own stack. A stack that ends with a half of the address
space is the exception: there the sum that leads to its limit goes astray.
-/
namespace KernelThreads

namespace Kernel

variable {n : Nat} {pid : ProcessId} {p : Process} {entry : EntryPoint} {arg1 : Int64}
  {arg2 : UInt64} {h : Handle} {stack : Stack}

section Any
variable {P O : Type} {k k' : Kernel P O n} [PageSource P] [SlotSource O]

/-- The stack that is reserved is what the page source has answered. -/
theorem reserve_stack (hreserve : k.reserve.result = .ok (.ok (h, stack), k')) :
    stack.pages = k.config.extentPages ∧
      ∃ q, (PageSource.alloc k.pages stack.pages).result = .ok (some stack.base, q) := by
  rcases reserve_eq_ok.mp hreserve with ⟨-, hr⟩ |
    ⟨slot, k₁, h', k₂, hslot, hissue, ⟨stack', hstack, hr⟩ | ⟨e, k₃, -, -, hr⟩⟩
  · cases hr
  · cases hr
    obtain ⟨slots, -, rfl⟩ := takeSlot_eq_ok.mp hslot
    obtain ⟨threads, -, rfl⟩ := issueHandle_eq_ok.mp hissue
    obtain ⟨pages, hacquire, rfl⟩ := takeStack_eq_ok.mp hstack
    obtain ⟨base?, halloc, hbase⟩ := StackConfig.acquire_eq_ok.mp hacquire
    cases base? with
    | none => cases hbase
    | some base =>
      cases hbase
      exact ⟨rfl, pages, halloc⟩
  · cases hr

/-- A first image that cannot be made stops the kernel. -/
theorem create_stops {e : AddressError} (hp : k.processes.get? pid = some p)
    (haccepts : p.phase.acceptsThreads = true)
    (hreserve : k.reserve.result = .ok (.ok (h, stack), k'))
    (hcontext : Context.start entry arg1 arg2 stack p.directory = .error e) :
    (k.perform (.create pid entry arg1 arg2)).result = .error (.address e) := by
  simp [perform, create, Processes.find, hp, haccepts, hreserve, hcontext, Logged.ofAddress,
    Except.bind]

end Any

section Pools
variable {config : StackConfig} {base : VirtAddr} {pages capacity : Nat} {arena : Arena}
  {ids : Vector UInt32 n} {hooks : Hooks} {exitClearsCpu : Bool}
  {k₀ k k' : Kernel Arena SlotPool n} {calls : List (Call n)}

/-- A stack is cut from the pages of the arena. -/
theorem reserve_within (haligned : k.pages.base.toNat % pageSize = 0)
    (hpages : CanonicalPages k.pages.base k.pages.total)
    (hreserve : k.reserve.result = .ok (.ok (h, stack), k')) :
    CanonicalPages stack.base stack.pages ∧ stack.base.toNat % pageSize = 0 ∧
      (stack.limit = VirtAddr.lowerEnd ∨ stack.limit = UInt64.size →
        k.pages.base.toNat + k.pages.total * pageSize = stack.limit) := by
  obtain ⟨-, q, halloc⟩ := reserve_stack hreserve
  obtain ⟨first, hin, hvalue⟩ := Arena.alloc_pages hpages halloc
  have hlimit : stack.limit = k.pages.base.toNat + (first + stack.pages) * pageSize := by
    rw [Stack.limit, hvalue, Nat.add_mul, Nat.add_assoc]
  refine ⟨hpages.within hvalue hin, ?_, fun hend => ?_⟩
  · rw [hvalue, Nat.add_mul_mod_self_right, haligned]
  · rw [hlimit] at hend
    rw [hlimit, hpages.end_eq hin hend]

/-- Whatever has been done to a kernel whose pages all have addresses, what a creation comes
to is settled by what it can reserve. For want of a slot or of a stack it is refused. With a
stack, a thread is made whose first image calls the entry function eight bytes below the
limit of the stack, unless the stack ends with a half of the address space, and the arena
with it: behind the lower half the image stands outside all stacks, and at the end of the
space the kernel stops. -/
theorem first_entry (harena : (Arena.new base pages).result = .ok arena)
    (hpages : CanonicalPages base pages) (hcapacity : capacity ≤ UInt32.size)
    (hboot : (boot config arena (SlotPool.new capacity) ids hooks exitClearsCpu).result = .ok k₀)
    (hmanaged : ∀ call ∈ calls, call.isManaged = true) (hrun : k₀.run calls = .ok k)
    (hp : k.processes.get? pid = some p) (haccepts : p.phase.acceptsThreads = true)
    (entry : EntryPoint) (arg1 : Int64) (arg2 : UInt64) :
    ∃ r k₁, k.reserve.result = .ok (r, k₁) ∧
      (∀ e, r = .error e →
        (k.perform (.create pid entry arg1 arg2)).result = .ok (.made (.error e), k₁)) ∧
      ∀ h stack, r = .ok (h, stack) →
        (stack.limit ≠ UInt64.size →
          ∃ k' t, (k.perform (.create pid entry arg1 arg2)).result = .ok (.made (.ok h), k') ∧
            k'.thread? h = some t ∧ t.stack = stack ∧ stack.pages = config.extentPages ∧
            t.context.Enters entry arg1 arg2 stack p.directory ∧
            t.context.stackSize = config.stackSize ∧
            (stack.limit ≠ VirtAddr.lowerEnd → t.context.rsp.toNat + 8 = stack.limit) ∧
            (stack.limit = VirtAddr.lowerEnd → t.context.rsp = 0xffff7ffffffffff8 ∧
              base.toNat + pages * pageSize = VirtAddr.lowerEnd)) ∧
        (stack.limit = UInt64.size →
          (k.perform (.create pid entry arg1 arg2)).result = .error (.address .overflow) ∧
            base.toNat + pages * pageSize = UInt64.size) := by
  have hk := (Tenancy.boot hcapacity hboot).run hrun
  have hnamed := named_boot hboot
  have henrolled : k.Enrolled := (Enrolled.boot hboot).run hnamed hmanaged hrun
  obtain ⟨-, hbase, htotal⟩ := arena_run harena hboot hrun
  obtain ⟨haligned, -, -⟩ := Arena.new_eq_ok.mp harena
  have hvalid : k.config.validate.result = .ok () ∧ k.config = config := by
    have hconfig := (settings_run hnamed hrun).1
    obtain ⟨hvalid, rfl⟩ := boot_eq_ok.mp hboot
    exact ⟨hconfig ▸ hvalid, hconfig⟩
  -- the calls have moved neither the arena nor the size of a stack
  rw [← hvalid.2]
  rw [← hbase, ← htotal] at hpages
  rw [← hbase] at haligned
  rw [← hbase, ← htotal]
  obtain ⟨r, k₁, hreserve⟩ := hk.reserve_ok (Arena.alloc_returns hpages k.config.extentPages)
  refine ⟨r, k₁, hreserve, ?refused, ?reserved⟩
  case refused =>
    rintro e rfl
    have hmay : k.MayMake (.create pid entry arg1 arg2) := ⟨p, hp, haccepts⟩
    exact (refused_iff hmay).mpr hreserve
  case reserved =>
    rintro h stack rfl
    obtain ⟨hextent, -⟩ := reserve_stack hreserve
    obtain ⟨hcanonical, hpage, hend⟩ := reserve_within haligned hpages hreserve
    have hguarded : guardPages < stack.pages :=
      hextent ▸ StackConfig.guard_lt_extentPages hvalid.1
    refine ⟨fun hlimit => ?_, fun hlimit => ?_⟩
    · obtain ⟨context, hcontext, henters, hinside, houtside⟩ :=
        Context.start_enters hcanonical hpage hguarded hlimit
      obtain ⟨k', t, hcreate, ht, rfl, rfl⟩ :=
        hk.create_made henrolled hp haccepts hreserve hcontext
      exact ⟨k', t, (reply_eq_ok .made).mpr ⟨_, hcreate, rfl⟩, ht, rfl, hextent, henters,
        henters.size.trans (StackConfig.size_eq hvalid.1 hextent), hinside,
        fun hlower => ⟨houtside hlower, (hend (.inl hlower)).trans hlower⟩⟩
    · exact ⟨create_stops hp haccepts hreserve (Context.start_overflows hcanonical hguarded hlimit),
        (hend (.inr hlimit)).trans hlimit⟩

/-- The first thread of the small kernel has the first two pages, guard included. -/
theorem first_entry_small : ∃ k k' t, small.run [.newProcess .zero .running] = .ok k ∧
    (k.perform (.create 1 ⟨"first"⟩ (-1) 2)).result = .ok (.made (.ok ⟨0, 1⟩), k') ∧
    k'.thread? ⟨0, 1⟩ = some t ∧ t.stack = ⟨Arena.small.base, 2⟩ ∧
    t.context.rdi = 0xffffffffffffffff ∧ t.context.rsp.toNat + 8 = 0x102000 := by
  obtain ⟨k, hrun, hobserved⟩ := run_observe small [.newProcess .zero .running]
    (fun k => (k.reserve.result.toOption.bind fun x => x.1.toOption,
      (k.processes.get? 1).map (·.phase.acceptsThreads)))
    (a := (some (⟨0, 1⟩, ⟨Arena.small.base, 2⟩), some true)) (by decide +kernel)
  simp only [Prod.mk.injEq, Option.map_eq_some_iff] at hobserved
  obtain ⟨hreserved, p, hp, haccepts⟩ := hobserved
  obtain ⟨r, k₁, hreserve, -, hmade⟩ := first_entry Arena.new_small (by decide) (by decide)
    boot_small (by decide) hrun hp haccepts ⟨"first"⟩ (-1) 2
  rw [hreserve] at hreserved
  cases r with
  | error e => cases hreserved
  | ok x =>
    cases hreserved
    obtain ⟨hstarts, -⟩ := hmade _ _ rfl
    obtain ⟨k', t, hcall, ht, hstack, -, henters, -, hinside, -⟩ := hstarts (by decide)
    exact ⟨k, k', t, hrun, hcall, ht, hstack, henters.rdi, hinside (by decide)⟩

/-- The small kernel on two pages, room for one stack with its guard. -/
def pair (base : VirtAddr) : Kernel Arena SlotPool 2 :=
  { small with pages := { base, total := 2, taken := .clear 2, extents := [], available := 2 } }

/-- On the last two pages of the lower half, the first thread starts behind its stack, in no
page at all. On the last two pages of the space, it cannot be created. -/
theorem first_entry_strays :
    (∃ lower k t, (Arena.new lower 2).result = .ok (pair lower).pages ∧ CanonicalPages lower 2 ∧
      (boot ⟨4096⟩ (pair lower).pages (SlotPool.new 2) #v[0, 1]).result = .ok (pair lower) ∧
      (pair lower).run [.newProcess .zero .running, .create 1 ⟨"sum"⟩ 0 0] = .ok k ∧
      k.thread? ⟨0, 1⟩ = some t ∧ t.stack.limit = 0x800000000000 ∧
      t.context.rsp = 0xffff7ffffffffff8) ∧
    ∃ upper, (Arena.new upper 2).result = .ok (pair upper).pages ∧ CanonicalPages upper 2 ∧
      (boot ⟨4096⟩ (pair upper).pages (SlotPool.new 2) #v[0, 1]).result = .ok (pair upper) ∧
      (pair upper).run [.newProcess .zero .running, .create 1 ⟨"sum"⟩ 0 0] =
        .error (.address .overflow) := by
  refine ⟨?_, ⟨0xffffffffffffe000, by decide⟩, rfl, by decide, rfl, ?_⟩
  · obtain ⟨k, hrun, hobserved⟩ := run_observe (pair ⟨0x7fffffffe000, by decide⟩)
      [.newProcess .zero .running, .create 1 ⟨"sum"⟩ 0 0]
      (fun k => (k.thread? ⟨0, 1⟩).map fun t => (t.stack.limit, t.context.rsp))
      (a := some (0x800000000000, 0xffff7ffffffffff8)) (by decide +kernel)
    obtain ⟨t, ht, hplace⟩ := Option.map_eq_some_iff.mp hobserved
    obtain ⟨hlimit, hrsp⟩ := Prod.mk.inj hplace
    exact ⟨⟨0x7fffffffe000, by decide⟩, k, t, rfl, by decide, rfl, hrun, ht, hlimit, hrsp⟩
  · decide +kernel

end Pools

end Kernel

end KernelThreads
