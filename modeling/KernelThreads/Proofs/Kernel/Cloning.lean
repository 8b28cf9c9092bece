import KernelThreads.Proofs.Kernel.Handles
import KernelThreads.Proofs.Kernel.Rollback
import KernelThreads.Proofs.Kernel.Rosters
import KernelThreads.Proofs.Memory.Reversal

/-!
The life of a clone before it has a process. A clone shares nothing with its source and
disturbs nobody; its maker either destroys it, which leaves no trace of it, or attaches it
to a process, which happens once.
-/
namespace KernelThreads

variable {n : Nat} {call : Call n} {calls : List (Call n)} {reply : Reply} {pid : ProcessId}

theorem Context.empty_eq_ok {stack : Stack} {c : Context} : empty stack = .ok c ↔
    stack.bottom = .ok c.stackBottom ∧
      c = { stackBottom := c.stackBottom, stackSize := stack.size } := by
  unfold empty
  cases stack.bottom with
  | error e => simp [bind, Except.bind]
  | ok bottom =>
    constructor
    · rintro ⟨⟩
      exact ⟨rfl, rfl⟩
    · rintro ⟨⟨⟩, hc⟩
      exact congrArg Except.ok hc.symm

namespace Thread
variable {t u : Thread}

/-- `u` has the flags of `t`, its pending result and its error number. It stands nowhere, is
in no process, and its registers are empty and name its own stack. -/
structure Clones (t u : Thread) : Prop where
  state : u.state = .runnable
  link : u.link = .unlinked
  process : u.process = none
  flags : u.flags = { t.flags with cloned := true }
  pending : u.pending = t.pending
  errno : u.errno = t.errno
  bottom : u.stack.bottom = .ok u.context.stackBottom
  context : u.context = { stackBottom := u.context.stackBottom, stackSize := u.stack.size }

theorem Clones.copy {stack : Stack} {context : Context}
    (hcontext : Context.empty stack = .ok context) (t : Thread) (h : Handle) :
    t.Clones (t.copy h stack context) := by
  obtain ⟨hbottom, hempty⟩ := Context.empty_eq_ok.mp hcontext
  exact ⟨rfl, rfl, rfl, rfl, rfl, rfl, hbottom, hempty⟩

theorem Clones.awaits (h : t.Clones u) : u.isUnattachedClone = true := by
  simp [isUnattachedClone, h.flags, h.process]

/-- The thread `t` in process `pid`, in the address space of which it is to run. -/
def adopted (t : Thread) (pid : ProcessId) (directory : PhysAddr) : Thread :=
  { t with
    link := .runQueue
    process := some pid
    flags := { t.flags with cloned := false }
    context := { t.context with pageDirectory := directory } }

/-- Nobody becomes a clone that awaits its process. -/
theorem Step.attached (h : t.Step u) (ht : t.isUnattachedClone = false) :
    u.isUnattachedClone = false := by
  cases h with
  | enqueue h =>
    obtain ⟨-, -, rfl⟩ := enqueue_eq_ok.mp h
    exact ht
  | start h =>
    obtain ⟨-, rfl⟩ := startOn_eq_ok.mp h
    exact ht
  | block h =>
    obtain ⟨-, rfl⟩ := block_eq_ok.mp h
    exact ht
  | wake h =>
    obtain ⟨-, rfl⟩ := wake_eq_ok.mp h
    exact ht
  | request result h => exact ht
  | adopt pid context hclone hstate hlink => rfl
  | errno errno => exact ht
  | load context => exact ht

theorem Becomes.attached (h : t.Becomes u) (ht : t.isUnattachedClone = false) :
    u.isUnattachedClone = false := by
  induction h with
  | refl => exact ht
  | tail _ huv ih => exact huv.attached ih

end Thread

namespace Kernel

section Any
variable {P O : Type} {k₀ k k₁ k' : Kernel P O n} {h : Handle} {t u : Thread} {p : Process}

/-- The handle `h` is in no queue and in no process, and on no processor. -/
structure Detached (k : Kernel P O n) (h : Handle) : Prop where
  run : h ∉ k.machine.queues.run
  waiters : ∀ c hs, k.machine.queues.waiters? c = some hs → h ∉ hs
  members : ∀ pid p, k.processes.get? pid = some p → h ∉ p.members
  cpus : ∀ i, (k.machine.cpu i).thread? ≠ some h

theorem Placed.detached (hk : k.Placed) (henrolled : k.Enrolled) (ht : k.thread? h = some t)
    (hclone : t.isUnattachedClone = true) : k.Detached h := by
  obtain ⟨hcloned, hfree⟩ := Bool.and_eq_true_iff.mp hclone
  obtain ⟨-, hlink⟩ := (hk.machine.sound h t ht).cloned hcloned
  refine ⟨fun hmem => ?_, fun c hs hc hmem => ?_, fun pid p hp hmem => ?_,
    hk.machine.not_running ht (by rw [hlink]; rfl)⟩
  · obtain ⟨u, hu, hqueued⟩ := hk.machine.mem_run.mp hmem
    cases ht.symm.trans hu
    cases hlink.symm.trans hqueued
  · obtain ⟨u, hu, hwaits⟩ := (hk.machine.mem_waiters hc).mp hmem
    cases ht.symm.trans hu
    cases hlink.symm.trans hwaits
  · obtain ⟨u, hu, hpid⟩ := (henrolled pid p hp).2 h hmem
    cases ht.symm.trans hu
    rw [hpid] at hfree
    cases hfree

/-- The kernel after the clone `t`, which `h` names, has been attached to process `pid`. -/
def attached (k : Kernel P O n) (h : Handle) (t : Thread) (pid : ProcessId) (p : Process) :
    Kernel P O n :=
  { k with
    processes := k.processes.set pid { p with members := p.members ++ [h] }
    machine := k.machine.put h (t.adopted pid p.directory) (k.machine.queues.push h) }

/-- In `k'`, process `pid` has the clone `t`, which `h` names, last in its list and in its
address space, and the clone stands last in the run queue. All else is as in `k`. -/
structure Adopts (k : Kernel P O n) (h : Handle) (t : Thread) (pid : ProcessId) (p : Process)
    (k' : Kernel P O n) : Prop where
  thread? : ∀ g, k'.thread? g =
    if h = g then some (t.adopted pid p.directory) else k.thread? g
  process? : ∀ pid', k'.processes.get? pid' =
    if pid = pid' then some { p with members := p.members ++ [h] } else k.processes.get? pid'
  count : k'.processes.count = k.processes.count
  run : k'.machine.queues.run = k.machine.queues.run ++ [h]
  waiting : k'.machine.queues.waiting = k.machine.queues.waiting
  cpus : k'.machine.cpus = k.machine.cpus
  rests : k' = { k with processes := k'.processes, machine := k'.machine }

theorem Adopts.attached (ht : k.thread? h = some t) (hp : k.processes.get? pid = some p) :
    k.Adopts h t pid p (k.attached h t pid p) where
  thread? := Registry.get?_set_live ht _
  process? pid' := by
    refine (Processes.get?_set ..).trans ?_
    rw [hp]
    rfl
  count := Processes.count_set ..
  run := rfl
  waiting := rfl
  cpus := rfl
  rests := rfl

variable [PageSource P] [SlotSource O]

/-- Nothing stands against the attachment of a clone. -/
theorem Placed.perform_attach (hk : k.Placed) (henrolled : k.Enrolled)
    (ht : k.thread? h = some t) (hclone : t.isUnattachedClone = true)
    (hp : k.processes.get? pid = some p) :
    (k.perform (.attach h pid)).result = .ok (.done, k.attached h t pid p) := by
  have hfree := (hk.detached henrolled ht hclone).members pid p hp
  obtain ⟨hstate, hlink⟩ := (hk.machine.sound h t ht).cloned (Bool.and_eq_true_iff.mp hclone).1
  have hid : t.id = h := hk.machine.named.id_eq ht
  subst hid
  have hqueued : (k.hooks.makeRunnable k.machine.queues { t with
      process := some pid
      flags := { t.flags with cloned := false }
      context := { t.context with pageDirectory := p.directory } }).result =
        .ok (t.adopted pid p.directory, k.machine.queues.push t.id) := by
    rw [hk.hooks]
    exact Queues.makeRunnable_eq_ok.mpr
      ⟨Thread.enqueue_eq_ok.mpr ⟨hstate, .inl hlink, rfl⟩, rfl⟩
  exact done_eq_ok.mpr ⟨attach_eq_ok.mpr ⟨p, t, hp, ht, hclone, ⟨hstate, hlink⟩,
    enlist_eq_ok.mpr ⟨p, _, _, hp, hfree, hqueued, rfl⟩⟩, rfl⟩

/-- Of a kernel, a clone changes the allocators and the threads. -/
theorem clone_frame {source : Handle} {r : Except Exhausted Handle}
    (hclone : (k.clone source).result = .ok (r, k')) :
    k' = { k with
      pages := k'.pages
      slots := k'.slots
      machine := { k.machine with threads := k'.machine.threads } } := by
  obtain ⟨t, -, -, ⟨e, hreserve, -⟩ | ⟨h, stack, context, k₁, hreserve, -, hhouse, -⟩⟩ :=
    clone_eq_ok.mp hclone
  · obtain ⟨threads, hk', -⟩ := reserve_frame hreserve
    rw [hk']
  · obtain ⟨threads, hk₁, -⟩ := reserve_frame hreserve
    obtain ⟨threads', -, rfl⟩ := house_eq_ok.mp hhouse
    rw [hk₁]

/-- The handle `h` names no clone that awaits its process. -/
def Unattachable (k : Kernel P O n) (h : Handle) : Prop :=
  ∀ t, k.thread? h = some t → t.isUnattachedClone = false

omit [PageSource P] [SlotSource O] in
theorem attach_unattachable (hnamed : k.machine.threads.Named)
    (hattach : (k.attach h pid).result = .ok k') : k'.Unattachable h := by
  intro u hu
  cases Effect.attach hnamed hattach with
  | scheduled hm => cases hm
  | attached hp ht hclone hplace hfree hq hk =>
    have hprocess := (Hooks.makeRunnable_becomes hq).1.process_eq rfl
    cases ((hk.thread? h).trans (if_pos rfl)).symm.trans hu
    simp [Thread.isUnattachedClone, hprocess]

/-- Only a call that makes a thread of this name changes that. -/
theorem Turn.unattachable (hturn : k.Turn call reply k') (hk : k.Unattachable h)
    (hnew : reply ≠ .made (.ok h)) : k'.Unattachable h := by
  intro u hu
  have hlive := Kernel.contains_iff.mpr ⟨u, hu⟩
  rcases (hturn.contains_iff h).mp hlive with ⟨-, hmade⟩ | ⟨hbefore, hkept⟩
  · exact absurd hmade hnew
  · obtain ⟨t, ht⟩ := Kernel.contains_iff.mp hbefore
    obtain ⟨u', hu', hsteps⟩ := hturn.transition.stays ht hkept
    cases hu.symm.trans hu'
    rcases hsteps with hbecomes | ⟨result, hfinish⟩
    · exact hbecomes.attached (hk t ht)
    · obtain ⟨-, rfl⟩ := Thread.finish_eq_ok.mp hfinish
      exact hk t ht

/-- What has been attached is never attached again, as its handle is not issued again. -/
theorem unattachable_run (hk₀ : k₀.machine.threads.Named)
    (hbound : k₀.machine.threads.capacity ≤ UInt32.size) (hrun : k₀.run calls = .ok k)
    (hwraps : ¬ Occurs Wraps k₀ calls) (hmem : .attach h pid ∈ calls) :
    k.machine.threads.Issued h ∧ k.Unattachable h := by
  induction hrun using run_induction with
  | start => cases hmem
  | call k calls call reply k' hbefore hcall ih =>
    obtain ⟨hearlier, hnow⟩ := not_occurs_concat hbefore hcall hwraps
    have hnamed := named_run hk₀ hbefore
    have hturn := perform_turn hnamed hcall
    obtain ⟨-, -, hcapacity⟩ := made_nodup hk₀ hbound hbefore hearlier
    have hstill (hissued : k.machine.threads.Issued h) : k'.machine.threads.Issued h :=
      hissued.mono hturn.transition.capacity_eq hnow
    rcases List.mem_append.mp hmem with hmem | hmem
    · obtain ⟨hissued, hunattachable⟩ := ih hearlier hmem
      -- the handle is issued, so this call does not make a new thread of this name
      refine ⟨hstill hissued, hturn.unattachable hunattachable ?_⟩
      rintro rfl
      exact (hturn.transition.fresh (hcapacity ▸ hbound) hnow).1 hissued
    · cases List.mem_singleton.mp hmem
      obtain ⟨hattach, -⟩ := done_eq_ok.mp hcall
      obtain ⟨p, t, -, ht, -⟩ := attach_eq_ok.mp hattach
      exact ⟨hstill (Registry.issued_of_live ht), attach_unattachable hnamed hattach⟩

theorem perform_attach_refused (hp : k.processes.get? pid = some p) (hk : k.Unattachable h) :
    (k.perform (.attach h pid)).result = .error (.violation
      (if k.contains h = true then .attachedNoClone h else .attachedStale h)) := by
  cases ht : k.thread? h with
  | none =>
    have hstale : k.contains h = false := congrArg Option.isSome ht
    simp [perform, done, attach, Processes.find, hp, ht, hstale, Except.bind]
  | some t =>
    have hlive := contains_iff.mpr ⟨t, ht⟩
    simp [perform, done, attach, Processes.find, hp, ht, hk t ht, hlive, Except.bind]

theorem perform_destroy_refused (ht : k.thread? h = some t) (hstate : t.state ≠ .exited)
    (hclone : t.isUnattachedClone = false) : (k.perform (.destroy h)).result =
      .error (.violation (.destroyedInState h t.state)) := by
  simp [perform, done, destroy, evict, ht, hstate, hclone, Except.bind]

end Any

section Pools
variable {k k₁ k₂ : Kernel Arena SlotPool n} {source c : Handle}

/-- A clone that is destroyed at once has been there for nobody but its slot and the pool,
which goes on behind it. -/
theorem Accounts.clone_destroy (hk : k.Accounts [] [])
    (hclone : (k.clone source).result = .ok (.ok c, k₁))
    (hdestroy : (k₁.destroy c).result = .ok k₂) :
    ∃ threads, (k.machine.threads.issue c.slot.toNat).result = .ok (c, threads) ∧
      k₂ = { k with
        slots := { k.slots with next := (c.slot.toNat + 1) % k.slots.capacity }
        machine := { k.machine with threads } } := by
  obtain ⟨t, -, -, ⟨e, -, he⟩ | ⟨h, stack, context, k₃, hreserve, -, hhouse, he⟩⟩ :=
    clone_eq_ok.mp hclone
  · cases he
  cases he
  rcases reserve_eq_ok.mp hreserve with ⟨-, hr⟩ |
    ⟨slot, k₄, h', k₅, hslot, hissue, ⟨stack', hstack, hr⟩ | ⟨e, k₆, -, -, hr⟩⟩
  · cases hr
  · cases hr
    obtain ⟨pool, halloc, rfl⟩ := takeSlot_eq_ok.mp hslot
    obtain ⟨threads, hissued, rfl⟩ := issueHandle_eq_ok.mp hissue
    obtain ⟨pages, hacquire, rfl⟩ := takeStack_eq_ok.mp hstack
    obtain ⟨housed, hinsert, rfl⟩ := house_eq_ok.mp hhouse
    obtain ⟨u, k₇, hevict, hreturn⟩ := destroy_eq_ok.mp hdestroy
    obtain ⟨hu, -, -, hfreed⟩ := evict_eq_ok.mp hevict
    cases (house_thread hhouse).symm.trans hu
    obtain ⟨pool', hpool, rfl⟩ := returnSlot_eq_ok.mp hfreed
    obtain ⟨pages', hrelease, rfl⟩ := returnStack_eq_ok.mp hreturn
    have hbound : k.machine.threads.capacity ≤ UInt32.size := hk.capacity ▸ hk.bound
    obtain ⟨rfl, -⟩ := Registry.awaits_issue hissued hbound
    -- each step of the destruction meets the step of the making that it takes back
    have hslots := SlotPool.free_alloc (Except.ok.inj halloc) hpool
    have hpages : pages' = k.pages := by
      obtain ⟨base?, hbase, hstack⟩ := StackConfig.acquire_eq_ok.mp hacquire
      obtain ⟨-, hfree⟩ := StackConfig.release_eq_ok.mp hrelease
      cases base? with
      | none => cases hstack
      | some base =>
        cases hstack
        exact hk.arena.alloc_free hk.span hbase hfree
    have hthreads : housed.erase c = threads := Registry.erase_insert hinsert
    refine ⟨threads, hissued, ?_⟩
    rw [hpages, hslots, hthreads]
    rfl
  · cases hr

theorem Accounts.live_apart {g h : Handle} {t u : Thread} (hk : k.Accounts [] [])
    (hg : k.thread? g = some t) (hh : k.thread? h = some u) (hne : g ≠ h) :
    t.stack.overlaps u.stack = .ok false := by
  have hlive {h : Handle} {t : Thread} (ht : k.thread? h = some t) : t ∈ k.threads := by
    refine hk.named.mem_threads.mpr ?_
    rwa [hk.named.id_eq ht]
  refine hk.settled_apart (hlive hg) (hlive hh) fun hsame => hne ?_
  rw [← hk.named.id_eq hg, hsame, hk.named.id_eq hh]

/-- A clone is seen by nobody, and its destruction takes back all that its making did. -/
theorem Managed.clone_apart (hk : k.Managed)
    (hcall : (k.perform (.clone source)).result = .ok (.made (.ok c), k₁)) :
    ∃ t u, k.thread? source = some t ∧ t.state = .runnable ∧ t.Clones u ∧ k.thread? c = none ∧
      (∀ h, k₁.thread? h = if c = h then some u else k.thread? h) ∧
      (k₁ = { k with
        pages := k₁.pages
        slots := k₁.slots
        machine := { k.machine with threads := k₁.machine.threads } }) ∧
      k₁.Detached c ∧ (∀ h v, k.thread? h = some v → u.stack.overlaps v.stack = .ok false) ∧
      ∃ k₂, (k₁.perform (.destroy c)).result = .ok (.done, k₂) ∧ k.RollsBack k₂ ∧
        ∃ threads, (k.machine.threads.issue c.slot.toNat).result = .ok (c, threads) ∧
          k₂ = { k with
            slots := { k.slots with next := (c.slot.toNat + 1) % k.slots.capacity }
            machine := { k.machine with threads } } := by
  have hk₁ := hk.perform rfl hcall
  obtain ⟨r, hclone, hr⟩ := (reply_eq_ok .made).mp hcall
  cases hr
  cases Effect.clone hclone with
  | scheduled hm => cases hm
  | @cloned _ _ t stack context _ ht hstate hvacant hcontext hupdate =>
    have hclones := Thread.Clones.copy hcontext t c
    have hlive : k₁.thread? c = some (t.copy c stack context) :=
      (hupdate.thread? c).trans (if_pos rfl)
    refine ⟨t, _, ht, hstate, hclones, hvacant, hupdate.thread?, clone_frame hclone,
      hk₁.placed.detached hk₁.enrolled hlive hclones.awaits, fun h v hv => ?_, ?_⟩
    · have hne : c ≠ h := by
        rintro rfl
        cases hvacant.symm.trans hv
      have hother : k₁.thread? h = some v := (hupdate.thread? h).trans ((if_neg hne).trans hv)
      exact hk₁.accounts.live_apart hlive hother hne
    · obtain ⟨k₂, hdestroy⟩ := hk₁.destroy_returns.mpr ⟨_, hlive, .inr hclones.awaits⟩
      obtain ⟨threads, hissue, rfl⟩ := hk.accounts.clone_destroy hclone hdestroy
      exact ⟨_, done_eq_ok.mpr ⟨hdestroy, rfl⟩,
        ⟨Registry.get?_issue hissue, Registry.threads_issue hissue, rfl, rfl, rfl, rfl⟩,
        threads, hissue, rfl⟩

end Pools

/-- In every state of a run, a clone has a new handle, shares nothing with any live thread,
and is found by its handle alone. Destroyed at once, it leaves behind the next generation of
its slot and the place where the pool goes on. A clone that awaits its process may be
attached to any, which changes, lists and queues it and does nothing else, and it may be
destroyed, which does nothing to others. No other thread may be attached, a clone only once;
and once it has been attached it has to exit before it may be destroyed. -/
theorem clone_laws {config : StackConfig} {base : VirtAddr} {pages capacity : Nat}
    {arena : Arena} {ids : Vector UInt32 n} {k₀ k : Kernel Arena SlotPool n}
    (harena : (Arena.new base pages).result = .ok arena) (hspan : CanonicalSpan base pages)
    (hcapacity : capacity ≤ UInt32.size)
    (hboot : (boot config arena (SlotPool.new capacity) ids).result = .ok k₀)
    (hmanaged : ∀ call ∈ calls, call.isManaged = true) (hrun : k₀.run calls = .ok k)
    (hwraps : ¬ Occurs Wraps k₀ calls) :
    (∀ source c k₁, (k.perform (.clone source)).result = .ok (.made (.ok c), k₁) →
      ¬ k.Wraps (.clone source) (.made (.ok c)) k₁ → c ∉ made k₀ calls ∧
      ∃ t u, k.thread? source = some t ∧ t.state = .runnable ∧ t.Clones u ∧ k.thread? c = none ∧
        (∀ h, k₁.thread? h = if c = h then some u else k.thread? h) ∧
        (k₁ = { k with
          pages := k₁.pages
          slots := k₁.slots
          machine := { k.machine with threads := k₁.machine.threads } }) ∧
        k₁.Detached c ∧ (∀ h v, k.thread? h = some v → u.stack.overlaps v.stack = .ok false) ∧
        ∃ k₂, (k₁.perform (.destroy c)).result = .ok (.done, k₂) ∧ k.RollsBack k₂ ∧
          ∃ threads, (k.machine.threads.issue c.slot.toNat).result = .ok (c, threads) ∧
            k₂ = { k with
              slots := { k.slots with next := (c.slot.toNat + 1) % k.slots.capacity }
              machine := { k.machine with threads } }) ∧
    (∀ c u pid p, k.thread? c = some u → k.processes.get? pid = some p →
      k.Adopts c u pid p (k.attached c u pid p) ∧
      (k.perform (.attach c pid)).result = if u.isUnattachedClone = true
        then .ok (.done, k.attached c u pid p)
        else .error (.violation (.attachedNoClone c))) ∧
    (∀ c pid pid' p, .attach c pid ∈ calls → k.processes.get? pid' = some p →
      (k.perform (.attach c pid')).result = .error (.violation
        (if k.contains c = true then .attachedNoClone c else .attachedStale c))) ∧
    ∀ c u, k.thread? c = some u → u.state ≠ .exited →
      (u.isUnattachedClone = true → ∃ k', (k.perform (.destroy c)).result = .ok (.done, k') ∧
        k' = { k with
          pages := k'.pages
          slots := k'.slots
          machine := { k.machine with threads := k.machine.threads.erase c } }) ∧
      (u.isUnattachedClone = false →
        (k.perform (.destroy c)).result = .error (.violation (.destroyedInState c u.state))) := by
  have hnamed := named_boot hboot
  have hk := Managed.run harena hspan hcapacity hboot hmanaged hrun
  have hbound : k₀.machine.threads.capacity ≤ UInt32.size := by
    have hk₀ := Tenancy.boot hcapacity hboot
    exact hk₀.capacity ▸ hk₀.bound
  refine ⟨fun source c k₁ hcall hwraps₁ => ⟨?fresh, hk.clone_apart hcall⟩,
    fun c u pid p hu hp => ⟨.attached hu hp, ?attached⟩, fun c pid pid' p hmem hp => ?once,
    fun c u hu hstate => ⟨fun hclone => ?destroyed, perform_destroy_refused hu hstate⟩⟩
  case fresh =>
    obtain ⟨-, hissued, hsame⟩ := made_nodup hnamed hbound hrun hwraps
    have htransition := perform_transition hk.accounts.named hcall
    exact fun hmem => (htransition.fresh (hsame ▸ hbound) hwraps₁).1 (hissued c hmem)
  case attached =>
    split
    case isTrue hclone => exact hk.placed.perform_attach hk.enrolled hu hclone hp
    case isFalse hclone =>
      have hrefused : k.Unattachable c := by
        intro t ht
        cases hu.symm.trans ht
        exact Bool.not_eq_true _ ▸ hclone
      rw [perform_attach_refused hp hrefused, if_pos (contains_iff.mpr ⟨u, hu⟩)]
  case once =>
    exact perform_attach_refused hp (unattachable_run hnamed hbound hrun hwraps hmem).2
  case destroyed =>
    obtain ⟨k', hdestroy⟩ := hk.destroy_returns.mpr ⟨u, hu, .inr hclone⟩
    obtain ⟨v, hv, -, -, hk'⟩ := destroy_frame hdestroy
    cases hu.symm.trans hv
    obtain ⟨-, hfree⟩ := Bool.and_eq_true_iff.mp hclone
    rw [Option.isNone_iff_eq_none.mp hfree] at hk'
    exact ⟨k', done_eq_ok.mpr ⟨hdestroy, rfl⟩, hk'⟩

/-- The thread that runs on processor 0 is cloned, and the clone destroyed at once. -/
theorem clone_laws_small : ∃ k k₁ k₂, small.run [.newProcess .zero .running,
      .create 1 ⟨"first"⟩ 0 0, .dispatch 0] = .ok k ∧
    (k.perform (.clone ⟨0, 1⟩)).result = .ok (.made (.ok ⟨1, 1⟩), k₁) ∧ k₁.Detached ⟨1, 1⟩ ∧
    (k₁.perform (.destroy ⟨1, 1⟩)).result = .ok (.done, k₂) ∧ k.RollsBack k₂ ∧
    k₂.pages = k.pages := by
  obtain ⟨k, hrun, hmade⟩ := run_observe small
    [.newProcess .zero .running, .create 1 ⟨"first"⟩ 0 0, .dispatch 0]
    (fun k => (k.perform (.clone ⟨0, 1⟩)).result.toOption.map (·.1.made?))
    (a := some (some ⟨1, 1⟩)) (by decide +kernel)
  obtain ⟨⟨reply, k₁⟩, hcall, hreply⟩ := observe_ok _ hmade
  cases made?_eq_some.mp hreply
  have hwraps : ¬ Occurs Wraps small ([.newProcess .zero .running, .create 1 ⟨"first"⟩ 0 0,
    .dispatch 0] ++ [.clone ⟨0, 1⟩]) := by decide +kernel
  obtain ⟨hearlier, hnow⟩ := not_occurs_concat hrun hcall hwraps
  obtain ⟨hclones, -⟩ := clone_laws Arena.new_small span_small (by decide) boot_small
    (by decide) hrun hearlier
  obtain ⟨-, t, u, -, -, -, -, -, -, hdetached, -, k₂, hdestroy, hback, threads, -, rfl⟩ :=
    hclones ⟨0, 1⟩ ⟨1, 1⟩ k₁ hcall hnow
  exact ⟨k, k₁, _, hrun, hcall, hdetached, hdestroy, hback, rfl⟩

end Kernel

end KernelThreads
