import KernelThreads.Proofs.Kernel.History
import KernelThreads.Proofs.Scheduling.Moves

/-!
Where the threads of a kernel stand. While all calls go through the scheduler and
the life cycle, and the process layer empties the processors of exited threads,
links, queues and processors agree in every state.
-/
namespace KernelThreads.Kernel

open Logged (bind_eq_ok pure_eq_ok)

variable {P O : Type} {n : Nat} {k k₁ k' : Kernel P O n} {h : Handle} {t u : Thread}
  {pid : ProcessId} {i : Fin n} {reply : Reply}

structure Placed (k : Kernel P O n) : Prop where
  hooks : k.hooks = .fifo
  clears : k.exitClearsCpu = true
  machine : k.machine.Coherent

namespace Placed

theorem onMachine {α : Type} {f : Machine n → Logged (α × Machine n)} {g : α → Reply}
    (hk : k.Placed) (hcall : (k.onMachine f g).result = .ok (reply, k'))
    (hf : ∀ a m, (f k.machine).result = .ok (a, m) → m.Coherent) : k'.Placed := by
  obtain ⟨a, m, hm, -, rfl⟩ := onMachine_eq_ok.mp hcall
  exact ⟨hk.hooks, hk.clears, hf a m hm⟩

/-- A thread with the same link, in the same process, may take the place of a thread. -/
theorem onThread {f : Thread → Logged Thread} (hk : k.Placed)
    (hcall : (k.onThread h f).result = .ok (reply, k'))
    (hf : ∀ t u, (f t).result = .ok u → u.id = t.id ∧ u.process = t.process ∧
      u.link = t.link ∧ u.state = t.state ∧ u.flags = t.flags) : k'.Placed := by
  apply hk.onMachine hcall
  intro b m hm
  rcases Machine.onThread_eq_ok.mp hm with ⟨-, -, rfl⟩ | ⟨t, u, q, ht, hu, -, rfl⟩
  · exact hk.machine
  · simp only [Logged.bind_eq_ok, Logged.pure_eq_ok, Prod.mk.injEq] at hu
    obtain ⟨v, hv, rfl, rfl⟩ := hu
    obtain ⟨hid, hprocess, hlink, hstate, hflags⟩ := hf t v hv
    have hsound := (hk.machine.sound h t ht).congr hstate hlink (congrArg Flags.cloned hflags)
    apply hk.machine.put ht hid hsound (.inl hprocess)
    intro j l _
    rw [Machine.held_put, hlink]

theorem house (hk : k.Placed) (hlink : t.link = .unlinked) (hstate : t.state = .runnable)
    (hhouse : (k.house t).result = .ok k') : k'.Placed := by
  obtain ⟨s, hinsert, rfl⟩ := house_eq_ok.mp hhouse
  refine ⟨hk.hooks, hk.clears, hk.machine.replace
    (Registry.named_insert hk.machine.named hinsert) fun h => ?_⟩
  rw [Registry.get?_insert hinsert]
  split
  case isTrue hid =>
    subst hid
    refine .inr ⟨fun u hu => ?_, fun u hu => ?_⟩
    · cases (house_vacant hhouse).symm.trans hu
    · cases hu
      exact ⟨hlink, .ofUnlinked hlink fun _ => hstate⟩
  case isFalse => exact .inl rfl

/-- A thread that stands nowhere goes to the back of the run queue. -/
theorem enlist (hk : k.Placed) (ht : k.thread? t.id = some u) (hlink : u.link = .unlinked)
    (hcloned : t.flags.cloned = false) (henlist : (k.enlist pid t).result = .ok k') :
    k'.Placed := by
  obtain ⟨p, v, q, -, -, hq, rfl⟩ := enlist_eq_ok.mp henlist
  rw [hk.hooks] at hq
  obtain ⟨henqueue, rfl⟩ := Queues.makeRunnable_eq_ok.mp hq
  obtain ⟨hstate, -, rfl⟩ := Thread.enqueue_eq_ok.mp henqueue
  refine ⟨hk.hooks, hk.clears, hk.machine.put ht ?_ ?_ (.inr hlink) fun j l hl => ?_⟩
  · exact (hk.machine.named.id_eq ht).symm
  · exact .ofScheduled (.inl rfl) hstate hcloned
  · rw [Machine.held_push, Machine.held_put, hlink, Machine.tally_unlinked t.id j hl, Nat.add_zero]

theorem attach (hk : k.Placed) (hattach : (k.attach h pid).result = .ok k') : k'.Placed := by
  obtain ⟨p, t, -, ht, -, ⟨-, hlink⟩, henlist⟩ := attach_eq_ok.mp hattach
  have hid : t.id = h := hk.machine.named.id_eq ht
  exact hk.enlist (u := t) (hid ▸ ht) hlink rfl henlist

theorem exit {result : UInt64} {x : Handoff} (hk : k.Placed)
    (hexit : (k.exit i result).result = .ok (x, k')) : k'.Placed := by
  obtain ⟨h, t, u, hi, ht, -, -, hfinish, -, rfl⟩ := exit_eq_ok.mp hexit
  obtain ⟨-, rfl⟩ := Thread.finish_eq_ok.mp hfinish
  refine ⟨hk.hooks, hk.clears, ?_⟩
  have hended := hk.machine.exit
    (u := { t with pending := some result, state := .exited, link := .unlinked })
    hi ht rfl rfl rfl rfl
  simpa only [ended, hk.clears, if_true] using hended

theorem cancel {target : Handle} {result : UInt64} {x? : Option Handoff} (hk : k.Placed)
    (hcancel : (k.cancel i target result).result = .ok (x?, k')) : k'.Placed := by
  rcases cancel_eq_ok.mp hcancel with ⟨-, x, hexit, -⟩ |
    ⟨-, -, ⟨-, rfl⟩ | ⟨t, ht, ⟨-, rfl⟩ | ⟨-, u, q, hu, rfl⟩⟩⟩
  · exact hk.exit hexit
  · exact hk
  · exact hk
  · rw [hk.hooks] at hu
    exact ⟨hk.hooks, hk.clears,
      hk.machine.interrupt (v := t.requestCancel result) ht rfl rfl rfl rfl rfl hu⟩

section Sources
variable [PageSource P] [SlotSource O] {call : Call n}

theorem reserve {r : Except Exhausted (Handle × Stack)} (hk : k.Placed)
    (hreserve : k.reserve.result = .ok (r, k')) : k'.Placed := by
  obtain ⟨s, hk', rfl | ⟨slot, h, hissue⟩⟩ := reserve_frame hreserve
  · rw [hk']
    exact ⟨hk.hooks, hk.clears, hk.machine⟩
  · rw [hk']
    exact ⟨hk.hooks, hk.clears, hk.machine.replace (Registry.named_issue hk.machine.named hissue)
      fun h => .inl (Registry.get?_issue hissue h)⟩

theorem create {entry : EntryPoint} {arg1 : Int64} {arg2 : UInt64} {r : Except Exhausted Handle}
    (hk : k.Placed) (hcreate : (k.create pid entry arg1 arg2).result = .ok (r, k')) :
    k'.Placed := by
  obtain ⟨p, -, -, ⟨e, hreserve, -⟩ |
    ⟨h, stack, context, k₁, k₂, hreserve, -, hhouse, henlist, -⟩⟩ := create_eq_ok.mp hcreate
  · exact hk.reserve hreserve
  · exact ((hk.reserve hreserve).house rfl rfl hhouse).enlist (house_thread hhouse) rfl rfl
      henlist

theorem clone {source : Handle} {r : Except Exhausted Handle} (hk : k.Placed)
    (hclone : (k.clone source).result = .ok (r, k')) : k'.Placed := by
  obtain ⟨t, -, -, ⟨e, hreserve, -⟩ | ⟨h, stack, context, k₁, hreserve, -, hhouse, -⟩⟩ :=
    clone_eq_ok.mp hclone
  · exact hk.reserve hreserve
  · exact (hk.reserve hreserve).house rfl rfl hhouse

theorem destroy (hk : k.Placed) (hdestroy : (k.destroy h).result = .ok k') : k'.Placed := by
  obtain ⟨t, ht, -, hlink, hk'⟩ := destroy_frame hdestroy
  rw [hk']
  refine ⟨hk.hooks, hk.clears, hk.machine.replace (Registry.named_erase hk.machine.named h)
    fun g => ?_⟩
  rw [Registry.get?_erase]
  split
  case isTrue hg =>
    subst hg
    refine .inr ⟨fun u hu => ?_, fun u hu => nomatch hu⟩
    cases ht.symm.trans hu
    exact hlink
  case isFalse => exact .inl rfl

/-- Every call that goes through the scheduler and the life cycle. -/
theorem perform (hk : k.Placed) (hmanaged : call.isManaged = true)
    (hcall : (k.perform call).result = .ok (reply, k')) : k'.Placed := by
  cases hmanaged using Call.managed_cases with
  | newProcess directory phase =>
    cases hcall
    exact ⟨hk.hooks, hk.clears, hk.machine⟩
  | dropProcess pid =>
    cases hcall
    exact ⟨hk.hooks, hk.clears, hk.machine⟩
  | setPhase pid phase =>
    obtain ⟨hstep, -⟩ := done_eq_ok.mp hcall
    obtain ⟨p, q, -, -, rfl⟩ := onProcess_eq_ok.mp hstep
    exact ⟨hk.hooks, hk.clears, hk.machine⟩
  | setName pid name =>
    obtain ⟨hstep, -⟩ := done_eq_ok.mp hcall
    obtain ⟨p, q, -, -, rfl⟩ := onProcess_eq_ok.mp hstep
    exact ⟨hk.hooks, hk.clears, hk.machine⟩
  | create pid entry arg1 arg2 =>
    obtain ⟨r, hcreate, -⟩ := (reply_eq_ok .made).mp hcall
    exact hk.create hcreate
  | clone source =>
    obtain ⟨r, hclone, -⟩ := (reply_eq_ok .made).mp hcall
    exact hk.clone hclone
  | attach h pid =>
    obtain ⟨hstep, -⟩ := done_eq_ok.mp hcall
    exact hk.attach hstep
  | destroy h =>
    obtain ⟨hstep, -⟩ := done_eq_ok.mp hcall
    exact hk.destroy hstep
  | cancel i target result =>
    obtain ⟨x?, hcancel, -⟩ := (reply_eq_ok .handoff).mp hcall
    exact hk.cancel hcancel
  | exit i result =>
    obtain ⟨x, hexit, -⟩ := (reply_eq_ok fun x => .handoff (some x)).mp hcall
    exact hk.exit hexit
  | dispatch i => exact hk.onMachine hcall fun h? m => hk.machine.dispatch
  | yieldCpu i => exact hk.onMachine hcall fun h? m => hk.machine.yieldCpu
  | sleep i c =>
    simp only [Kernel.perform, bind_eq_ok, pure_eq_ok, Prod.mk.injEq] at hcall
    obtain ⟨m, hsleep, -, rfl⟩ := hcall
    exact ⟨hk.hooks, hk.clears, hk.machine.sleep hsleep⟩
  | cancellableSleep i c => exact hk.onMachine hcall fun o m => hk.machine.cancellableSleep
  | wakeup c => exact hk.onMachine hcall fun h? m => hk.machine.wakeup
  | broadcast c => exact hk.onMachine hcall fun count m => hk.machine.broadcast
  | newChannel =>
    cases hcall
    exact ⟨hk.hooks, hk.clears, hk.machine.newChannel⟩
  | setErrno h errno =>
    apply hk.onThread hcall
    intro t u hu
    cases hu
    exact ⟨rfl, rfl, rfl, rfl, rfl⟩
  | loadRegisters h registers =>
    apply hk.onThread hcall
    intro t u hu
    cases hu
    exact ⟨rfl, rfl, rfl, rfl, rfl⟩

omit [PageSource P] in
theorem boot {config : StackConfig} {pages : P} {slots : O} {ids : Vector UInt32 n}
    (hboot : (Kernel.boot config pages slots ids).result = .ok k) : k.Placed := by
  obtain ⟨-, rfl⟩ := boot_eq_ok.mp hboot
  exact ⟨rfl, rfl, .idle _ ids⟩

theorem run {k₀ : Kernel P O n} {calls : List (Call n)} (hk : k₀.Placed)
    (hmanaged : ∀ call ∈ calls, call.isManaged = true) (hrun : k₀.run calls = .ok k) :
    k.Placed :=
  run_invariant hrun hk fun _ _ _ _ hmem hk hcall => hk.perform (hmanaged _ hmem) hcall

end Sources

end Placed

variable [PageSource P] [SlotSource O]

/-- In every state of a run, each live thread stands in the place that its link
names, once, and in no other. -/
theorem links_agree {config : StackConfig} {pages : P} {slots : O} {ids : Vector UInt32 n}
    {k₀ : Kernel P O n} {calls : List (Call n)}
    (hboot : (boot config pages slots ids).result = .ok k₀)
    (hmanaged : ∀ call ∈ calls, call.isManaged = true) (hrun : k₀.run calls = .ok k) :
    (k.machine.queues.run.Nodup ∧
      ∀ h, h ∈ k.machine.queues.run ↔ ∃ t, k.thread? h = some t ∧ t.link = .runQueue) ∧
    (∀ c hs, k.machine.queues.waiters? c = some hs → hs.Nodup ∧
      ∀ h, h ∈ hs ↔ ∃ t, k.thread? h = some t ∧ t.link = .waitQueue c) ∧
    (∀ h t c, k.thread? h = some t → t.link = .waitQueue c →
      (k.machine.queues.waiters? c).isSome = true ∧
        Occurs (fun _ call reply _ => call = .newChannel ∧ reply = .channel c) k₀ calls) ∧
    (∀ h t id, k.thread? h = some t → (t.link = .onCpu id ↔
      ∃ i, ((k.machine.cpu i).thread? = some h ∧ (k.machine.cpu i).id = id) ∧
        ∀ j, (k.machine.cpu j).thread? = some h → j = i)) ∧
    ∀ i h, (k.machine.cpu i).thread? = some h → ∃ t, k.thread? h = some t ∧
      t.link = .onCpu (k.machine.cpu i).id ∧ t.process = (k.machine.cpu i).process? := by
  have hk := ((Placed.boot hboot).run hmanaged hrun).machine
  refine ⟨⟨hk.run_nodup, fun h => hk.mem_run⟩, ?_, ?_, ?_, ?_⟩
  · exact fun c hs hc => ⟨hk.waiters_nodup hc, fun h => hk.mem_waiters hc⟩
  · intro h t c ht hlink
    have hopened := hk.waits_opened ht hlink
    exact ⟨hopened, (opened_iff hboot hrun c).mp hopened⟩
  · exact fun h t id ht => hk.onCpu_iff ht id
  · exact fun i h hi => hk.running hi

theorem links_agree_small : ∃ k, small.run [.newProcess .zero .running, .newChannel,
      .create 1 ⟨"idle"⟩ 0 0, .dispatch 0, .sleep 0 ⟨1⟩, .wakeup ⟨1⟩, .dispatch 1] = .ok k ∧
    ∃ t, k.thread? ⟨0, 1⟩ = some t ∧ t.link = .onCpu (k.machine.cpu 1).id ∧
      t.process = (k.machine.cpu 1).process? := by
  obtain ⟨k, hrun, hcpu⟩ := run_observe small
    [.newProcess .zero .running, .newChannel, .create 1 ⟨"idle"⟩ 0 0, .dispatch 0,
      .sleep 0 ⟨1⟩, .wakeup ⟨1⟩, .dispatch 1]
    (fun k => (k.machine.cpu 1).thread?) (a := some ⟨0, 1⟩) (by decide +kernel)
  exact ⟨k, hrun, (links_agree boot_small (by decide) hrun).2.2.2.2 1 ⟨0, 1⟩ hcpu⟩

end KernelThreads.Kernel
