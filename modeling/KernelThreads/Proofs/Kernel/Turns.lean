import KernelThreads.Proofs.Kernel.Steps
import KernelThreads.Proofs.Scheduling.Evolution

/-!
What one call does, thread by thread. Most calls let live threads move; a block
past the scheduler is told apart, since it asks nobody whether the thread may sleep.
-/
namespace KernelThreads

open Logged (bind_eq_ok pure_eq_ok)
open Relation (ReflTransGen)

variable {P O : Type} {n : Nat} {k k₁ k' : Kernel P O n} {h : Handle} {t u : Thread}
  {pid : ProcessId} {i : Fin n} {reply : Reply} {hooks : Hooks} {R : Thread → Thread → Prop}

namespace Hooks

theorem makeRunnable_shifts {q r : Queues} (hq : (hooks.makeRunnable q t).result = .ok (u, r)) :
    ReflTransGen Thread.Shift t u ∧ r.waiting.size = q.waiting.size := by
  cases hooks with
  | fifo =>
    obtain ⟨hshift, hsize⟩ := Machine.makeRunnable_shift hq
    exact ⟨.single hshift, hsize⟩
  | inert =>
    cases hq
    exact ⟨.refl, rfl⟩

theorem cancel_shifts {q r : Queues} (hq : (hooks.cancel q t).result = .ok (u, r)) :
    ReflTransGen Thread.Shift t u ∧ r.waiting.size = q.waiting.size := by
  cases hooks with
  | fifo => exact Machine.interrupt_shifts hq
  | inert =>
    cases hq
    exact ⟨.refl, rfl⟩

theorem makeRunnable_becomes {q r : Queues} (hq : (hooks.makeRunnable q t).result = .ok (u, r)) :
    t.Becomes u ∧ r.waiting.size = q.waiting.size :=
  (makeRunnable_shifts hq).imp_left Thread.becomes_of_shifts

theorem cancel_becomes {q r : Queues} (hq : (hooks.cancel q t).result = .ok (u, r)) :
    t.Becomes u ∧ r.waiting.size = q.waiting.size :=
  (cancel_shifts hq).imp_left Thread.becomes_of_shifts

end Hooks

/-- What becomes of a live thread under one lock, without an exit or a direct block.
`hooks` hears of every request and of every process that is joined. -/
inductive Thread.Move (hooks : Hooks) (t : Thread) : Thread → Prop
  | shift {u : Thread} (h : t.Shift u) : Move hooks t u
  | ask {u : Thread} {q r : Queues} (result : UInt64) (hstate : t.state ≠ .exited)
      (h : (hooks.cancel q (t.requestCancel result)).result = .ok (u, r)) : Move hooks t u
  | adopt {u : Thread} {q r : Queues} (pid : ProcessId) (context : Context)
      (hclone : t.isUnattachedClone = true) (hstate : t.state = .runnable)
      (hlink : t.link = .unlinked)
      (h : (hooks.makeRunnable q { t with
        process := some pid, flags := { t.flags with cloned := false }, context }).result =
          .ok (u, r)) : Move hooks t u
  | errno (errno : Int32) : Move hooks t { t with errno }
  | load (context : Context) : Move hooks t { t with context }

theorem Thread.Move.becomes (h : t.Move hooks u) : t.Becomes u := by
  cases h with
  | shift h => exact h.becomes
  | ask result hstate h =>
    exact (Step.request result hstate).becomes.trans (Hooks.cancel_becomes h).1
  | adopt pid context hclone hstate hlink h =>
    exact (Step.adopt pid context hclone hstate hlink).becomes.trans
      (Hooks.makeRunnable_becomes h).1
  | errno errno => exact (Step.errno errno).becomes
  | load context => exact (Step.load context).becomes

/-- Tells neither of a thread that was made or exited, nor of a new channel. -/
def Reply.isPlain : Reply → Bool
  | .made _ | .channel _ | .handoff (some _) => false
  | .done | .answer _ | .process _ | .thread _ | .handoff none | .slept _ | .woken _ => true

/-- Makes a thread, if memory lasts. -/
def Call.makesThread : Call n → Bool
  | .create _ _ _ _ | .clone _ => true
  | _ => false

/-- Makes a thread or destroys one. -/
def Call.isVital : Call n → Bool
  | .create _ _ _ _ | .clone _ | .destroy _ => true
  | _ => false

theorem Call.isVital_of_makesThread {call : Call n} (h : call.makesThread = true) :
    call.isVital = true := by
  cases call with
  | create pid entry arg1 arg2 => rfl
  | clone source => rfl
  | _ => cases h

namespace Kernel

theorem onMachine_eq_ok {α : Type} {f : Machine n → Logged (α × Machine n)} {g : α → Reply} :
    (k.onMachine f g).result = .ok (reply, k') ↔
      ∃ a m, (f k.machine).result = .ok (a, m) ∧ reply = g a ∧ k' = { k with machine := m } := by
  simp only [onMachine, bind_eq_ok, pure_eq_ok, Prod.exists, Prod.mk.injEq, @eq_comm _ reply,
    @eq_comm _ k']

theorem reply_eq_ok {α : Type} {x : Logged (α × Kernel P O n)} (f : α → Reply) :
    (x >>= fun a => pure (f a.1, a.2)).result = .ok (reply, k') ↔
      ∃ a, x.result = .ok (a, k') ∧ reply = f a := by
  simp only [bind_eq_ok, pure_eq_ok, Prod.exists, Prod.mk.injEq]
  constructor
  · rintro ⟨a, k₁, hx, rfl, rfl⟩
    exact ⟨a, hx, rfl⟩
  · rintro ⟨a, hx, rfl⟩
    exact ⟨a, k', hx, rfl, rfl⟩

theorem done_eq_ok {x : Logged (Kernel P O n)} :
    (done x).result = .ok (reply, k') ↔ x.result = .ok k' ∧ reply = .done := by
  simp only [done, bind_eq_ok, pure_eq_ok, Prod.mk.injEq]
  constructor
  · rintro ⟨k₁, hx, rfl, rfl⟩
    exact ⟨hx, rfl⟩
  · rintro ⟨hx, rfl⟩
    exact ⟨k', hx, rfl, rfl⟩

theorem onProcess_eq_ok {f : Process → Logged Process} :
    (k.onProcess pid f).result = .ok k' ↔
      ∃ p q, k.processes.get? pid = some p ∧ (f p).result = .ok q ∧
        k' = { k with processes := k.processes.set pid q } := by
  simp only [onProcess, bind_eq_ok, Processes.find_eq_ok, pure_eq_ok, exists_and_left,
    @eq_comm _ k']

/-- Nothing is taken or given back, nobody exits, and threads take steps of `R`. -/
structure Proceeds (R : Thread → Thread → Prop) (k k' : Kernel P O n) : Prop where
  config : k'.config = k.config
  hooks : k'.hooks = k.hooks
  exitClearsCpu : k'.exitClearsCpu = k.exitClearsCpu
  pages : k'.pages = k.pages
  slots : k'.slots = k.slots
  handoffs : k'.handoffs = k.handoffs
  machine : k.machine.Carries R k'.machine

namespace Proceeds

theorem ofMachine {m : Machine n} (hm : k.machine.Carries R m) (ps : Processes) :
    k.Proceeds R { k with machine := m, processes := ps } := ⟨rfl, rfl, rfl, rfl, rfl, rfl, hm⟩

theorem ofShifts {m : Machine n} (hm : k.machine.Carries Thread.Shift m) :
    k.Proceeds (Thread.Move hooks) { k with machine := m } :=
  .ofMachine (hm.mono fun _ _ hshift => .single (.shift hshift)) k.processes

theorem ofProcesses (k : Kernel P O n) (ps : Processes) :
    k.Proceeds R { k with processes := ps } := .ofMachine (.refl _) ps

theorem onMachine {α : Type} {f : Machine n → Logged (α × Machine n)} {g : α → Reply}
    (hk : (k.onMachine f g).result = .ok (reply, k'))
    (hf : ∀ a m, (f k.machine).result = .ok (a, m) → k.machine.Carries Thread.Shift m) :
    k.Proceeds (Thread.Move hooks) k' ∧ ∃ a, reply = g a := by
  obtain ⟨a, m, hm, rfl, rfl⟩ := onMachine_eq_ok.mp hk
  exact ⟨.ofShifts (hf a m hm), a, rfl⟩

theorem onProcess {f : Process → Logged Process} (hk : (k.onProcess pid f).result = .ok k') :
    k.Proceeds R k' := by
  obtain ⟨p, q, -, -, rfl⟩ := onProcess_eq_ok.mp hk
  exact .ofProcesses k _

theorem onThread {f : Thread → Logged Thread} (hk : (k.onThread h f).result = .ok (reply, k'))
    (hf : ∀ t u, (f t).result = .ok u → R t u) : k.Proceeds R k' ∧ ∃ b, reply = .answer b := by
  obtain ⟨b, m, hm, rfl, rfl⟩ := onMachine_eq_ok.mp hk
  refine ⟨.ofMachine (Machine.onThread_carries hm fun t u q hq => ?_) _, b, rfl⟩
  simp only [bind_eq_ok, pure_eq_ok, Prod.mk.injEq] at hq
  obtain ⟨v, hv, rfl, rfl⟩ := hq
  exact ⟨.single (hf t v hv), rfl⟩

theorem attach (hk : k.machine.threads.Named) (hattach : (k.attach h pid).result = .ok k') :
    k.Proceeds (Thread.Move k.hooks) k' := by
  obtain ⟨p, t, -, ht, hclone, ⟨hstate, hlink⟩, henlist⟩ := attach_eq_ok.mp hattach
  obtain ⟨p', u, q, -, -, hq, rfl⟩ := enlist_eq_ok.mp henlist
  have hlive : k.machine.threads.get? t.id = some t := by
    rw [hk.id_eq ht]
    exact ht
  exact .ofMachine (.put hlive (.single (.adopt pid _ hclone hstate hlink hq))
    (Hooks.makeRunnable_becomes hq).2) _

end Proceeds

variable [PageSource P] [SlotSource O] {call : Call n}

inductive Turn (k : Kernel P O n) : Call n → Reply → Kernel P O n → Prop
  | quiet {call : Call n} {reply : Reply} {k' : Kernel P O n} (hcall : call.isVital = false)
      (hk : k.Proceeds (Thread.Move k.hooks) k') (hreply : reply.isPlain = true) :
      Turn k call reply k'
  | blocked {h : Handle} {c : Channel} {cancellable b : Bool} {k' : Kernel P O n}
      (hk : k.Proceeds (fun t u => (t.block c cancellable).result = .ok u) k') :
      Turn k (.block h c cancellable) (.answer b) k'
  | opened : Turn k .newChannel (.channel k.machine.queues.newChannel.1)
      { k with machine := { k.machine with queues := k.machine.queues.newChannel.2 } }
  | refused {call : Call n} {e : Exhausted} {k' : Kernel P O n} (hcall : call.makesThread = true)
      (hreserve : k.reserve.result = .ok (.error e, k')) : Turn k call (.made (.error e)) k'
  | created {pid : ProcessId} {entry : EntryPoint} {arg1 : Int64} {arg2 : UInt64} {h : Handle}
      {stack : Stack} {context : Context} {k₁ k₂ k' : Kernel P O n}
      (hreserve : k.reserve.result = .ok (.ok (h, stack), k₁))
      (hhouse : (k₁.house { id := h, process := some pid, stack, context }).result = .ok k₂)
      (henlist : (k₂.enlist pid { id := h, process := some pid, stack, context }).result = .ok k') :
      Turn k (.create pid entry arg1 arg2) (.made (.ok h)) k'
  | cloned {source h : Handle} {t : Thread} {stack : Stack} {context : Context}
      {k₁ k' : Kernel P O n} (ht : k.thread? source = some t) (hstate : t.state = .runnable)
      (hreserve : k.reserve.result = .ok (.ok (h, stack), k₁))
      (hhouse : (k₁.house (t.copy h stack context)).result = .ok k') :
      Turn k (.clone source) (.made (.ok h)) k'
  | destroyed {h : Handle} {k' : Kernel P O n} (hdestroy : (k.destroy h).result = .ok k') :
      Turn k (.destroy h) .done k'
  | ended {call : Call n} {i : Fin n} {h : Handle} {result : UInt64} {x : Handoff}
      {k' : Kernel P O n} (hcall : call = .exit i result ∨ call = .cancel i h result)
      (hcpu : (k.machine.cpu i).thread? = some h)
      (hexit : (k.exit i result).result = .ok (x, k')) : Turn k call (.handoff (some x)) k'

theorem Turn.create {entry : EntryPoint} {arg1 : Int64} {arg2 : UInt64}
    {r : Except Exhausted Handle} (hcreate : (k.create pid entry arg1 arg2).result = .ok (r, k')) :
    k.Turn (.create pid entry arg1 arg2) (.made r) k' := by
  obtain ⟨p, -, -, ⟨e, hreserve, rfl⟩ |
    ⟨h, stack, context, k₁, k₂, hreserve, -, hhouse, henlist, rfl⟩⟩ := create_eq_ok.mp hcreate
  · exact .refused rfl hreserve
  · exact .created hreserve hhouse henlist

theorem Turn.clone {source : Handle} {r : Except Exhausted Handle}
    (hclone : (k.clone source).result = .ok (r, k')) : k.Turn (.clone source) (.made r) k' := by
  obtain ⟨t, ht, hstate, ⟨e, hreserve, rfl⟩ | ⟨h, stack, context, k₁, hreserve, -, hhouse, rfl⟩⟩ :=
    clone_eq_ok.mp hclone
  · exact .refused rfl hreserve
  · exact .cloned ht hstate hreserve hhouse

theorem Turn.cancel {target : Handle} {result : UInt64} {x? : Option Handoff}
    (h : (k.cancel i target result).result = .ok (x?, k')) :
    k.Turn (.cancel i target result) (.handoff x?) k' := by
  rcases cancel_eq_ok.mp h with ⟨hcpu, x, hexit, rfl⟩ |
    ⟨-, rfl, ⟨-, rfl⟩ | ⟨t, ht, ⟨-, rfl⟩ | ⟨hstate, u, q, hcancel, rfl⟩⟩⟩
  · exact .ended (.inr rfl) hcpu hexit
  · exact .quiet rfl (.ofProcesses k' _) rfl
  · exact .quiet rfl (.ofProcesses k' _) rfl
  · have hmove : t.Move k.hooks u := .ask result hstate hcancel
    exact .quiet rfl (.ofMachine (.put ht (.single hmove) (Hooks.cancel_becomes hcancel).2) _) rfl

/-- Every call that returns is one of the turns. -/
theorem perform_turn (hk : k.machine.threads.Named)
    (hcall : (k.perform call).result = .ok (reply, k')) : k.Turn call reply k' := by
  cases call with
  | newProcess directory phase =>
    cases hcall
    exact .quiet rfl (.ofProcesses k _) rfl
  | dropProcess pid =>
    cases hcall
    exact .quiet rfl (.ofProcesses k _) rfl
  | setPhase pid phase =>
    obtain ⟨hstep, rfl⟩ := done_eq_ok.mp hcall
    exact .quiet rfl (.onProcess hstep) rfl
  | setName pid name =>
    obtain ⟨hstep, rfl⟩ := done_eq_ok.mp hcall
    exact .quiet rfl (.onProcess hstep) rfl
  | addMember pid h =>
    obtain ⟨hstep, rfl⟩ := done_eq_ok.mp hcall
    exact .quiet rfl (.onProcess hstep) rfl
  | removeMember pid h =>
    simp only [perform, bind_eq_ok, pure_eq_ok, Prod.mk.injEq] at hcall
    obtain ⟨p, -, rfl, rfl⟩ := hcall
    exact .quiet rfl (.ofProcesses k _) rfl
  | create pid entry arg1 arg2 =>
    obtain ⟨r, hcreate, rfl⟩ := (reply_eq_ok .made).mp hcall
    exact .create hcreate
  | clone source =>
    obtain ⟨r, hclone, rfl⟩ := (reply_eq_ok .made).mp hcall
    exact .clone hclone
  | attach h pid =>
    obtain ⟨hstep, rfl⟩ := done_eq_ok.mp hcall
    exact .quiet rfl (.attach hk hstep) rfl
  | destroy h =>
    obtain ⟨hstep, rfl⟩ := done_eq_ok.mp hcall
    exact .destroyed hstep
  | cancel i target result =>
    obtain ⟨x?, hcancel, rfl⟩ := (reply_eq_ok .handoff).mp hcall
    exact .cancel hcancel
  | exit i result =>
    obtain ⟨x, hexit, rfl⟩ := (reply_eq_ok fun x => .handoff (some x)).mp hcall
    obtain ⟨h, -, -, hcpu, -⟩ := exit_eq_ok.mp hexit
    exact .ended (.inl rfl) hcpu hexit
  | dispatch i =>
    obtain ⟨hk, h?, rfl⟩ := Proceeds.onMachine hcall fun _ _ => Machine.dispatch_carries
    exact .quiet rfl hk rfl
  | yieldCpu i =>
    obtain ⟨hk, h?, rfl⟩ := Proceeds.onMachine hcall fun _ _ => Machine.yieldCpu_carries
    exact .quiet rfl hk rfl
  | sleep i c =>
    simp only [perform, bind_eq_ok, pure_eq_ok, Prod.mk.injEq] at hcall
    obtain ⟨m, hsleep, rfl, rfl⟩ := hcall
    exact .quiet rfl (.ofShifts (Machine.sleep_carries hk hsleep)) rfl
  | cancellableSleep i c =>
    obtain ⟨hk, o, rfl⟩ := Proceeds.onMachine hcall fun _ _ =>
      Machine.cancellableSleep_carries hk
    exact .quiet rfl hk rfl
  | wakeup c =>
    obtain ⟨hk, h?, rfl⟩ := Proceeds.onMachine hcall fun _ _ => Machine.wakeup_carries
    exact .quiet rfl hk rfl
  | broadcast c =>
    obtain ⟨hk, count, rfl⟩ := Proceeds.onMachine hcall fun _ _ => Machine.broadcast_carries
    exact .quiet rfl hk rfl
  | newChannel =>
    cases hcall
    exact .opened
  | makeRunnable h =>
    obtain ⟨hk, b, rfl⟩ := Proceeds.onMachine hcall fun _ _ hm =>
      Machine.onThread_carries hm fun t u q hq =>
        (Machine.makeRunnable_shift hq).imp_left .single
    exact .quiet rfl hk rfl
  | interrupt h =>
    obtain ⟨hk, b, rfl⟩ := Proceeds.onMachine hcall fun _ _ hm =>
      Machine.onThread_carries hm fun t u q => Machine.interrupt_shifts
    exact .quiet rfl hk rfl
  | enqueue h =>
    obtain ⟨hk, b, rfl⟩ := Proceeds.onThread (R := Thread.Move k.hooks) hcall
      fun t u hu => .shift (.enqueue hu)
    exact .quiet rfl hk rfl
  | startOn h cpu =>
    obtain ⟨hk, b, rfl⟩ := Proceeds.onThread (R := Thread.Move k.hooks) hcall
      fun t u hu => .shift (.start hu)
    exact .quiet rfl hk rfl
  | block h c cancellable =>
    obtain ⟨hk, b, rfl⟩ := Proceeds.onThread hcall fun t u hu => hu
    exact .blocked hk
  | wake h =>
    obtain ⟨hk, b, rfl⟩ := Proceeds.onThread (R := Thread.Move k.hooks) hcall
      fun t u hu => .shift (.wake hu)
    exact .quiet rfl hk rfl
  | setErrno h errno =>
    obtain ⟨hk, b, rfl⟩ := Proceeds.onThread (R := Thread.Move k.hooks) hcall fun t u hu => by
      cases hu
      exact .errno errno
    exact .quiet rfl hk rfl
  | loadRegisters h registers =>
    obtain ⟨hk, b, rfl⟩ := Proceeds.onThread (R := Thread.Move k.hooks) hcall fun t u hu => by
      cases hu
      exact .load _
    exact .quiet rfl hk rfl
  | setRunning i h process =>
    cases hcall
    have hrun : k.machine.Carries (Thread.Move k.hooks)
        (k.machine.setCpu i ((k.machine.cpu i).run h process)) :=
      (Machine.Carries.refl _).setCpu rfl
    exact .quiet rfl (.ofMachine hrun _) rfl
  | clearRunning i =>
    cases hcall
    exact .quiet rfl (.ofMachine ((Machine.Carries.refl _).clearCpu i) _) rfl

end Kernel

end KernelThreads
