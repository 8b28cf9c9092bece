import KernelThreads.Proofs.Kernel.Turns

/-!
The processors that a call leaves alone: all but the one that it is made on. What
waits on a channel or moves through a process touches none.
-/
namespace KernelThreads

open Logged (bind_eq_ok pure_eq_ok)

/-- The processor that the call is made on, of those that it is about. -/
def Call.processor? {n : Nat} : Call n → Option (Fin n)
  | .cancel i _ _ | .exit i _ | .dispatch i | .yieldCpu i | .sleep i _ | .cancellableSleep i _
  | .setRunning i _ _ | .clearRunning i => some i
  | .newProcess _ _ | .dropProcess _ | .setPhase _ _ | .setName _ _ | .addMember _ _
  | .removeMember _ _ | .create _ _ _ _ | .clone _ | .attach _ _ | .destroy _ | .wakeup _
  | .broadcast _ | .newChannel | .makeRunnable _ | .interrupt _ | .enqueue _ | .startOn _ _
  | .block _ _ _ | .wake _ | .setErrno _ _ | .loadRegisters _ _ => none

namespace Machine

variable {n : Nat} {m p : Machine n} {i j : Fin n} {h : Handle} {t : Thread} {c : Channel}
  {h? : Option Handle}

theorem cpu_congr (hcpus : p.cpus = m.cpus) (j : Fin n) : p.cpu j = m.cpu j := by
  rw [cpu, hcpus]
  rfl

theorem cpu_setCpu_ne (m : Machine n) (hj : i ≠ j) (x : Cpu) : (m.setCpu i x).cpu j = m.cpu j :=
  (cpu_setCpu m i j x).trans (if_neg hj)

theorem preempt_cpu (hj : i ≠ j) (hp : (m.preempt i).result = .ok p) : p.cpu j = m.cpu j := by
  rcases preempt_eq_ok.mp hp with ⟨-, rfl⟩ | ⟨h, -, ⟨-, rfl⟩ | ⟨t, u, q, -, -, -, rfl⟩⟩
  · rfl
  · exact cpu_setCpu_ne m hj _
  · exact cpu_setCpu_ne (m.put h u q) hj _

theorem dispatch_cpu (hj : i ≠ j) (hp : (m.dispatch i).result = .ok (h?, p)) :
    p.cpu j = m.cpu j := by
  obtain ⟨q, hq, hp⟩ := dispatch_eq_ok.mp hp
  rw [← preempt_cpu hj hq]
  rcases runNext_eq_ok.mp hp with ⟨-, -, rfl⟩ | ⟨h, rest, t, u, -, -, -, -, rfl⟩
  · rfl
  · exact cpu_setCpu_ne (q.put h u _) hj _

theorem yieldCpu_cpu (hj : i ≠ j) (hp : (m.yieldCpu i).result = .ok (h?, p)) :
    p.cpu j = m.cpu j := by
  obtain ⟨t, -, ⟨-, -, rfl⟩ | ⟨-, hp⟩⟩ := yieldCpu_eq_ok.mp hp
  · rfl
  · exact dispatch_cpu hj hp

theorem block_cpu {cancellable : Bool} (hj : i ≠ j)
    (hp : (m.block i t c cancellable).result = .ok p) : p.cpu j = m.cpu j := by
  obtain ⟨u, q, -, rfl⟩ := block_eq_ok.mp hp
  exact cpu_setCpu_ne (m.put u.id u q) hj _

theorem sleep_cpu (hj : i ≠ j) (hp : (m.sleep i c).result = .ok p) : p.cpu j = m.cpu j := by
  obtain ⟨t, -, hblock⟩ := sleep_eq_ok.mp hp
  exact block_cpu hj hblock

theorem cancellableSleep_cpu {o : SleepOutcome} (hj : i ≠ j)
    (hp : (m.cancellableSleep i c).result = .ok (o, p)) : p.cpu j = m.cpu j := by
  obtain ⟨t, -, ⟨-, -, rfl⟩ | ⟨-, -, hblock⟩⟩ := cancellableSleep_eq_ok.mp hp
  · rfl
  · exact block_cpu hj hblock

theorem wakeThread_cpus (hp : (m.wakeThread h).result = .ok p) : p.cpus = m.cpus := by
  obtain ⟨t, u, q, -, -, rfl⟩ := wakeThread_eq_ok.mp hp
  rfl

theorem wakeup_cpus (hp : (m.wakeup c).result = .ok (h?, p)) : p.cpus = m.cpus := by
  obtain ⟨hs, -, ⟨-, -, rfl⟩ | ⟨h, rest, -, -, hwoken⟩⟩ := wakeup_eq_ok.mp hp
  · rfl
  · exact (wakeThread_cpus hwoken).trans rfl

theorem wakeAll_cpus {hs : List Handle} (hp : (hs.foldlM wakeThread m).result = .ok p) :
    p.cpus = m.cpus := by
  induction hs generalizing m with
  | nil =>
    cases hp
    rfl
  | cons h hs ih =>
    obtain ⟨q, hq, hp⟩ := foldlM_wakeThread_cons.mp hp
    exact (ih hp).trans (wakeThread_cpus hq)

theorem broadcast_cpus {count : Nat} (hp : (m.broadcast c).result = .ok (count, p)) :
    p.cpus = m.cpus := by
  obtain ⟨hs, -, -, hwoken⟩ := broadcast_eq_ok.mp hp
  exact (wakeAll_cpus hwoken).trans rfl

theorem onThread_cpus {f : Queues → Thread → Logged (Thread × Queues)} {b : Bool}
    (hp : (m.onThread h f).result = .ok (b, p)) : p.cpus = m.cpus := by
  rcases onThread_eq_ok.mp hp with ⟨-, -, rfl⟩ | ⟨t, u, q, -, -, -, rfl⟩
  · rfl
  · rfl

end Machine

namespace Kernel

variable {P O : Type} {n : Nat} {k k' : Kernel P O n} {h : Handle} {t : Thread} {j : Fin n}
  {call : Call n} {reply : Reply}

theorem house_cpus (hhouse : (k.house t).result = .ok k') : k'.machine.cpus = k.machine.cpus := by
  obtain ⟨threads, -, rfl⟩ := house_eq_ok.mp hhouse
  rfl

theorem enlist_cpus {pid : ProcessId} (henlist : (k.enlist pid t).result = .ok k') :
    k'.machine.cpus = k.machine.cpus := by
  obtain ⟨p, u, q, -, -, -, rfl⟩ := enlist_eq_ok.mp henlist
  rfl

theorem exit_cpu {i : Fin n} {result : UInt64} {x : Handoff} (hj : i ≠ j)
    (hexit : (k.exit i result).result = .ok (x, k')) : k'.machine.cpu j = k.machine.cpu j := by
  obtain ⟨h, t, u, -, -, -, -, -, -, rfl⟩ := exit_eq_ok.mp hexit
  unfold ended
  cases k.exitClearsCpu with
  | true => exact Machine.cpu_setCpu_ne (k.machine.setThread h u) hj _
  | false => rfl

theorem cancel_cpu {i : Fin n} {target : Handle} {result : UInt64} {x? : Option Handoff}
    (hj : i ≠ j) (hcancel : (k.cancel i target result).result = .ok (x?, k')) :
    k'.machine.cpu j = k.machine.cpu j := by
  rcases cancel_eq_ok.mp hcancel with ⟨-, x, hexit, -⟩ |
    ⟨-, -, ⟨-, rfl⟩ | ⟨t, -, ⟨-, rfl⟩ | ⟨-, u, q, -, rfl⟩⟩⟩
  · exact exit_cpu hj hexit
  · rfl
  · rfl
  · rfl

theorem onMachine_cpu {α : Type} {f : Machine n → Logged (α × Machine n)} {a : α → Reply}
    (hcall : (k.onMachine f a).result = .ok (reply, k'))
    (hf : ∀ x m, (f k.machine).result = .ok (x, m) → m.cpu j = k.machine.cpu j) :
    k'.machine.cpu j = k.machine.cpu j := by
  obtain ⟨x, m, hm, -, rfl⟩ := onMachine_eq_ok.mp hcall
  exact hf x m hm

theorem onProcess_cpu {pid : ProcessId} {f : Process → Logged Process}
    (hcall : (done (k.onProcess pid f)).result = .ok (reply, k')) :
    k'.machine.cpu j = k.machine.cpu j := by
  obtain ⟨hstep, -⟩ := done_eq_ok.mp hcall
  obtain ⟨p, q, -, -, rfl⟩ := onProcess_eq_ok.mp hstep
  rfl

/-- A thread is changed, and no processor. -/
theorem onThread_cpu {f : Queues → Thread → Logged (Thread × Queues)}
    (hcall : (k.onMachine (·.onThread h f) .answer).result = .ok (reply, k')) :
    k'.machine.cpu j = k.machine.cpu j :=
  onMachine_cpu hcall fun _ _ hm => Machine.cpu_congr (Machine.onThread_cpus hm) j

section Sources
variable [PageSource P] [SlotSource O]

theorem reserve_cpus {r : Except Exhausted (Handle × Stack)}
    (hreserve : k.reserve.result = .ok (r, k')) : k'.machine.cpus = k.machine.cpus := by
  obtain ⟨threads, hk', -⟩ := reserve_frame hreserve
  rw [hk']

theorem create_cpus {pid : ProcessId} {entry : EntryPoint} {arg1 : Int64} {arg2 : UInt64}
    {r : Except Exhausted Handle} (hcreate : (k.create pid entry arg1 arg2).result = .ok (r, k')) :
    k'.machine.cpus = k.machine.cpus := by
  obtain ⟨p, -, -, ⟨e, hreserve, -⟩ |
    ⟨h, stack, context, k₁, k₂, hreserve, -, hhouse, henlist, -⟩⟩ := create_eq_ok.mp hcreate
  · exact reserve_cpus hreserve
  · exact (enlist_cpus henlist).trans ((house_cpus hhouse).trans (reserve_cpus hreserve))

theorem clone_cpus {source : Handle} {r : Except Exhausted Handle}
    (hclone : (k.clone source).result = .ok (r, k')) : k'.machine.cpus = k.machine.cpus := by
  obtain ⟨t, -, -, ⟨e, hreserve, -⟩ | ⟨h, stack, context, k₁, hreserve, -, hhouse, -⟩⟩ :=
    clone_eq_ok.mp hclone
  · exact reserve_cpus hreserve
  · exact (house_cpus hhouse).trans (reserve_cpus hreserve)

theorem destroy_cpus (hdestroy : (k.destroy h).result = .ok k') :
    k'.machine.cpus = k.machine.cpus := by
  obtain ⟨t, -, -, -, hk'⟩ := destroy_frame hdestroy
  rw [hk']

/-- A call changes the processor that it is made on, and no other. -/
theorem perform_cpu (hj : call.processor? ≠ some j)
    (hcall : (k.perform call).result = .ok (reply, k')) :
    k'.machine.cpu j = k.machine.cpu j := by
  have hne {i : Fin n} (hi : call.processor? = some i) : i ≠ j := by
    rintro rfl
    exact hj hi
  cases call with
  | newProcess directory phase =>
    cases hcall
    rfl
  | dropProcess pid =>
    cases hcall
    rfl
  | setPhase pid phase => exact onProcess_cpu hcall
  | setName pid name => exact onProcess_cpu hcall
  | addMember pid h => exact onProcess_cpu hcall
  | removeMember pid h =>
    simp only [Kernel.perform, bind_eq_ok, pure_eq_ok, Prod.mk.injEq] at hcall
    obtain ⟨p, -, -, rfl⟩ := hcall
    rfl
  | create pid entry arg1 arg2 =>
    obtain ⟨r, hcreate, -⟩ := (reply_eq_ok .made).mp hcall
    exact Machine.cpu_congr (create_cpus hcreate) j
  | clone source =>
    obtain ⟨r, hclone, -⟩ := (reply_eq_ok .made).mp hcall
    exact Machine.cpu_congr (clone_cpus hclone) j
  | attach h pid =>
    obtain ⟨hattach, -⟩ := done_eq_ok.mp hcall
    obtain ⟨p, t, -, -, -, -, henlist⟩ := attach_eq_ok.mp hattach
    exact Machine.cpu_congr (enlist_cpus henlist) j
  | destroy h =>
    obtain ⟨hdestroy, -⟩ := done_eq_ok.mp hcall
    exact Machine.cpu_congr (destroy_cpus hdestroy) j
  | cancel i target result =>
    obtain ⟨x?, hcancel, -⟩ := (reply_eq_ok .handoff).mp hcall
    exact cancel_cpu (hne rfl) hcancel
  | exit i result =>
    obtain ⟨x, hexit, -⟩ := (reply_eq_ok fun x => .handoff (some x)).mp hcall
    exact exit_cpu (hne rfl) hexit
  | dispatch i => exact onMachine_cpu hcall fun _ _ => Machine.dispatch_cpu (hne rfl)
  | yieldCpu i => exact onMachine_cpu hcall fun _ _ => Machine.yieldCpu_cpu (hne rfl)
  | sleep i c =>
    simp only [Kernel.perform, bind_eq_ok, pure_eq_ok, Prod.mk.injEq] at hcall
    obtain ⟨m, hm, -, rfl⟩ := hcall
    exact Machine.sleep_cpu (hne rfl) hm
  | cancellableSleep i c =>
    exact onMachine_cpu hcall fun _ _ => Machine.cancellableSleep_cpu (hne rfl)
  | wakeup c =>
    exact onMachine_cpu hcall fun _ _ hm => Machine.cpu_congr (Machine.wakeup_cpus hm) j
  | broadcast c =>
    exact onMachine_cpu hcall fun _ _ hm => Machine.cpu_congr (Machine.broadcast_cpus hm) j
  | newChannel =>
    cases hcall
    rfl
  | makeRunnable h => exact onThread_cpu hcall
  | interrupt h => exact onThread_cpu hcall
  | enqueue h => exact onThread_cpu hcall
  | startOn h cpu => exact onThread_cpu hcall
  | block h c cancellable => exact onThread_cpu hcall
  | wake h => exact onThread_cpu hcall
  | setErrno h errno => exact onThread_cpu hcall
  | loadRegisters h registers => exact onThread_cpu hcall
  | setRunning i h process =>
    cases hcall
    exact Machine.cpu_setCpu_ne k.machine (hne rfl) _
  | clearRunning i =>
    cases hcall
    exact Machine.cpu_setCpu_ne k.machine (hne rfl) _

end Sources

end Kernel

end KernelThreads
