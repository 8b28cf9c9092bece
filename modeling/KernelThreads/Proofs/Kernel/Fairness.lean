import KernelThreads.Proofs.Kernel.Effects
import KernelThreads.Proofs.Kernel.Placement
import KernelThreads.Proofs.Scheduling.Order
import KernelThreads.Proofs.Scheduling.Totality

/-!
The run queue is fair. A switch takes the thread in front, no other call takes any, and
whoever comes goes to the end: with each switch a queued thread moves up by one place,
whatever happens in between.
-/
namespace KernelThreads

/-- Gives a processor to the next thread. A yield with nobody in the queue does not. -/
def Call.switches {n : Nat} : Call n → Reply → Bool
  | .dispatch _, _ => true
  | .yieldCpu _, .thread h? => h?.isSome
  | _, _ => false

namespace Kernel

variable {P O : Type} {n : Nat} {k₀ k k₁ k' : Kernel P O n} {call : Call n}
  {calls before after : List (Call n)} {reply : Reply} {h : Handle} {t u : Thread} {j : Nat}

/-- What a call makes of the run queue. -/
inductive Advances (k : Kernel P O n) (call : Call n) (reply : Reply) (k' : Kernel P O n) : Prop
  | queues (hcall : call.switches reply = false)
      (hrun : ∃ more, k'.machine.queues.run = k.machine.queues.run ++ more)
  | switches {i : Fin n} {h? : Option Handle} (hcall : call = .dispatch i ∨ call = .yieldCpu i)
      (hswitches : call.switches reply = true) (hreply : reply = .thread h?)
      (hfirst : h? = (k.machine.queues.run ++ (k.machine.cpu i).thread?.toList).head?)
      (hrest : k'.machine.queues.run =
        (k.machine.queues.run ++ (k.machine.cpu i).thread?.toList).tail)
      (hcpu : (k'.machine.cpu i).thread? = h?)

namespace Advances

theorem same (hcall : call.switches reply = false)
    (hrun : k'.machine.queues = k.machine.queues) : k.Advances call reply k' :=
  .queues hcall ⟨[], by rw [hrun, List.append_nil]⟩

theorem dispatch {m : Machine n} {i : Fin n} {h? : Option Handle} (hm : k.machine.Coherent)
    (hcall : call = .dispatch i ∨ call = .yieldCpu i)
    (hswitches : call.switches (.thread h?) = true)
    (hp : (k.machine.dispatch i).result = .ok (h?, m)) :
    k.Advances call (.thread h?) { k with machine := m } := by
  obtain ⟨-, hfirst, hrest, hcpu⟩ := hm.dispatch_order hp
  exact .switches hcall hswitches rfl hfirst hrest hcpu

end Advances

/-- With the queues of this library, who is made runnable comes last. -/
theorem Placed.makeRunnable {q : Queues} (hk : k.Placed)
    (hq : (k.hooks.makeRunnable k.machine.queues t).result = .ok (u, q)) :
    q = k.machine.queues.push u.id := by
  rw [hk.hooks] at hq
  exact (Queues.makeRunnable_eq_ok.mp hq).2.symm

theorem Effect.advances (hk : k.Placed) (heffect : k.Effect call reply k') :
    k.Advances call reply k' := by
  cases heffect with
  | scheduled hm =>
    cases hm with
    | dispatched hp => exact .dispatch hk.machine (.inl rfl) rfl hp
    | yielded hp =>
      rcases hk.machine.yieldCpu_order hp with ⟨rfl, rfl⟩ | ⟨hsome, hp⟩
      · exact .same rfl rfl
      · exact .dispatch hk.machine (.inr rfl) hsome hp
    | slept hp =>
      obtain ⟨t, ht, hp⟩ := Machine.sleep_eq_ok.mp hp
      exact .queues rfl ⟨[], (hk.machine.block_order ht hp).1.trans (List.append_nil _).symm⟩
    | dozed hp =>
      obtain ⟨t, ht, hrest⟩ := Machine.cancellableSleep_eq_ok.mp hp
      rcases hrest with ⟨-, -, rfl⟩ | ⟨-, -, hp⟩
      · exact .same rfl rfl
      · exact .queues rfl ⟨[], (hk.machine.block_order ht hp).1.trans (List.append_nil _).symm⟩
    | woke hp => exact .queues rfl (hk.machine.wakeup_order hp).1
    | wokeAll hp => exact .queues rfl (hk.machine.broadcast_order hp).1
    | opened => exact .queues rfl ⟨[], (List.append_nil _).symm⟩
  | founded directory phase => exact .same rfl rfl
  | dropped pid => exact .same rfl rfl
  | phased phase hp => exact .same rfl rfl
  | named name hp => exact .same rfl rfl
  | refused hcall hk' =>
    cases call with
    | create pid entry arg1 arg2 => exact .same rfl hk'.queues
    | clone source => exact .same rfl hk'.queues
    | _ => cases hcall
  | created hp haccepts hvacant hfree hcontext hq hk' =>
    rw [hk.makeRunnable hq] at hk'
    exact .queues rfl ⟨_, congrArg Queues.run hk'.queues⟩
  | cloned ht hstate hvacant hcontext hk' => exact .same rfl hk'.queues
  | attached hp ht hclone hplace hfree hq hk' =>
    rw [hk.makeRunnable hq] at hk'
    exact .queues rfl ⟨_, congrArg Queues.run hk'.queues⟩
  | destroyed ht hstate hlink hk' => exact .same rfl hk'.queues
  | ended hcall hcpu ht hlink hfinish hk' =>
    rcases hcall with rfl | rfl
    · exact .same rfl hk'.queues
    · exact .same rfl hk'.queues
  | @asked i target result t u q _ hcpu ht hstate hq hk' =>
    rw [hk.hooks] at hq
    obtain ⟨⟨more, hrun⟩, -⟩ := hk.machine.interrupt_order (v := t.requestCancel result) ht rfl rfl
      rfl hq
    exact .queues rfl ⟨more, by rw [hk'.queues, hrun]⟩
  | ignored htarget => exact .same rfl rfl
  | noted ht hk' => exact .same rfl hk'.queues
  | loaded ht hk' => exact .same rfl hk'.queues
  | missed hcall hgone =>
    rcases hcall with ⟨errno, rfl⟩ | ⟨registers, rfl⟩
    · exact .same rfl rfl
    · exact .same rfl rfl

/-- How many times a run has switched threads. -/
def switches [PageSource P] [SlotSource O] (k : Kernel P O n) (calls : List (Call n)) : Nat :=
  count (fun _ call reply => call.switches reply) k calls

/-- A call leaves a queued thread where it is, or switches. A switch takes the first one,
and lets every other move up. -/
theorem Advances.position (hk : k.Advances call reply k')
    (hat : k.machine.queues.run[j]? = some h) :
    (call.switches reply = false ∧ k'.machine.queues.run[j]? = some h) ∨
      call.switches reply = true ∧
        ((∃ j', j = j' + 1 ∧ k'.machine.queues.run[j']? = some h) ∨
          j = 0 ∧ reply = .thread (some h) ∧
            ∃ i, (call = .dispatch i ∨ call = .yieldCpu i) ∧
              (k'.machine.cpu i).thread? = some h) := by
  have hlt := (List.getElem?_eq_some_iff.mp hat).1
  cases hk with
  | queues hcall hrun =>
    obtain ⟨more, hrun⟩ := hrun
    exact .inl ⟨hcall, by rw [hrun, List.getElem?_append_left hlt, hat]⟩
  | @switches i h? hcall hswitches hreply hfirst hrest hcpu =>
    have hback : (k.machine.queues.run ++ (k.machine.cpu i).thread?.toList)[j]? = some h := by
      rw [List.getElem?_append_left hlt, hat]
    refine .inr ⟨hswitches, ?_⟩
    cases j with
    | zero =>
      rw [List.head?_eq_getElem?, hback] at hfirst
      subst hfirst
      exact .inr ⟨rfl, hreply, i, hcall, hcpu⟩
    | succ j => exact .inl ⟨j, rfl, by rw [hrest, List.getElem?_tail, hback]⟩

variable [PageSource P] [SlotSource O]

/-- In a run a queued thread moves up by as many places as there are switches. -/
theorem Placed.position_run (hk : k.Placed) (hmanaged : ∀ call ∈ calls, call.isManaged = true)
    (hrun : k.run calls = .ok k') (hat : k.machine.queues.run[j]? = some h)
    (hfew : k.switches calls ≤ j) : k'.machine.queues.run[j - k.switches calls]? = some h := by
  induction hrun, hmanaged using managed_induction with
  | start => exact hat
  | call k₁ calls call reply k' hbefore hearlier hnext hcall ih =>
    have hk₁ := hk.run hearlier hbefore
    have heffect := perform_effect hk₁.machine.named hnext hcall
    have hcount : k.switches (calls ++ [call]) =
        k.switches calls + if call.switches reply = true then 1 else 0 :=
      count_concat hbefore hcall
    have hat₁ := ih (by omega)
    rcases (heffect.advances hk₁).position hat₁ with ⟨hkept, hat'⟩ | ⟨hswitched, hmoves⟩
    · rw [hcount, hkept]
      exact hat'
    · rw [hswitched, if_pos rfl] at hcount
      rcases hmoves with ⟨j', hj', hat'⟩ | ⟨hfront, -⟩
      · rw [hcount, Nat.sub_add_eq, hj', Nat.add_sub_cancel]
        exact hat'
      · omega

theorem Placed.dispatch_moves (hk : k.Placed) (i : Fin n)
    (hat : k.machine.queues.run[j]? = some h) :
    ∃ reply k₁, (k.perform (.dispatch i)).result = .ok (reply, k₁) ∧ k₁.Placed ∧
      ((∃ j', j = j' + 1 ∧ k₁.machine.queues.run[j']? = some h) ∨
        j = 0 ∧ (k₁.machine.cpu i).thread? = some h) := by
  obtain ⟨h?, m, hm⟩ := hk.machine.dispatch_ok i
  have hcall : (k.perform (.dispatch i)).result = .ok (.thread h?, { k with machine := m }) :=
    onMachine_eq_ok.mpr ⟨h?, m, hm, rfl, rfl⟩
  have heffect := perform_effect hk.machine.named rfl hcall
  refine ⟨_, _, hcall, hk.perform rfl hcall, ?_⟩
  rcases (heffect.advances hk).position hat with ⟨hkept, -⟩ | ⟨-, hmoves⟩
  · cases hkept
  · refine hmoves.imp_right ?_
    rintro ⟨hfront, -, i', hi | hi, hcpu⟩
    · cases hi
      exact ⟨hfront, hcpu⟩
    · cases hi

/-- Whoever is in the run queue gets a processor by dispatches alone. -/
theorem Placed.dispatched (hk : k.Placed) (i : Fin n)
    (hat : k.machine.queues.run[j]? = some h) :
    ∃ k', k.run (List.replicate (j + 1) (.dispatch i)) = .ok k' ∧
      (k'.machine.cpu i).thread? = some h := by
  induction j generalizing k with
  | zero =>
    obtain ⟨reply, k₁, hcall, hk₁, hmoves⟩ := hk.dispatch_moves i hat
    rcases hmoves with ⟨j', hj', -⟩ | ⟨-, hcpu⟩
    · cases hj'
    · exact ⟨k₁, run_cons_eq_ok.mpr ⟨reply, k₁, hcall, rfl⟩, hcpu⟩
  | succ j ih =>
    obtain ⟨reply, k₁, hcall, hk₁, hmoves⟩ := hk.dispatch_moves i hat
    rcases hmoves with ⟨j', hj', hat'⟩ | ⟨hfront, -⟩
    · cases hj'
      obtain ⟨k', hrun, hcpu⟩ := ih hk₁ hat'
      exact ⟨k', run_cons_eq_ok.mpr ⟨reply, k₁, hcall, hrun⟩, hcpu⟩
    · cases hfront

/-- A thread at place `j` of the run queue is at place `j - m` after `m` switches, and the
switch after `j` others takes it. A dispatch finds nobody only if nobody is queued and the
processor is idle. -/
theorem run_queue_fair {config : StackConfig} {pages : P} {slots : O} {ids : Vector UInt32 n}
    (hboot : (boot config pages slots ids).result = .ok k₀)
    (hmanaged : ∀ call ∈ before ++ after, call.isManaged = true)
    (hbefore : k₀.run before = .ok k₁) (hafter : k₁.run after = .ok k) :
    (∀ j h, k₁.machine.queues.run[j]? = some h →
      (k₁.switches after ≤ j → k.machine.queues.run[j - k₁.switches after]? = some h ∧
        k.machine.queues.run.Nodup ∧
          ∃ t, k.thread? h = some t ∧ t.state = .runnable ∧ t.link = .runQueue) ∧
      ∀ call reply k', call.isManaged = true → (k.perform call).result = .ok (reply, k') →
        k₁.switches after = j → call.switches reply = true →
          reply = .thread (some h) ∧
            ∃ i, (call = .dispatch i ∨ call = .yieldCpu i) ∧
              (k'.machine.cpu i).thread? = some h ∧
                ∃ t, k'.thread? h = some t ∧ t.link = .onCpu (k'.machine.cpu i).id) ∧
    ∀ i, ∃ h? k', (k.perform (.dispatch i)).result = .ok (.thread h?, k') ∧
      (h? = none ↔ (∀ h t, k.thread? h = some t → t.link ≠ .runQueue) ∧
        (k.machine.cpu i).thread? = none) := by
  obtain ⟨hearlier, hlater⟩ := List.forall_mem_append.mp hmanaged
  have hk₁ := (Placed.boot hboot).run hearlier hbefore
  have hk := hk₁.run hlater hafter
  refine ⟨fun j h hat => ⟨fun hfew => ?_, ?_⟩, fun i => ?_⟩
  · have hthere := hk₁.position_run hlater hafter hat hfew
    obtain ⟨t, ht, hlink⟩ := hk.machine.mem_run.mp (List.mem_of_getElem? hthere)
    exact ⟨hthere, hk.machine.run_nodup, t, ht, (hk.machine.sound h t ht).scheduled (.inl hlink),
      hlink⟩
  · intro call reply k' hnext hcall hcount hswitches
    have hfront := hk₁.position_run hlater hafter hat (Nat.le_of_eq hcount)
    rw [hcount, Nat.sub_self] at hfront
    have hadvances := (perform_effect hk.machine.named hnext hcall).advances hk
    rcases hadvances.position hfront with ⟨hkept, -⟩ | ⟨-, ⟨j', hj', -⟩ | ⟨-, hreply, i, hi, hcpu⟩⟩
    · rw [hswitches] at hkept
      cases hkept
    · cases hj'
    · obtain ⟨t, ht, hlink, -⟩ := (hk.perform hnext hcall).machine.running hcpu
      exact ⟨hreply, i, hi, hcpu, t, ht, hlink⟩
  · obtain ⟨h?, m, hm⟩ := hk.machine.dispatch_ok i
    refine ⟨h?, { k with machine := m }, onMachine_eq_ok.mpr ⟨h?, m, hm, rfl, rfl⟩, ?_⟩
    rw [(hk.machine.dispatch_order hm).2.1, List.head?_eq_none_iff, List.append_eq_nil_iff,
      Option.toList_eq_nil_iff]
    refine and_congr_left fun _ => ?_
    rw [List.eq_nil_iff_forall_not_mem]
    constructor
    · intro hempty g t ht hlink
      exact hempty g (hk.machine.mem_run.mpr ⟨t, ht, hlink⟩)
    · intro hnobody g hg
      obtain ⟨t, ht, hlink⟩ := hk.machine.mem_run.mp hg
      exact hnobody g t ht hlink

theorem run_queue_fair_small : ∃ k₁ k k', small.run [.newProcess .zero .running,
      .create 1 ⟨"first"⟩ 0 0, .create 1 ⟨"second"⟩ 0 0] = .ok k₁ ∧
    k₁.run [.cancel 1 ⟨1, 1⟩ 7, .dispatch 0, .newChannel] = .ok k ∧
    k.machine.queues.run[0]? = some ⟨1, 1⟩ ∧
    (k.perform (.dispatch 1)).result = .ok (.thread (some ⟨1, 1⟩), k') ∧
    (k'.machine.cpu 1).thread? = some ⟨1, 1⟩ := by
  obtain ⟨k₁, hbefore, hobserved⟩ := run_observe small
    [.newProcess .zero .running, .create 1 ⟨"first"⟩ 0 0, .create 1 ⟨"second"⟩ 0 0]
    (fun k => (k.machine.queues.run[1]?, k.switches [.cancel 1 ⟨1, 1⟩ 7, .dispatch 0, .newChannel]))
    (a := (some ⟨1, 1⟩, 1)) (by decide +kernel)
  obtain ⟨hat, hcount⟩ := Prod.mk.injEq .. ▸ hobserved
  obtain ⟨k, hrun, -⟩ := run_observe small
    ([.newProcess .zero .running, .create 1 ⟨"first"⟩ 0 0, .create 1 ⟨"second"⟩ 0 0] ++
      [.cancel 1 ⟨1, 1⟩ 7, .dispatch 0, .newChannel]) (fun _ => ()) (a := ()) (by decide +kernel)
  have hafter := run_rest hrun hbefore
  have hfair := run_queue_fair boot_small (by decide) hbefore hafter
  obtain ⟨hmoves, hnext⟩ := hfair.1 1 ⟨1, 1⟩ hat
  obtain ⟨hfront, -⟩ := hmoves (Nat.le_of_eq hcount)
  rw [hcount] at hfront
  obtain ⟨h?, k', hcall, -⟩ := hfair.2 1
  obtain ⟨hreply, i, hi, hcpu, -⟩ := hnext _ _ k' rfl hcall hcount rfl
  cases hreply
  rcases hi with hi | hi
  · cases hi
    exact ⟨k₁, k, k', hbefore, hafter, hfront, hcall, hcpu⟩
  · cases hi

end Kernel

end KernelThreads
