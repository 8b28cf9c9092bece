import KernelThreads.Proofs.Kernel.Effects
import KernelThreads.Proofs.Kernel.Placement
import KernelThreads.Proofs.Kernel.Processors
import KernelThreads.Proofs.Scheduling.Order

/-!
The life of a thread as an automaton. A call moves every thread along one edge at
most, and each edge tells which calls have the authority to move a thread along it:
off a processor, only a call on that processor.
-/
namespace KernelThreads

/-- Where a thread stands in its life. -/
def Thread.standing (t : Thread) : State × Link := (t.state, t.link)

/-- The moves from one standing to another. -/
inductive Edge where
  | attach
  | start (id : UInt32)
  | preempt (id : UInt32)
  | sleep (id : UInt32) (c : Channel) (cancellable : Bool)
  | wake (c : Channel) (cancellable : Bool)
  | finish (id : UInt32)

namespace Edge

def asleep (cancellable : Bool) : State :=
  if cancellable then .sleepingCancellable else .sleeping

def source : Edge → State × Link
  | .attach => (.runnable, .unlinked)
  | .start _ => (.runnable, .runQueue)
  | .preempt id | .sleep id _ _ | .finish id => (.runnable, .onCpu id)
  | .wake c cancellable => (asleep cancellable, .waitQueue c)

def target : Edge → State × Link
  | .attach | .preempt _ | .wake _ _ => (.runnable, .runQueue)
  | .start id => (.runnable, .onCpu id)
  | .sleep _ c cancellable => (asleep cancellable, .waitQueue c)
  | .finish _ => (.exited, .unlinked)

theorem asleep_inj : Function.Injective asleep := by
  decide

/-- An edge is told by its ends. -/
theorem eq_of_ends {e f : Edge} (hsource : e.source = f.source) (htarget : e.target = f.target) :
    e = f := by
  cases e <;> cases f <;> simp_all [source, target, asleep_inj.eq_iff]

/-- An exit is final. -/
theorem source_ne_exited (e : Edge) : e.source.1 ≠ .exited := by
  cases e with
  | wake c cancellable => cases cancellable <;> simp [source, asleep]
  | _ => simp [source]

variable {n : Nat}

/-- The calls that lead `h` along an edge, by the processors and the reply: `m` is the
machine before the call. A thread that is preempted and is next itself, goes nowhere. -/
inductive Opens (m : Machine n) (h : Handle) : Edge → Call n → Reply → Prop
  | attach (pid : ProcessId) : Opens m h .attach (.attach h pid) .done
  | dispatch {i : Fin n} : Opens m h (.start (m.cpu i).id) (.dispatch i) (.thread (some h))
  | yieldCpu {i : Fin n} : Opens m h (.start (m.cpu i).id) (.yieldCpu i) (.thread (some h))
  | preempt {i : Fin n} {h? : Option Handle} (hi : (m.cpu i).thread? = some h)
      (hnext : h? ≠ some h) : Opens m h (.preempt (m.cpu i).id) (.dispatch i) (.thread h?)
  | giveWay {i : Fin n} {next : Handle} (hi : (m.cpu i).thread? = some h) (hnext : next ≠ h) :
      Opens m h (.preempt (m.cpu i).id) (.yieldCpu i) (.thread (some next))
  | sleep {i : Fin n} {c : Channel} (hi : (m.cpu i).thread? = some h) :
      Opens m h (.sleep (m.cpu i).id c false) (.sleep i c) .done
  | doze {i : Fin n} {c : Channel} (hi : (m.cpu i).thread? = some h) :
      Opens m h (.sleep (m.cpu i).id c true) (.cancellableSleep i c) (.slept .blocked)
  | wakeup {c : Channel} {cancellable : Bool} :
      Opens m h (.wake c cancellable) (.wakeup c) (.thread (some h))
  | broadcast {c : Channel} {cancellable : Bool} {count : Nat} :
      Opens m h (.wake c cancellable) (.broadcast c) (.woken count)
  | cancel {i : Fin n} {c : Channel} {result : UInt64} :
      Opens m h (.wake c true) (.cancel i h result) (.handoff none)
  | exit {i : Fin n} {result : UInt64} {x : Handoff} (hi : (m.cpu i).thread? = some h) :
      Opens m h (.finish (m.cpu i).id) (.exit i result) (.handoff (some x))
  | cancelSelf {i : Fin n} {result : UInt64} {x : Handoff} (hi : (m.cpu i).thread? = some h) :
      Opens m h (.finish (m.cpu i).id) (.cancel i h result) (.handoff (some x))

end Edge

namespace Machine

variable {n : Nat} {m p : Machine n} {i : Fin n} {g h : Handle} {t u : Thread} {c : Channel}
  {h? : Option Handle} {call : Call n} {reply : Reply}

/-- A thread of `m` goes along the edge that the call opens to it, or stays for want of one. -/
def Follows (m : Machine n) (call : Call n) (reply : Reply) (h : Handle) (t u : Thread) : Prop :=
  (u.standing = t.standing ∧ ∀ e : Edge, e.Opens m h call reply → t.standing ≠ e.source) ∨
    ∃ e : Edge, e.Opens m h call reply ∧ t.standing = e.source ∧ u.standing = e.target

theorem Follows.still (hclosed : ∀ e : Edge, ¬ e.Opens m h call reply) :
    m.Follows call reply h t t :=
  .inl ⟨rfl, fun e hopens => absurd hopens (hclosed e)⟩

/-- Where `h` is replaced, `g` is as it was or is the one that is replaced. -/
theorem put_cases {w : Thread} (hw : m.threads.get? h = some w) (ht : m.threads.get? g = some t)
    (u : Thread) (q : Queues) : ∃ v, (m.put h u q).threads.get? g = some v ∧
      (h ≠ g ∧ v = t ∨ h = g ∧ t = w ∧ v = u) := by
  have hget := Registry.get?_set_live hw u g
  by_cases hg : h = g
  · subst hg
    cases ht.symm.trans hw
    exact ⟨u, hget.trans (if_pos rfl), .inr ⟨rfl, rfl, rfl⟩⟩
  · exact ⟨t, hget.trans ((if_neg hg).trans ht), .inl ⟨hg, rfl⟩⟩

namespace Coherent

theorem running_standing (hm : m.Coherent) (hi : (m.cpu i).thread? = some h) :
    ∃ t, m.threads.get? h = some t ∧ t.standing = (.runnable, .onCpu (m.cpu i).id) := by
  obtain ⟨t, ht, hlink, -⟩ := hm.running hi
  exact ⟨t, ht, congrArg₂ Prod.mk (hm.running_state hi ht) hlink⟩

/-- The thread that had the processor is in the run queue, and every other thread is as it was. -/
theorem preempt_standing (hm : m.Coherent) (hp : (m.preempt i).result = .ok p)
    (ht : m.threads.get? g = some t) : ∃ v, p.threads.get? g = some v ∧
      ((m.cpu i).thread? ≠ some g ∧ v = t ∨
        (m.cpu i).thread? = some g ∧ t.standing = (.runnable, .onCpu (m.cpu i).id) ∧
          v.standing = (.runnable, .runQueue)) := by
  rcases hm.preempt_cases hp with ⟨hidle, rfl⟩ | ⟨h, w, hi, hw, rfl⟩
  · exact ⟨t, ht, .inl ⟨by simp [hidle], rfl⟩⟩
  · have hstate := hm.running_state hi hw
    have hlink := hm.running_link hi hw
    obtain ⟨v, hv, ⟨hg, rfl⟩ | ⟨rfl, rfl, rfl⟩⟩ :=
      put_cases hw ht { w with link := .runQueue } (m.queues.push h)
    · exact ⟨v, hv, .inl ⟨by simp [hi, hg], rfl⟩⟩
    · exact ⟨_, hv, .inr ⟨hi, congrArg₂ Prod.mk hstate hlink, congrArg (·, _) hstate⟩⟩

/-- The thread that is returned has the processor, and every other thread is as it was. -/
theorem runNext_standing (hp : (m.runNext i).result = .ok (h?, p))
    (ht : m.threads.get? g = some t) : ∃ v, p.threads.get? g = some v ∧
      (h? ≠ some g ∧ v = t ∨ h? = some g ∧ t.standing = (.runnable, .runQueue) ∧
        v.standing = (.runnable, .onCpu (m.cpu i).id)) := by
  rcases runNext_eq_ok.mp hp with ⟨-, rfl, rfl⟩ | ⟨h, rest, w, v, -, hw, hv, rfl, rfl⟩
  · exact ⟨t, ht, .inl ⟨by simp, rfl⟩⟩
  · obtain ⟨⟨hstate, hlink⟩, rfl⟩ := Thread.startOn_eq_ok.mp hv
    obtain ⟨v, hv, ⟨hg, rfl⟩ | ⟨rfl, rfl, rfl⟩⟩ :=
      put_cases hw ht { w with link := .onCpu (m.cpu i).id } { m.queues with run := rest }
    · exact ⟨v, hv, .inl ⟨by simp [hg], rfl⟩⟩
    · exact ⟨_, hv, .inr ⟨rfl, congrArg₂ Prod.mk hstate hlink, congrArg (·, _) hstate⟩⟩

theorem preempt_id (hp : (m.preempt i).result = .ok p) (j : Fin n) :
    (p.cpu j).id = (m.cpu j).id := by
  have hclear (q : Machine n) : ((q.clearCpu i).cpu j).id = (q.cpu j).id := by
    rw [clearCpu, cpu_setCpu]
    split
    case isTrue hj => rw [hj, Cpu.clear]
    case isFalse => rfl
  rcases preempt_eq_ok.mp hp with ⟨-, rfl⟩ | ⟨h, -, ⟨-, rfl⟩ | ⟨w, v, q, -, -, -, rfl⟩⟩
  · rfl
  · exact hclear m
  · exact hclear (m.put h v q)

/-- The two halves of a dispatch, of which a thread may go through none, one or both. -/
theorem dispatch_standing (hm : m.Coherent) (hp : (m.dispatch i).result = .ok (h?, p))
    (ht : m.threads.get? g = some t) (hu : p.threads.get? g = some u) :
    (u.standing = t.standing ∧ ((m.cpu i).thread? = some g ↔ h? = some g)) ∨
      (h? = some g ∧ t.standing = (Edge.start (m.cpu i).id).source ∧
        u.standing = (Edge.start (m.cpu i).id).target) ∨
      (m.cpu i).thread? = some g ∧ h? ≠ some g ∧
        t.standing = (Edge.preempt (m.cpu i).id).source ∧
          u.standing = (Edge.preempt (m.cpu i).id).target := by
  obtain ⟨q, hq, hp⟩ := dispatch_eq_ok.mp hp
  obtain ⟨v, hv, hpreempted⟩ := hm.preempt_standing hq ht
  obtain ⟨w, hw, hstarted⟩ := runNext_standing hp hv
  cases hu.symm.trans hw
  rw [preempt_id hq i] at hstarted
  -- the second half may give the processor back to the thread that the first half took it from
  rcases hpreempted with ⟨hi, rfl⟩ | ⟨hi, hbefore, hbetween⟩
  · rcases hstarted with ⟨hnext, rfl⟩ | ⟨hnext, hbefore, hafter⟩
    · exact .inl ⟨rfl, iff_of_false hi hnext⟩
    · exact .inr (.inl ⟨hnext, hbefore, hafter⟩)
  · rcases hstarted with ⟨hnext, rfl⟩ | ⟨hnext, -, hafter⟩
    · exact .inr (.inr ⟨hi, hnext, hbefore, hbetween⟩)
    · exact .inl ⟨hafter.trans hbefore.symm, iff_of_true hi hnext⟩

theorem running_ne_queued (hm : m.Coherent) (hi : (m.cpu i).thread? = some g)
    (ht : m.threads.get? g = some t) (id : UInt32) : t.standing ≠ (Edge.start id).source := by
  obtain ⟨t', ht', hrunning⟩ := hm.running_standing hi
  cases ht.symm.trans ht'
  rw [hrunning]
  simp [Edge.source]

theorem dispatch_follows (hm : m.Coherent) (hp : (m.dispatch i).result = .ok (h?, p))
    (ht : m.threads.get? g = some t) (hu : p.threads.get? g = some u) :
    m.Follows (.dispatch i) (.thread h?) g t u := by
  rcases hm.dispatch_standing hp ht hu with
    ⟨hstays, hboth⟩ | ⟨rfl, hbefore, hafter⟩ | ⟨hi, hnext, hbefore, hafter⟩
  · refine .inl ⟨hstays, fun e hopens => ?_⟩
    cases hopens with
    | dispatch => exact hm.running_ne_queued (hboth.mpr rfl) ht _
    | preempt hi hnext => exact absurd (hboth.mp hi) hnext
  · exact .inr ⟨_, .dispatch, hbefore, hafter⟩
  · exact .inr ⟨_, .preempt hi hnext, hbefore, hafter⟩

/-- Who keeps the processor, goes nowhere. -/
theorem yieldCpu_follows (hm : m.Coherent) (hp : (m.yieldCpu i).result = .ok (h?, p))
    (ht : m.threads.get? g = some t) (hu : p.threads.get? g = some u) :
    m.Follows (.yieldCpu i) (.thread h?) g t u := by
  rcases hm.yieldCpu_order hp with ⟨rfl, rfl⟩ | ⟨hsome, hp⟩
  · cases ht.symm.trans hu
    exact .still fun e hopens => nomatch hopens
  · obtain ⟨next, rfl⟩ := Option.isSome_iff_exists.mp hsome
    rcases hm.dispatch_standing hp ht hu with
      ⟨hstays, hboth⟩ | ⟨hnext, hbefore, hafter⟩ | ⟨hi, hnext, hbefore, hafter⟩
    · refine .inl ⟨hstays, fun e hopens => ?_⟩
      cases hopens with
      | yieldCpu => exact hm.running_ne_queued (hboth.mpr rfl) ht _
      | giveWay hi hnext => exact absurd (Option.some.inj (hboth.mp hi)) hnext
    · cases hnext
      exact .inr ⟨_, .yieldCpu, hbefore, hafter⟩
    · exact .inr ⟨_, .giveWay hi fun hg => hnext (congrArg some hg), hbefore, hafter⟩

/-- Who blocks is the thread of the processor. -/
theorem block_follows {cancellable : Bool} (hm : m.Coherent) {w : Thread}
    (hw : (m.current i).result = .ok w) (hp : (m.block i w c cancellable).result = .ok p)
    (hopens : ∀ h, (m.cpu i).thread? = some h →
      (Edge.sleep (m.cpu i).id c cancellable).Opens m h call reply)
    (hcloses : ∀ h (e : Edge), e.Opens m h call reply → (m.cpu i).thread? = some h)
    (ht : m.threads.get? g = some t) (hu : p.threads.get? g = some u) :
    m.Follows call reply g t u := by
  obtain ⟨h, hi, hw⟩ := current_eq_ok.mp hw
  obtain ⟨v, q, hq, rfl⟩ := block_eq_ok.mp hp
  obtain ⟨hs, -, hblock, -⟩ := Queues.block_eq_ok.mp hq
  obtain ⟨-, rfl⟩ := Thread.block_eq_ok.mp hblock
  obtain ⟨w', hw', hbefore⟩ := hm.running_standing hi
  cases hw.symm.trans hw'
  have hid : w.id = h := hm.named.id_eq hw
  subst hid
  obtain ⟨v, hv, hcases⟩ := put_cases hw ht { w with
    state := if cancellable then .sleepingCancellable else .sleeping
    link := .waitQueue c } q
  cases hu.symm.trans hv
  rcases hcases with ⟨hg, rfl⟩ | ⟨rfl, rfl, rfl⟩
  · refine .still fun e he => hg (Option.some.inj ?_)
    exact hi.symm.trans (hcloses g e he)
  · exact .inr ⟨_, hopens _ hi, hbefore, rfl⟩

/-- Every waiter sleeps, in one of the two ways. -/
theorem asleep (hm : m.Coherent) (ht : m.threads.get? h = some t) (hlink : t.link = .waitQueue c) :
    ∃ cancellable, t.standing = (Edge.wake c cancellable).source := by
  have hsleeping := (hm.sound h t ht).waiting c hlink
  rw [Thread.standing, hlink]
  cases hstate : t.state with
  | sleeping => exact ⟨false, rfl⟩
  | sleepingCancellable => exact ⟨true, rfl⟩
  | runnable =>
    rw [hstate] at hsleeping
    cases hsleeping
  | exited =>
    rw [hstate] at hsleeping
    cases hsleeping

theorem wakeup_follows (hm : m.Coherent) (hp : (m.wakeup c).result = .ok (h?, p))
    (ht : m.threads.get? g = some t) (hu : p.threads.get? g = some u) :
    m.Follows (.wakeup c) (.thread h?) g t u := by
  obtain ⟨hs, hc, ⟨-, rfl, rfl⟩ | ⟨h, rest, rfl, rfl, hwoken⟩⟩ := wakeup_eq_ok.mp hp
  · cases ht.symm.trans hu
    exact .still fun e hopens => nomatch hopens
  · obtain ⟨w, v, q, hw, hq, rfl⟩ := wakeThread_eq_ok.mp hwoken
    obtain ⟨hwake, -⟩ := Queues.wake_eq_ok.mp hq
    obtain ⟨-, rfl⟩ := Thread.wake_eq_ok.mp hwake
    obtain ⟨v, hv, hcases⟩ := put_cases hw ht { w with state := .runnable, link := .runQueue } q
    cases hu.symm.trans hv
    rcases hcases with ⟨hg, rfl⟩ | ⟨rfl, rfl, rfl⟩
    · refine .still fun e hopens => ?_
      cases hopens
      exact hg rfl
    · obtain ⟨cancellable, hbefore⟩ := hm.asleep ht ((hm.waiter hc ht).mp List.mem_cons_self)
      exact .inr ⟨_, .wakeup, hbefore, rfl⟩

theorem broadcast_follows {count : Nat} (hm : m.Coherent)
    (hp : (m.broadcast c).result = .ok (count, p)) (ht : m.threads.get? g = some t)
    (hu : p.threads.get? g = some u) : m.Follows (.broadcast c) (.woken count) g t u := by
  obtain ⟨hs, hc, -, hwoken⟩ := broadcast_eq_ok.mp hp
  obtain ⟨-, -, hothers, hwoken⟩ :=
    wakeAll_order (m := { m with queues := m.queues.setWaiters c [] }) hm.named hwoken
  by_cases hg : g ∈ hs
  · obtain ⟨v, -, hv⟩ := hwoken g hg
    cases hu.symm.trans hv
    obtain ⟨cancellable, hbefore⟩ := hm.asleep ht ((hm.waiter hc ht).mp hg)
    exact .inr ⟨_, .broadcast, hbefore, rfl⟩
  · cases ht.symm.trans ((hothers g hg).symm.trans hu)
    refine .inl ⟨rfl, fun e hopens hsource => ?_⟩
    cases hopens
    exact hg ((hm.waiter hc ht).mpr (congrArg Prod.snd hsource))

theorem schedules_follows (hm : m.Coherent) (hp : m.Schedules call reply p)
    (ht : m.threads.get? g = some t) (hu : p.threads.get? g = some u) :
    m.Follows call reply g t u := by
  cases hp with
  | dispatched hp => exact hm.dispatch_follows hp ht hu
  | yielded hp => exact hm.yieldCpu_follows hp ht hu
  | slept hp =>
    obtain ⟨w, hw, hp⟩ := sleep_eq_ok.mp hp
    refine hm.block_follows hw hp (fun h hi => .sleep hi) (fun h e hopens => ?_) ht hu
    cases hopens with
    | sleep hi => exact hi
  | dozed hp =>
    obtain ⟨w, hw, ⟨-, rfl, rfl⟩ | ⟨-, rfl, hblock⟩⟩ := cancellableSleep_eq_ok.mp hp
    · cases ht.symm.trans hu
      exact .still fun e hopens => nomatch hopens
    · refine hm.block_follows hw hblock (fun h hi => .doze hi) (fun h e hopens => ?_) ht hu
      cases hopens with
      | doze hi => exact hi
  | woke hp => exact hm.wakeup_follows hp ht hu
  | wokeAll hp => exact hm.broadcast_follows hp ht hu
  | opened =>
    cases ht.symm.trans hu
    exact .still fun e hopens => nomatch hopens

end Coherent

end Machine

namespace Kernel

variable {P O : Type} {n : Nat} {k k' : Kernel P O n} {g h : Handle} {o : Option Thread}
  {q : Queues} {ps : Processes} {t u : Thread} {call : Call n} {reply : Reply}

/-- Only the thread that is changed has a way to go. -/
theorem Update.follows (hk : k.Update h o q ps k') (ht : k.thread? g = some t)
    (hu : k'.thread? g = some u)
    (hcloses : ∀ e : Edge, e.Opens k.machine g call reply → g = h)
    (hchanged : h = g → o = some u → k.machine.Follows call reply g t u) :
    k.machine.Follows call reply g t u := by
  have hget := (hk.thread? g).symm.trans hu
  by_cases hg : h = g
  · exact hchanged hg ((if_pos hg).symm.trans hget)
  · cases ht.symm.trans ((if_neg hg).symm.trans hget)
    exact .still fun e hopens => hg (hcloses e hopens).symm

theorem Update.vacant_follows (hk : k.Update h o q ps k') (hvacant : k.thread? h = none)
    (ht : k.thread? g = some t) (hu : k'.thread? g = some u)
    (hcloses : ∀ e : Edge, ¬ e.Opens k.machine g call reply) :
    k.machine.Follows call reply g t u := by
  apply hk.follows ht hu fun e hopens => absurd hopens (hcloses e)
  rintro rfl -
  cases hvacant.symm.trans ht

theorem Effect.follows (hk : k.Placed) (heffect : k.Effect call reply k')
    (ht : k.thread? g = some t) (hu : k'.thread? g = some u) :
    k.machine.Follows call reply g t u := by
  cases heffect with
  | scheduled hm => exact hk.machine.schedules_follows hm ht hu
  | founded directory phase =>
    cases ht.symm.trans hu
    exact .still fun e hopens => nomatch hopens
  | dropped pid =>
    cases ht.symm.trans hu
    exact .still fun e hopens => nomatch hopens
  | phased phase hp =>
    cases ht.symm.trans hu
    exact .still fun e hopens => nomatch hopens
  | named name hp =>
    cases ht.symm.trans hu
    exact .still fun e hopens => nomatch hopens
  | refused hcall hrests =>
    cases ht.symm.trans ((hrests.thread? g).symm.trans hu)
    exact .still fun e hopens => nomatch hopens
  | created hp haccepts hvacant hfree hcontext hq hk =>
    exact hk.vacant_follows hvacant ht hu fun e hopens => nomatch hopens
  | cloned hsource hstate hvacant hcontext hk =>
    exact hk.vacant_follows hvacant ht hu fun e hopens => nomatch hopens
  | attached hp hlive hclone hplace hfree hq hupdate =>
    refine hupdate.follows ht hu (fun e hopens => ?_) ?_
    · cases hopens
      rfl
    · rintro rfl hchanged
      cases hchanged
      cases ht.symm.trans hlive
      rw [hk.hooks] at hq
      obtain ⟨henqueue, -⟩ := Queues.makeRunnable_eq_ok.mp hq
      obtain ⟨-, -, rfl⟩ := Thread.enqueue_eq_ok.mp henqueue
      exact .inr ⟨.attach, .attach _, congrArg₂ Prod.mk hplace.1 hplace.2,
        congrArg (·, _) hplace.1⟩
  | destroyed hlive hstate hlink hk =>
    refine hk.follows ht hu (fun e hopens => nomatch hopens) ?_
    rintro - hchanged
    cases hchanged
  | @ended _ i h w v result x _ hcall hcpu hlive hlink hfinish hupdate =>
    have hopens :
        (Edge.finish (k.machine.cpu i).id).Opens k.machine h call (.handoff (some x)) := by
      rcases hcall with rfl | rfl
      · exact .exit hcpu
      · exact .cancelSelf hcpu
    refine hupdate.follows ht hu (fun e hopens => ?_) ?_
    · rcases hcall with rfl | rfl
      · cases hopens with
        | exit hi => exact Option.some.inj (hi.symm.trans hcpu)
      · cases hopens
        rfl
    · rintro rfl hchanged
      cases hchanged
      obtain ⟨-, rfl⟩ := Thread.finish_eq_ok.mp hfinish
      obtain ⟨t', ht', hbefore⟩ := hk.machine.running_standing hcpu
      cases ht.symm.trans ht'
      exact .inr ⟨_, hopens, hbefore, rfl⟩
  | asked hcpu hlive hstate hq hupdate =>
    refine hupdate.follows ht hu (fun e hopens => ?_) ?_
    · cases hopens
      rfl
    · rintro rfl hchanged
      cases hchanged
      cases ht.symm.trans hlive
      rw [hk.hooks] at hq
      rcases Queues.interrupt_eq_ok.mp hq with ⟨c, hs, hsleeping, hlink, -, hwake⟩ | ⟨hkept, rfl, -⟩
      · obtain ⟨hwake, -⟩ := Queues.wake_eq_ok.mp hwake
        obtain ⟨-, rfl⟩ := Thread.wake_eq_ok.mp hwake
        exact .inr ⟨.wake c true, .cancel, congrArg₂ Prod.mk hsleeping hlink, rfl⟩
      · refine .inl ⟨rfl, fun e hopens hsource => ?_⟩
        cases hopens with
        | @cancel _ c _ =>
          rcases hkept with hawake | hnowhere
          · exact hawake (congrArg Prod.fst hsource)
          · have hlink : t.link = .waitQueue c := congrArg Prod.snd hsource
            cases hnowhere.symm.trans (congrArg Link.channel? hlink)
  | ignored htarget =>
    cases ht.symm.trans hu
    refine .inl ⟨rfl, fun e hopens hsource => ?_⟩
    cases hopens
    exact Edge.source_ne_exited _ ((congrArg Prod.fst hsource).symm.trans (htarget t ht))
  | noted hlive hupdate =>
    refine hupdate.follows ht hu (fun e hopens => nomatch hopens) ?_
    rintro rfl hchanged
    cases hchanged
    cases ht.symm.trans hlive
    exact .inl ⟨rfl, fun e hopens => nomatch hopens⟩
  | loaded hlive hupdate =>
    refine hupdate.follows ht hu (fun e hopens => nomatch hopens) ?_
    rintro rfl hchanged
    cases hchanged
    cases ht.symm.trans hlive
    exact .inl ⟨rfl, fun e hopens => nomatch hopens⟩
  | missed hcall hgone =>
    cases ht.symm.trans hu
    exact .still fun e hopens => nomatch hopens

variable [PageSource P] [SlotSource O]

/-- In every state of a run, a call moves each thread that it does not destroy along the one
edge that it opens to the thread, and leaves it where it stands if it opens none. Threads
that have exited stay exited, and what runs on other processors stays there. -/
theorem moves_along_edges {config : StackConfig} {pages : P} {slots : O} {ids : Vector UInt32 n}
    {k₀ : Kernel P O n} {calls : List (Call n)}
    (hboot : (boot config pages slots ids).result = .ok k₀)
    (hmanaged : ∀ call ∈ calls, call.isManaged = true) (hrun : k₀.run calls = .ok k)
    (hnext : call.isManaged = true) (hcall : (k.perform call).result = .ok (reply, k')) :
    (∀ h t u, k.thread? h = some t → k'.thread? h = some u →
      ((u.standing = t.standing ∧
          ∀ e : Edge, e.Opens k.machine h call reply → t.standing ≠ e.source) ∨
        ∃! e : Edge, e.Opens k.machine h call reply ∧ t.standing = e.source ∧
          u.standing = e.target) ∧
      (t.state = .exited → u.standing = t.standing)) ∧
    ∀ j, call.processor? ≠ some j → k'.machine.cpu j = k.machine.cpu j ∧
      ∀ h, (k.machine.cpu j).thread? = some h → ∃ t u, k.thread? h = some t ∧
        k'.thread? h = some u ∧ u.standing = t.standing := by
  have hk := (Placed.boot hboot).run hmanaged hrun
  have hfollows {h : Handle} {t u : Thread} :
      k.thread? h = some t → k'.thread? h = some u → k.machine.Follows call reply h t u :=
    (perform_effect hk.machine.named hnext hcall).follows hk
  refine ⟨fun h t u ht hu => ⟨?_, fun hexited => ?_⟩, fun j hj => ?_⟩
  · rcases hfollows ht hu with hstays | ⟨e, hopens, hsource, htarget⟩
    · exact .inl hstays
    · refine .inr ⟨e, ⟨hopens, hsource, htarget⟩, fun f hf => ?_⟩
      obtain ⟨-, hsource', htarget'⟩ := hf
      exact Edge.eq_of_ends (hsource'.symm.trans hsource) (htarget'.symm.trans htarget)
  · rcases hfollows ht hu with ⟨hstays, -⟩ | ⟨e, -, hsource, -⟩
    · exact hstays
    · exact absurd (hexited.symm.trans (congrArg Prod.fst hsource)).symm e.source_ne_exited
  · have hcpu := perform_cpu hj hcall
    refine ⟨hcpu, fun h hi => ?_⟩
    obtain ⟨t, ht, hbefore⟩ := hk.machine.running_standing hi
    obtain ⟨u, hu, hafter⟩ := (hk.perform hnext hcall).machine.running_standing (hcpu ▸ hi)
    exact ⟨t, u, ht, hu, by rw [hafter, hbefore, hcpu]⟩

theorem moves_along_edges_small : ∃ k reply k',
    small.run [.newProcess .zero .running, .newChannel, .create 1 ⟨"idle"⟩ 0 0, .dispatch 0] =
      .ok k ∧
    (k.perform (.cancellableSleep 0 ⟨1⟩)).result = .ok (reply, k') ∧
    ∃ t u, k.thread? ⟨0, 1⟩ = some t ∧ k'.thread? ⟨0, 1⟩ = some u ∧
      ∃! e : Edge, e.Opens k.machine ⟨0, 1⟩ (.cancellableSleep 0 ⟨1⟩) reply ∧
        t.standing = e.source ∧ u.standing = e.target := by
  obtain ⟨k, hrun, hbefore⟩ := run_observe small
    [.newProcess .zero .running, .newChannel, .create 1 ⟨"idle"⟩ 0 0, .dispatch 0]
    (fun k => (k.thread? ⟨0, 1⟩).map (·.standing)) (a := some (.runnable, .onCpu 0))
    (by decide +kernel)
  obtain ⟨k', hall, hafter⟩ := run_observe small
    ([.newProcess .zero .running, .newChannel, .create 1 ⟨"idle"⟩ 0 0, .dispatch 0] ++
      [.cancellableSleep 0 ⟨1⟩])
    (fun k => (k.thread? ⟨0, 1⟩).map (·.standing))
    (a := some (.sleepingCancellable, .waitQueue ⟨1⟩)) (by decide +kernel)
  obtain ⟨k₁, reply, hrun₁, hcall⟩ := run_concat_eq_ok.mp hall
  cases hrun.symm.trans hrun₁
  obtain ⟨t, ht, hrunning⟩ := Option.map_eq_some_iff.mp hbefore
  obtain ⟨u, hu, hasleep⟩ := Option.map_eq_some_iff.mp hafter
  refine ⟨k, reply, k', hrun, hcall, t, u, ht, hu, ?_⟩
  rcases ((moves_along_edges boot_small (by decide) hrun rfl hcall).1 _ t u ht hu).1 with
    ⟨hstays, -⟩ | hmoves
  · rw [hrunning, hasleep] at hstays
    cases hstays
  · exact hmoves

end Kernel

end KernelThreads
