import KernelThreads.Proofs.Kernel.Effects
import KernelThreads.Proofs.Kernel.Handles

/-!
Which result a thread is to end with. A request leaves a mark on its thread: that there
has been one, and its result. Nothing but a later request and the exit changes a mark, and a
clone is made with the mark of its source. So the mark of a thread tells of the last
request since the thread was made, whatever else has been called.
-/
namespace KernelThreads

open Logged (bind_eq_ok pure_eq_ok)
open Relation (ReflTransGen)

variable {n : Nat}

/-- The result with which the call asks `h` to end. -/
def Call.request? (h : Handle) : Call n → Option UInt64
  | .cancel _ target result => if target = h then some result else none
  | _ => none

/-- The result of the last of the calls that asks `h` to end. -/
def Call.lastRequest? (h : Handle) (calls : List (Call n)) : Option UInt64 :=
  (calls.filterMap (request? h)).getLast?

theorem Call.lastRequest?_concat (h : Handle) (calls : List (Call n)) (call : Call n) :
    lastRequest? h (calls ++ [call]) = (call.request? h).or (lastRequest? h calls) := by
  rw [lastRequest?, List.filterMap_append, List.getLast?_append]
  cases hrequest : call.request? h with
  | none => simp [hrequest, lastRequest?]
  | some result => simp [hrequest]

theorem Call.request?_eq_none {call : Call n} {h : Handle}
    (hother : ∀ i result, call ≠ .cancel i h result) : call.request? h = none := by
  cases call with
  | cancel i target result =>
    apply if_neg
    rintro rfl
    exact hother i result rfl
  | _ => rfl

namespace Thread
variable {t u v : Thread} {hooks : Hooks}

/-- Whether the thread has been asked to end, and its pending result. -/
def mark (t : Thread) : Bool × Option UInt64 := (t.flags.cancelRequested, t.pending)

/-- `u` has the mark of `t`, and has exited if `t` has. -/
structure Keeps (t u : Thread) : Prop where
  mark : u.mark = t.mark
  exited : t.state = .exited → u.state = .exited

theorem Keeps.refl (t : Thread) : t.Keeps t := ⟨rfl, fun ht => ht⟩

theorem Keeps.trans (htu : t.Keeps u) (huv : u.Keeps v) : t.Keeps v :=
  ⟨huv.mark.trans htu.mark, fun ht => huv.exited (htu.exited ht)⟩

theorem Keeps.ofSteps (h : ReflTransGen Keeps t u) : t.Keeps u := by
  induction h with
  | refl => exact .refl t
  | tail _ hkeeps ih => exact ih.trans hkeeps

theorem Step.keeps (h : t.Step u) (hmark : u.mark = t.mark) : t.Keeps u :=
  ⟨hmark, fun ht => (h.unmoved ht).state.trans ht⟩

theorem Shift.keeps (h : t.Shift u) : t.Keeps u := by
  refine h.step.keeps ?_
  cases h with
  | enqueue h => obtain ⟨-, -, rfl⟩ := enqueue_eq_ok.mp h; rfl
  | start h => obtain ⟨-, rfl⟩ := startOn_eq_ok.mp h; rfl
  | sleep h => obtain ⟨-, rfl⟩ := block_eq_ok.mp h; rfl
  | doze hfree h => obtain ⟨-, rfl⟩ := block_eq_ok.mp h; rfl
  | wake h => obtain ⟨-, rfl⟩ := wake_eq_ok.mp h; rfl

theorem Keeps.ofShifts (h : ReflTransGen Shift t u) : t.Keeps u :=
  .ofSteps (ReflTransGen.mono (fun _ _ => Shift.keeps) _ _ h)

theorem keeps_of_makeRunnable {q r : Queues} (hq : (hooks.makeRunnable q t).result = .ok (u, r)) :
    t.Keeps u := .ofShifts (Hooks.makeRunnable_shifts hq).1

/-- A pending result goes with a request, until the exit. -/
def Accordant (t : Thread) : Prop :=
  t.state ≠ .exited → (t.flags.cancelRequested = true ↔ t.pending.isSome = true)

theorem Keeps.accordant (h : t.Keeps u) (ht : t.Accordant) : u.Accordant := by
  intro hu
  obtain ⟨hflag, hpending⟩ := Prod.mk.inj h.mark
  rw [hflag, hpending]
  exact ht fun hexited => hu (h.exited hexited)

theorem Accordant.lasting : Lasting hooks Accordant where
  move t u hu ht := by
    cases hu with
    | shift hu => exact hu.keeps.accordant ht
    | ask result hstate hu =>
      have hasked : (t.requestCancel result).Accordant := fun _ => iff_of_true rfl rfl
      exact (Keeps.ofShifts (Hooks.cancel_shifts hu).1).accordant hasked
    | adopt pid context hclone hstate hlink hu =>
      exact (((Step.adopt pid context hclone hstate hlink).keeps rfl).trans
        (keeps_of_makeRunnable hu)).accordant ht
    | errno errno => exact ht
    | load context => exact ht
  created h pid stack context q r u hu := by
    refine (keeps_of_makeRunnable hu).accordant fun _ => ?_
    simp
  copied t h stack context hstate ht _ := ht (by rw [hstate]; decide)
  finished t u result hu _ hstate := by
    obtain ⟨-, rfl⟩ := finish_eq_ok.mp hu
    exact absurd rfl hstate

end Thread

namespace Kernel

variable {P O : Type} {k₀ k k₁ k' : Kernel P O n} {call : Call n} {calls : List (Call n)}
  {reply : Reply} {g h : Handle} {t u : Thread} {o : Option Thread} {q : Queues} {ps : Processes}

/-- The mark that a thread is made with. -/
inductive Inherits (k : Kernel P O n) : Call n → Bool × Option UInt64 → Prop
  | created {pid : ProcessId} {entry : EntryPoint} {arg1 : Int64} {arg2 : UInt64} :
      Inherits k (.create pid entry arg1 arg2) (false, none)
  | cloned {source : Handle} {t : Thread} (ht : k.thread? source = some t) :
      Inherits k (.clone source) t.mark

/-- Where the mark of the thread `u`, which `h` names after a call, comes from. -/
inductive Marked (k : Kernel P O n) (call : Call n) (reply : Reply) (h : Handle) (u : Thread) : Prop
  | born (hreply : reply = .made (.ok h)) (hmark : k.Inherits call u.mark)
  | kept {t : Thread} (hreply : reply ≠ .made (.ok h)) (ht : k.thread? h = some t)
      (hstate : t.state ≠ .exited)
      (hmark : u.mark = (call.request? h).elim t.mark fun result => (true, some result))

namespace Marked

theorem keeps (hreply : reply ≠ .made (.ok h)) (hother : call.request? h = none)
    (ht : k.thread? h = some t) (hkeeps : t.Keeps u) (hstate : u.state ≠ .exited) :
    k.Marked call reply h u := by
  refine .kept hreply ht (fun hexited => hstate (hkeeps.exited hexited)) ?_
  rw [hother]
  exact hkeeps.mark

theorem still (hreply : reply ≠ .made (.ok h)) (hother : call.request? h = none)
    (hu : k.thread? h = some u) (hstate : u.state ≠ .exited) : k.Marked call reply h u :=
  .keeps hreply hother hu (.refl u) hstate

theorem related (hreply : reply ≠ .made (.ok h)) (hother : call.request? h = none)
    (hthreads : k.machine.threads.Related Thread.Keeps k'.machine.threads)
    (hu : k'.thread? h = some u) (hstate : u.state ≠ .exited) : k.Marked call reply h u := by
  rcases Registry.rel_cases (hthreads.get? h) with ⟨-, hnone⟩ | ⟨t, u', ht, hu', hkeeps⟩
  · cases hnone.symm.trans hu
  · cases hu'.symm.trans hu
    exact .keeps hreply hother ht hkeeps hstate

/-- Where one thread is changed, the call is about that one. -/
theorem update (hk : k.Update g o q ps k') (hu : k'.thread? h = some u) (hstate : u.state ≠ .exited)
    (hothers : g ≠ h → reply ≠ .made (.ok h) ∧ call.request? h = none)
    (hchanged : g = h → o = some u → k.Marked call reply h u) : k.Marked call reply h u := by
  have hget := (hk.thread? h).symm.trans hu
  by_cases hg : g = h
  · exact hchanged hg ((if_pos hg).symm.trans hget)
  · obtain ⟨hreply, hother⟩ := hothers hg
    exact .still hreply hother ((if_neg hg).symm.trans hget) hstate

end Marked

theorem Effect.marked (hk : k.Effect call reply k') (hnamed : k.machine.threads.Named)
    (hu : k'.thread? h = some u) (hstate : u.state ≠ .exited) : k.Marked call reply h u := by
  cases hk with
  | scheduled hm =>
    have hthreads := (hm.related hnamed).mono fun _ _ => Thread.Keeps.ofShifts
    refine .related ?_ ?_ hthreads hu hstate
    · cases hm <;> simp
    · cases hm <;> rfl
  | founded directory phase => exact .still (by simp) rfl hu hstate
  | dropped pid => exact .still (by simp) rfl hu hstate
  | phased phase hp => exact .still (by simp) rfl hu hstate
  | named name hp => exact .still (by simp) rfl hu hstate
  | refused hcall hk =>
    refine .still (by simp) (Call.request?_eq_none ?_) ((hk.thread? h).symm.trans hu) hstate
    rintro i result rfl
    cases hcall
  | created hp haccepts hvacant hfree hcontext hq hk =>
    refine .update hk hu hstate (fun hg => ⟨by simpa using hg, rfl⟩) ?_
    rintro rfl hchanged
    cases hchanged
    refine .born rfl ?_
    rw [(Thread.keeps_of_makeRunnable hq).mark]
    exact .created
  | cloned ht hrunnable hvacant hcontext hk =>
    refine .update hk hu hstate (fun hg => ⟨by simpa using hg, rfl⟩) ?_
    rintro rfl hchanged
    cases hchanged
    have hmark : k.Inherits _ _ := .cloned ht
    exact .born rfl hmark
  | attached hp ht hclone hplace hfree hq hk =>
    refine .update hk hu hstate (fun _ => ⟨by simp, rfl⟩) ?_
    rintro rfl hchanged
    cases hchanged
    refine .kept (by simp) ht (by simp [hplace.1]) ?_
    exact (Thread.keeps_of_makeRunnable hq).mark
  | destroyed ht hended hlink hk =>
    refine .update hk hu hstate (fun _ => ⟨by simp, rfl⟩) ?_
    rintro - hchanged
    cases hchanged
  | @ended _ i g t v result x _ hcall hcpu ht hlink hfinish hk =>
    refine .update hk hu hstate (fun hg => ⟨by simp, ?_⟩) ?_
    · rcases hcall with rfl | rfl
      · rfl
      · exact if_neg hg
    · rintro - hchanged
      cases hchanged
      obtain ⟨-, rfl⟩ := Thread.finish_eq_ok.mp hfinish
      exact absurd rfl hstate
  | @asked i target result t v q _ hcpu ht halive hq hk =>
    refine .update hk hu hstate (fun hg => ⟨by simp, if_neg hg⟩) ?_
    rintro rfl hchanged
    cases hchanged
    refine .kept (by simp) ht halive ?_
    rw [Call.request?, if_pos rfl]
    exact (Thread.Keeps.ofShifts (Hooks.cancel_shifts hq).1).mark
  | @ignored i target result htarget =>
    refine .still (by simp) (Call.request?_eq_none ?_) hu hstate
    rintro j later hcall
    cases hcall
    exact hstate (htarget u hu)
  | noted ht hk =>
    refine .update hk hu hstate (fun _ => ⟨by simp, rfl⟩) ?_
    rintro rfl hchanged
    cases hchanged
    exact .keeps (by simp) rfl ht ((Thread.Step.errno _).keeps rfl) hstate
  | loaded ht hk =>
    refine .update hk hu hstate (fun _ => ⟨by simp, rfl⟩) ?_
    rintro rfl hchanged
    cases hchanged
    exact .keeps (by simp) rfl ht ((Thread.Step.load _).keeps rfl) hstate
  | missed hcall hgone =>
    refine .still (by simp) (Call.request?_eq_none ?_) hu hstate
    rintro i result rfl
    simp at hcall

/-- Past the scheduler no thread is asked to end, and none is made. -/
theorem keeps_of_unmanaged [PageSource P] [SlotSource O] (hunmanaged : call.isManaged = false)
    (hcall : (k.perform call).result = .ok (reply, k')) :
    k.Proceeds Thread.Keeps k' ∧ reply.isPlain = true ∧ call.request? h = none := by
  have honThread {g : Handle} {f : Thread → Logged Thread}
      (hstep : ∀ t u, (f t).result = .ok u → t.Keeps u)
      (hk : (k.onThread g f).result = .ok (reply, k')) :
      k.Proceeds Thread.Keeps k' ∧ reply.isPlain = true := by
    obtain ⟨hproceeds, b, rfl⟩ := Proceeds.onThread hk hstep
    exact ⟨hproceeds, rfl⟩
  have honQueues {g : Handle} {f : Queues → Thread → Logged (Thread × Queues)}
      (hstep : ∀ t u q r, (f q t).result = .ok (u, r) →
        ReflTransGen Thread.Shift t u ∧ r.waiting.size = q.waiting.size)
      (hk : (k.onMachine (·.onThread g f) .answer).result = .ok (reply, k')) :
      k.Proceeds Thread.Keeps k' ∧ reply.isPlain = true := by
    obtain ⟨b, m, hm, rfl, rfl⟩ := onMachine_eq_ok.mp hk
    have hcarries := Machine.onThread_carries hm fun t u q => hstep t u _ q
    exact ⟨.ofMachine (hcarries.mono fun _ _ hshift => .single hshift.keeps) _, rfl⟩
  cases call with
  | addMember pid h =>
    obtain ⟨hstep, rfl⟩ := done_eq_ok.mp hcall
    exact ⟨.onProcess hstep, rfl, rfl⟩
  | removeMember pid h =>
    simp only [perform, bind_eq_ok, pure_eq_ok, Prod.mk.injEq] at hcall
    obtain ⟨p, -, rfl, rfl⟩ := hcall
    exact ⟨.ofProcesses k _, rfl, rfl⟩
  | makeRunnable h =>
    obtain ⟨hk, hreply⟩ := honQueues
      (fun t u q r hq => (Machine.makeRunnable_shift hq).imp_left .single) hcall
    exact ⟨hk, hreply, rfl⟩
  | interrupt h =>
    obtain ⟨hk, hreply⟩ := honQueues (fun t u q r => Machine.interrupt_shifts) hcall
    exact ⟨hk, hreply, rfl⟩
  | enqueue h =>
    obtain ⟨hk, hreply⟩ := honThread (fun t u hu => (Thread.Shift.enqueue hu).keeps) hcall
    exact ⟨hk, hreply, rfl⟩
  | startOn h cpu =>
    obtain ⟨hk, hreply⟩ := honThread (fun t u hu => (Thread.Shift.start hu).keeps) hcall
    exact ⟨hk, hreply, rfl⟩
  | block h c cancellable =>
    obtain ⟨hk, hreply⟩ := honThread (fun t u hu => (Thread.Step.block hu).keeps <| by
      obtain ⟨-, rfl⟩ := Thread.block_eq_ok.mp hu
      rfl) hcall
    exact ⟨hk, hreply, rfl⟩
  | wake h =>
    obtain ⟨hk, hreply⟩ := honThread (fun t u hu => (Thread.Shift.wake hu).keeps) hcall
    exact ⟨hk, hreply, rfl⟩
  | setRunning i h process =>
    cases hcall
    have hrun : k.machine.Carries Thread.Keeps
        (k.machine.setCpu i ((k.machine.cpu i).run h process)) :=
      (Machine.Carries.refl _).setCpu rfl
    exact ⟨.ofMachine hrun _, rfl, rfl⟩
  | clearRunning i =>
    cases hcall
    exact ⟨.ofMachine ((Machine.Carries.refl _).clearCpu i) _, rfl, rfl⟩
  | _ => cases hunmanaged

variable [PageSource P] [SlotSource O]

/-- After any call, the mark of a live thread is that of the request made by the call, or
the one it had, or has been made with. -/
theorem perform_marked (hnamed : k.machine.threads.Named)
    (hcall : (k.perform call).result = .ok (reply, k')) (hu : k'.thread? h = some u)
    (hstate : u.state ≠ .exited) : k.Marked call reply h u := by
  cases hmanaged : call.isManaged with
  | true => exact (perform_effect hnamed hmanaged hcall).marked hnamed hu hstate
  | false =>
    obtain ⟨hproceeds, hplain, hother⟩ := keeps_of_unmanaged (h := h) hmanaged hcall
    refine .related ?_ hother (hproceeds.machine.threads.mono fun _ _ => Thread.Keeps.ofSteps)
      hu hstate
    rintro rfl
    cases hplain

/-- A thread keeps the mark of the last request to it since it was made, and without one
the mark it was made with. -/
theorem mark_run (hnamed : k₀.machine.threads.Named) (hfresh : ∀ h, k₀.thread? h = none)
    (hrun : k₀.run calls = .ok k) (ht : k.thread? h = some t) (hstate : t.state ≠ .exited) :
    ∃ before call after k₁ k₂ mark, calls = before ++ call :: after ∧
      k₀.run before = .ok k₁ ∧ (k₁.perform call).result = .ok (.made (.ok h), k₂) ∧
        h ∉ made k₂ after ∧ k₁.Inherits call mark ∧
          t.mark = (Call.lastRequest? h after).elim mark fun result => (true, some result) := by
  induction hrun using run_induction generalizing t with
  | start => cases (hfresh h).symm.trans ht
  | call k calls call reply k' hbefore hcall ih =>
    rcases perform_marked (named_run hnamed hbefore) hcall ht hstate with
      ⟨rfl, hmark⟩ | ⟨hreply, hs, hgoing, hmark⟩
    · -- the history of a new thread begins with this call
      exact ⟨calls, call, [], k, k', t.mark, rfl, hbefore, hcall, List.not_mem_nil, hmark, rfl⟩
    · obtain ⟨before, maker, after, k₁, k₂, mark, rfl, hk₁, hmade, honce, hinherits, hs⟩ :=
        ih hs hgoing
      have hrest : k₂.run after = .ok k := run_tail (run_rest hbefore hk₁) hmade
      refine ⟨before, maker, after ++ [call], k₁, k₂, mark, by simp, hk₁, hmade, ?_, hinherits, ?_⟩
      · rw [made, gather_concat hrest hcall, List.mem_append, not_or]
        refine ⟨honce, fun hmem => hreply (made?_eq_some.mp ?_)⟩
        simpa using hmem
      · rw [hmark, hs, Call.lastRequest?_concat]
        cases call.request? h <;> rfl

/-- Who exits is handed over, and ends with the result of that. -/
theorem Transition.exits (hk : k.Transition call reply k') (ht : k.thread? h = some t)
    (hstate : t.state ≠ .exited) (hu : k'.thread? h = some u) (hexited : u.state = .exited) :
    ∃ x i, HandsOver x k call reply k' i t ∧ x.thread = h := by
  have hgoes (hbecomes : t.Becomes u) : False := hstate (hbecomes.exited hexited)
  cases hk with
  | quiet hcontinues hreply =>
    obtain ⟨v, hv, hbecomes⟩ := hcontinues.machine.thread ht
    cases hu.symm.trans hv
    exact absurd hbecomes hgoes
  | opened =>
    cases ht.symm.trans hu
    exact absurd hexited hstate
  | refused hreserve =>
    cases ht.symm.trans ((reserve_thread? hreserve h).symm.trans hu)
    exact absurd hexited hstate
  | @made _ v k₁ k₂ _ hreserve hfresh hlink hhouse hrest =>
    have hother : v.id ≠ h := by
      rintro rfl
      cases (house_vacant hhouse).symm.trans ((reserve_thread? hreserve v.id).trans ht)
    have hhoused : k₂.thread? h = some t := by
      rw [house_thread? hhouse, if_neg hother, reserve_thread? hreserve, ht]
    obtain ⟨w, hw, hbecomes⟩ := hrest.machine.thread hhoused
    cases hu.symm.trans hw
    exact absurd hbecomes hgoes
  | @destroyed g _ hdestroy =>
    have hget := (destroy_thread? hdestroy h).symm.trans hu
    split at hget
    case isTrue => cases hget
    case isFalse =>
      cases ht.symm.trans hget
      exact absurd hexited hstate
  | @ended _ i g result x _ hcall hcpu hexit =>
    obtain ⟨w, v, hx, rfl, hthreads⟩ := handsOver_exit hcall hcpu hexit
    by_cases hg : x.thread = h
    · subst hg
      cases ht.symm.trans hx.thread
      exact ⟨x, i, hx, rfl⟩
    · have hget : k'.thread? h = k.thread? h := by
        rw [thread?, hthreads, Registry.get?_set_live hx.thread, if_neg hg]
        rfl
      cases ht.symm.trans (hget.symm.trans hu)
      exact absurd hexited hstate

/-- In every state of every run, a live thread that has not exited carries the result of the
last request to it since it was made; without any it is as its source was when it was
cloned, or has none if it was created. A pending result goes with a request until the exit,
which puts its own result in its place and leaves the request. -/
theorem pending_of_last_request {config : StackConfig} {pages : P} {slots : O}
    {ids : Vector UInt32 n} {hooks : Hooks} {exitClearsCpu : Bool}
    (hboot : (boot config pages slots ids hooks exitClearsCpu).result = .ok k₀)
    (hrun : k₀.run calls = .ok k) :
    (∀ h t, k.thread? h = some t → t.state ≠ .exited →
      ∃ before call after k₁ k₂, calls = before ++ call :: after ∧ k₀.run before = .ok k₁ ∧
        (k₁.perform call).result = .ok (.made (.ok h), k₂) ∧ h ∉ made k₂ after ∧
        (∀ result, Call.lastRequest? h after = some result →
          t.flags.cancelRequested = true ∧ t.pending = some result) ∧
        ((∃ pid entry arg1 arg2, call = .create pid entry arg1 arg2 ∧
          (Call.lastRequest? h after = none →
            t.flags.cancelRequested = false ∧ t.pending = none)) ∨
        ∃ source s, call = .clone source ∧ k₁.thread? source = some s ∧
          (Call.lastRequest? h after = none →
            t.flags.cancelRequested = s.flags.cancelRequested ∧ t.pending = s.pending))) ∧
    (∀ h t, k.thread? h = some t → t.state ≠ .exited →
      (t.flags.cancelRequested = true ↔ t.pending.isSome = true)) ∧
    ∀ call reply k' h t u, (k.perform call).result = .ok (reply, k') → k.thread? h = some t →
      t.state ≠ .exited → k'.thread? h = some u → u.state = .exited →
        ∃ x i, HandsOver x k call reply k' i t ∧ x.thread = h ∧ u.pending = some x.result ∧
          u.flags.cancelRequested = t.flags.cancelRequested := by
  have hnamed := named_boot hboot
  have hfresh (h : Handle) : k₀.thread? h = none := by
    obtain ⟨-, rfl⟩ := boot_eq_ok.mp hboot
    exact Registry.get?_new _ h
  refine ⟨?last, ?together, ?exits⟩
  case last =>
    intro h t ht hstate
    obtain ⟨before, call, after, k₁, k₂, mark, hcalls, hk₁, hmade, honce, hinherits, hmark⟩ :=
      mark_run hnamed hfresh hrun ht hstate
    have hunasked (hnone : Call.lastRequest? h after = none) : t.mark = mark := by
      rw [hmark, hnone]
      rfl
    refine ⟨before, call, after, k₁, k₂, hcalls, hk₁, hmade, honce, fun result hlast => ?_, ?_⟩
    · rw [hlast] at hmark
      exact Prod.mk.inj hmark
    · cases hinherits with
      | created => exact .inl ⟨_, _, _, _, rfl, fun hnone => Prod.mk.inj (hunasked hnone)⟩
      | cloned hs => exact .inr ⟨_, _, rfl, hs, fun hnone => Prod.mk.inj (hunasked hnone)⟩
  case together =>
    refine All.run Thread.Accordant.lasting hboot hrun fun _ _ _ _ t u hu ht => ?_
    obtain ⟨-, rfl⟩ := Thread.block_eq_ok.mp hu
    exact ((Thread.Step.block hu).keeps rfl).accordant ht
  case exits =>
    intro call reply k' h t u hcall ht hstate hu hexited
    obtain ⟨x, i, hx, rfl⟩ :=
      (perform_transition (named_run hnamed hrun) hcall).exits ht hstate hu hexited
    cases hx.ended.symm.trans hu
    exact ⟨x, i, hx, rfl, rfl, rfl⟩

/-- Of two requests the second one counts, and its result gives way to that of the exit. -/
theorem pending_of_last_request_small : ∃ k t k' u, small.run [.newProcess .zero .running,
      .create 1 ⟨"first"⟩ 0 0, .cancel 1 ⟨0, 1⟩ 3, .cancel 1 ⟨0, 1⟩ 5, .dispatch 0] = .ok k ∧
    k.thread? ⟨0, 1⟩ = some t ∧ t.pending = some 5 ∧ k.run [.exit 0 7] = .ok k' ∧
    k'.thread? ⟨0, 1⟩ = some u ∧ u.pending = some 7 ∧ u.flags.cancelRequested = true := by
  obtain ⟨k, hrun, hobserved⟩ := run_observe small
    [.newProcess .zero .running, .create 1 ⟨"first"⟩ 0 0, .cancel 1 ⟨0, 1⟩ 3,
      .cancel 1 ⟨0, 1⟩ 5, .dispatch 0]
    (fun k => (k.thread? ⟨0, 1⟩).map (·.state)) (a := some .runnable) (by decide +kernel)
  obtain ⟨t, ht, hstate⟩ := Option.map_eq_some_iff.mp hobserved
  obtain ⟨k', hall, hobserved'⟩ := run_observe small
    ([.newProcess .zero .running, .create 1 ⟨"first"⟩ 0 0, .cancel 1 ⟨0, 1⟩ 3,
      .cancel 1 ⟨0, 1⟩ 5, .dispatch 0] ++ [.exit 0 7])
    (fun k => (k.thread? ⟨0, 1⟩).map (·.state)) (a := some .exited) (by decide +kernel)
  obtain ⟨u, hu, hexited⟩ := Option.map_eq_some_iff.mp hobserved'
  have hrest := run_rest hall hrun
  obtain ⟨reply, k₂, hcall, hlast⟩ := run_cons_eq_ok.mp hrest
  cases hlast
  obtain ⟨hmarks, -, hexits⟩ := pending_of_last_request boot_small hrun
  obtain ⟨before, call, after, k₁, k₂, hcalls, -, -, -, hasked, hmaker⟩ :=
    hmarks ⟨0, 1⟩ t ht (by simp [hstate])
  have hlast : Call.lastRequest? ⟨0, 1⟩ after = some 5 := by
    rcases hmaker with ⟨pid, entry, arg1, arg2, rfl, -⟩ | ⟨source, s, rfl, -⟩
    · rcases before with _ | ⟨b, _ | ⟨c, before⟩⟩
      · cases hcalls
      · cases hcalls
        rfl
      · simp only [List.cons_append, List.cons.injEq] at hcalls
        obtain ⟨-, -, hlater⟩ := hcalls
        have hmem : Call.create pid entry arg1 arg2 ∈ before ++ _ :: after :=
          List.mem_append_right before List.mem_cons_self
        rw [← hlater] at hmem
        simp at hmem
    · have hmem : Call.clone source ∈ before ++ _ :: after :=
        List.mem_append_right before List.mem_cons_self
      rw [← hcalls] at hmem
      simp at hmem
  obtain ⟨hrequested, hpending⟩ := hasked 5 hlast
  obtain ⟨x, i, hx, -, hresult, hkept⟩ :=
    hexits _ _ _ _ t u hcall ht (by simp [hstate]) hu hexited
  have hseven : x.result = 7 := by
    rcases hx.call with hexit | hcancel
    · exact (Call.exit.inj hexit).2.symm
    · cases hcancel
  exact ⟨k, t, k', u, hrun, ht, hpending, hrest, hu, hseven ▸ hresult, hkept.trans hrequested⟩

end Kernel

end KernelThreads
