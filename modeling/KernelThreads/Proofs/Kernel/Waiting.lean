import KernelThreads.Proofs.Kernel.Fairness

/-!
Who sleeps on a channel waits its turn. A wakeup takes the oldest waiter, a broadcast all
of them, a request to end takes a cancellable sleeper from among them, and nothing else
takes any. So a waiter moves up by one place when one before it goes, and the others keep
their order.
-/
namespace KernelThreads

/-- Wakes the first waiter of `c`. -/
def Call.wakes {n : Nat} (c : Channel) : Call n → Bool
  | .wakeup d => c = d
  | _ => false

namespace Kernel

variable {P O : Type} {n : Nat} {k₀ k k₁ k' : Kernel P O n} {call : Call n}
  {calls before after : List (Call n)} {reply : Reply} {g h : Handle} {t u : Thread} {c : Channel}
  {j : Nat}

/-- Oldest first. -/
def waiters (k : Kernel P O n) (c : Channel) : List Handle := k.machine.queues.waiters c

/-- Wakes `h`, if it waits in `c`. -/
def frees (k : Kernel P O n) (c : Channel) (h : Handle) : Call n → Bool
  | .wakeup d => c = d ∧ (k.waiters d).head? = some h
  | .broadcast d => c = d
  | _ => false

/-- Asks `h` to end while it is in a sleep that this ends. -/
def dismisses (k : Kernel P O n) (h : Handle) : Call n → Bool
  | .cancel _ target _ =>
    h = target ∧ (k.thread? target).any fun t => t.state = .sleepingCancellable
  | _ => false

/-- Ends the sleep of `h`, if it waits in `c`. -/
def rouses (k : Kernel P O n) (c : Channel) (h : Handle) (call : Call n) : Bool :=
  k.frees c h call || k.dismisses h call

section Views
variable {q : Queues} {ps : Processes}

/-- A thread changes that does not wait. -/
theorem Update.undisturbed {o : Option Thread} (hk : k.Update h o q ps k')
    (hq : ∀ c, q.waiters c = k.machine.queues.waiters c)
    (haway : ∀ t c, k.thread? h = some t → t.link ≠ .waitQueue c) :
    k.machine.Undisturbed k'.machine where
  waiting c := by rw [hk.queues, hq]
  waiters g t c ht hlink := by
    have hne : h ≠ g := by
      rintro rfl
      exact haway t c ht hlink
    exact (hk.thread? g).trans ((if_neg hne).trans ht)

theorem Update.rouses {gone : Channel → Handle → Bool} (hk : k.Update h (some u) q ps k')
    (ht : k.thread? h = some t) (hm : k.machine.Rouses gone (k.machine.put h u q)) :
    k.machine.Rouses gone k'.machine := by
  have hget (g : Handle) : k'.machine.threads.get? g = (k.machine.put h u q).threads.get? g :=
    (hk.thread? g).trans (Registry.get?_set_live ht u g).symm
  refine ⟨fun d => ?_, fun d g v hv hwaits hgone => ?_, fun d g v hv hwaits hgone => ?_⟩
  · rw [hk.queues]
    exact hm.waiting d
  · rw [hget]
    exact hm.stays d g v hv hwaits hgone
  · rw [hget]
    exact hm.leaves d g v hv hwaits hgone

theorem Rests.undisturbed (hk : k.Rests k') : k.machine.Undisturbed k'.machine where
  waiting c := by rw [hk.queues]
  waiters g t c ht _ := (hk.thread? g).trans ht

end Views

theorem rouses_cancel {i : Fin n} {target : Handle} {result : UInt64}
    (hstate : ∀ t, k.thread? target = some t → t.state ≠ .sleepingCancellable) :
    k.rouses c h (.cancel i target result) = false := by
  have hnone : (k.thread? target).any (fun t => t.state = .sleepingCancellable) = false := by
    cases ht : k.thread? target with
    | none => rfl
    | some t => exact decide_eq_false (hstate t ht)
  simp [rouses, frees, dismisses, hnone]

/-- A managed call rouses the threads that it is said to rouse, and no other sleeper. -/
theorem Effect.rouses (hk : k.Placed) (heffect : k.Effect call reply k') :
    k.machine.Rouses (fun c h => k.rouses c h call) k'.machine := by
  have hm := hk.machine
  cases heffect with
  | scheduled hp =>
    cases hp with
    | dispatched hp => exact (hm.dispatch_order hp).1.rouses
    | yielded hp =>
      rcases hm.yieldCpu_order hp with ⟨-, rfl⟩ | ⟨-, hp⟩
      · exact (Machine.Undisturbed.refl _).rouses
      · exact (hm.dispatch_order hp).1.rouses
    | slept hp =>
      obtain ⟨t, ht, hp⟩ := Machine.sleep_eq_ok.mp hp
      exact (hm.block_order ht hp).2
    | dozed hp =>
      obtain ⟨t, ht, hrest⟩ := Machine.cancellableSleep_eq_ok.mp hp
      rcases hrest with ⟨-, -, rfl⟩ | ⟨-, -, hp⟩
      · exact (Machine.Undisturbed.refl _).rouses
      · exact (hm.block_order ht hp).2
    | woke hp =>
      exact hm.rouses_congr (hm.wakeup_order hp).2 fun _ _ _ _ _ => (Bool.or_false _).symm
    | wokeAll hp =>
      exact hm.rouses_congr (hm.broadcast_order hp).2 fun _ _ _ _ _ => (Bool.or_false _).symm
    | opened => exact (Machine.Undisturbed.newChannel _).rouses
  | founded directory phase => exact (Machine.Undisturbed.refl _).rouses
  | dropped pid => exact (Machine.Undisturbed.refl _).rouses
  | phased phase hp => exact (Machine.Undisturbed.refl _).rouses
  | named name hp => exact (Machine.Undisturbed.refl _).rouses
  | refused hcall hk' =>
    cases call with
    | create pid entry arg1 arg2 => exact hk'.undisturbed.rouses
    | clone source => exact hk'.undisturbed.rouses
    | _ => cases hcall
  | created hp haccepts hvacant hfree hcontext hq hk' =>
    rw [hk.makeRunnable hq] at hk'
    refine (hk'.undisturbed (fun _ => rfl) fun t c ht => ?_).rouses
    cases hvacant.symm.trans ht
  | cloned ht hstate hvacant hcontext hk' =>
    refine (hk'.undisturbed (fun _ => rfl) fun t c ht => ?_).rouses
    cases hvacant.symm.trans ht
  | attached hp ht hclone hplace hfree hq hk' =>
    rw [hk.makeRunnable hq] at hk'
    refine (hk'.undisturbed (fun _ => rfl) fun v c hv => ?_).rouses
    cases ht.symm.trans hv
    simp [hplace.2]
  | destroyed ht hstate hlink hk' =>
    refine (hk'.undisturbed (fun _ => rfl) fun v c hv => ?_).rouses
    cases ht.symm.trans hv
    simp [hlink]
  | ended hcall hcpu ht hlink hfinish hk' =>
    have hquiet : k.machine.Undisturbed k'.machine := by
      refine hk'.undisturbed (fun _ => rfl) fun v c hv => ?_
      cases ht.symm.trans hv
      simp [hlink]
    rcases hcall with rfl | rfl
    · exact hquiet.rouses
    · refine hm.rouses_congr hquiet.rouses fun c g v hv hwaits => ?_
      refine (rouses_cancel fun w hw => ?_).symm
      cases ht.symm.trans hw
      rw [(hm.sound _ _ ht).scheduled (.inr (by rw [hlink]; rfl))]
      simp
  | @asked i target result t u q _ hcpu ht hstate hq hk' =>
    rw [hk.hooks] at hq
    have hasked := (hm.interrupt_order (v := t.requestCancel result) ht rfl rfl rfl hq).2
    refine hm.rouses_congr (hk'.rouses ht hasked) fun c g v hv hwaits => ?_
    simp [rouses, frees, dismisses, ht]
  | ignored htarget =>
    refine hm.rouses_congr (Machine.Undisturbed.refl _).rouses fun c g v hv hwaits =>
      (rouses_cancel fun w hw => ?_).symm
    rw [htarget w hw]
    simp
  | noted ht hk' => exact hk'.rouses ht (.ofStill ht rfl rfl fun _ => rfl)
  | loaded ht hk' => exact hk'.rouses ht (.ofStill ht rfl rfl fun _ => rfl)
  | missed hcall hgone =>
    rcases hcall with ⟨errno, rfl⟩ | ⟨registers, rfl⟩
    · exact (Machine.Undisturbed.refl _).rouses
    · exact (Machine.Undisturbed.refl _).rouses

theorem dismisses_iff : k.dismisses h call = true ↔ ∃ i result, call = .cancel i h result ∧
    ∃ t, k.thread? h = some t ∧ t.state = .sleepingCancellable := by
  constructor
  · intro hdismisses
    cases call with
    | cancel i target result =>
      obtain ⟨rfl, hany⟩ := of_decide_eq_true hdismisses
      obtain ⟨t, ht, hstate⟩ := (Option.any_eq_true _ _).mp hany
      exact ⟨i, result, rfl, t, ht, of_decide_eq_true hstate⟩
    | _ => cases hdismisses
  · rintro ⟨i, result, rfl, t, ht, hstate⟩
    simp [dismisses, ht, hstate]

/-- Takes away a waiter of `c` before `h`. A wakeup takes the first. -/
def passes (k : Kernel P O n) (c : Channel) (h : Handle) : Call n → Bool
  | .wakeup d => c = d
  | .cancel i g result =>
    g ∈ (k.waiters c).takeWhile (· ≠ h) ∧ k.dismisses g (.cancel i g result) = true
  | _ => false

/-- How many waiters of `c` a run has taken away before `h`. -/
def passed [PageSource P] [SlotSource O] (k : Kernel P O n) (c : Channel) (h : Handle)
    (calls : List (Call n)) : Nat :=
  count (fun k call _ => k.passes c h call) k calls

theorem split_at {hs : List Handle} (hat : hs[j]? = some h) :
    ∃ u v, hs = u ++ h :: v ∧ u.length = j := by
  obtain ⟨hlt, rfl⟩ := List.getElem?_eq_some_iff.mp hat
  refine ⟨hs.take j, hs.drop (j + 1), ?_, List.length_take_of_le (Nat.le_of_lt hlt)⟩
  rw [← List.drop_eq_getElem_cons hlt, List.take_append_drop]

theorem length_filter_ne {hs : List Handle} (hnodup : hs.Nodup) (g : Handle) :
    (hs.filter (· ≠ g)).length + (if g ∈ hs then 1 else 0) = hs.length := by
  have hfilter : hs.filter (· ≠ g) = hs.erase g := by
    rw [hnodup.erase_eq_filter]
    exact List.filter_congr fun x _ => by rw [bne, beq_eq_decide, decide_not]
  rw [hfilter, List.length_erase]
  split
  case isTrue hg =>
    have hpos := List.length_pos_of_mem hg
    omega
  case isFalse => rfl

/-- A call that lets `h` wait takes away one of those before it if it passes `h` by,
and none otherwise. -/
theorem Placed.passes_length {u v : List Handle} (hk : k.Placed)
    (hat : k.waiters c = u ++ h :: v) (hkept : k.rouses c h call = false) :
    (u.filter (fun g => !k.rouses c g call)).length + (if k.passes c h call = true then 1 else 0) =
      u.length := by
  have hnodup : (u ++ h :: v).Nodup := hat ▸ hk.machine.waiting_nodup c
  have hbefore : u.Nodup := hnodup.sublist (List.sublist_append_left u _)
  have hout : h ∉ u := fun hmem => (List.nodup_append.mp hnodup).2.2 h hmem h List.mem_cons_self rfl
  obtain ⟨hfrees, hdismisses⟩ := Bool.or_eq_false_iff.mp hkept
  have hall (hnone : ∀ g, k.rouses c g call = false) (hpasses : k.passes c h call = false) :
      (u.filter (fun g => !k.rouses c g call)).length +
        (if k.passes c h call = true then 1 else 0) = u.length := by
    simp [hnone, hpasses]
  have hone (g : Handle) (hgone : ∀ x, k.rouses c x call = decide (x = g))
      (hpasses : k.passes c h call = decide (g ∈ u)) :
      (u.filter (fun g => !k.rouses c g call)).length +
        (if k.passes c h call = true then 1 else 0) = u.length := by
    rw [hpasses, ← length_filter_ne hbefore g]
    simp [hgone]
  cases call with
  | wakeup d =>
    by_cases hd : c = d
    · subst hd
      cases u with
      | nil => simp [frees, hat] at hfrees
      | cons g rest =>
        refine hone g (fun x => ?_) ?_
        · simp [rouses, frees, dismisses, hat, eq_comm]
        · simp [passes]
    · exact hall (fun g => by simp [rouses, frees, dismisses, hd]) (by simp [passes, hd])
  | broadcast d =>
    have hd : c ≠ d := of_decide_eq_false hfrees
    exact hall (fun g => by simp [rouses, frees, dismisses, hd]) rfl
  | cancel i target result =>
    by_cases hends : k.dismisses target (.cancel i target result) = true
    · refine hone target (fun x => ?_) ?_
      · obtain ⟨-, hany⟩ := of_decide_eq_true hends
        simp [rouses, frees, dismisses, hany]
      · have hprefix : (u ++ h :: v).takeWhile (· ≠ h) = u := by
          rw [List.takeWhile_append_of_pos]
          · simp
          · intro x hx
            exact decide_eq_true fun e => hout (e ▸ hx)
        simp only [passes, hat, hprefix, hends, and_true]
    · refine hall (fun x => ?_) (by simp [passes, hends])
      have hawake (t : Thread) (ht : k.thread? target = some t) :
          t.state ≠ .sleepingCancellable := by
        intro hstate
        exact hends (dismisses_iff.mpr ⟨i, result, rfl, t, ht, hstate⟩)
      exact rouses_cancel hawake
  | _ => exact hall (fun _ => rfl) rfl

/-- The end of its sleep takes a cancellable sleeper alone out of its queue. -/
theorem Effect.dismissed {i : Fin n} {result : UInt64} (hk : k.Placed)
    (heffect : k.Effect (.cancel i h result) reply k') (ht : k.thread? h = some t)
    (hlink : t.link = .waitQueue c) (hstate : t.state = .sleepingCancellable) :
    (∀ d, k'.waiters d = (k.waiters d).filter (· ≠ h)) ∧
      ∀ g, g ≠ h → k'.thread? g = k.thread? g := by
  cases heffect with
  | asked hcpu ht' hgoing hq hk' =>
    cases ht.symm.trans ht'
    rw [hk.hooks] at hq
    refine ⟨fun d => ?_, fun g hg => (hk'.thread? g).trans (if_neg (Ne.symm hg))⟩
    rw [waiters, hk'.queues]
    exact hk.machine.interrupt_waiters (v := t.requestCancel result) ht rfl rfl rfl hstate hlink
      hq d
  | ended hcall hcpu ht' hlink' hfinish hk' =>
    rcases hcall with hcall | hcall
    · cases hcall
    · cases hcall
      cases ht.symm.trans ht'
      cases hlink.symm.trans hlink'
  | ignored hended =>
    rw [hended t ht] at hstate
    cases hstate
  | scheduled hm => cases hm
  | refused hcall hk' => cases hcall
  | missed hcall hgone =>
    rcases hcall with ⟨errno, hcall⟩ | ⟨registers, hcall⟩
    · cases hcall
    · cases hcall

variable [PageSource P] [SlotSource O]

/-- While nobody wakes it and no request ends its sleep, a waiter stays asleep, and moves up
by as many places as waiters before it go. -/
theorem Placed.wait_run {u v : List Handle} (hk : k.Placed)
    (hmanaged : ∀ call ∈ calls, call.isManaged = true) (hrun : k.run calls = .ok k')
    (ht : k.thread? h = some t) (hat : k.waiters c = u ++ h :: v)
    (hunfreed : ¬ Occurs (fun k call _ _ => k.frees c h call = true) k calls)
    (hunasked : t.state = .sleeping ∨ ∀ i result, .cancel i h result ∉ calls) :
    (∃ w, k'.thread? h = some w ∧ w.state = t.state ∧ w.link = .waitQueue c) ∧
      ∃ u' v', k'.waiters c = u' ++ h :: v' ∧ u'.length + k.passed c h calls = u.length := by
  induction hrun, hmanaged using managed_induction with
  | start =>
    have hmem : h ∈ k.waiters c := by simp [hat]
    obtain ⟨w, hw, hlink⟩ := hk.machine.mem_waiting.mp hmem
    cases ht.symm.trans hw
    exact ⟨⟨t, ht, rfl, hlink⟩, u, v, hat, rfl⟩
  | call k₁ calls call reply k' hbefore hearlier hnext hcall ih =>
    obtain ⟨hnever, hnow⟩ := not_occurs_concat hbefore hcall hunfreed
    have hnotyet : t.state = .sleeping ∨ ∀ i result, .cancel i h result ∉ calls :=
      hunasked.imp_right fun hno i result hmem => hno i result (List.mem_append_left _ hmem)
    obtain ⟨⟨w, hw, hstate, hlink⟩, u₁, v₁, hat₁, hlength⟩ := ih hnever hnotyet
    have hk₁ := hk.run hearlier hbefore
    have hkept : k₁.rouses c h call = false := by
      refine Bool.or_eq_false_iff.mpr ⟨Bool.not_eq_true _ ▸ hnow, ?_⟩
      rw [← Bool.not_eq_true]
      intro hdismisses
      obtain ⟨i, result, rfl, x, hx, hcancellable⟩ := dismisses_iff.mp hdismisses
      cases hw.symm.trans hx
      rcases hunasked with hsleeping | hno
      · rw [hstate, hsleeping] at hcancellable
        cases hcancellable
      · exact hno i result (by simp)
    have hroused := (perform_effect hk₁.machine.named hnext hcall).rouses hk₁
    obtain ⟨x, hx, hstate', hlink'⟩ := hroused.stays c h w hw hlink hkept
    obtain ⟨new, hnew⟩ := hroused.waiting c
    refine ⟨⟨x, hx, hstate'.trans hstate, hlink'.trans hlink⟩,
      u₁.filter (fun g => !k₁.rouses c g call),
      v₁.filter (fun g => !k₁.rouses c g call) ++ new, ?_, ?_⟩
    · refine hnew.trans ?_
      change (k₁.waiters c).filter _ ++ new = _
      rw [hat₁, List.filter_append, List.filter_cons_of_pos (by simp [hkept]), List.append_assoc,
        List.cons_append]
    · have hcount : k.passed c h (calls ++ [call]) =
          k.passed c h calls + if k₁.passes c h call = true then 1 else 0 :=
        count_concat hbefore hcall
      have hpassed := hk₁.passes_length hat₁ hkept
      omega

/-- The waiters that have not been roused are still there, in their order, before all others. -/
theorem Placed.order_run (hk : k.Placed) (hmanaged : ∀ call ∈ calls, call.isManaged = true)
    (hrun : k.run calls = .ok k') (c : Channel) : ∃ new, k'.waiters c =
      (k.waiters c).filter
        (fun g => ¬ Occurs (fun k call _ _ => k.rouses c g call = true) k calls) ++ new := by
  induction hrun, hmanaged using managed_induction with
  | start => exact ⟨[], by simp [Occurs]⟩
  | call k₁ calls call reply k' hbefore hearlier hnext hcall ih =>
    obtain ⟨new, hnew⟩ := ih
    have hk₁ := hk.run hearlier hbefore
    have hroused := (perform_effect hk₁.machine.named hnext hcall).rouses hk₁
    obtain ⟨more, hmore⟩ := hroused.waiting c
    refine ⟨new.filter (fun g => !k₁.rouses c g call) ++ more, ?_⟩
    refine hmore.trans ?_
    change (k₁.waiters c).filter _ ++ more = _
    rw [hnew, List.filter_append, List.filter_filter, List.append_assoc]
    congr 1
    apply List.filter_congr
    intro g _
    simp only [occurs_concat hbefore hcall, not_or, Bool.decide_and, Bool.not_eq_true]
    rw [Bool.and_comm]
    simp

/-- Every wakeup of `c` passes `h` by, or is its own. -/
theorem countP_wakes_le (hrun : k.run calls = .ok k') (c : Channel) (h : Handle) :
    calls.countP (·.wakes c) ≤ k.passed c h calls := by
  induction hrun using run_induction with
  | start => exact Nat.le_refl _
  | call k₁ calls call reply k' hbefore hcall ih =>
    have hcount : k.passed c h (calls ++ [call]) =
        k.passed c h calls + if k₁.passes c h call = true then 1 else 0 :=
      count_concat hbefore hcall
    rw [hcount, List.countP_append, List.countP_singleton]
    apply Nat.add_le_add ih
    cases call with
    | wakeup d => exact Nat.le_refl _
    | _ => exact Nat.zero_le _

/-- A thread that waits in `c` behind `j` others sleeps on, through all that may be asked of
others, until it is the first at a wakeup or there is a broadcast, or it is cancellable and
asked to end. -/
theorem waiters_fair {config : StackConfig} {pages : P} {slots : O} {ids : Vector UInt32 n}
    (hboot : (boot config pages slots ids).result = .ok k₀)
    (hmanaged : ∀ call ∈ before ++ after, call.isManaged = true)
    (hbefore : k₀.run before = .ok k₁) (hafter : k₁.run after = .ok k) (c : Channel) :
    (∀ j h, (k₁.waiters c)[j]? = some h → ∃ t, k₁.thread? h = some t ∧ t.state.isSleeping = true ∧
      t.link = .waitQueue c ∧
        ((t.state = .sleeping ∨ ∀ i result, .cancel i h result ∉ after) →
          (¬ Occurs (fun k call _ _ => k.frees c h call = true) k₁ after →
            (∃ u, k.thread? h = some u ∧ u.state = t.state ∧ u.link = .waitQueue c) ∧
              k₁.passed c h after ≤ j ∧ (k.waiters c)[j - k₁.passed c h after]? = some h) ∧
          (j < after.countP (·.wakes c) →
            Occurs (fun k call _ _ => k.frees c h call = true) k₁ after))) ∧
    (∃ new, k.waiters c = (k₁.waiters c).filter
      (fun g => ¬ Occurs (fun k call _ _ => k.rouses c g call = true) k₁ after) ++ new) ∧
    ∀ call reply k', call.isManaged = true → (k.perform call).result = .ok (reply, k') →
      (∀ h, h ∈ k.waiters c → k.frees c h call = true →
        ∃ u, k'.thread? h = some u ∧ u.state = .runnable ∧ u.link = .runQueue) ∧
      ∀ i h result t, call = .cancel i h result → h ∈ k.waiters c → k.thread? h = some t →
        t.state = .sleepingCancellable →
          (∃ u, k'.thread? h = some u ∧ u.state = .runnable ∧ u.link = .runQueue) ∧
            (∀ d, k'.waiters d = (k.waiters d).filter (· ≠ h)) ∧
              ∀ g, g ≠ h → k'.thread? g = k.thread? g := by
  obtain ⟨hearlier, hlater⟩ := List.forall_mem_append.mp hmanaged
  have hk₁ := (Placed.boot hboot).run hearlier hbefore
  have hk := hk₁.run hlater hafter
  refine ⟨fun j h hat => ?_, hk₁.order_run hlater hafter c, fun call reply k' hnext hcall => ?_⟩
  · obtain ⟨t, ht, hlink⟩ := hk₁.machine.mem_waiting.mp (List.mem_of_getElem? hat)
    obtain ⟨u, v, hsplit, rfl⟩ := split_at hat
    refine ⟨t, ht, (hk₁.machine.sound h t ht).waiting c hlink, hlink, fun hunasked => ⟨?_, ?_⟩⟩
    · intro hunfreed
      obtain ⟨hasleep, u', v', hat', hlength⟩ :=
        hk₁.wait_run hlater hafter ht hsplit hunfreed hunasked
      refine ⟨hasleep, by omega, ?_⟩
      rw [hat', ← hlength, Nat.add_sub_cancel, List.getElem?_append_right (Nat.le_refl _)]
      simp
    · intro hmany
      by_contra hunfreed
      obtain ⟨-, u', v', -, hlength⟩ := hk₁.wait_run hlater hafter ht hsplit hunfreed hunasked
      have hwakeups := countP_wakes_le hafter c h
      omega
  · have heffect := perform_effect hk.machine.named hnext hcall
    have hroused := heffect.rouses hk
    refine ⟨fun h hh hfrees => ?_, ?_⟩
    · obtain ⟨t, ht, hlink⟩ := hk.machine.mem_waiting.mp hh
      exact hroused.leaves c h t ht hlink (by simp [rouses, hfrees])
    · rintro i h result t rfl hh ht hstate
      obtain ⟨t', ht', hlink⟩ := hk.machine.mem_waiting.mp hh
      cases ht.symm.trans ht'
      have hdismisses : k.dismisses h (.cancel i h result) = true :=
        dismisses_iff.mpr ⟨i, result, rfl, t, ht, hstate⟩
      exact ⟨hroused.leaves c h t ht hlink (by simp [rouses, hdismisses]),
        heffect.dismissed hk ht hlink hstate⟩

theorem waiters_fair_small : ∃ k₁ k, small.run [.newProcess .zero .running, .newChannel,
      .create 1 ⟨"first"⟩ 0 0, .create 1 ⟨"second"⟩ 0 0, .dispatch 0, .cancellableSleep 0 ⟨1⟩,
      .dispatch 0, .sleep 0 ⟨1⟩] = .ok k₁ ∧
    k₁.waiters ⟨1⟩ = [⟨0, 1⟩, ⟨1, 1⟩] ∧
    k₁.run [.cancel 1 ⟨1, 1⟩ 7, .cancel 1 ⟨0, 1⟩ 7] = .ok k ∧
    (∃ u, k.thread? ⟨1, 1⟩ = some u ∧ u.state = .sleeping ∧ u.link = .waitQueue ⟨1⟩) ∧
    (k.waiters ⟨1⟩)[0]? = some ⟨1, 1⟩ := by
  obtain ⟨k₁, hbefore, hobserved⟩ := run_observe small
    [.newProcess .zero .running, .newChannel, .create 1 ⟨"first"⟩ 0 0, .create 1 ⟨"second"⟩ 0 0,
      .dispatch 0, .cancellableSleep 0 ⟨1⟩, .dispatch 0, .sleep 0 ⟨1⟩]
    (fun k => (k.waiters ⟨1⟩, (k.thread? ⟨1, 1⟩).map (·.state),
      k.passed ⟨1⟩ ⟨1, 1⟩ [.cancel 1 ⟨1, 1⟩ 7, .cancel 1 ⟨0, 1⟩ 7],
      decide (Occurs (fun k call _ _ => k.frees ⟨1⟩ ⟨1, 1⟩ call = true) k
        [.cancel 1 ⟨1, 1⟩ 7, .cancel 1 ⟨0, 1⟩ 7])))
    (a := ([⟨0, 1⟩, ⟨1, 1⟩], some .sleeping, 1, false)) (by decide +kernel)
  simp only [Prod.mk.injEq, Option.map_eq_some_iff, decide_eq_false_iff_not] at hobserved
  obtain ⟨hwaiters, ⟨t, ht, hstate⟩, hpassed, hunfreed⟩ := hobserved
  obtain ⟨k, hrun, -⟩ := run_observe small
    ([.newProcess .zero .running, .newChannel, .create 1 ⟨"first"⟩ 0 0, .create 1 ⟨"second"⟩ 0 0,
      .dispatch 0, .cancellableSleep 0 ⟨1⟩, .dispatch 0, .sleep 0 ⟨1⟩] ++
        [.cancel 1 ⟨1, 1⟩ 7, .cancel 1 ⟨0, 1⟩ 7]) (fun _ => ()) (a := ()) (by decide +kernel)
  have hafter := run_rest hrun hbefore
  obtain ⟨hplaces, -⟩ := waiters_fair boot_small (by decide) hbefore hafter ⟨1⟩
  obtain ⟨t', ht', -, -, hwaits⟩ := hplaces 1 ⟨1, 1⟩ (by rw [hwaiters]; rfl)
  cases ht.symm.trans ht'
  obtain ⟨hasleep, -, hat⟩ := (hwaits (.inl hstate)).1 hunfreed
  rw [hstate] at hasleep
  rw [hpassed] at hat
  exact ⟨k₁, k, hbefore, hwaiters, hafter, hasleep, hat⟩

end Kernel

end KernelThreads
