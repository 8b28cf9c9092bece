import KernelThreads.Proofs.Kernel.Exits
import KernelThreads.Proofs.Kernel.Lasting

/-!
Handles over a run of any calls. A handle is live from the call that returns it until
its destruction, no handle is returned twice, and a handle that is not live reaches no
thread. The generation of a slot is the number of its reservations, those that come to
nothing included.
-/
namespace KernelThreads

variable {n : Nat}

/-- The handle of the thread that was made. -/
def Reply.made? : Reply → Option Handle
  | .made (.ok h) => some h
  | _ => none

/-- The thread that the call is about, by the handle of its caller. -/
def Call.target? : Call n → Option Handle
  | .clone h | .attach h _ | .destroy h | .cancel _ h _ | .makeRunnable h | .interrupt h
  | .enqueue h | .startOn h _ | .block h _ _ | .wake h | .setErrno h _ | .loadRegisters h _ =>
    some h
  | .newProcess _ _ | .dropProcess _ | .setPhase _ _ | .setName _ _ | .addMember _ _
  | .removeMember _ _ | .create _ _ _ _ | .exit _ _ | .dispatch _ | .yieldCpu _ | .sleep _ _
  | .cancellableSleep _ _ | .wakeup _ | .broadcast _ | .newChannel | .setRunning _ _ _
  | .clearRunning _ => none

namespace Kernel

variable {P O : Type} {k₀ k k₁ k' : Kernel P O n} {call : Call n} {calls : List (Call n)}
  {reply : Reply} {h : Handle} {t : Thread}

theorem contains_iff : k.contains h = true ↔ ∃ t, k.thread? h = some t := Option.isSome_iff_exists

theorem contains_congr (hsame : k'.thread? h = k.thread? h) : k'.contains h = k.contains h :=
  congrArg Option.isSome hsame

theorem contains_of_carries {R : Thread → Thread → Prop}
    (hcarries : k.machine.Carries R k'.machine) (h : Handle) : k'.contains h = k.contains h := by
  unfold contains Registry.contains
  rcases Registry.rel_cases (hcarries.threads.get? h) with ⟨ht, hu⟩ | ⟨t, u, ht, hu, -⟩
  · rw [ht, hu]
  · rw [ht, hu, Option.isSome_some, Option.isSome_some]

theorem contains_update {o : Option Thread} {g : Handle}
    (hget : k'.thread? h = if g = h then o else k.thread? h) :
    k'.contains h = true ↔ if g = h then o.isSome = true else k.contains h = true := by
  change (k'.thread? h).isSome = true ↔ _
  rw [hget]
  split
  · exact Iff.rfl
  · exact Iff.rfl

variable [PageSource P] [SlotSource O]

/-- A handle comes to life when it is returned, and dies with the destruction of its thread. -/
theorem Turn.contains_iff (hk : k.Turn call reply k') (h : Handle) :
    k'.contains h = true ↔
      call.makesThread = true ∧ reply = .made (.ok h) ∨
        k.contains h = true ∧ call ≠ .destroy h := by
  cases hk with
  | quiet hcall hproceeds hreply =>
    have hmade : reply ≠ .made (.ok h) := by
      rintro rfl
      cases hreply
    have hkept : call ≠ .destroy h := by
      rintro rfl
      cases hcall
    simp [contains_of_carries hproceeds.machine, hmade, hkept]
  | blocked hproceeds => simp [contains_of_carries hproceeds.machine]
  | opened => simp [contains, Call.makesThread]
  | refused hcall hreserve =>
    have hkept : call ≠ .destroy h := by
      rintro rfl
      cases hcall
    simp [contains_congr (reserve_thread? hreserve h), hkept]
  | @created _ _ _ _ g _ _ k₁ k₂ _ hreserve hhouse henlist =>
    obtain ⟨u, q, r, -, hget⟩ := enlist_thread? (house_thread hhouse) henlist
    rw [contains_update (hget h), contains_update (house_thread? hhouse h),
      contains_congr (reserve_thread? hreserve h)]
    by_cases hg : g = h
    · simp [hg, Call.makesThread]
    · simp [hg]
  | @cloned _ g _ _ _ k₁ _ ht hstate hreserve hhouse =>
    rw [contains_update (house_thread? hhouse h), contains_congr (reserve_thread? hreserve h)]
    by_cases hg : g = h
    · simp [Thread.copy, hg, Call.makesThread]
    · simp [Thread.copy, hg]
  | @destroyed g _ hdestroy =>
    rw [contains_update (destroy_thread? hdestroy h)]
    by_cases hg : g = h
    · simp [hg]
    · simp [hg]
  | ended hcall hcpu hexit =>
    obtain ⟨g, v, u, -, hv, -, -, -, -, rfl⟩ := exit_eq_ok.mp hexit
    rw [contains_update (ended_thread? hv _ _ h)]
    have hkept : call ≠ .destroy h := by
      rintro rfl
      rcases hcall with hcall | hcall
      · cases hcall
      · cases hcall
    by_cases hg : g = h
    · subst hg
      simp [Kernel.contains_iff.mpr ⟨v, hv⟩, hkept]
    · simp [hg, hkept]

theorem contains_run (hk : k.machine.threads.Named) (hh : k.contains h = true)
    (hrun : k.run calls = .ok k') (hkept : .destroy h ∉ calls) : k'.contains h = true := by
  induction hrun using run_induction with
  | start => exact hh
  | call k₁ calls call reply k' hbefore hcall ih =>
    have hk₁ := ih fun hmem => hkept (List.mem_append_left _ hmem)
    refine ((perform_turn (named_run hk hbefore) hcall).contains_iff h).mpr (.inr ⟨hk₁, ?_⟩)
    rintro rfl
    exact hkept (List.mem_append_right _ (List.mem_singleton_self _))

/-- The live handles are those that have been returned and not destroyed since. -/
theorem contains_iff_returned (hk₀ : k₀.machine.threads.Named)
    (hfresh : k₀.contains h = false) (hrun : k₀.run calls = .ok k) :
    k.contains h = true ↔ ∃ before call after k₁ k₂, calls = before ++ call :: after ∧
      k₀.run before = .ok k₁ ∧ call.makesThread = true ∧
        (k₁.perform call).result = .ok (.made (.ok h), k₂) ∧ .destroy h ∉ after := by
  constructor
  · induction hrun using run_induction with
    | start =>
      intro hh
      cases hh.symm.trans hfresh
    | call k calls call reply k' hbefore hcall ih =>
      intro hh
      rcases ((perform_turn (named_run hk₀ hbefore) hcall).contains_iff h).mp hh with
        ⟨hmakes, rfl⟩ | ⟨hlive, hkept⟩
      · exact ⟨calls, call, [], k, k', rfl, hbefore, hmakes, hcall, by simp⟩
      · obtain ⟨before, made, after, k₁, k₂, rfl, hk₁, hmakes, hmade, hrest⟩ := ih hlive
        refine ⟨before, made, after ++ [call], k₁, k₂, by simp, hk₁, hmakes, hmade, fun hmem => ?_⟩
        rcases List.mem_append.mp hmem with hmem | hmem
        · exact hrest hmem
        · exact hkept (List.mem_singleton.mp hmem).symm
  · rintro ⟨before, call, after, k₁, k₂, rfl, hbefore, hmakes, hcall, hkept⟩
    have hnamed := named_run hk₀ hbefore
    have hturn := perform_turn hnamed hcall
    have hmade := (hturn.contains_iff h).mpr (.inl ⟨hmakes, rfl⟩)
    exact contains_run (hturn.transition.named hnamed) hmade
      (run_tail (run_rest hrun hbefore) hcall) hkept

/-- The handles that a run returns, oldest first. -/
def made : Kernel P O n → List (Call n) → List Handle := gather fun _ _ reply => reply.made?.toList

theorem made?_eq_some : reply.made? = some h ↔ reply = .made (.ok h) := by
  cases reply with
  | made r => cases r <;> simp [Reply.made?]
  | _ => simp [Reply.made?]

/-- The handle that a call returns has not been issued before, unless a slot wraps. -/
theorem Transition.fresh (hk : k.Transition call (.made (.ok h)) k')
    (hbound : k.machine.threads.capacity ≤ UInt32.size)
    (hwraps : ¬ k.Wraps call (.made (.ok h)) k') :
    ¬ k.machine.threads.Issued h ∧ k'.machine.threads.Issued h := by
  cases hk with
  | quiet hk hreply => cases hreply
  | @made _ t k₁ k₂ _ hreserve hstate hlink hhouse hrest =>
    obtain ⟨slot, hissue⟩ := reserve_issued hreserve
    obtain ⟨threads, hinsert, hk₂⟩ := house_eq_ok.mp hhouse
    obtain ⟨g, hg, hnext, hg₁⟩ := Registry.generation?_issue hissue hbound
    have hg' : k'.machine.threads.generation? t.id.slot.toNat = some (g + 1) := by
      rw [hrest.machine.threads.generation?_eq, hk₂, Registry.generation?_insert hinsert, hg₁]
    exact ⟨Registry.not_issued hg hnext hg' hwraps, g + 1, hg', hnext ▸ UInt32.le_refl _⟩

/-- As long as no slot wraps, no handle is returned twice. -/
theorem made_nodup (hk₀ : k₀.machine.threads.Named)
    (hbound : k₀.machine.threads.capacity ≤ UInt32.size) (hrun : k₀.run calls = .ok k)
    (hwraps : ¬ Occurs Wraps k₀ calls) :
    (made k₀ calls).Nodup ∧ (∀ h ∈ made k₀ calls, k.machine.threads.Issued h) ∧
      k.machine.threads.capacity = k₀.machine.threads.capacity := by
  induction hrun using run_induction with
  | start => exact ⟨List.nodup_nil, by simp [made, gather], rfl⟩
  | call k calls call reply k' hbefore hcall ih =>
    obtain ⟨hearlier, hnow⟩ := not_occurs_concat hbefore hcall hwraps
    obtain ⟨hnodup, hissued, hcapacity⟩ := ih hearlier
    have htransition := perform_transition (named_run hk₀ hbefore) hcall
    have hstill (h : Handle) (hh : h ∈ made k₀ calls) : k'.machine.threads.Issued h :=
      (hissued h hh).mono htransition.capacity_eq hnow
    have hconcat : made k₀ (calls ++ [call]) = made k₀ calls ++ reply.made?.toList :=
      gather_concat hbefore hcall
    rw [hconcat]
    cases hmade : reply.made? with
    | none =>
      exact ⟨by simpa using hnodup, by simpa using hstill,
        htransition.capacity_eq.trans hcapacity⟩
    | some h =>
      cases made?_eq_some.mp hmade
      obtain ⟨hnew, hh⟩ := htransition.fresh (hcapacity ▸ hbound) hnow
      refine ⟨?_, ?_, htransition.capacity_eq.trans hcapacity⟩
      · rw [Option.toList_some, ← List.concat_eq_append]
        exact hnodup.concat fun hmem => hnew (hissued h hmem)
      · intro g hg
        rcases List.mem_append.mp hg with hg | hg
        · exact hstill g hg
        · cases List.mem_singleton.mp hg
          exact hh

section Stale
variable (hh : k.contains h = false)
include hh

omit [PageSource P] [SlotSource O] in
theorem onThread_stale {f : Queues → Thread → Logged (Thread × Queues)}
    (hcall : (k.onMachine (·.onThread h f) .answer).result = .ok (reply, k')) : k' = k := by
  obtain ⟨b, m, hm, -, rfl⟩ := onMachine_eq_ok.mp hcall
  rcases Machine.onThread_eq_ok.mp hm with ⟨-, -, rfl⟩ | ⟨t, u, q, ht, -⟩
  · rfl
  · cases (Kernel.contains_iff.mpr ⟨t, ht⟩).symm.trans hh

/-- A call about a thread that is gone does nothing to those that are there. -/
theorem perform_stale (htarget : call.target? = some h)
    (hcpu : ∀ i result, call = .cancel i h result → (k.machine.cpu i).thread? ≠ some h)
    (hcall : (k.perform call).result = .ok (reply, k')) : k' = k := by
  have hgone (t : Thread) : k.thread? h ≠ some t := by
    intro ht
    cases (Kernel.contains_iff.mpr ⟨t, ht⟩).symm.trans hh
  cases call with
  | clone source =>
    cases htarget
    obtain ⟨r, hclone, -⟩ := (reply_eq_ok .made).mp hcall
    obtain ⟨t, ht, -⟩ := clone_eq_ok.mp hclone
    exact absurd ht (hgone t)
  | attach g pid =>
    cases htarget
    obtain ⟨hattach, -⟩ := done_eq_ok.mp hcall
    obtain ⟨p, t, -, ht, -⟩ := attach_eq_ok.mp hattach
    exact absurd ht (hgone t)
  | destroy g =>
    cases htarget
    obtain ⟨hdestroy, -⟩ := done_eq_ok.mp hcall
    obtain ⟨t, ht, -⟩ := destroy_frame hdestroy
    exact absurd ht (hgone t)
  | cancel i g result =>
    cases htarget
    obtain ⟨x?, hcancel, -⟩ := (reply_eq_ok .handoff).mp hcall
    rcases cancel_eq_ok.mp hcancel with ⟨hself, -⟩ | ⟨-, -, ⟨-, rfl⟩ | ⟨t, ht, -⟩⟩
    · exact absurd hself (hcpu i result rfl)
    · rfl
    · exact absurd ht (hgone t)
  | makeRunnable g | interrupt g | enqueue g | startOn g cpu | block g c cancellable | wake g
  | setErrno g errno | loadRegisters g registers =>
    cases htarget
    exact onThread_stale hh hcall
  | newProcess | dropProcess | setPhase | setName | addMember | removeMember | create | exit
  | dispatch | yieldCpu | sleep | cancellableSleep | wakeup | broadcast | newChannel | setRunning
  | clearRunning => cases htarget

end Stale

section Reservations
variable {P : Type} {k₀ k k' : Kernel P SlotPool n} {r : Except Exhausted (Handle × Stack)}

/-- The slot that a call reserves, be it in vain. -/
def reserved? (k : Kernel P SlotPool n) (call : Call n) : Option Nat :=
  if call.makesThread then k.slots.alloc.1 else none

variable [PageSource P]

/-- The slots that have been reserved in a run, oldest first. -/
def reservations : Kernel P SlotPool n → List (Call n) → List Nat :=
  gather fun k call _ => (k.reserved? call).toList

theorem reserve_issues (hreserve : k.reserve.result = .ok (r, k')) :
    (k.slots.alloc.1 = none ∧ k'.machine.threads = k.machine.threads) ∨
      ∃ slot h, k.slots.alloc.1 = some slot ∧
        (k.machine.threads.issue slot).result = .ok (h, k'.machine.threads) := by
  have hslot? {slot? : Option Nat} {k₁ : Kernel P SlotPool n}
      (htake : k.takeSlot.result = .ok (slot?, k₁)) :
      k.slots.alloc.1 = slot? ∧ k₁.machine = k.machine := by
    obtain ⟨slots, halloc, rfl⟩ := takeSlot_eq_ok.mp htake
    exact ⟨congrArg Prod.fst (Except.ok.inj halloc), rfl⟩
  rcases reserve_eq_ok.mp hreserve with ⟨htake, -⟩ |
    ⟨slot, k₁, h, k₂, htake, hissue, ⟨stack, hstack, -⟩ | ⟨e, k₃, hstack, hreturn, -⟩⟩
  · obtain ⟨hnone, hmachine⟩ := hslot? htake
    exact .inl ⟨hnone, by rw [hmachine]⟩
  · obtain ⟨hslot, hmachine⟩ := hslot? htake
    obtain ⟨threads, hissued, rfl⟩ := issueHandle_eq_ok.mp hissue
    obtain ⟨pages, -, rfl⟩ := takeStack_eq_ok.mp hstack
    exact .inr ⟨slot, h, hslot, hmachine ▸ hissued⟩
  · obtain ⟨hslot, hmachine⟩ := hslot? htake
    obtain ⟨threads, hissued, rfl⟩ := issueHandle_eq_ok.mp hissue
    obtain ⟨pages, -, rfl⟩ := takeStack_eq_ok.mp hstack
    obtain ⟨slots, -, rfl⟩ := returnSlot_eq_ok.mp hreturn
    exact .inr ⟨slot, h, hslot, hmachine ▸ hissued⟩

theorem reserve_generation? (hreserve : k.reserve.result = .ok (r, k')) (i : Nat) :
    k'.machine.threads.generation? i =
      (k.machine.threads.generation? i).map (· + if k.slots.alloc.1 = some i then 1 else 0) := by
  rcases reserve_issues hreserve with ⟨hnone, hsame⟩ | ⟨slot, h, hslot, hissue⟩
  · simp [hnone, hsame]
  · simp only [hslot, Option.some.injEq, Registry.generation?_issue_slot hissue i]

/-- A call raises the generation of the slot that it reserves, and of no other. -/
theorem Turn.generation? (hk : k.Turn call reply k') (i : Nat) :
    k'.machine.threads.generation? i =
      (k.machine.threads.generation? i).map (· + if k.reserved? call = some i then 1 else 0) := by
  have hkept {k' : Kernel P SlotPool n} (hmakes : call.makesThread = false)
      (hsame : k'.machine.threads.generation? i = k.machine.threads.generation? i) :
      k'.machine.threads.generation? i = (k.machine.threads.generation? i).map
        (· + if k.reserved? call = some i then 1 else 0) := by
    simp [reserved?, hmakes, hsame]
  have hreserves {k' : Kernel P SlotPool n} {r : Except Exhausted (Handle × Stack)}
      (hmakes : call.makesThread = true) (hreserve : k.reserve.result = .ok (r, k')) :
      k'.machine.threads.generation? i = (k.machine.threads.generation? i).map
        (· + if k.reserved? call = some i then 1 else 0) := by
    rw [reserve_generation? hreserve, reserved?, if_pos hmakes]
  cases hk with
  | quiet hcall hproceeds hreply =>
    refine hkept ?_ (hproceeds.machine.threads.generation?_eq i)
    rw [← Bool.not_eq_true]
    intro hmakes
    cases (Call.isVital_of_makesThread hmakes).symm.trans hcall
  | blocked hproceeds => exact hkept rfl (hproceeds.machine.threads.generation?_eq i)
  | opened => exact hkept rfl rfl
  | refused hcall hreserve => exact hreserves hcall hreserve
  | created hreserve hhouse henlist =>
    obtain ⟨p, u, q, -, -, -, rfl⟩ := enlist_eq_ok.mp henlist
    obtain ⟨threads, hinsert, rfl⟩ := house_eq_ok.mp hhouse
    refine (Registry.generation?_modify ..).trans ?_
    rw [Registry.generation?_insert hinsert]
    exact hreserves rfl hreserve
  | cloned ht hstate hreserve hhouse =>
    obtain ⟨threads, hinsert, rfl⟩ := house_eq_ok.mp hhouse
    rw [Registry.generation?_insert hinsert]
    exact hreserves rfl hreserve
  | destroyed hdestroy =>
    obtain ⟨t, -, -, -, hk'⟩ := destroy_frame hdestroy
    rw [hk']
    exact hkept rfl (Registry.generation?_modify ..)
  | ended hcall hcpu hexit =>
    obtain ⟨h, t, u, -, -, -, -, -, -, rfl⟩ := exit_eq_ok.mp hexit
    refine hkept ?_ ?_
    · rcases hcall with rfl | rfl
      · rfl
      · rfl
    · rw [ended_threads]
      exact Registry.generation?_modify ..

/-- Generations count reservations. -/
theorem generation?_run (hk₀ : k₀.machine.threads.Named) (hrun : k₀.run calls = .ok k) (i : Nat) :
    k.machine.threads.generation? i = (k₀.machine.threads.generation? i).map
      (· + UInt32.ofNat ((reservations k₀ calls).count i)) := by
  induction hrun using run_induction with
  | start => simp [reservations, gather]
  | call k calls call reply k' hbefore hcall ih =>
    have hconcat : reservations k₀ (calls ++ [call]) =
        reservations k₀ calls ++ (k.reserved? call).toList := gather_concat hbefore hcall
    rw [(perform_turn (named_run hk₀ hbefore) hcall).generation? i, ih, hconcat, Option.map_map,
      List.count_append]
    congr 1
    funext g
    simp only [Function.comp, UInt32.ofNat_add, UInt32.add_assoc]
    congr 2
    cases k.reserved? call with
    | none => simp
    | some slot =>
      by_cases hslot : slot = i
      · simp [hslot]
      · simp [hslot]

/-- No slot wraps that is reserved less often than there are generations. -/
theorem not_wraps_of_reservations (hk₀ : k₀.machine.threads.Named)
    (hzero : ∀ i, ∀ g ∈ k₀.machine.threads.generation? i, g = 0) (hrun : k₀.run calls = .ok k)
    (hfew : ∀ i, (reservations k₀ calls).count i < UInt32.size) : ¬ Occurs Wraps k₀ calls := by
  intro hoccurs
  obtain ⟨before, call, after, k₁, reply, k₂, rfl, hbefore, hcall, i, -, g, hg, g', hg', hback⟩ :=
    occurs_iff.mp hoccurs
  have hgeneration {calls : List (Call n)} {k : Kernel P SlotPool n} {g : UInt32}
      (hrun : k₀.run calls = .ok k) (hg : g ∈ k.machine.threads.generation? i) :
      g = UInt32.ofNat ((reservations k₀ calls).count i) := by
    rw [generation?_run hk₀ hrun] at hg
    obtain ⟨g₀, hg₀, rfl⟩ := Option.map_eq_some_iff.mp hg
    rw [hzero i g₀ hg₀, UInt32.zero_add]
  have hnext : k₀.run (before ++ [call]) = .ok k₂ :=
    run_concat_eq_ok.mpr ⟨k₁, reply, hbefore, hcall⟩
  have hcount :
      (reservations k₀ before).count i ≤ (reservations k₀ (before ++ [call])).count i := by
    rw [reservations, gather_append hbefore, List.count_append]
    exact Nat.le_add_right _ _
  have htotal : (reservations k₀ (before ++ [call])).count i < UInt32.size := by
    refine Nat.lt_of_le_of_lt ?_ (hfew i)
    have hsplit : before ++ call :: after = (before ++ [call]) ++ after := by simp
    rw [hsplit, reservations, gather_append hnext, List.count_append]
    exact Nat.le_add_right _ _
  rw [hgeneration hbefore hg, hgeneration hnext hg', UInt32.lt_iff_toNat_lt, UInt32.toNat_ofNat',
    UInt32.toNat_ofNat', Nat.mod_eq_of_lt htotal,
    Nat.mod_eq_of_lt (Nat.lt_of_le_of_lt hcount htotal)] at hback
  omega

/-- Over a run of any calls in which each slot is reserved less often than there are
generations, a handle is live exactly from the call that returns it until its
destruction, no handle is returned twice, a live handle finds the thread of its name,
and a call about a handle that is not live changes nothing when it returns at all. -/
theorem handles_never_alias {config : StackConfig} {pages : P} {capacity : Nat}
    {ids : Vector UInt32 n} {hooks : Hooks} {exitClearsCpu : Bool}
    (hcapacity : capacity ≤ UInt32.size)
    (hboot : (boot config pages (SlotPool.new capacity) ids hooks exitClearsCpu).result = .ok k₀)
    (hrun : k₀.run calls = .ok k)
    (hfew : ∀ i, (reservations k₀ calls).count i < UInt32.size) :
    (∀ h, k.contains h = true ↔ ∃ before call after k₁ k₂, calls = before ++ call :: after ∧
      k₀.run before = .ok k₁ ∧ call.makesThread = true ∧
        (k₁.perform call).result = .ok (.made (.ok h), k₂) ∧ .destroy h ∉ after) ∧
    (made k₀ calls).Nodup ∧
    (∀ h t, k.thread? h = some t → t.id = h) ∧
    ∀ h call, k.contains h = false → call.target? = some h →
      (∀ i result, call = .cancel i h result → (k.machine.cpu i).thread? ≠ some h) →
        ∀ reply k', (k.perform call).result = .ok (reply, k') → k' = k := by
  have hnamed := named_boot hboot
  have hthreads : k₀.machine.threads = .new capacity := by
    obtain ⟨-, rfl⟩ := boot_eq_ok.mp hboot
    simp [SlotSource.capacity, SlotPool.capacity, SlotPool.new]
  have hbound : k₀.machine.threads.capacity ≤ UInt32.size := by
    rwa [hthreads, Registry.capacity, Registry.new, Array.size_replicate]
  have hwraps : ¬ Occurs Wraps k₀ calls := by
    refine not_wraps_of_reservations hnamed (fun i g hg => ?_) hrun hfew
    rw [hthreads] at hg
    exact Registry.generation?_new hg
  have hfresh (h : Handle) : k₀.contains h = false := by
    rw [contains, Registry.contains, hthreads, Registry.get?_new]
    rfl
  refine ⟨fun h => contains_iff_returned hnamed (hfresh h) hrun,
    (made_nodup hnamed hbound hrun hwraps).1, fun h t => (named_run hnamed hrun).id_eq, ?_⟩
  intro h call hh htarget hcpu reply k' hcall
  exact perform_stale hh htarget hcpu hcall

/-- The second clone gets the slot of the first, under another handle. -/
theorem handles_never_alias_small : ∃ k, small.run [.newProcess .zero .running,
      .create 1 ⟨"first"⟩ 0 0, .clone ⟨0, 1⟩, .destroy ⟨1, 1⟩, .clone ⟨0, 1⟩] = .ok k ∧
    (made small [.newProcess .zero .running, .create 1 ⟨"first"⟩ 0 0, .clone ⟨0, 1⟩,
      .destroy ⟨1, 1⟩, .clone ⟨0, 1⟩]).Nodup ∧
    k.contains ⟨1, 1⟩ = false ∧
    ∀ reply k', (k.perform (.cancel 0 ⟨1, 1⟩ 7)).result = .ok (reply, k') → k' = k := by
  obtain ⟨k, hrun, hseen⟩ := run_observe small
    [.newProcess .zero .running, .create 1 ⟨"first"⟩ 0 0, .clone ⟨0, 1⟩, .destroy ⟨1, 1⟩,
      .clone ⟨0, 1⟩]
    (fun k => (k.contains ⟨1, 1⟩, (k.machine.cpu 0).thread?)) (a := (false, none))
    (by decide +kernel)
  obtain ⟨hstale, hcpu⟩ := Prod.mk.inj hseen
  have hreserved : reservations small [.newProcess .zero .running, .create 1 ⟨"first"⟩ 0 0,
      .clone ⟨0, 1⟩, .destroy ⟨1, 1⟩, .clone ⟨0, 1⟩] = [0, 1, 1] := by decide +kernel
  obtain ⟨-, hnodup, -, hunchanged⟩ := handles_never_alias (by decide) boot_small hrun fun i => by
    rw [hreserved]
    exact Nat.lt_of_le_of_lt List.count_le_length (by decide)
  refine ⟨k, hrun, hnodup, hstale, hunchanged ⟨1, 1⟩ (.cancel 0 ⟨1, 1⟩ 7) hstale rfl ?_⟩
  rintro i result hcancel
  cases hcancel
  rw [hcpu]
  decide

end Reservations

end Kernel

end KernelThreads
