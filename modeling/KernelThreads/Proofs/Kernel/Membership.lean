import KernelThreads.Proofs.Kernel.Effects
import KernelThreads.Proofs.Kernel.Lasting

/-!
Who is on the list of members of a process. A call takes off it the thread that it
destroys, and puts at its end the thread that it lets join. While all calls go through
the life cycle, only live threads of the process are on it, each once.
-/
namespace KernelThreads

/-- The threads that join process `pid`. -/
def Call.newcomers {n : Nat} (pid : ProcessId) : Call n → Reply → List Handle
  | .create pid' _ _ _, .made (.ok h) => if pid' = pid then [h] else []
  | .attach h pid', _ => if pid' = pid then [h] else []
  | _, _ => []

/-- Destroys another thread than `h`, or none. -/
def Call.spares {n : Nat} (h : Handle) : Call n → Bool
  | .destroy g => h != g
  | _ => true

/-- No call both takes a thread off a list and puts one on it. -/
theorem Call.spares_of_newcomers {n : Nat} {pid : ProcessId} {call : Call n} {reply : Reply}
    (hnew : call.newcomers pid reply ≠ []) (h : Handle) : call.spares h = true := by
  cases call with
  | destroy g => exact absurd rfl hnew
  | _ => rfl

namespace Processes
variable {ps : Processes} {pid : ProcessId} {p : Process}

/-- How many processes there have been. -/
def count (ps : Processes) : Nat := ps.entries.size

theorem le_count (hp : ps.get? pid = some p) : pid ≤ ps.count := by
  cases pid with
  | zero => exact Nat.zero_le _
  | succ i =>
    have hentry : ps.entries.items[i]? = some (some p) := Option.join_eq_some_iff.mp hp
    exact (List.getElem?_eq_some_iff.mp hentry).1

@[simp] theorem count_set (ps : Processes) (pid : ProcessId) (p : Process) :
    (ps.set pid p).count = ps.count := by
  unfold set
  split
  case isTrue => exact Numbered.size_set ps.entries pid (some p)
  case isFalse => rfl

@[simp] theorem count_drop (ps : Processes) (pid : ProcessId) : (ps.drop pid).count = ps.count :=
  Numbered.size_set ps.entries pid none

@[simp] theorem count_without (ps : Processes) (h : Handle) (pid? : Option ProcessId) :
    (ps.without h pid?).count = ps.count := by
  unfold without
  cases pid? with
  | none => rfl
  | some pid =>
    cases hp : ps.get? pid with
    | none => simp [hp]
    | some p => simp [hp]

/-- A new process gets the next number. -/
theorem count_add (ps : Processes) (p : Process) :
    (ps.add p).1 = ps.count + 1 ∧ (ps.add p).2.count = ps.count + 1 := by
  simp [add, count, Numbered.add, Numbered.size]

end Processes

namespace Kernel

variable {P O : Type} {n : Nat} {k₀ k k' : Kernel P O n} {call : Call n} {calls : List (Call n)}
  {reply : Reply} {h : Handle} {pid : ProcessId} {p p' : Process}

/-- Every list of members names live threads of its process, each of them once. -/
def Enrolled (k : Kernel P O n) : Prop :=
  ∀ pid p, k.processes.get? pid = some p → p.members.Nodup ∧
    ∀ h ∈ p.members, ∃ t, k.thread? h = some t ∧ t.process = some pid

/-- What a call leaves behind as process `pid`. -/
inductive Succeeds (k : Kernel P O n) (call : Call n) (reply : Reply) (pid : ProcessId)
    (p' : Process) : Prop
  | kept {p : Process} (hp : k.processes.get? pid = some p)
      (hdirectory : p'.directory = p.directory)
      (hphase : p'.phase = p.phase ∨ ∃ phase, call = .setPhase pid phase)
      (hmembers : p'.members = p.members.filter (call.spares ·) ++ call.newcomers pid reply)
  | founded (hnew : k.processes.count < pid) (hmembers : p'.members = [])

namespace Succeeds

theorem same (hp' : k.processes.get? pid = some p') (hspares : ∀ h, call.spares h = true)
    (hnew : call.newcomers pid reply = []) : k.Succeeds call reply pid p' := by
  refine .kept hp' rfl (.inl rfl) ?_
  rw [hnew, List.append_nil, List.filter_eq_self.mpr fun h _ => hspares h]

/-- One process becomes `q`, and all others stay as they are. -/
theorem updated {pid₀ : ProcessId} {q : Process} {ps : Processes}
    (hp : k.processes.get? pid₀ = some p) (hps : ps = k.processes.set pid₀ q)
    (hq : k.Succeeds call reply pid₀ q) (hspares : ∀ h, call.spares h = true)
    (hnew : ∀ pid, pid₀ ≠ pid → call.newcomers pid reply = [])
    (hp' : ps.get? pid = some p') : k.Succeeds call reply pid p' := by
  rw [hps, Processes.get?_set, hp] at hp'
  split at hp'
  case isTrue hpid =>
    subst hpid
    cases hp'
    exact hq
  case isFalse hpid => exact .same hp' hspares (hnew pid hpid)

/-- The thread `h` joins process `pid₀`. -/
theorem joined {pid₀ : ProcessId} {ps : Processes} (hp : k.processes.get? pid₀ = some p)
    (hps : ps = k.processes.set pid₀ { p with members := p.members ++ [h] })
    (hspares : ∀ h, call.spares h = true)
    (hnew : ∀ pid, call.newcomers pid reply = if pid₀ = pid then [h] else [])
    (hp' : ps.get? pid = some p') : k.Succeeds call reply pid p' := by
  refine .updated hp hps (.kept hp rfl (.inl rfl) ?_) hspares
    (fun pid hpid => (hnew pid).trans (if_neg hpid)) hp'
  rw [hnew, if_pos rfl, List.filter_eq_self.mpr fun h _ => hspares h]

end Succeeds

namespace Effect

/-- The number of processes never goes down. -/
theorem count_le (hk : k.Effect call reply k') : k.processes.count ≤ k'.processes.count := by
  cases hk with
  | scheduled hm => exact Nat.le_refl _
  | founded directory phase =>
    rw [(Processes.count_add k.processes { directory, phase }).2]
    exact Nat.le_succ _
  | dropped pid => simp
  | phased phase hp => simp
  | named name hp => simp
  | refused hcall hk => simp [hk.processes]
  | created hp haccepts hvacant hfree hcontext hq hk => simp [hk.processes]
  | cloned ht hstate hvacant hcontext hk => simp [hk.processes]
  | attached hp ht hclone hplace hfree hq hk => simp [hk.processes]
  | destroyed ht hstate hlink hk => simp [hk.processes]
  | ended hcall hcpu ht hlink hfinish hk => simp [hk.processes]
  | asked hcpu ht hstate hq hk => simp [hk.processes]
  | ignored htarget => exact Nat.le_refl _
  | noted ht hk => simp [hk.processes]
  | loaded ht hk => simp [hk.processes]
  | missed hcall hgone => exact Nat.le_refl _

/-- A list of members keeps its order, and whoever joins comes last. -/
theorem succeeds (hk : k.Effect call reply k') (henrolled : k.Enrolled)
    (hp' : k'.processes.get? pid = some p') : k.Succeeds call reply pid p' := by
  cases hk with
  | scheduled hm => exact .same hp' (by cases hm <;> simp [Call.spares]) (by cases hm <;> rfl)
  | founded directory phase =>
    replace hp' := (Processes.get?_add k.processes { directory, phase } pid).symm.trans hp'
    split at hp'
    case isTrue hpid =>
      cases hp'
      refine .founded ?_ rfl
      rw [hpid, (Processes.count_add k.processes { directory, phase }).1]
      exact Nat.lt_succ_self _
    case isFalse => exact .same hp' (fun _ => rfl) rfl
  | dropped pid₀ =>
    rw [Processes.get?_drop] at hp'
    split at hp'
    case isTrue => cases hp'
    case isFalse => exact .same hp' (fun _ => rfl) rfl
  | phased phase hp =>
    refine .updated hp rfl ?_ (fun _ => rfl) (fun _ _ => rfl) hp'
    exact .kept hp rfl (.inr ⟨phase, rfl⟩) (by simp [Call.spares, Call.newcomers])
  | named name hp =>
    refine .updated hp rfl ?_ (fun _ => rfl) (fun _ _ => rfl) hp'
    exact .kept hp rfl (.inl rfl) (by simp [Call.spares, Call.newcomers])
  | refused hcall hk =>
    rw [hk.processes] at hp'
    cases call with
    | create pid entry arg1 arg2 => exact .same hp' (fun _ => rfl) rfl
    | clone source => exact .same hp' (fun _ => rfl) rfl
    | _ => cases hcall
  | created hp haccepts hvacant hfree hcontext hq hk =>
    exact .joined hp hk.processes (fun _ => rfl) (fun _ => rfl) hp'
  | cloned ht hstate hvacant hcontext hk =>
    rw [hk.processes] at hp'
    exact .same hp' (fun _ => rfl) rfl
  | attached hp ht hclone hplace hfree hq hk =>
    exact .joined hp hk.processes (fun _ => rfl) (fun _ => rfl) hp'
  | @destroyed h t _ ht hstate hlink hk =>
    rw [hk.processes, Processes.get?_without, Option.map_eq_some_iff] at hp'
    obtain ⟨p, hp, rfl⟩ := hp'
    obtain ⟨hnodup, hlive⟩ := henrolled pid p hp
    split
    case isTrue hpid =>
      refine .kept hp rfl (.inl rfl) ?_
      simp only [Call.newcomers, List.append_nil, Call.spares]
      exact hnodup.erase_eq_filter h
    case isFalse hpid =>
      refine .kept hp rfl (.inl rfl) ?_
      simp only [Call.newcomers, List.append_nil, Call.spares]
      symm
      apply List.filter_eq_self.mpr
      intro g hg
      rw [bne_iff_ne]
      rintro rfl
      obtain ⟨u, hu, hprocess⟩ := hlive g hg
      cases ht.symm.trans hu
      exact hpid hprocess
  | ended hcall hcpu ht hlink hfinish hk =>
    rw [hk.processes] at hp'
    rcases hcall with rfl | rfl
    · exact .same hp' (fun _ => rfl) rfl
    · exact .same hp' (fun _ => rfl) rfl
  | asked hcpu ht hstate hq hk =>
    rw [hk.processes] at hp'
    exact .same hp' (fun _ => rfl) rfl
  | ignored htarget => exact .same hp' (fun _ => rfl) rfl
  | noted ht hk =>
    rw [hk.processes] at hp'
    exact .same hp' (fun _ => rfl) rfl
  | loaded ht hk =>
    rw [hk.processes] at hp'
    exact .same hp' (fun _ => rfl) rfl
  | missed hcall hgone =>
    rcases hcall with ⟨errno, rfl⟩ | ⟨registers, rfl⟩
    · exact .same hp' (fun _ => rfl) rfl
    · exact .same hp' (fun _ => rfl) rfl

/-- Who joins a process was no member of it, has found it open or is attached to it, and is
live in it then. -/
theorem newcomer (hk : k.Effect call reply k') (hh : h ∈ call.newcomers pid reply) :
    ∃ p, k.processes.get? pid = some p ∧ h ∉ p.members ∧ call.newcomers pid reply = [h] ∧
      (p.phase.acceptsThreads = true ∨ call = .attach h pid) ∧
        ∃ t, k'.thread? h = some t ∧ t.process = some pid := by
  cases hk with
  | @created pid₀ _ _ _ p g _ _ u _ _ hp haccepts hvacant hfree hcontext hq hk =>
    by_cases hpid : pid₀ = pid
    · subst hpid
      simp only [Call.newcomers, if_true, List.mem_singleton] at hh ⊢
      subst hh
      exact ⟨p, hp, hfree, rfl, .inl haccepts, u, (hk.thread? h).trans (if_pos rfl),
        (Hooks.makeRunnable_becomes hq).1.process_eq rfl⟩
    · simp [Call.newcomers, hpid] at hh
  | @attached g pid₀ p _ u _ _ hp ht hclone hplace hfree hq hk =>
    by_cases hpid : pid₀ = pid
    · subst hpid
      simp only [Call.newcomers, if_true, List.mem_singleton] at hh ⊢
      subst hh
      exact ⟨p, hp, hfree, rfl, .inr rfl, u, (hk.thread? h).trans (if_pos rfl),
        (Hooks.makeRunnable_becomes hq).1.process_eq rfl⟩
    · simp [Call.newcomers, hpid] at hh
  | scheduled hm => cases hm <;> cases hh
  | refused hcall hk =>
    cases call with
    | create pid entry arg1 arg2 => cases hh
    | clone source => cases hh
    | _ => cases hcall
  | ended hcall hcpu ht hlink hfinish hk => rcases hcall with rfl | rfl <;> cases hh
  | missed hcall hgone => rcases hcall with ⟨errno, rfl⟩ | ⟨registers, rfl⟩ <;> cases hh
  | _ => cases hh

end Effect

namespace Enrolled
variable [SlotSource O] {config : StackConfig} {pages : P} {slots : O} {ids : Vector UInt32 n}
  {hooks : Hooks} {exitClearsCpu : Bool}

theorem boot (hboot : (Kernel.boot config pages slots ids hooks exitClearsCpu).result = .ok k) :
    k.Enrolled := by
  obtain ⟨-, rfl⟩ := boot_eq_ok.mp hboot
  intro pid p hp
  cases pid with
  | zero => cases hp
  | succ i => cases hp

variable [PageSource P]

/-- Who stays on a list stays live in the process, and who joins is live in it then. -/
theorem perform (hk : k.Enrolled) (hnamed : k.machine.threads.Named)
    (hmanaged : call.isManaged = true) (hcall : (k.perform call).result = .ok (reply, k')) :
    k'.Enrolled := by
  have heffect := perform_effect hnamed hmanaged hcall
  intro pid p' hp'
  cases heffect.succeeds hk hp' with
  | founded hnew hmembers =>
    rw [hmembers]
    exact ⟨List.nodup_nil, List.forall_mem_nil _⟩
  | @kept p hp hdirectory hphase hmembers =>
    obtain ⟨hnodup, hlive⟩ := hk pid p hp
    have hstays (h : Handle) (hh : h ∈ p.members.filter (call.spares ·)) :
        ∃ u, k'.thread? h = some u ∧ u.process = some pid := by
      obtain ⟨hmember, hspares⟩ := List.mem_filter.mp hh
      obtain ⟨t, ht, hpid⟩ := hlive h hmember
      have hkept : call ≠ .destroy h := by
        rintro rfl
        simp [Call.spares] at hspares
      obtain ⟨u, hu, hbecomes | ⟨result, hfinish⟩⟩ :=
        (perform_transition hnamed hcall).stays ht hkept
      · exact ⟨u, hu, hbecomes.process_eq hpid⟩
      · obtain ⟨-, rfl⟩ := Thread.finish_eq_ok.mp hfinish
        exact ⟨_, hu, hpid⟩
    rw [hmembers]
    refine ⟨List.nodup_append.mpr ⟨hnodup.filter _, ?once, fun g hold h hnew => ?apart⟩, ?live⟩
    case once =>
      cases hnew : call.newcomers pid reply with
      | nil => exact List.nodup_nil
      | cons h rest =>
        obtain ⟨-, -, -, hone, -⟩ := heffect.newcomer (hnew ▸ List.mem_cons_self)
        rw [← hnew, hone]
        exact List.nodup_cons.mpr ⟨List.not_mem_nil, List.nodup_nil⟩
    case apart =>
      rintro rfl
      obtain ⟨q, hq, hfree, -⟩ := heffect.newcomer hnew
      cases hp.symm.trans hq
      exact hfree (List.mem_of_mem_filter hold)
    case live =>
      intro h hh
      rcases List.mem_append.mp hh with hold | hnew
      · exact hstays h hold
      · obtain ⟨-, -, -, -, -, hlive⟩ := heffect.newcomer hnew
        exact hlive

theorem run (hk₀ : k₀.Enrolled) (hnamed : k₀.machine.threads.Named)
    (hmanaged : ∀ call ∈ calls, call.isManaged = true) (hrun : k₀.run calls = .ok k) :
    k.Enrolled := by
  induction hrun, hmanaged using managed_induction with
  | start => exact hk₀
  | call k₁ calls call reply k' hbefore hearlier hnext hcall ih =>
    exact ih.perform (named_run hnamed hbefore) hnext hcall

end Enrolled

end Kernel

end KernelThreads
