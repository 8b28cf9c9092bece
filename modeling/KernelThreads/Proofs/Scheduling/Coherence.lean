import KernelThreads.Proofs.Scheduling.Steps
import KernelThreads.Proofs.Thread.Occupancy
import Mathlib.Algebra.BigOperators.Group.Finset.Piecewise
import Mathlib.Data.Fintype.Basic

/-!
Where a thread stands is written twice: in its link, and in the run queue, a wait
queue or a processor. Coherence says that the two agree: each place holds a thread
as often as its link says, that is once or not at all.
-/
namespace KernelThreads

/-- The state of a thread suits its link, and a clone that awaits its process is
runnable and stands nowhere. -/
structure Thread.Sound (t : Thread) : Prop where
  scheduled : t.link = .runQueue ∨ t.link.isOnCpu = true → t.state = .runnable
  waiting : ∀ c, t.link = .waitQueue c → t.state.isSleeping = true
  cloned : t.flags.cloned = true → t.state = .runnable ∧ t.link = .unlinked

namespace Thread.Sound
variable {t u : Thread}

theorem not_cloned (ht : t.Sound) (hlink : t.link ≠ .unlinked) : t.flags.cloned = false := by
  cases hcloned : t.flags.cloned with
  | false => rfl
  | true => exact absurd (ht.cloned hcloned).2 hlink

theorem ended (ht : t.Sound) (hstate : t.state = .exited) : t.link = .unlinked := by
  cases hlink : t.link with
  | unlinked => rfl
  | runQueue => simp [ht.scheduled (.inl hlink)] at hstate
  | onCpu id => simp [ht.scheduled (.inr (by rw [hlink]; rfl))] at hstate
  | waitQueue c =>
    have hsleeping := ht.waiting c hlink
    rw [hstate] at hsleeping
    cases hsleeping

theorem ofScheduled (hlink : u.link = .runQueue ∨ u.link.isOnCpu = true)
    (hstate : u.state = .runnable) (hcloned : u.flags.cloned = false) : u.Sound where
  scheduled _ := hstate
  waiting c hwait := by
    rw [hwait] at hlink
    simp [Link.isOnCpu] at hlink
  cloned h := by
    rw [hcloned] at h
    cases h

theorem ofWaiting {c : Channel} (hlink : u.link = .waitQueue c)
    (hstate : u.state.isSleeping = true) (hcloned : u.flags.cloned = false) : u.Sound where
  scheduled h := by
    rw [hlink] at h
    simp [Link.isOnCpu] at h
  waiting _ _ := hstate
  cloned h := by
    rw [hcloned] at h
    cases h

theorem ofUnlinked (hlink : u.link = .unlinked)
    (hcloned : u.flags.cloned = true → u.state = .runnable) : u.Sound where
  scheduled h := by
    rw [hlink] at h
    simp [Link.isOnCpu] at h
  waiting c h := by
    rw [hlink] at h
    cases h
  cloned h := ⟨hcloned h, hlink⟩

theorem congr (ht : t.Sound) (hstate : u.state = t.state) (hlink : u.link = t.link)
    (hcloned : u.flags.cloned = t.flags.cloned) : u.Sound where
  scheduled h := hstate.trans (ht.scheduled (hlink ▸ h))
  waiting c h := by
    rw [hstate]
    exact ht.waiting c (hlink ▸ h)
  cloned h := by
    rw [hstate, hlink]
    exact ht.cloned (hcloned ▸ h)

end Thread.Sound

/-- `c` has this id and runs `h`. -/
def Cpu.runs (c : Cpu) (id : UInt32) (h : Handle) : Bool := c.id = id ∧ c.thread? = some h

theorem Cpu.runs_iff {c : Cpu} {id : UInt32} {h : Handle} :
    c.runs id h = true ↔ c.id = id ∧ c.thread? = some h := decide_eq_true_iff

namespace Machine

open Finset

variable {n : Nat} {m p : Machine n} {i : Fin n} {h k : Handle} {t u : Thread} {c : Channel}
  {l : Link}

/-- How often `h` stands in the place that a link names. -/
def held (m : Machine n) (h : Handle) : Link → Nat
  | .unlinked => 0
  | .runQueue => m.queues.run.count h
  | .onCpu id => #{i | (m.cpu i).runs id h}
  | .waitQueue c => ((m.queues.waiters? c).getD []).count h

/-- 1 if the thread that `h` names has the link `l`, and 0 otherwise. -/
def linked (m : Machine n) (h : Handle) (l : Link) : Nat :=
  if (m.threads.get? h).map (·.link) = some l then 1 else 0

structure Coherent (m : Machine n) : Prop where
  named : m.threads.Named
  sound : ∀ h t, m.threads.get? h = some t → t.Sound
  held_eq : ∀ h l, l ≠ .unlinked → m.held h l = m.linked h l
  served : ∀ i r, (m.cpu i).running = some r →
    ∃ t, m.threads.get? r.thread = some t ∧ t.process = r.process

/-- What one occurrence of `h` in the place `l` adds for `k` in the place `j`. -/
def tally (h k : Handle) (l j : Link) : Nat := if h = k ∧ l = j then 1 else 0

theorem tally_unlinked (h k : Handle) (hl : l ≠ .unlinked) : tally h k .unlinked l = 0 :=
  if_neg fun e => hl e.2.symm

section Held

theorem held_push (h k : Handle) (t : Thread) (q : Queues) (x : Handle) :
    (m.put h t (q.push x)).held k l = (m.put h t q).held k l + tally x k .runQueue l := by
  cases l with
  | runQueue =>
    simp only [held, put_queues, Queues.push, List.count_append, tally, and_true]
    by_cases e : x = k <;> simp [e]
  | unlinked => simp [held, tally]
  | onCpu id =>
    simp only [tally, reduceCtorEq, and_false, if_false, Nat.add_zero]
    rfl
  | waitQueue c => simp [held, tally, Queues.push, Queues.waiters?]

theorem held_pop {rest : List Handle} (hrun : m.queues.run = h :: rest) (t : Thread) :
    (m.put h t { m.queues with run := rest }).held k l + tally h k .runQueue l = m.held k l := by
  cases l with
  | runQueue =>
    simp only [held, put_queues, hrun, List.count_cons, tally, and_true, beq_iff_eq]
  | unlinked => simp [held, tally]
  | onCpu id =>
    simp only [tally, reduceCtorEq, and_false, if_false, Nat.add_zero]
    rfl
  | waitQueue d => simp [held, tally, Queues.waiters?]

/-- Waiters are pushed and taken out one at a time, each with its count. -/
theorem held_setWaiters {hs : List Handle} (hc : m.queues.waiters? c = some hs)
    (t : Thread) (hs' : List Handle) :
    (m.put h t (m.queues.setWaiters c hs')).held k l +
        (if l = .waitQueue c then hs.count k else 0) =
      m.held k l + if l = .waitQueue c then hs'.count k else 0 := by
  cases l with
  | waitQueue d =>
    simp only [held, put_queues, Queues.waiters?_setWaiters, Link.waitQueue.injEq]
    by_cases e : c = d
    · subst e
      simp [hc, Nat.add_comm]
    · simp [e, Ne.symm e]
  | unlinked => simp [held]
  | runQueue => simp [held, Queues.setWaiters]
  | onCpu id =>
    rw [if_neg (by simp), if_neg (by simp)]
    rfl

theorem held_await {hs : List Handle} (hc : m.queues.waiters? c = some hs) (t : Thread) :
    (m.put h t (m.queues.setWaiters c (hs ++ [h]))).held k l =
      m.held k l + tally h k (.waitQueue c) l := by
  have hmoved := held_setWaiters (h := h) (k := k) (l := l) hc t (hs ++ [h])
  simp only [List.count_append, List.count_singleton, beq_iff_eq] at hmoved
  unfold tally
  by_cases hl : l = .waitQueue c
  · subst hl
    simp only [if_true, and_true] at hmoved ⊢
    omega
  · simp only [if_neg hl, Ne.symm hl, and_false, if_false] at hmoved ⊢
    omega

theorem held_leave {hs rest : List Handle} (hc : m.queues.waiters? c = some hs)
    (hrest : hs.Perm (h :: rest)) (t : Thread) :
    (m.put h t (m.queues.setWaiters c rest)).held k l + tally h k (.waitQueue c) l =
      m.held k l := by
  have hmoved := held_setWaiters (h := h) (k := k) (l := l) hc t rest
  have hcount := hrest.count_eq k
  rw [List.count_cons] at hcount
  simp only [beq_iff_eq] at hcount
  unfold tally
  by_cases hl : l = .waitQueue c
  · subst hl
    simp only [if_true, and_true] at hmoved ⊢
    omega
  · simp only [if_neg hl, Ne.symm hl, and_false, if_false] at hmoved ⊢
    omega

theorem held_put (t : Thread) : (m.put h t m.queues).held k l = m.held k l := by
  cases l <;> rfl

theorem card_setCpu (m : Machine n) (i : Fin n) (c : Cpu) (id : UInt32) :
    #{j | ((m.setCpu i c).cpu j).runs id k} + (if (m.cpu i).runs id k then 1 else 0) =
      #{j | (m.cpu j).runs id k} + if c.runs id k then 1 else 0 := by
  have hrest : ∑ j ∈ univ.erase i, (if ((m.setCpu i c).cpu j).runs id k then 1 else 0) =
      ∑ j ∈ univ.erase i, if (m.cpu j).runs id k then 1 else 0 := by
    apply sum_congr rfl
    intro j hj
    rw [cpu_setCpu, if_neg (ne_of_mem_erase hj).symm]
  have hnew := add_sum_erase univ (fun j => if ((m.setCpu i c).cpu j).runs id k then 1 else 0)
    (mem_univ i)
  have hold := add_sum_erase univ (fun j => if (m.cpu j).runs id k then 1 else 0) (mem_univ i)
  rw [cpu_setCpu, if_pos rfl] at hnew
  rw [card_filter, card_filter]
  omega

theorem held_clearCpu (hi : (m.cpu i).thread? = some h) :
    (m.clearCpu i).held k l + tally h k (.onCpu (m.cpu i).id) l = m.held k l := by
  cases l with
  | onCpu id =>
    have hcard := card_setCpu (k := k) m i (m.cpu i).clear id
    have hclear : (m.cpu i).clear.runs id k = false := by simp [Cpu.runs, Cpu.clear, Cpu.thread?]
    have hrun : (m.cpu i).runs id k = true ↔ h = k ∧ (m.cpu i).id = id := by
      simp [Cpu.runs, hi, and_comm]
    simp only [hclear, hrun, Bool.false_eq_true, if_false, Nat.add_zero] at hcard
    simp only [tally, Link.onCpu.injEq]
    exact hcard
  | unlinked => simp [held, tally]
  | runQueue => simp [held, tally]
  | waitQueue c => simp [held, tally]

theorem held_run (hi : (m.cpu i).thread? = none) (process : Option ProcessId) :
    (m.setCpu i ((m.cpu i).run h process)).held k l =
      m.held k l + tally h k (.onCpu (m.cpu i).id) l := by
  cases l with
  | onCpu id =>
    have hcard := card_setCpu (k := k) m i ((m.cpu i).run h process) id
    have hidle : (m.cpu i).runs id k = false := by simp [Cpu.runs, hi]
    have hrun : ((m.cpu i).run h process).runs id k = true ↔ h = k ∧ (m.cpu i).id = id := by
      simp [Cpu.runs, Cpu.run, Cpu.thread?, and_comm]
    simp only [hidle, hrun, Bool.false_eq_true, if_false, Nat.add_zero] at hcard
    simpa only [held, tally, Link.onCpu.injEq] using hcard
  | unlinked => simp [held, tally]
  | runQueue => simp [held, tally]
  | waitQueue c => simp [held, tally]

end Held

namespace Coherent

/-- The thread of a processor is live, and knows where it runs. -/
theorem running (hm : m.Coherent) (hi : (m.cpu i).thread? = some h) :
    ∃ t, m.threads.get? h = some t ∧ t.link = .onCpu (m.cpu i).id ∧
      t.process = (m.cpu i).process? := by
  obtain ⟨r, hr, rfl⟩ := Option.map_eq_some_iff.mp hi
  obtain ⟨t, ht, hprocess⟩ := hm.served i r hr
  refine ⟨t, ht, ?_, by rw [Cpu.process?, hr]; exact hprocess⟩
  have hruns : i ∈ ({j | (m.cpu j).runs (m.cpu i).id r.thread} : Finset (Fin n)) := by
    simp [Cpu.runs, hi]
  have hpos : 0 < m.held r.thread (.onCpu (m.cpu i).id) := card_pos.mpr ⟨i, hruns⟩
  rw [hm.held_eq _ _ (by simp), linked, ht] at hpos
  by_contra hlink
  simp [hlink] at hpos

theorem running_link (hm : m.Coherent) (hi : (m.cpu i).thread? = some h)
    (ht : m.threads.get? h = some t) : t.link = .onCpu (m.cpu i).id := by
  obtain ⟨u, hu, hlink, -⟩ := hm.running hi
  cases ht.symm.trans hu
  exact hlink

theorem running_state (hm : m.Coherent) (hi : (m.cpu i).thread? = some h)
    (ht : m.threads.get? h = some t) : t.state = .runnable :=
  (hm.sound h t ht).scheduled (.inr (congrArg Link.isOnCpu (hm.running_link hi ht)))

theorem not_running (hm : m.Coherent) (ht : m.threads.get? h = some t)
    (hlink : t.link.isOnCpu = false) (i : Fin n) : (m.cpu i).thread? ≠ some h := by
  intro hi
  rw [hm.running_link hi ht] at hlink
  cases hlink

theorem held_pos_iff (hm : m.Coherent) (hl : l ≠ .unlinked) :
    0 < m.held h l ↔ ∃ t, m.threads.get? h = some t ∧ t.link = l := by
  rw [hm.held_eq h l hl, linked]
  cases ht : m.threads.get? h with
  | none => simp
  | some t => by_cases hlink : t.link = l <;> simp [hlink]

theorem held_le_one (hm : m.Coherent) (hl : l ≠ .unlinked) : m.held h l ≤ 1 := by
  rw [hm.held_eq h l hl, linked]
  split <;> simp

theorem run_nodup (hm : m.Coherent) : m.queues.run.Nodup :=
  List.nodup_iff_count_le_one.mpr fun _ => hm.held_le_one (l := .runQueue) (by simp)

theorem mem_run (hm : m.Coherent) :
    h ∈ m.queues.run ↔ ∃ t, m.threads.get? h = some t ∧ t.link = .runQueue :=
  List.count_pos_iff.symm.trans (hm.held_pos_iff (l := .runQueue) (by simp))

theorem waiters_nodup {hs : List Handle} (hm : m.Coherent) (hc : m.queues.waiters? c = some hs) :
    hs.Nodup := by
  apply List.nodup_iff_count_le_one.mpr
  intro h
  have hheld := hm.held_le_one (h := h) (l := .waitQueue c) (by simp)
  rwa [held, hc, Option.getD_some] at hheld

theorem mem_waiters {hs : List Handle} (hm : m.Coherent) (hc : m.queues.waiters? c = some hs) :
    h ∈ hs ↔ ∃ t, m.threads.get? h = some t ∧ t.link = .waitQueue c := by
  rw [← hm.held_pos_iff (by simp), held, hc, Option.getD_some, List.count_pos_iff]

/-- Nobody waits in a channel that there is not. -/
theorem waits_opened (hm : m.Coherent) (ht : m.threads.get? h = some t)
    (hlink : t.link = .waitQueue c) : (m.queues.waiters? c).isSome = true := by
  have hpos := (hm.held_pos_iff (by simp)).mpr ⟨t, ht, hlink⟩
  cases hc : m.queues.waiters? c with
  | none => simp [held, hc] at hpos
  | some hs => rfl

theorem onCpu_iff (hm : m.Coherent) (ht : m.threads.get? h = some t) (id : UInt32) :
    t.link = .onCpu id ↔ ∃ i, ((m.cpu i).thread? = some h ∧ (m.cpu i).id = id) ∧
      ∀ j, (m.cpu j).thread? = some h → j = i := by
  constructor
  · intro hlink
    have hpos := (hm.held_pos_iff (by simp)).mpr ⟨t, ht, hlink⟩
    have hone := hm.held_le_one (h := h) (l := .onCpu id) (by simp)
    obtain ⟨i, hi⟩ := card_pos.mp hpos
    obtain ⟨hid, hthread⟩ := Cpu.runs_iff.mp (mem_filter.mp hi).2
    refine ⟨i, ⟨hthread, hid⟩, fun j hj => card_le_one.mp hone j ?_ i hi⟩
    have honCpu := hm.running_link hj ht
    rw [hlink, Link.onCpu.injEq] at honCpu
    exact mem_filter.mpr ⟨mem_univ j, Cpu.runs_iff.mpr ⟨honCpu.symm, hj⟩⟩
  · rintro ⟨i, ⟨hi, rfl⟩, -⟩
    exact hm.running_link hi ht

/-- Moving `h` alone, in its link and in the places, leaves a machine coherent. -/
theorem move (hm : m.Coherent) (ht : m.threads.get? h = some t)
    (hthreads : p.threads = m.threads.set h u) (hid : u.id = t.id) (hsound : u.Sound)
    (hprocess : u.process = t.process ∨ t.link = .unlinked)
    (hheld : ∀ k l, l ≠ .unlinked →
      p.held k l + tally h k t.link l = m.held k l + tally h k u.link l)
    (hserved : ∀ i r, (p.cpu i).running = some r →
      (m.cpu i).running = some r ∨ r.thread = h ∧ r.process = u.process) : p.Coherent := by
  have hget (k : Handle) :
      p.threads.get? k = if h = k then some u else m.threads.get? k := by
    rw [hthreads, Registry.get?_set_live ht]
  refine ⟨?_, fun k v hv => ?_, fun k l hl => ?_, fun j r hr => ?_⟩
  · rw [hthreads]
    exact Registry.named_set hm.named ht hid
  · rw [hget k] at hv
    split at hv
    · cases hv
      exact hsound
    · exact hm.sound k v hv
  · have hbefore := hm.held_eq k l hl
    have hmoved := hheld k l hl
    unfold linked at hbefore ⊢
    unfold tally at hmoved
    rw [hget k]
    by_cases hk : h = k
    · subst hk
      rw [ht] at hbefore
      simp only [Option.map_some, Option.some.injEq, true_and, if_true] at hbefore hmoved ⊢
      omega
    · simp only [hk, false_and, if_false, Nat.add_zero] at hmoved ⊢
      omega
  · by_cases hk : h = r.thread
    · refine ⟨u, by rw [hget, if_pos hk], ?_⟩
      rcases hserved j r hr with hold | ⟨-, hnew⟩
      · obtain ⟨v, hv, hv'⟩ := hm.served j r hold
        cases ht.symm.trans (hk ▸ hv)
        rcases hprocess with heq | hlink
        · exact heq.trans hv'
        · refine absurd ?_ (hm.not_running ht (by rw [hlink]; rfl) j)
          rw [Cpu.thread?, hold, hk]
          rfl
      · exact hnew.symm
    · rw [hget, if_neg hk]
      rcases hserved j r hr with hold | ⟨hnew, -⟩
      · exact hm.served j r hold
      · exact absurd hnew.symm hk

/-- As `move`, where no processor changes its thread. -/
theorem put (hm : m.Coherent) (ht : m.threads.get? h = some t) (hid : u.id = t.id)
    (hsound : u.Sound) (hprocess : u.process = t.process ∨ t.link = .unlinked) {q : Queues}
    (hheld : ∀ k l, l ≠ .unlinked →
      (m.put h u q).held k l + tally h k t.link l = m.held k l + tally h k u.link l) :
    (m.put h u q).Coherent :=
  hm.move ht rfl hid hsound hprocess hheld fun _ _ hr => .inl hr

end Coherent

end Machine

end KernelThreads
