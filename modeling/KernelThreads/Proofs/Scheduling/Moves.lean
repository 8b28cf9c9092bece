import KernelThreads.Proofs.Scheduling.Coherence

/-!
Every operation of the scheduler moves threads from one place to another, link
and place together: it keeps a machine coherent.
-/
namespace KernelThreads.Machine

open Logged (demand_eq_ok)

variable {n : Nat} {m p : Machine n} {i : Fin n} {h : Handle} {t u : Thread} {c : Channel}

theorem preempt_idle (hp : (m.preempt i).result = .ok p) : (p.cpu i).thread? = none := by
  have hclear (q : Machine n) : ((q.clearCpu i).cpu i).thread? = none := by
    simp [clearCpu, cpu_setCpu, Cpu.clear, Cpu.thread?]
  rcases preempt_eq_ok.mp hp with ⟨hidle, rfl⟩ | ⟨h, -, ⟨-, rfl⟩ | ⟨t, u, q, -, -, -, rfl⟩⟩
  · exact hidle
  · exact hclear m
  · exact hclear (m.put h u q)

namespace Coherent

theorem clear_running {r : Running} {j : Fin n} (hr : ((m.clearCpu i).cpu j).running = some r) :
    (m.cpu j).running = some r := by
  rw [clearCpu, cpu_setCpu] at hr
  split at hr
  · cases hr
  · exact hr

/-- The thread of processor `i` leaves it for the place that its new link names. -/
theorem leaveCpu (hm : m.Coherent) (hi : (m.cpu i).thread? = some h)
    (ht : m.threads.get? h = some t) (hlink : t.link = .onCpu (m.cpu i).id) (hid : u.id = t.id)
    (hsound : u.Sound) (hprocess : u.process = t.process) {q : Queues}
    (hheld : ∀ k l, l ≠ .unlinked →
      (m.put h u q).held k l = m.held k l + tally h k u.link l) :
    ((m.put h u q).clearCpu i).Coherent := by
  refine hm.move ht rfl hid hsound (.inl hprocess) (fun k l hl => ?_) fun j r hr => ?_
  · rw [hlink, ← hheld k l hl]
    exact held_clearCpu (m := m.put h u q) hi
  · exact .inl (clear_running (m := m.put h u q) hr)

/-- The thread of a busy processor goes to the back of the run queue. -/
theorem preempt_eq (hm : m.Coherent) (hi : (m.cpu i).thread? = some h)
    (ht : m.threads.get? h = some t) : (m.preempt i).result =
      .ok ((m.put h { t with link := .runQueue } (m.queues.push h)).clearCpu i) := by
  have hlink := hm.running_link hi ht
  have hid : t.id = h := hm.named.id_eq ht
  have henqueue : t.enqueue.result = .ok { t with link := .runQueue } :=
    Thread.enqueue_eq_ok.mpr
      ⟨hm.running_state hi ht, .inr (congrArg Link.isOnCpu hlink), rfl⟩
  have hrunnable : (m.queues.makeRunnable t).result =
      .ok ({ t with link := .runQueue }, m.queues.push h) :=
    Queues.makeRunnable_eq_ok.mpr ⟨henqueue, congrArg m.queues.push hid⟩
  exact preempt_eq_ok.mpr (.inr ⟨h, hi, .inr ⟨t, _, _, ht, hlink, hrunnable, rfl⟩⟩)

/-- In a coherent machine no processor has a thread that is elsewhere. -/
theorem preempt_cases (hm : m.Coherent) (hp : (m.preempt i).result = .ok p) :
    ((m.cpu i).thread? = none ∧ p = m) ∨
      ∃ h t, (m.cpu i).thread? = some h ∧ m.threads.get? h = some t ∧
        p = (m.put h { t with link := .runQueue } (m.queues.push h)).clearCpu i := by
  cases hi : (m.cpu i).thread? with
  | none =>
    cases hp.symm.trans (preempt_eq_ok.mpr (.inl ⟨hi, rfl⟩))
    exact .inl ⟨rfl, rfl⟩
  | some h =>
    obtain ⟨t, ht, -⟩ := hm.running hi
    cases hp.symm.trans (hm.preempt_eq hi ht)
    exact .inr ⟨h, t, rfl, ht, rfl⟩

theorem preempt (hm : m.Coherent) (hp : (m.preempt i).result = .ok p) : p.Coherent := by
  rcases hm.preempt_cases hp with ⟨-, rfl⟩ | ⟨h, t, hi, ht, rfl⟩
  · exact hm
  · have hlink := hm.running_link hi ht
    have hstate := hm.running_state hi ht
    have hcloned := (hm.sound h t ht).not_cloned (by rw [hlink]; simp)
    refine hm.leaveCpu hi ht hlink ?_ ?_ ?_ fun k l _ => ?_
    · rfl
    · exact .ofScheduled (.inl rfl) hstate hcloned
    · rfl
    · rw [held_push, held_put]

theorem runNext {h? : Option Handle} (hm : m.Coherent) (hi : (m.cpu i).thread? = none)
    (hp : (m.runNext i).result = .ok (h?, p)) : p.Coherent := by
  rcases runNext_eq_ok.mp hp with ⟨-, -, rfl⟩ | ⟨h, rest, t, u, hrun, ht, hu, -, rfl⟩
  · exact hm
  · obtain ⟨⟨hstate, hlink⟩, hstarted⟩ := Thread.startOn_eq_ok.mp hu
    have hcloned := (hm.sound h t ht).not_cloned (by rw [hlink]; simp)
    have hsound : u.Sound := by
      rw [← hstarted]
      exact .ofScheduled (.inr rfl) hstate hcloned
    have hid : u.id = t.id := by rw [← hstarted]
    have hprocess : u.process = t.process := by rw [← hstarted]
    have honCpu : u.link = .onCpu (m.cpu i).id := by rw [← hstarted]
    refine hm.move ht rfl hid hsound (.inl hprocess) (fun k l _ => ?_) fun j r hr => ?_
    · have hpop := held_pop (k := k) (l := l) hrun u
      have hstart := held_run (h := h) (k := k) (l := l)
        (m := m.put h u { m.queues with run := rest }) hi u.process
      rw [hlink, honCpu, ← hpop, Nat.add_right_comm]
      exact congrArg (· + _) hstart
    · rw [cpu_setCpu] at hr
      split at hr
      · cases hr
        exact .inr ⟨rfl, rfl⟩
      · exact .inl hr

theorem dispatch {h? : Option Handle} (hm : m.Coherent)
    (hp : (m.dispatch i).result = .ok (h?, p)) : p.Coherent := by
  obtain ⟨q, hq, hp⟩ := dispatch_eq_ok.mp hp
  exact (hm.preempt hq).runNext (preempt_idle hq) hp

theorem yieldCpu {h? : Option Handle} (hm : m.Coherent)
    (hp : (m.yieldCpu i).result = .ok (h?, p)) : p.Coherent := by
  obtain ⟨t, -, ⟨-, -, rfl⟩ | ⟨-, hp⟩⟩ := yieldCpu_eq_ok.mp hp
  · exact hm
  · exact hm.dispatch hp

theorem block {cancellable : Bool} (hm : m.Coherent) (ht : (m.current i).result = .ok t)
    (hp : (m.block i t c cancellable).result = .ok p) : p.Coherent := by
  obtain ⟨h, hi, ht⟩ := current_eq_ok.mp ht
  obtain ⟨u, q, hq, rfl⟩ := block_eq_ok.mp hp
  obtain ⟨hs, hc, hblock, rfl⟩ := Queues.block_eq_ok.mp hq
  obtain ⟨-, rfl⟩ := Thread.block_eq_ok.mp hblock
  have hlink := hm.running_link hi ht
  have hid : t.id = h := hm.named.id_eq ht
  simp only [hid]
  have hcloned := (hm.sound h t ht).not_cloned (by rw [hlink]; simp)
  refine hm.leaveCpu hi ht hlink ?_ ?_ ?_ fun k l _ => held_await hc _
  · exact hid.symm
  · refine .ofWaiting rfl ?_ hcloned
    cases cancellable <;> rfl
  · rfl

theorem sleep (hm : m.Coherent) (hp : (m.sleep i c).result = .ok p) : p.Coherent := by
  obtain ⟨t, ht, hp⟩ := sleep_eq_ok.mp hp
  exact hm.block ht hp

theorem cancellableSleep {o : SleepOutcome} (hm : m.Coherent)
    (hp : (m.cancellableSleep i c).result = .ok (o, p)) : p.Coherent := by
  obtain ⟨t, ht, ⟨-, -, rfl⟩ | ⟨-, -, hp⟩⟩ := cancellableSleep_eq_ok.mp hp
  · exact hm
  · exact hm.block ht hp

/-- One of the waiters of `c` goes to the back of the run queue. -/
theorem unblock {hs rest : List Handle} (hm : m.Coherent) (hc : m.queues.waiters? c = some hs)
    (hrest : hs.Perm (h :: rest)) (ht : m.threads.get? h = some t) (hid : u.id = t.id)
    (hprocess : u.process = t.process) (hlink : u.link = .runQueue) (hstate : u.state = .runnable)
    (hflags : u.flags.cloned = t.flags.cloned) :
    (m.put h u ((m.queues.setWaiters c rest).push u.id)).Coherent := by
  have hpos : 0 < m.held h (.waitQueue c) := by
    simp only [held, hc, Option.getD_some]
    exact List.count_pos_iff.mpr (hrest.mem_iff.mpr List.mem_cons_self)
  obtain ⟨t', ht', hwaits⟩ := (hm.held_pos_iff (by simp)).mp hpos
  cases ht.symm.trans ht'
  have hcloned := (hm.sound h t ht).not_cloned (by rw [hwaits]; simp)
  refine hm.put ht hid (.ofScheduled (.inl hlink) hstate (hflags.trans hcloned)) (.inl hprocess)
    fun k l _ => ?_
  have hleave := held_leave (k := k) (l := l) hc hrest u
  rw [held_push, hid, hm.named.id_eq ht, hlink, hwaits]
  omega

theorem wakeThread {rest : List Handle} (hm : m.Coherent)
    (hc : m.queues.waiters? c = some (h :: rest))
    (hp : ({ m with queues := m.queues.setWaiters c rest }.wakeThread h).result = .ok p) :
    p.Coherent := by
  obtain ⟨t, u, q, ht, hq, rfl⟩ := wakeThread_eq_ok.mp hp
  obtain ⟨hwake, rfl⟩ := Queues.wake_eq_ok.mp hq
  obtain ⟨-, rfl⟩ := Thread.wake_eq_ok.mp hwake
  exact hm.unblock hc (.refl _) ht rfl rfl rfl rfl rfl

theorem wakeup {h? : Option Handle} (hm : m.Coherent)
    (hp : (m.wakeup c).result = .ok (h?, p)) : p.Coherent := by
  obtain ⟨hs, hc, ⟨-, -, rfl⟩ | ⟨h, rest, rfl, -, hp⟩⟩ := wakeup_eq_ok.mp hp
  · exact hm
  · exact hm.wakeThread hc hp

/-- One turn of a broadcast is a wakeup, as seen from a machine whose channel still holds
the waiters that the broadcast has not come to. -/
theorem wakeFirst {rest : List Handle} (hm : m.Coherent)
    (hc : m.queues.waiters? c = some (h :: rest)) :
    ∃ q : Machine n, (m.wakeup c).result = .ok (some h, q) ∧ q.queues.waiters? c = some rest ∧
      ({ m with queues := m.queues.setWaiters c [] }.wakeThread h).result =
        .ok { q with queues := q.queues.setWaiters c [] } := by
  obtain ⟨t, ht, hlink⟩ := (hm.mem_waiters hc).mp List.mem_cons_self
  let u : Thread := { t with state := .runnable, link := .runQueue }
  have hwake : t.wake.result = .ok u :=
    Thread.wake_eq_ok.mpr ⟨(hm.sound h t ht).waiting c hlink, rfl⟩
  have hturn (left : List Handle) :
      ({ m with queues := m.queues.setWaiters c left }.wakeThread h).result =
        .ok (m.put h u ((m.queues.setWaiters c left).push t.id)) :=
    wakeThread_eq_ok.mpr ⟨t, u, _, ht, Queues.wake_eq_ok.mpr ⟨hwake, rfl⟩, rfl⟩
  refine ⟨_, wakeup_eq_ok.mpr ⟨_, hc, .inr ⟨h, rest, rfl, rfl, hturn rest⟩⟩, ?_, ?_⟩
  · rw [put_queues]
    change (m.queues.setWaiters c rest).waiters? c = some rest
    rw [Queues.waiters?_setWaiters, if_pos rfl, hc]
    rfl
  · rw [hturn []]
    exact congrArg (fun q => Except.ok (m.put h u (q.push t.id)))
      (Queues.setWaiters_setWaiters m.queues c rest []).symm

/-- A broadcast wakes every waiter, whoever they are. -/
theorem wakeAll {hs : List Handle} (hm : m.Coherent) (hc : m.queues.waiters? c = some hs) :
    ∃ p, (hs.foldlM Machine.wakeThread
      { m with queues := m.queues.setWaiters c [] }).result = .ok p ∧ p.Coherent := by
  induction hs generalizing m with
  | nil =>
    refine ⟨m, ?_, hm⟩
    rw [Queues.setWaiters_self hc]
    rfl
  | cons h rest ih =>
    obtain ⟨q, hwakeup, hrest, hfirst⟩ := hm.wakeFirst hc
    obtain ⟨p, hp, hcoherent⟩ := ih (hm.wakeup hwakeup) hrest
    exact ⟨p, foldlM_wakeThread_cons.mpr ⟨_, hfirst, hp⟩, hcoherent⟩

theorem broadcast {count : Nat} (hm : m.Coherent)
    (hp : (m.broadcast c).result = .ok (count, p)) : p.Coherent := by
  obtain ⟨hs, hc, -, hp⟩ := broadcast_eq_ok.mp hp
  obtain ⟨p', hp', hcoherent⟩ := hm.wakeAll hc
  cases hp.symm.trans hp'
  exact hcoherent

/-- Its exit takes a thread off its processor and puts it nowhere. -/
theorem exit (hm : m.Coherent) (hi : (m.cpu i).thread? = some h) (ht : m.threads.get? h = some t)
    (hid : u.id = t.id) (hprocess : u.process = t.process) (hlink : u.link = .unlinked)
    (hflags : u.flags.cloned = t.flags.cloned) : ((m.setThread h u).clearCpu i).Coherent := by
  have honCpu := hm.running_link hi ht
  have hcloned := (hm.sound h t ht).not_cloned (by rw [honCpu]; simp)
  have hsound : u.Sound := .ofUnlinked hlink (by simp [hflags, hcloned])
  apply hm.leaveCpu (q := m.queues) hi ht honCpu hid hsound hprocess
  intro k l hl
  rw [held_put, hlink, tally_unlinked h k hl, Nat.add_zero]

theorem perm_filter {hs : List Handle} (hone : hs.count h = 1) :
    hs.Perm (h :: hs.filter (· ≠ h)) := by
  apply List.perm_iff_count.mpr
  intro k
  rw [List.count_cons]
  by_cases hk : h = k
  · subst hk
    rw [hone, List.count_eq_zero_of_not_mem (by simp)]
    simp
  · rw [List.count_filter (by simpa using Ne.symm hk)]
    simp [hk]

/-- A request alone moves no thread; where it ends a sleep, the thread wakes. -/
theorem interrupt {v : Thread} {q : Queues} (hm : m.Coherent) (ht : m.threads.get? h = some t)
    (hid : v.id = t.id) (hprocess : v.process = t.process) (hlink : v.link = t.link)
    (hstate : v.state = t.state) (hflags : v.flags.cloned = t.flags.cloned)
    (hu : (m.queues.interrupt v).result = .ok (u, q)) : (m.put h u q).Coherent := by
  have hname : v.id = h := hid.trans (hm.named.id_eq ht)
  rcases Queues.interrupt_eq_ok.mp hu with ⟨c, hs, -, hwaits, hc, hwoken⟩ | ⟨-, rfl, rfl⟩
  · obtain ⟨hwake, rfl⟩ := Queues.wake_eq_ok.mp hwoken
    obtain ⟨-, rfl⟩ := Thread.wake_eq_ok.mp hwake
    have hone : hs.count h = 1 := by
      have hheld := hm.held_eq h (.waitQueue c) (by simp)
      simpa [held, hc, linked, ht, ← hlink, hwaits] using hheld
    have hrest : hs.Perm (h :: hs.filter (· ≠ v.id)) := by
      rw [hname]
      exact perm_filter hone
    exact hm.unblock (u := { v with state := .runnable, link := .runQueue }) hc hrest ht hid
      hprocess rfl rfl hflags
  · refine hm.put ht hid ((hm.sound h t ht).congr hstate hlink hflags) (.inl hprocess)
      fun k l _ => ?_
    rw [held_put, hlink]

/-- The live threads change, but only by threads that stand nowhere. -/
theorem replace {s : Registry} (hm : m.Coherent) (hs : s.Named)
    (hget : ∀ h, s.get? h = m.threads.get? h ∨
      (∀ t, m.threads.get? h = some t → t.link = .unlinked) ∧
        ∀ t, s.get? h = some t → t.link = .unlinked ∧ t.Sound) :
    { m with threads := s }.Coherent := by
  refine ⟨hs, fun h t ht => ?_, fun h l hl => ?_, fun i r hr => ?_⟩
  · rcases hget h with hsame | ⟨-, hafter⟩
    · exact hm.sound h t (hsame ▸ ht)
    · exact (hafter t ht).2
  · have hheld := hm.held_eq h l hl
    apply (show held { m with threads := s } h l = m.held h l by cases l <;> rfl).trans
    rw [hheld]
    unfold linked
    rcases hget h with hsame | ⟨hbefore, hafter⟩
    · rw [hsame]
    · rw [if_neg, if_neg]
      · intro hlink
        obtain ⟨t, ht, rfl⟩ := Option.map_eq_some_iff.mp hlink
        exact hl (hafter t ht).1
      · intro hlink
        obtain ⟨t, ht, rfl⟩ := Option.map_eq_some_iff.mp hlink
        exact hl (hbefore t ht)
  · have hi : (m.cpu i).thread? = some r.thread := Option.map_eq_some_iff.mpr ⟨r, hr, rfl⟩
    obtain ⟨t, ht, honCpu, -⟩ := hm.running hi
    rcases hget r.thread with hsame | ⟨hbefore, -⟩
    · exact hsame ▸ hm.served i r hr
    · rw [hbefore t ht] at honCpu
      cases honCpu

theorem idle (capacity : Nat) (ids : Vector UInt32 n) :
    Coherent ⟨.new capacity, {}, ids.map fun id => { id := id }⟩ := by
  have hcpu (i : Fin n) :
      (cpu ⟨.new capacity, {}, ids.map fun id => { id := id }⟩ i).running = none := by
    simp [cpu]
  refine ⟨Registry.named_new capacity, fun h t ht => ?_, fun h l hl => ?_, fun i r hr => ?_⟩
  · rw [Registry.get?_new] at ht
    cases ht
  · rw [linked, Registry.get?_new]
    cases l with
    | unlinked => exact absurd rfl hl
    | runQueue => rfl
    | onCpu id => simp [held, Cpu.runs, Cpu.thread?, hcpu]
    | waitQueue c =>
      have hnone : ({} : Queues).waiters? c = none := by
        unfold Queues.waiters?
        cases c.number <;> rfl
      simp [held, hnone]
  · rw [hcpu] at hr
    cases hr

theorem newChannel (hm : m.Coherent) :
    { m with queues := m.queues.newChannel.2 }.Coherent := by
  refine ⟨hm.named, hm.sound, fun h l hl => ?_, hm.served⟩
  refine Eq.trans ?_ (hm.held_eq h l hl)
  cases l with
  | waitQueue c =>
    simp only [held, Queues.waiters?_newChannel]
    split
    case isTrue hnew =>
      rw [hnew, Queues.waiters?_unopened]
      rfl
    case isFalse => rfl
  | unlinked => rfl
  | runQueue => rfl
  | onCpu id => rfl

end Coherent

end KernelThreads.Machine
