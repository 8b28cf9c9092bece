import KernelThreads.Proofs.Scheduling.Moves

/-!
In which order threads come and go. Whoever enters a queue comes last; the run queue
loses its first thread to a processor, a wait queue loses its first thread to a wakeup
and all of them to a broadcast. Nothing else happens to the threads in a queue.
-/
namespace KernelThreads

/-- Of a channel that there is not, nobody. -/
def Queues.waiters (q : Queues) (c : Channel) : List Handle := (q.waiters? c).getD []

namespace Queues
variable {q : Queues} {c : Channel} {hs : List Handle}

theorem waiters_eq (hc : q.waiters? c = some hs) : q.waiters c = hs := by
  rw [waiters, hc, Option.getD_some]

theorem waiters_setWaiters (hc : q.waiters? c = some hs) (hs' : List Handle) (d : Channel) :
    (q.setWaiters c hs').waiters d = if c = d then hs' else q.waiters d := by
  rw [waiters, waiters?_setWaiters, hc]
  split <;> rfl

@[simp] theorem waiters_push (q : Queues) (h : Handle) (c : Channel) :
    (q.push h).waiters c = q.waiters c := rfl

/-- Nobody waits in a new channel. -/
@[simp] theorem waiters_newChannel (q : Queues) (c : Channel) :
    q.newChannel.2.waiters c = q.waiters c := by
  unfold waiters
  rw [waiters?_newChannel]
  split
  case isTrue hnew =>
    rw [hnew, waiters?_unopened]
    rfl
  case isFalse => rfl

end Queues

namespace Machine

variable {n : Nat} {m p : Machine n} {i : Fin n} {g h : Handle} {t u : Thread} {c : Channel}
  {q : Queues} {h? : Option Handle} {hs : List Handle}

/-- The waiters of all channels stay where they are, as the threads that they are. -/
structure Undisturbed (m p : Machine n) : Prop where
  waiting : ∀ c, p.queues.waiters c = m.queues.waiters c
  waiters : ∀ g t c, m.threads.get? g = some t → t.link = .waitQueue c →
    p.threads.get? g = some t

namespace Undisturbed

theorem refl (m : Machine n) : m.Undisturbed m := ⟨fun _ => rfl, fun _ _ _ ht _ => ht⟩

theorem trans {r : Machine n} (hmp : m.Undisturbed p) (hpr : p.Undisturbed r) :
    m.Undisturbed r where
  waiting c := (hpr.waiting c).trans (hmp.waiting c)
  waiters g t c ht hlink := hpr.waiters g t c (hmp.waiters g t c ht hlink) hlink

/-- A thread that does not wait is replaced. -/
theorem put (ht : m.threads.get? h = some t) (hlink : ∀ c, t.link ≠ .waitQueue c) (u : Thread)
    (hq : ∀ c, q.waiters c = m.queues.waiters c) : m.Undisturbed (m.put h u q) := by
  refine ⟨hq, fun g v c hv hwaits => ?_⟩
  have hne : h ≠ g := by
    rintro rfl
    cases ht.symm.trans hv
    exact hlink c hwaits
  exact (Registry.get?_set_live ht u g).trans ((if_neg hne).trans hv)

theorem newChannel (m : Machine n) :
    m.Undisturbed { m with queues := m.queues.newChannel.2 } :=
  ⟨m.queues.waiters_newChannel, fun _ _ _ ht _ => ht⟩

theorem setCpu (hmp : m.Undisturbed p) (i : Fin n) (x : Cpu) : m.Undisturbed (p.setCpu i x) :=
  ⟨hmp.waiting, hmp.waiters⟩

end Undisturbed

namespace Coherent

/-- A busy processor gives its thread to the back of the run queue. -/
theorem preempt_order (hm : m.Coherent) (hp : (m.preempt i).result = .ok p) :
    m.Undisturbed p ∧ p.queues.run = m.queues.run ++ (m.cpu i).thread?.toList := by
  rcases hm.preempt_cases hp with ⟨hidle, rfl⟩ | ⟨g, t, hi, ht, rfl⟩
  · rw [hidle]
    exact ⟨.refl p, (List.append_nil _).symm⟩
  · have hput := Undisturbed.put ht (by simp [hm.running_link hi ht]) { t with link := .runQueue }
      (q := m.queues.push g) fun _ => rfl
    rw [hi]
    exact ⟨hput.setCpu i _, rfl⟩

theorem runNext_order (hi : (m.cpu i).thread? = none) (hp : (m.runNext i).result = .ok (h?, p)) :
    m.Undisturbed p ∧ h? = m.queues.run.head? ∧ p.queues.run = m.queues.run.tail ∧
      (p.cpu i).thread? = h? := by
  rcases runNext_eq_ok.mp hp with ⟨hrun, rfl, rfl⟩ | ⟨h, rest, t, u, hrun, ht, hu, rfl, rfl⟩
  · rw [hrun]
    exact ⟨.refl p, rfl, rfl, hi⟩
  · obtain ⟨⟨-, hlink⟩, -⟩ := Thread.startOn_eq_ok.mp hu
    have hput := Undisturbed.put ht (by simp [hlink]) u (q := { m.queues with run := rest })
      fun _ => rfl
    rw [hrun, cpu_setCpu, if_pos rfl]
    exact ⟨hput.setCpu i _, rfl, rfl, rfl⟩

/-- A dispatch takes the first thread of the run queue, behind which the thread that had
the processor has queued up before. -/
theorem dispatch_order (hm : m.Coherent) (hp : (m.dispatch i).result = .ok (h?, p)) :
    m.Undisturbed p ∧ h? = (m.queues.run ++ (m.cpu i).thread?.toList).head? ∧
      p.queues.run = (m.queues.run ++ (m.cpu i).thread?.toList).tail ∧
        (p.cpu i).thread? = h? := by
  obtain ⟨q, hq, hp⟩ := dispatch_eq_ok.mp hp
  obtain ⟨hpreempt, hback⟩ := hm.preempt_order hq
  obtain ⟨hnext, hfront⟩ := runNext_order (preempt_idle hq) hp
  rw [hback] at hfront
  exact ⟨hpreempt.trans hnext, hfront⟩

/-- A processor keeps its thread only while the run queue is empty. -/
theorem yieldCpu_order (hm : m.Coherent) (hp : (m.yieldCpu i).result = .ok (h?, p)) :
    (h? = none ∧ p = m) ∨ h?.isSome = true ∧ (m.dispatch i).result = .ok (h?, p) := by
  obtain ⟨t, -, hrest⟩ := yieldCpu_eq_ok.mp hp
  rcases hrest with ⟨-, rfl, rfl⟩ | ⟨hrun, hp⟩
  · exact .inl ⟨rfl, rfl⟩
  · obtain ⟨-, hfirst, -⟩ := hm.dispatch_order hp
    refine .inr ⟨?_, hp⟩
    rw [hfirst, List.isSome_head?]
    simp [hrun]

end Coherent

/-- Of each wait queue the threads that `gone` names go, to be runnable, and the others stay
asleep; whoever comes, comes last. -/
structure Rouses (gone : Channel → Handle → Bool) (m p : Machine n) : Prop where
  waiting : ∀ c, ∃ new,
    p.queues.waiters c = (m.queues.waiters c).filter (fun h => !gone c h) ++ new
  stays : ∀ c h t, m.threads.get? h = some t → t.link = .waitQueue c → gone c h = false →
    ∃ u, p.threads.get? h = some u ∧ u.state = t.state ∧ u.link = t.link
  leaves : ∀ c h t, m.threads.get? h = some t → t.link = .waitQueue c → gone c h = true →
    ∃ u, p.threads.get? h = some u ∧ u.state = .runnable ∧ u.link = .runQueue

/-- Nobody goes. -/
theorem Undisturbed.rouses (hmp : m.Undisturbed p) : m.Rouses (fun _ _ => false) p where
  waiting c := ⟨[], by simp [hmp.waiting c]⟩
  stays c h t ht hlink _ := ⟨t, hmp.waiters h t c ht hlink, rfl, rfl⟩
  leaves c h t _ _ hgone := nomatch hgone

/-- A thread is replaced that is as much asleep, and where, as it was. -/
theorem Rouses.ofStill (ht : m.threads.get? h = some t) (hstate : u.state = t.state)
    (hlink : u.link = t.link) (hq : ∀ c, q.waiters c = m.queues.waiters c) :
    m.Rouses (fun _ _ => false) (m.put h u q) where
  waiting c := ⟨[], by simp [hq c]⟩
  stays c g v hv _ _ := by
    have hget := Registry.get?_set_live ht u g
    by_cases hg : h = g
    · subst hg
      cases ht.symm.trans hv
      exact ⟨u, hget.trans (if_pos rfl), hstate, hlink⟩
    · exact ⟨v, hget.trans ((if_neg hg).trans hv), rfl, rfl⟩
  leaves c g v _ _ hgone := nomatch hgone

/-- The threads of a list are woken in its order, and no other thread changes. -/
theorem wakeAll_order {hs : List Handle} (hm : m.threads.Named)
    (hp : (hs.foldlM wakeThread m).result = .ok p) :
    p.queues.waiting = m.queues.waiting ∧ p.queues.run = m.queues.run ++ hs ∧
      (∀ g ∉ hs, p.threads.get? g = m.threads.get? g) ∧
        ∀ g ∈ hs, ∃ t, m.threads.get? g = some t ∧
          p.threads.get? g = some { t with state := .runnable, link := .runQueue } := by
  induction hs generalizing m with
  | nil =>
    cases hp
    exact ⟨rfl, (List.append_nil _).symm, fun _ _ => rfl, by simp⟩
  | cons h rest ih =>
    obtain ⟨q, hq, hp⟩ := foldlM_wakeThread_cons.mp hp
    obtain ⟨t, u, r, ht, hr, rfl⟩ := wakeThread_eq_ok.mp hq
    obtain ⟨hwake, rfl⟩ := Queues.wake_eq_ok.mp hr
    obtain ⟨-, hu⟩ := Thread.wake_eq_ok.mp hwake
    have hsame : u.id = t.id := by rw [← hu]
    have hid : u.id = h := hsame.trans (hm.id_eq ht)
    have hget (g : Handle) : (m.put h u (m.queues.push u.id)).threads.get? g =
        if h = g then some u else m.threads.get? g := Registry.get?_set_live ht u g
    obtain ⟨hwaiting, hrun, hothers, hwoken⟩ := ih (Registry.named_set hm ht hsame) hp
    refine ⟨hwaiting, ?_, fun g hg => ?_, fun g hg => ?_⟩
    · rw [hrun, put_queues, Queues.push, hid, List.append_assoc]
      rfl
    · rw [List.mem_cons, not_or] at hg
      obtain ⟨hne, hg⟩ := hg
      exact (hothers g hg).trans ((hget g).trans (if_neg (Ne.symm hne)))
    · by_cases hrest : g ∈ rest
      · obtain ⟨v, hv, hg⟩ := hwoken g hrest
        rw [hget] at hv
        split at hv
        case isTrue hfirst =>
          subst hfirst hu
          cases hv
          exact ⟨t, ht, hg⟩
        case isFalse => exact ⟨v, hv, hg⟩
      · have hfirst : g = h := (List.mem_cons.mp hg).resolve_right hrest
        subst hfirst
        exact ⟨t, ht, (hothers g hrest).trans ((hget g).trans ((if_pos rfl).trans (hu ▸ rfl)))⟩

namespace Coherent

theorem mem_waiting (hm : m.Coherent) : h ∈ m.queues.waiters c ↔
    ∃ t, m.threads.get? h = some t ∧ t.link = .waitQueue c := by
  cases hc : m.queues.waiters? c with
  | some hs => rw [Queues.waiters_eq hc, hm.mem_waiters hc]
  | none =>
    constructor
    · intro hh
      rw [Queues.waiters, hc] at hh
      cases hh
    · intro hh
      obtain ⟨t, ht, hlink⟩ := hh
      have hopened := hm.waits_opened ht hlink
      rw [hc] at hopened
      cases hopened

theorem waiting_nodup (hm : m.Coherent) (c : Channel) : (m.queues.waiters c).Nodup := by
  cases hc : m.queues.waiters? c with
  | some hs => exact Queues.waiters_eq hc ▸ hm.waiters_nodup hc
  | none =>
    rw [Queues.waiters, hc]
    exact List.nodup_nil

/-- Who goes counts only for those who wait. -/
theorem rouses_congr {gone gone' : Channel → Handle → Bool} (hm : m.Coherent)
    (hp : m.Rouses gone p) (hsame : ∀ c h t, m.threads.get? h = some t → t.link = .waitQueue c →
      gone c h = gone' c h) : m.Rouses gone' p where
  waiting c := by
    obtain ⟨new, hnew⟩ := hp.waiting c
    refine ⟨new, hnew.trans (congrArg (· ++ new) (List.filter_congr fun h hh => ?_))⟩
    obtain ⟨t, ht, hlink⟩ := hm.mem_waiting.mp hh
    rw [hsame c h t ht hlink]
  stays c h t ht hlink hgone := hp.stays c h t ht hlink ((hsame c h t ht hlink).trans hgone)
  leaves c h t ht hlink hgone := hp.leaves c h t ht hlink ((hsame c h t ht hlink).trans hgone)

theorem waiter (hm : m.Coherent) (hc : m.queues.waiters? c = some hs)
    (ht : m.threads.get? h = some t) : h ∈ hs ↔ t.link = .waitQueue c := by
  rw [hm.mem_waiters hc, ht]
  simp

/-- The thread of processor `i` queues up on `c`. -/
theorem block_order {cancellable : Bool} (hm : m.Coherent) (ht : (m.current i).result = .ok t)
    (hp : (m.block i t c cancellable).result = .ok p) :
    p.queues.run = m.queues.run ∧ m.Rouses (fun _ _ => false) p := by
  obtain ⟨g, hi, ht⟩ := current_eq_ok.mp ht
  obtain ⟨u, q, hq, rfl⟩ := block_eq_ok.mp hp
  obtain ⟨hs, hc, hblock, rfl⟩ := Queues.block_eq_ok.mp hq
  obtain ⟨-, rfl⟩ := Thread.block_eq_ok.mp hblock
  have hid : t.id = g := hm.named.id_eq ht
  subst hid
  have hput := Undisturbed.put ht (by simp [hm.running_link hi ht]) { t with
    state := if cancellable then .sleepingCancellable else .sleeping
    link := .waitQueue c } (q := m.queues) fun _ => rfl
  refine ⟨rfl, fun d => ?_, fun d h v hv hwaits _ => ?_, ?_⟩
  · rw [clearCpu_queues, put_queues, Queues.waiters_setWaiters hc]
    by_cases hd : c = d
    · subst hd
      exact ⟨[t.id], by simp [Queues.waiters_eq hc]⟩
    · exact ⟨[], by simp [hd]⟩
  · exact ⟨v, hput.waiters h v d hv hwaits, rfl, rfl⟩
  · intro d h v _ _ hgone
    cases hgone

/-- Who is taken out of one wait queue, stood in no other. -/
theorem unblock_waiters (hm : m.Coherent) (hc : m.queues.waiters? c = some hs)
    (ht : m.threads.get? h = some t) (hwaits : t.link = .waitQueue c) (x : Handle) (d : Channel) :
    ((m.queues.setWaiters c (hs.filter (· ≠ h))).push x).waiters d =
      (m.queues.waiters d).filter (· ≠ h) := by
  rw [Queues.waiters_push, Queues.waiters_setWaiters hc]
  by_cases hd : c = d
  · rw [if_pos hd, ← hd, Queues.waiters_eq hc]
  · rw [if_neg hd]
    symm
    apply List.filter_eq_self.mpr
    intro g hg
    obtain ⟨w, hw, hlinked⟩ := hm.mem_waiting.mp hg
    have hne : g ≠ h := by
      rintro rfl
      cases ht.symm.trans hw
      cases hwaits.symm.trans hlinked
      exact hd rfl
    exact decide_eq_true hne

/-- One of the waiters goes, to be runnable. -/
theorem unblock_order (hm : m.Coherent) (hc : m.queues.waiters? c = some hs)
    (ht : m.threads.get? h = some t) (hwaits : t.link = .waitQueue c) (hstate : u.state = .runnable)
    (hlink : u.link = .runQueue) : m.Rouses (fun _ g => g = h)
      (m.put h u ((m.queues.setWaiters c (hs.filter (· ≠ h))).push u.id)) := by
  have hget := Registry.get?_set_live ht u
  refine ⟨fun d => ⟨[], ?_⟩, fun d g w hw hlinked hgone => ?_, fun d g w hw hlinked hgone => ?_⟩
  · rw [put_queues, hm.unblock_waiters hc ht hwaits, List.append_nil]
    exact List.filter_congr fun g _ => decide_not
  · have hne : h ≠ g := Ne.symm (of_decide_eq_false hgone)
    exact ⟨w, (hget g).trans ((if_neg hne).trans hw), rfl, rfl⟩
  · have hg : g = h := of_decide_eq_true hgone
    exact ⟨u, (hget g).trans (if_pos hg.symm), hstate, hlink⟩

/-- The oldest waiter goes to the back of the run queue. -/
theorem wakeup_order (hm : m.Coherent) (hp : (m.wakeup c).result = .ok (h?, p)) :
    (∃ more, p.queues.run = m.queues.run ++ more) ∧
      m.Rouses (fun d g => d = c ∧ (m.queues.waiters c).head? = some g) p := by
  obtain ⟨hs, hc, hrest⟩ := wakeup_eq_ok.mp hp
  rw [Queues.waiters_eq hc]
  rcases hrest with ⟨rfl, -, rfl⟩ | ⟨h, rest, rfl, -, hwoken⟩
  · exact ⟨⟨[], (List.append_nil _).symm⟩, by simpa using (Undisturbed.refl p).rouses⟩
  · obtain ⟨t, u, q, ht, hq, rfl⟩ := wakeThread_eq_ok.mp hwoken
    obtain ⟨hwake, rfl⟩ := Queues.wake_eq_ok.mp hq
    obtain ⟨-, rfl⟩ := Thread.wake_eq_ok.mp hwake
    have hlink : t.link = .waitQueue c := (hm.waiter hc ht).mp List.mem_cons_self
    have hfree : h ∉ rest := (List.nodup_cons.mp (hm.waiters_nodup hc)).1
    have hothers : (h :: rest).filter (· ≠ h) = rest := by
      rw [List.filter_cons_of_neg (by simp)]
      apply List.filter_eq_self.mpr
      intro g hg
      have hne : g ≠ h := by
        rintro rfl
        exact hfree hg
      simp [hne]
    have hmoved := hm.unblock_order (u := { t with state := .runnable, link := .runQueue })
      hc ht hlink rfl rfl
    rw [hothers] at hmoved
    refine ⟨⟨[t.id], rfl⟩, hm.rouses_congr hmoved fun d g v hv hwaits => ?_⟩
    apply decide_eq_decide.mpr
    constructor
    · rintro rfl
      cases ht.symm.trans hv
      cases hlink.symm.trans hwaits
      exact ⟨rfl, rfl⟩
    · rintro ⟨-, hfirst⟩
      cases hfirst
      rfl

/-- All waiters go to the back of the run queue, the oldest first. -/
theorem broadcast_order {count : Nat} (hm : m.Coherent)
    (hp : (m.broadcast c).result = .ok (count, p)) :
    (∃ more, p.queues.run = m.queues.run ++ more) ∧ m.Rouses (fun d _ => d = c) p := by
  obtain ⟨hs, hc, -, hwoken⟩ := broadcast_eq_ok.mp hp
  obtain ⟨hwaiting, hrun, hothers, hwoken⟩ :=
    wakeAll_order (m := { m with queues := m.queues.setWaiters c [] }) hm.named hwoken
  have hsame (d : Channel) : p.queues.waiters d = (m.queues.setWaiters c []).waiters d := by
    unfold Queues.waiters Queues.waiters?
    rw [hwaiting]
  refine ⟨⟨hs, hrun⟩, fun d => ⟨[], ?_⟩, fun d g v hv hwaits hgone => ?_,
    fun d g v hv hwaits hgone => ?_⟩
  · rw [hsame, Queues.waiters_setWaiters hc, List.append_nil]
    by_cases hd : d = c
    · simp [hd]
    · simp [hd, Ne.symm hd]
  · have hout : g ∉ hs := by
      intro hg
      cases ((hm.waiter hc hv).mp hg).symm.trans hwaits
      simp at hgone
    exact ⟨v, (hothers g hout).trans hv, rfl, rfl⟩
  · have hd : d = c := of_decide_eq_true hgone
    obtain ⟨t, -, hg⟩ := hwoken g ((hm.waiter hc hv).mpr (hd ▸ hwaits))
    exact ⟨_, hg, rfl, rfl⟩

/-- A request to end `h` takes it alone out of its queue, if it may be taken out. -/
theorem interrupt_order {v : Thread} (hm : m.Coherent) (ht : m.threads.get? h = some t)
    (hid : v.id = t.id) (hstate : v.state = t.state) (hlink : v.link = t.link)
    (hu : (m.queues.interrupt v).result = .ok (u, q)) :
    (∃ more, q.run = m.queues.run ++ more) ∧
      m.Rouses (fun _ g => g = h ∧ t.state = .sleepingCancellable) (m.put h u q) := by
  have hname : v.id = h := hid.trans (hm.named.id_eq ht)
  rcases Queues.interrupt_eq_ok.mp hu with ⟨c, hs, hcancellable, hwaits, hc, hwoken⟩ |
    ⟨hkept, rfl, rfl⟩
  · obtain ⟨hwake, rfl⟩ := Queues.wake_eq_ok.mp hwoken
    obtain ⟨-, rfl⟩ := Thread.wake_eq_ok.mp hwake
    rw [hlink] at hwaits
    have hmoved := hm.unblock_order (u := { v with state := .runnable, link := .runQueue })
      hc ht hwaits rfl rfl
    rw [← hname]
    rw [← hname] at hmoved
    refine ⟨⟨[v.id], rfl⟩, hm.rouses_congr hmoved fun d g w hw hlinked => ?_⟩
    simp [← hstate, hcancellable]
  · have hstill := Rouses.ofStill (q := m.queues) ht hstate hlink fun _ => rfl
    refine ⟨⟨[], (List.append_nil _).symm⟩, hm.rouses_congr hstill fun c g w hw hwaits => ?_⟩
    symm
    apply decide_eq_false
    rintro ⟨rfl, hcancellable⟩
    cases ht.symm.trans hw
    rcases hkept with hawake | hnowhere
    · exact hawake (hstate.trans hcancellable)
    · rw [hlink, hwaits] at hnowhere
      cases hnowhere

/-- A cancellable sleeper goes to the back of the run queue. -/
theorem interrupt_waiters {v : Thread} (hm : m.Coherent) (ht : m.threads.get? h = some t)
    (hid : v.id = t.id) (hstate : v.state = t.state) (hlink : v.link = t.link)
    (hcancellable : t.state = .sleepingCancellable) (hwaits : t.link = .waitQueue c)
    (hu : (m.queues.interrupt v).result = .ok (u, q)) (d : Channel) :
    q.waiters d = (m.queues.waiters d).filter (· ≠ h) := by
  have hname : v.id = h := hid.trans (hm.named.id_eq ht)
  rcases Queues.interrupt_eq_ok.mp hu with ⟨c', hs, -, hwaits', hc, hwoken⟩ | ⟨hkept, -, -⟩
  · obtain ⟨-, rfl⟩ := Queues.wake_eq_ok.mp hwoken
    rw [hname]
    exact hm.unblock_waiters hc ht (hlink.symm.trans hwaits') u.id d
  · rw [hstate, hlink, hcancellable, hwaits] at hkept
    simp [Link.channel?] at hkept

end Coherent

end Machine

end KernelThreads
