import KernelThreads.Proofs.Memory.Reversal
import KernelThreads.Proofs.Memory.FirstFit
import KernelThreads.Proofs.Sessions

/-!
An arena and a client that gives back what it was given, and nothing else. Where all pages have
addresses, the client is served whatever it asks, and what it has given back leaves no trace. An
arena that has a page without an address is as easily made, and fails such a client.
-/
namespace KernelThreads

open Logged (Fair bind_eq_ok foldlM_cons_eq_ok pure_eq_ok)

namespace Extent

/-- Neither reaches into the other. -/
def Apart (e f : Extent) : Prop := e.Before f ∨ f.Before e

theorem Apart.symm {e f : Extent} (h : e.Apart f) : f.Apart e := Or.symm h

end Extent

namespace Arena
variable {a b a₀ : Arena} {addr : VirtAddr} {first count : Nat} {e f : Extent}
  {live : List Extent}

/-- The bitmap has no more words than it takes, and no bit is set behind the last page. -/
structure Trim (a : Arena) : Prop where
  size : a.taken.words.size = (a.total + 63) / 64
  clear : ∀ p, a.total ≤ p → a.taken.get p = false

theorem trim_new {base : VirtAddr} {pages : Nat} (h : (new base pages).result = .ok a) :
    a.Trim := by
  obtain ⟨-, -, rfl⟩ := new_eq_ok.mp h
  exact ⟨by simp [Bitmap.clear], fun p _ => Bitmap.get_clear pages p⟩

theorem Trim.fill {v : Bool} (h : a.Trim) (hin : first + count ≤ a.total) (p : Nat)
    (hp : a.total ≤ p) : (a.taken.fill first count v).get p = false := by
  have hsize := h.size
  rw [Bitmap.get_fill _ _ _ _ _ (by omega), if_neg (by omega)]
  exact h.clear p hp

theorem Trim.take (h : a.Trim) (hin : e.first + e.count ≤ a.total) : (a.take e).Trim :=
  ⟨(Bitmap.size_fill ..).trans h.size, h.fill hin⟩

theorem Trim.giveBack (h : a.Trim) (hin : e.first + e.count ≤ a.total) : (a.giveBack e).Trim :=
  ⟨(Bitmap.size_fill ..).trans h.size, h.fill hin⟩

/-- The extents alone tell two arenas over the same pages apart. -/
theorem Valid.eq_of_extents (ha : a.Valid) (hb : b.Valid) (hatrim : a.Trim) (hbtrim : b.Trim)
    (hbase : a.base = b.base) (htotal : a.total = b.total) (hperm : a.extents.Perm b.extents) :
    a = b := by
  have hextents : a.extents = b.extents := by
    refine hperm.eq_of_pairwise (fun e f he hf hef hfe => ?_) ha.apart hb.apart
    have hpos := ha.positive e he
    simp only [Extent.Before] at hef hfe
    omega
  have htaken : a.taken = b.taken := by
    refine Bitmap.ext_get (by rw [hatrim.size, hbtrim.size, htotal]) fun p => ?_
    by_cases hp : p < a.total
    · rw [Bool.eq_iff_iff, ha.taken p hp, hb.taken p (htotal ▸ hp), hextents]
    · rw [hatrim.clear p (by omega), hbtrim.clear p (by omega)]
  have havailable : a.available = b.available := by
    have hsum := ha.balance
    have hsum' := hb.balance
    rw [hextents] at hsum
    omega
  cases a
  cases b
  simp only at hbase htotal hextents htaken havailable
  subst hbase htotal hextents htaken havailable
  rfl

/-- A run that meets no live extent is free. -/
theorem Valid.free_of_apart (h : a.Valid) (hin : e.first + e.count ≤ a.total)
    (hapart : ∀ x ∈ a.extents, e.Apart x) : a.taken.Free e.first e.count := by
  intro p hlow hhigh
  rw [← Bool.not_eq_true, h.taken p (by omega)]
  rintro ⟨x, hx, hholds⟩
  rcases hapart x hx with hbefore | hafter
  · exact hbefore.disjoint p ⟨⟨hlow, hhigh⟩, hholds⟩
  · exact hafter.disjoint p ⟨hholds, hlow, hhigh⟩

/-- The arena `a` with these extents taken, in their order, and nothing else done to it. -/
def takeAll (a : Arena) (live : List Extent) : Arena := live.foldl take a

theorem takeAll_concat (a : Arena) (live : List Extent) (e : Extent) :
    a.takeAll (live ++ [e]) = (a.takeAll live).take e := by
  rw [takeAll, List.foldl_append]
  rfl

theorem takeAll_fixed (a : Arena) (live : List Extent) :
    (a.takeAll live).base = a.base ∧ (a.takeAll live).total = a.total := by
  induction live generalizing a with
  | nil => exact ⟨rfl, rfl⟩
  | cons e live ih => exact ih (a.take e)

theorem takeAll_perm (a : Arena) (live : List Extent) :
    (a.takeAll live).extents.Perm (live ++ a.extents) := by
  induction live generalizing a with
  | nil => exact .refl _
  | cons e live ih =>
    refine (ih (a.take e)).trans ?_
    exact ((a.take_perm e).append_left live).trans List.perm_middle

theorem extents_new {base : VirtAddr} {pages : Nat} (h : (new base pages).result = .ok a) :
    a.extents = [] := by
  obtain ⟨-, -, rfl⟩ := new_eq_ok.mp h
  rfl

theorem takeAll_new {base : VirtAddr} {pages : Nat} (h : (new base pages).result = .ok a)
    (live : List Extent) : (a.takeAll live).extents.Perm live := by
  simpa [extents_new h] using a.takeAll_perm live

/-- Extents that keep apart, from each other and from those that live, can all be taken. -/
theorem Valid.takeAll (h : a.Valid) (htrim : a.Trim)
    (hin : ∀ e ∈ live, 0 < e.count ∧ e.first + e.count ≤ a.total)
    (hlive : live.Pairwise Extent.Apart) (hapart : ∀ e ∈ live, ∀ x ∈ a.extents, e.Apart x) :
    (a.takeAll live).Valid ∧ (a.takeAll live).Trim := by
  induction live generalizing a with
  | nil => exact ⟨h, htrim⟩
  | cons e live ih =>
    obtain ⟨⟨hpos, hinside⟩, hin⟩ := List.forall_mem_cons.mp hin
    obtain ⟨hhead, hlive⟩ := List.pairwise_cons.mp hlive
    obtain ⟨he, hapart⟩ := List.forall_mem_cons.mp hapart
    have hfree := h.free_of_apart hinside he
    refine ih (h.take hpos (h.count_le_available hinside hfree) hinside hfree)
      (htrim.take hinside) hin hlive fun f hf x hx => ?_
    rcases List.mem_cons.mp ((a.take_perm e).mem_iff.mp hx) with rfl | hx
    · exact (hhead f hf).symm
    · exact hapart f hf x hx

/-- What is given back might as well never have been taken. -/
theorem giveBack_takeAll {base : VirtAddr} {pages : Nat} (hnew : (new base pages).result = .ok a₀)
    (hvalid : (a₀.takeAll live).Valid) (he : e ∈ live) :
    (a₀.takeAll live).giveBack e = a₀.takeAll (live.erase e) := by
  have hperm := takeAll_new hnew live
  have hmem : e ∈ (a₀.takeAll live).extents := hperm.mem_iff.mpr he
  have hlive : live.Pairwise Extent.Apart :=
    (hperm.pairwise_iff Extent.Apart.symm).mp (hvalid.apart.imp Or.inl)
  obtain ⟨hbase, htotal⟩ := a₀.takeAll_fixed live
  have hin : ∀ x ∈ live, 0 < x.count ∧ x.first + x.count ≤ a₀.total := fun x hx =>
    htotal ▸ hvalid.inside x (hperm.mem_iff.mpr hx)
  have hnone (xs : List Extent) : ∀ e ∈ xs, ∀ x ∈ a₀.extents, e.Apart x := by
    simp [extents_new hnew]
  have hsub : (live.erase e).Sublist live := List.erase_sublist
  obtain ⟨-, htrim⟩ := (valid_new hnew).takeAll (trim_new hnew) hin hlive (hnone live)
  obtain ⟨hvalid', htrim'⟩ := (valid_new hnew).takeAll (trim_new hnew)
    (fun x hx => hin x (hsub.subset hx)) (hlive.sublist hsub) (hnone _)
  obtain ⟨hbase', htotal'⟩ := a₀.takeAll_fixed (live.erase e)
  refine (hvalid.giveBack hmem).eq_of_extents hvalid'
    (htrim.giveBack (hvalid.inside e hmem).2) htrim' (hbase.trans hbase'.symm)
    (htotal.trans htotal'.symm) (.trans ?_ (takeAll_new hnew _).symm)
  exact (List.perm_cons e).mp
    ((hvalid.giveBack_perm hmem).symm.trans (hperm.trans (List.perm_cons_erase he)))

/-- The extents of a new arena, taken from the front, lie one behind the other. -/
theorem alloc_new {base : VirtAddr} {pages : Nat} (hnew : (new base pages).result = .ok a₀)
    (hpos : 0 < count) (hin : count ≤ pages) {addr? : Option VirtAddr}
    (halloc : (a₀.alloc count).result = .ok (addr?, b)) :
    addr? = some base ∧ b.Valid ∧ a₀.Adds ⟨0, count⟩ b := by
  obtain ⟨-, -, hfresh⟩ := new_eq_ok.mp hnew
  have hclear : a₀.taken.Free 0 count := by
    rw [hfresh]
    exact fun p _ _ => Bitmap.get_clear pages p
  have htotal : a₀.total = pages := by rw [hfresh]
  cases addr? with
  | none =>
    rcases ((valid_new hnew).alloc_eq_none halloc).2 with hzero | hcrowded
    · omega
    · exact absurd hclear (hcrowded 0 (by omega))
  | some addr =>
    obtain ⟨first, -, hat, hrun, hadds, hvalid⟩ := (valid_new hnew).alloc_eq_some halloc
    have hfirst : first = 0 := by
      by_contra hne
      exact hrun.least 0 (Nat.pos_of_ne_zero hne) hclear
    subst hfirst
    cases hat.symm.trans a₀.addressOf_zero
    refine ⟨?_, hvalid, hadds⟩
    rw [hfresh]

/-- Behind the first extent the next page is the lowest free one. -/
theorem alloc_next {base : VirtAddr} {pages : Nat} (hnew : (new base pages).result = .ok a₀)
    (hadds : a₀.Adds ⟨0, first⟩ a) (hvalid : a.Valid) (hin : first < pages)
    {addr? : Option VirtAddr} (halloc : (a.alloc 1).result = .ok (addr?, b)) :
    ∃ addr, addr? = some addr ∧ a.Adds ⟨first, 1⟩ b := by
  obtain ⟨-, -, hfresh⟩ := new_eq_ok.mp hnew
  have htotal : a.total = pages := by rw [hadds.total, hfresh]
  have hset (p : Nat) (hp : p < first) : a.taken.get p = true :=
    hadds.set p ⟨Nat.zero_le p, by simpa using hp⟩
  have hclear : a.taken.Free first 1 := by
    intro p hlow hhigh
    have hout : ¬ Extent.Holds ⟨0, first⟩ p := by
      simp only [Extent.Holds]
      omega
    rw [hadds.others p hout, hfresh]
    exact Bitmap.get_clear pages p
  cases addr? with
  | none =>
    rcases (hvalid.alloc_eq_none halloc).2 with hzero | hcrowded
    · omega
    · exact absurd hclear (hcrowded first (by omega))
  | some addr =>
    obtain ⟨next, -, -, hrun, hnext, -⟩ := hvalid.alloc_eq_some halloc
    have hlow : ¬ next < first := fun hlt =>
      Bitmap.not_free (hset next hlt) (Nat.le_refl next) (by omega) hrun.free
    have hhigh : ¬ first < next := fun hlt => hrun.least first hlt hclear
    have hsame : next = first := by omega
    exact ⟨addr, rfl, hsame ▸ hnext⟩

end Arena

/-- An arena and all that its client has of it, addresses with page counts, oldest first. -/
structure Lending where
  arena : Arena
  due : List (VirtAddr × Nat) := []
deriving DecidableEq

namespace Lending
variable {s t : Lending} {a₀ : Arena} {live : List Extent} {r : Arena.Request}

def answer (s : Lending) : Arena.Request → Logged Lending
  | .alloc count => do
    let (addr?, arena) ← s.arena.alloc count
    return { arena, due := s.due ++ (addr?.map (·, count)).toList }
  | .free addr count => do
    let arena ← s.arena.free addr count
    return { arena, due := s.due.erase (addr, count) }

/-- The client frees only what it has, and as it got it. -/
def Owes (s : Lending) : Arena.Request → Prop
  | .alloc _ => True
  | .free addr count => (addr, count) ∈ s.due

instance : DecidableRel Owes := fun s r =>
  match r with
  | .alloc _ => inferInstanceAs (Decidable True)
  | .free addr count => inferInstanceAs (Decidable ((addr, count) ∈ s.due))

/-- `live` is what the client has: each extent is due at the address of its first page, and the
arena is as if nothing but these extents had ever been taken from `a₀`. -/
structure Holds (a₀ : Arena) (live : List Extent) (s : Lending) : Prop where
  arena : s.arena = a₀.takeAll live
  due : s.due.map (fun d => (d.1.toNat, d.2)) =
    live.map fun e => (a₀.base.toNat + e.first * pageSize, e.count)

theorem answer_alloc_eq_ok {count : Nat} : (s.answer (.alloc count)).result = .ok t ↔
    ∃ addr? b, (s.arena.alloc count).result = .ok (addr?, b) ∧
      t = ⟨b, s.due ++ (addr?.map (·, count)).toList⟩ := by
  simp only [answer, bind_eq_ok, pure_eq_ok, Prod.exists]
  exact exists_congr fun _ => exists_congr fun _ => and_congr_right fun _ => eq_comm

theorem answer_free_eq_ok {addr : VirtAddr} {count : Nat} :
    (s.answer (.free addr count)).result = .ok t ↔
      ∃ b, (s.arena.free addr count).result = .ok b ∧ t = ⟨b, s.due.erase (addr, count)⟩ := by
  simp only [answer, bind_eq_ok, pure_eq_ok]
  exact exists_congr fun _ => and_congr_right fun _ => eq_comm

theorem due_injective : Function.Injective fun d : VirtAddr × Nat => (d.1.toNat, d.2) := by
  rintro ⟨x, m⟩ ⟨y, n⟩ hxy
  simp only [Prod.mk.injEq] at hxy
  obtain ⟨hx, rfl⟩ := hxy
  rw [VirtAddr.ext hx]

theorem region_injective (base : Nat) :
    Function.Injective fun e : Extent => (base + e.first * pageSize, e.count) := by
  rintro ⟨x, m⟩ ⟨y, n⟩ hxy
  simp only [Prod.mk.injEq, pageSize] at hxy
  obtain ⟨hx, rfl⟩ := hxy
  rw [Extent.mk.injEq]
  omega

section Served
variable {base addr : VirtAddr} {pages count : Nat}

/-- An allocation adds to what the client has, and never fails it. -/
theorem Holds.alloc (h : s.Holds a₀ live) (hvalid : s.arena.Valid)
    (hpages : CanonicalPages a₀.base a₀.total) (count : Nat) :
    ∃ t, (s.answer (.alloc count)).result = .ok t ∧ t.arena.Valid ∧ ∃ live', t.Holds a₀ live' := by
  obtain ⟨hbase, htotal⟩ := a₀.takeAll_fixed live
  rw [← h.arena] at hbase htotal
  obtain ⟨addr?, b, halloc⟩ := Arena.alloc_returns (a := s.arena) (by rwa [hbase, htotal]) count
  refine ⟨_, answer_alloc_eq_ok.mpr ⟨addr?, b, halloc, rfl⟩, (hvalid.alloc halloc).1, ?_⟩
  rcases Arena.alloc_eq_ok.mp halloc with
    ⟨rfl, rfl, -⟩ | ⟨first, addr, rfl, rfl, hpos, -, hrun, hat⟩
  · exact ⟨live, h.arena, by simpa using h.due⟩
  · have hinside := (Arena.firstRun_of_findRun? hrun).inside
    obtain ⟨addr', hoffset, hvalue⟩ := hpages.offset (show first < _ by omega)
    rw [Arena.addressOf, hbase] at hat
    cases hat.symm.trans hoffset
    refine ⟨live ++ [⟨first, count⟩], ?_, ?_⟩
    · rw [Arena.takeAll_concat, ← h.arena]
    · simp [h.due, hvalue]

/-- A free of what the client has is served, and what is left is as if it had never had it. -/
theorem Holds.free (h : s.Holds a₀ live) (hvalid : s.arena.Valid)
    (hnew : (Arena.new base pages).result = .ok a₀) (hdue : (addr, count) ∈ s.due) :
    ∃ t, (s.answer (.free addr count)).result = .ok t ∧ t.arena.Valid ∧
      ∃ live', t.Holds a₀ live' := by
  obtain ⟨hbase, -⟩ := a₀.takeAll_fixed live
  rw [← h.arena] at hbase
  have hmem : (addr.toNat, count) ∈ s.due.map fun d => (d.1.toNat, d.2) :=
    List.mem_map.mpr ⟨_, hdue, rfl⟩
  rw [h.due] at hmem
  obtain ⟨e, he, hregion⟩ := List.mem_map.mp hmem
  obtain ⟨haddr, rfl⟩ := Prod.mk.inj hregion
  have hextent : e ∈ s.arena.extents := by
    rw [h.arena]
    exact (Arena.takeAll_new hnew live).mem_iff.mpr he
  have hfree : (s.arena.free addr e.count).result = .ok (s.arena.giveBack e) :=
    hvalid.free_extent hextent (by rw [hbase, haddr])
  refine ⟨_, answer_free_eq_ok.mpr ⟨_, hfree, rfl⟩, hvalid.giveBack hextent, live.erase e, ?_, ?_⟩
  · rw [← Arena.giveBack_takeAll hnew (h.arena ▸ hvalid) he, ← h.arena]
  · rw [List.map_erase due_injective, h.due, List.map_erase (region_injective _)]
    simp only [haddr]

/-- Where a client is served whatever it asks, the page behind any it may have has an address. -/
theorem canonical_of_served (hnew : (Arena.new base pages).result = .ok a₀)
    (hserved : ∀ requests, Fair answer Owes ⟨a₀, []⟩ requests →
      ∃ s live, (requests.foldlM answer ⟨a₀, []⟩).result = .ok s ∧ s.Holds a₀ live) :
    CanonicalPages base pages := by
  intro i hi
  cases Nat.eq_zero_or_pos i with
  | inl hzero =>
    rw [hzero, Nat.zero_mul, Nat.add_zero]
    exact base.canonical
  | inr hpos =>
    -- all pages before page `i` go to one extent, and page `i` is the next to go
    obtain ⟨s, live, hrun, hholds⟩ := hserved [.alloc i, .alloc 1]
      ⟨trivial, fun _ _ => ⟨trivial, fun _ _ => trivial⟩⟩
    obtain ⟨t, hfirst, hrun⟩ := foldlM_cons_eq_ok.mp hrun
    obtain ⟨u, hsecond, hend⟩ := foldlM_cons_eq_ok.mp hrun
    cases hend
    obtain ⟨addr?, b, halloc, rfl⟩ := answer_alloc_eq_ok.mp hfirst
    obtain ⟨next?, c, halloc', rfl⟩ := answer_alloc_eq_ok.mp hsecond
    obtain ⟨rfl, hvalid, hadds⟩ := Arena.alloc_new hnew hpos (Nat.le_of_lt hi) halloc
    obtain ⟨next, rfl, hadds'⟩ := Arena.alloc_next hnew hadds hvalid hi halloc'
    have hbase : a₀.base = base := by
      obtain ⟨-, -, hfresh⟩ := Arena.new_eq_ok.mp hnew
      rw [hfresh]
    have hdue := hholds.due
    simp only [Option.map_some, Option.toList_some, List.nil_append, List.cons_append,
      List.map_cons, List.map_nil, hbase] at hdue
    obtain ⟨e, rest, rfl, he, hdue⟩ := List.map_eq_cons_iff.mp hdue.symm
    obtain ⟨f, rest, rfl, hf, hdue⟩ := List.map_eq_cons_iff.mp hdue
    cases List.map_eq_nil_iff.mp hdue
    have hperm : [e, f].Perm [⟨i, 1⟩, ⟨0, i⟩] := by
      have hextents := hadds.extents
      rw [Arena.extents_new hnew] at hextents
      have hlive := Arena.takeAll_new hnew [e, f]
      rw [← hholds.arena] at hlive
      exact hlive.symm.trans (hadds'.extents.trans (hextents.cons _))
    have hsum := (hperm.map (·.first)).sum_nat
    simp only [List.map_cons, List.map_nil, List.sum_cons, List.sum_nil] at hsum
    have hnext : next.toNat = base.toNat + i * pageSize := by
      simp only [Prod.mk.injEq, pageSize] at he hf ⊢
      omega
    rw [← hnext]
    exact next.canonical

/-- Exactly the arenas whose pages all have addresses serve every client that frees what it was
given, once and with its count: no request stops the arena, each extent is given out at the
address of its first page, and after each free the arena is as if the extent had never been
taken. -/
theorem served_iff_canonical (hnew : (Arena.new base pages).result = .ok a₀) :
    (∀ requests, Fair answer Owes ⟨a₀, []⟩ requests →
      ∃ s live, (requests.foldlM answer ⟨a₀, []⟩).result = .ok s ∧ s.Holds a₀ live) ↔
    CanonicalPages base pages := by
  refine ⟨canonical_of_served hnew, fun hpages requests hfair => ?_⟩
  have hstart : Lending.Holds a₀ [] ⟨a₀, []⟩ := ⟨rfl, rfl⟩
  have hfresh : a₀.base = base ∧ a₀.total = pages := by
    obtain ⟨-, -, rfl⟩ := Arena.new_eq_ok.mp hnew
    exact ⟨rfl, rfl⟩
  rw [← hfresh.1, ← hfresh.2] at hpages
  obtain ⟨s, hrun, -, live, hholds⟩ := hfair.served
    (I := fun s => s.arena.Valid ∧ ∃ live, s.Holds a₀ live)
    ⟨Arena.valid_new hnew, [], hstart⟩ fun s r hs hmay => by
      obtain ⟨hvalid, live, hholds⟩ := hs
      cases r with
      | alloc count => exact hholds.alloc hvalid hpages count
      | free addr count => exact hholds.free hvalid hnew hmay
  exact ⟨s, live, hrun, hholds⟩

/-- Two pages, all of them free. -/
def pair (base : VirtAddr) : Lending where
  arena := { base, total := 2, taken := .clear 2, extents := [], available := 2 }

/-- The last two pages of the lower half go out one by one, and then both at once. -/
theorem served_iff_canonical_small : ∃ base last s live,
    base.toNat + 2 * pageSize = 0x800000000000 ∧
    (Arena.new base 2).result = .ok (pair base).arena ∧
    (List.foldlM answer (pair base) [.alloc 1, .alloc 1, .free base 1, .alloc 2, .free last 1,
      .alloc 2]).result = .ok s ∧
    s.due = [(base, 2)] ∧ s.Holds (pair base).arena live := by
  have hnew : (Arena.new ⟨0x7fffffffe000, by decide⟩ 2).result =
      .ok (pair ⟨0x7fffffffe000, by decide⟩).arena := rfl
  obtain ⟨s, live, hrun, hholds⟩ := (served_iff_canonical hnew).mpr (by decide)
    [.alloc 1, .alloc 1, .free ⟨0x7fffffffe000, by decide⟩ 1, .alloc 2,
      .free ⟨0x7ffffffff000, by decide⟩ 1, .alloc 2] (by decide +kernel)
  obtain ⟨t, ht, hdue⟩ := observe_ok due (b := [(⟨0x7fffffffe000, by decide⟩, 2)])
    (x := (List.foldlM answer (pair ⟨0x7fffffffe000, by decide⟩) [.alloc 1, .alloc 1,
      .free ⟨0x7fffffffe000, by decide⟩ 1, .alloc 2, .free ⟨0x7ffffffff000, by decide⟩ 1,
      .alloc 2]).result) (by decide +kernel)
  cases hrun.symm.trans ht
  exact ⟨_, _, s, live, rfl, hnew, hrun, hdue, hholds⟩

/-- Of two pages around the end of the lower half, the second goes out under an address that the
arena does not take back. Of two around the end of the space, the second cannot go out. -/
theorem served_not_straddling :
    (∃ base far s, (Arena.new base 2).result = .ok (pair base).arena ∧
      Fair answer Owes (pair base) [.alloc 1, .alloc 1, .free far 1] ∧
      (List.foldlM answer (pair base) [.alloc 1, .alloc 1]).result = .ok s ∧
      s.due = [(base, 1), (far, 1)] ∧
      s.arena.extents = [⟨0, 1⟩, ⟨1, 1⟩] ∧ far.toNat ≠ base.toNat + 1 * pageSize ∧
      (s.answer (.free far 1)).result = .error (.violation (.freeOutsideArena far))) ∧
    ∃ base, (Arena.new base 2).result = .ok (pair base).arena ∧
      Fair answer Owes (pair base) [.alloc 1, .alloc 1] ∧
      (List.foldlM answer (pair base) [.alloc 1, .alloc 1]).result =
        .error (.address .overflow) := by
  refine ⟨?_, ⟨0xfffffffffffff000, by decide⟩, rfl, by decide +kernel, by decide +kernel⟩
  obtain ⟨s, hrun, hs⟩ := observe_ok
    (x := (List.foldlM answer (pair ⟨0x7ffffffff000, by decide⟩) [.alloc 1, .alloc 1]).result)
    (fun s => (s.due, s.arena.extents, (s.answer (.free ⟨0xffff800000000000, by decide⟩ 1)).result))
    (b := ([(⟨0x7ffffffff000, by decide⟩, 1), (⟨0xffff800000000000, by decide⟩, 1)],
      [⟨0, 1⟩, ⟨1, 1⟩], .error (.violation (.freeOutsideArena ⟨0xffff800000000000, by decide⟩))))
    (by decide +kernel)
  simp only [Prod.mk.injEq] at hs
  obtain ⟨hdue, hextents, hfree⟩ := hs
  exact ⟨⟨0x7ffffffff000, by decide⟩, ⟨0xffff800000000000, by decide⟩, s, rfl, by decide +kernel,
    hrun, hdue, hextents, by decide, hfree⟩

end Served

end Lending

end KernelThreads
