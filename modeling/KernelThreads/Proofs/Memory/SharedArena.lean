import KernelThreads.Proofs.Memory.FirstFit
import KernelThreads.Proofs.Sessions

/-!
Stacks of several sizes from one arena. Any number of allocators, each with its own size of
stacks, take extents from it and give them back in any order; a stack may go back through another
allocator than the one that made it, if both make stacks of the same size.
-/
namespace KernelThreads

open Logged (Fair bind_eq_ok pure_eq_ok)

namespace Stack
variable {s t : Stack} {base first next : Nat}

/-- One of the pages of `s` starts at `w`. -/
def HasPage (s : Stack) (w : Nat) : Prop := ∃ i < s.pages, w = s.base.toNat + i * pageSize

/-- The guard is the lowest page. -/
theorem inGuard_eq (hs : CanonicalSpan s.base s.pages) (hpos : 0 < s.pages) (addr : VirtAddr) :
    s.inGuard addr = .ok (decide (s.base.toNat ≤ addr.toNat ∧
      addr.toNat < s.base.toNat + pageSize)) := by
  obtain ⟨bottom, hbottom, hvalue⟩ := hs.offset (show guardPages ≤ _ from hpos)
  rw [guardPages, Nat.one_mul] at hvalue
  unfold inGuard
  by_cases hlow : s.base.toNat ≤ addr.toNat
  · rw [if_pos hlow, Stack.bottom, hbottom]
    simp only [bind, Except.bind, pure, Except.pure, hvalue, hlow, true_and]
  · rw [if_neg hlow]
    simp [hlow, pure, Except.pure]

/-- Stacks on pages of one arena meet where they have a page in common. -/
theorem meet_iff (hs : s.base.toNat = base + first * pageSize)
    (ht : t.base.toNat = base + next * pageSize) (hspos : 0 < s.pages) (htpos : 0 < t.pages) :
    (s.base.toNat < t.base.toNat + t.pages * pageSize ∧
      t.base.toNat < s.base.toNat + s.pages * pageSize) ↔ ∃ w, s.HasPage w ∧ t.HasPage w := by
  rw [hs, ht]
  simp only [HasPage, hs, ht, pageSize]
  constructor
  · intro hmeet
    -- the later of the two first pages belongs to both
    exact ⟨base + max first next * 4096, ⟨max first next - first, by omega, by omega⟩,
      max first next - next, by omega, by omega⟩
  · rintro ⟨w, ⟨i, hi, rfl⟩, j, hj, hw⟩
    omega

end Stack

/-- A stack and the allocator that made it, which is told by the size of its stacks. -/
structure Stock where
  maker : StackConfig
  stack : Stack
deriving DecidableEq

/-- Where the guard and the working area of a stack lie: together they are its extent, and the
working area is as large as was asked for. -/
structure Stock.Laid (s : Stock) (bottom top : VirtAddr) : Prop where
  bottom_eq : s.stack.bottom = .ok bottom
  top_eq : s.stack.top = .ok top
  guard : bottom.toNat = s.stack.base.toNat + pageSize
  area : top.toNat = bottom.toNat + s.maker.stackSize.toNat
  limit : top.toNat = s.stack.base.toNat + s.stack.pages * pageSize
  size : s.stack.size = s.maker.stackSize
  inGuard : ∀ addr, s.stack.inGuard addr =
    .ok (decide (s.stack.base.toNat ≤ addr.toNat ∧ addr.toNat < bottom.toNat))
  covers : ∀ addr : VirtAddr, s.stack.base.toNat ≤ addr.toNat ∧ addr.toNat < top.toNat ↔
    s.stack.inGuard addr = .ok true ∨ bottom.toNat ≤ addr.toNat ∧ addr.toNat < top.toNat
  apart : ∀ addr : VirtAddr, ¬ (s.stack.inGuard addr = .ok true ∧ bottom.toNat ≤ addr.toNat)

/-- An arena that stack allocators share, with all stacks that have been made from it and those
of them that are held, oldest first. -/
structure Depot where
  pages : Arena
  held : List Stock := []
  made : List Stock := []
deriving DecidableEq

namespace Depot
variable {d d' : Depot} {base : VirtAddr} {pages : Nat} {a₀ : Arena} {s t : Stock}
  {c : StackConfig}

inductive Request where
  | acquire (c : StackConfig)
  | release (c : StackConfig) (s : Stock)

def answer (d : Depot) : Request → Logged Depot
  | .acquire c => do
    let (r, pages) ← c.acquire d.pages
    match r with
    | .ok stack => return { pages, held := d.held ++ [⟨c, stack⟩], made := d.made ++ [⟨c, stack⟩] }
    | .error _ => return { d with pages }
  | .release c s => do
    let pages ← c.release d.pages s.stack
    return { d with pages, held := d.held.erase s }

/-- An allocator has passed the check of its size, and a stack is released by whoever holds it:
it is gone afterwards. -/
def May (d : Depot) : Request → Prop
  | .acquire c => c.validate.result = .ok ()
  | .release c s => c.validate.result = .ok () ∧ s ∈ d.held

instance : DecidableRel May := fun d r =>
  match r with
  | .acquire c => inferInstanceAs (Decidable (c.validate.result = .ok ()))
  | .release c s => inferInstanceAs (Decidable (c.validate.result = .ok () ∧ s ∈ d.held))

theorem answer_acquire_eq_ok : (d.answer (.acquire c)).result = .ok d' ↔
    ∃ base? a, (d.pages.alloc c.extentPages).result = .ok (base?, a) ∧
      d' = match base? with
        | some base =>
          let stock : Stock := ⟨c, ⟨base, c.extentPages⟩⟩
          ⟨a, d.held ++ [stock], d.made ++ [stock]⟩
        | none => { d with pages := a } := by
  simp only [answer, bind_eq_ok, Prod.exists, StackConfig.acquire_eq_ok]
  constructor
  · rintro ⟨r, a, ⟨base?, halloc, rfl⟩, hd⟩
    refine ⟨base?, a, halloc, ?_⟩
    cases base? <;> cases hd <;> rfl
  · rintro ⟨base?, a, halloc, rfl⟩
    refine ⟨_, a, ⟨base?, halloc, rfl⟩, ?_⟩
    cases base? <;> rfl

theorem answer_release_eq_ok : (d.answer (.release c s)).result = .ok d' ↔
    ∃ a, (c.release d.pages s.stack).result = .ok a ∧
      d' = { d with pages := a, held := d.held.erase s } := by
  simp only [answer, bind_eq_ok, pure_eq_ok]
  exact exists_congr fun _ => and_congr_right fun _ => eq_comm

/-- `s` is a stack of its maker's size, on pages of the arena. -/
structure Fits (base : VirtAddr) (pages : Nat) (s : Stock) : Prop where
  valid : s.maker.validate.result = .ok ()
  size : s.stack.pages = s.maker.extentPages
  inside : ∃ first, first + s.stack.pages ≤ pages ∧
    s.stack.base.toNat = base.toNat + first * pageSize

/-- The live extents are the stacks that are held. -/
structure Sound (base : VirtAddr) (pages : Nat) (d : Depot) : Prop where
  valid : d.pages.Valid
  base_eq : d.pages.base = base
  total_eq : d.pages.total = pages
  regions : d.pages.regions.Perm (d.held.map (·.stack.region))
  kept : ∀ s ∈ d.held, s ∈ d.made
  fits : ∀ s ∈ d.made, Fits base pages s

theorem Fits.positive (hs : Fits base pages s) : 0 < s.stack.pages :=
  hs.size ▸ s.maker.extentPages_pos

theorem Fits.span (hs : Fits base pages s) (hspan : CanonicalSpan base pages) :
    CanonicalSpan s.stack.base s.stack.pages := by
  obtain ⟨first, hin, hbase⟩ := hs.inside
  exact hspan.within hbase hin

theorem Sound.acquire (hd : d.Sound base pages) (hspan : CanonicalSpan base pages)
    (hc : c.validate.result = .ok ()) (hanswer : (d.answer (.acquire c)).result = .ok d') :
    d'.Sound base pages := by
  obtain ⟨addr?, a, halloc, rfl⟩ := answer_acquire_eq_ok.mp hanswer
  cases addr? with
  | none =>
    rw [Arena.Valid.alloc_none halloc]
    exact hd
  | some addr =>
    rw [← hd.base_eq, ← hd.total_eq] at hspan ⊢
    obtain ⟨hvalid, hbase, htotal, -, hperm⟩ := hd.valid.alloc_some hspan halloc
    obtain ⟨first, hin, hvalue⟩ := Arena.alloc_pages hspan.canonicalPages halloc
    have hfits : Fits d.pages.base d.pages.total ⟨c, addr, c.extentPages⟩ :=
      ⟨hc, rfl, first, hin, hvalue⟩
    refine ⟨hvalid, hbase, htotal, ?_, ?_, ?_⟩
    · rw [List.map_append]
      exact hperm.trans ((hd.regions.cons _).trans (List.perm_append_singleton _ _).symm)
    · intro s hs
      rw [List.mem_append] at hs ⊢
      exact hs.imp_left (hd.kept s)
    · intro s hs
      rcases List.mem_append.mp hs with hs | hs
      · have := hd.fits s hs
        rwa [← hd.base_eq, ← hd.total_eq] at this
      · cases List.mem_singleton.mp hs
        exact hfits

theorem Sound.release (hd : d.Sound base pages) (hs : s ∈ d.held)
    (hanswer : (d.answer (.release c s)).result = .ok d') : d'.Sound base pages := by
  obtain ⟨a, hrelease, rfl⟩ := answer_release_eq_ok.mp hanswer
  obtain ⟨-, hfree⟩ := StackConfig.release_eq_ok.mp hrelease
  obtain ⟨hvalid, hbase, htotal, hperm⟩ := hd.valid.free_perm hfree
  have hheld := (List.perm_cons_erase hs).map (·.stack.region)
  exact ⟨hvalid, hbase.trans hd.base_eq, htotal.trans hd.total_eq,
    (List.perm_cons _).mp (hperm.symm.trans (hd.regions.trans hheld)),
    fun s hs => hd.kept s (List.mem_of_mem_erase hs), hd.fits⟩

/-- No two stacks that are held have a byte in common. -/
theorem Sound.apart (hd : d.Sound base pages) (hspan : CanonicalSpan base pages) :
    d.held.Pairwise fun s t => s.stack.overlaps t.stack = .ok false ∧
      t.stack.overlaps s.stack = .ok false := by
  have hapart := (hd.regions.pairwise_iff
    (R := fun x y => x.1 + x.2 * pageSize ≤ y.1 ∨ y.1 + y.2 * pageSize ≤ x.1) Or.symm).mp
      (hd.valid.regions_apart.imp Or.inl)
  refine (List.pairwise_map.mp hapart).imp_of_mem fun {s t} hs ht hst => ?_
  have hs := hd.fits s (hd.kept s hs)
  have ht := hd.fits t (hd.kept t ht)
  simp only [Stack.region] at hst
  rw [Stack.overlaps_eq (hs.span hspan) (ht.span hspan),
    Stack.overlaps_eq (ht.span hspan) (hs.span hspan)]
  constructor <;> exact congrArg Except.ok (decide_eq_false (by omega))

theorem Fits.laid (hs : Fits base pages s) (hspan : CanonicalSpan base pages) :
    ∃ bottom top, s.Laid bottom top := by
  have hextent := hs.span hspan
  obtain ⟨bottom, hbottom, hlow⟩ := hextent.offset (show guardPages ≤ _ from hs.positive)
  obtain ⟨top, htop, hlimit⟩ := Stack.top_eq hextent
  rw [guardPages, Nat.one_mul] at hlow
  have harea : top.toNat = bottom.toNat + s.maker.stackSize.toNat := by
    rw [hlimit, hs.size, StackConfig.extentPages_bytes hs.valid, hlow, Nat.add_assoc]
  have hguard (addr : VirtAddr) : s.stack.inGuard addr =
      .ok (decide (s.stack.base.toNat ≤ addr.toNat ∧ addr.toNat < bottom.toNat)) := by
    rw [Stack.inGuard_eq hextent hs.positive, hlow]
  refine ⟨bottom, top, hbottom, htop, hlow, harea, hlimit, StackConfig.size_eq hs.valid hs.size,
    hguard, fun addr => ?_, fun addr => ?_⟩
  · rw [hguard, Except.ok.injEq, decide_eq_true_iff]
    omega
  · rw [hguard, Except.ok.injEq, decide_eq_true_iff]
    omega

/-- Two stacks overlap if they have a page in common, whether or not they are held. -/
theorem Fits.overlaps (hs : Fits base pages s) (ht : Fits base pages t)
    (hspan : CanonicalSpan base pages) : ∃ b, s.stack.overlaps t.stack = .ok b ∧
      (b = true ↔ ∃ w, s.stack.HasPage w ∧ t.stack.HasPage w) := by
  obtain ⟨first, -, hsbase⟩ := hs.inside
  obtain ⟨next, -, htbase⟩ := ht.inside
  refine ⟨_, Stack.overlaps_eq (hs.span hspan) (ht.span hspan), ?_⟩
  rw [decide_eq_true_iff]
  exact Stack.meet_iff hsbase htbase hs.positive ht.positive

/-- The stack `s` is on the pages from `first` on. Any allocator of its size gives exactly them
back, and any other stops. -/
structure GoesBack (d : Depot) (s : Stock) (first : Nat) : Prop where
  place : s.stack.base.toNat = d.pages.base.toNat + first * pageSize
  pages : (d.pages.giveBack ⟨first, s.stack.pages⟩).Adds ⟨first, s.stack.pages⟩ d.pages
  through : ∀ c : StackConfig, c.extentPages = s.stack.pages →
    (c.release d.pages s.stack).result = .ok (d.pages.giveBack ⟨first, s.stack.pages⟩)
  fails_iff : ∀ c : StackConfig, (∃ fault, (c.release d.pages s.stack).result = .error fault) ↔
    c.extentPages ≠ s.stack.pages

theorem Sound.goesBack (hd : d.Sound base pages) (hs : s ∈ d.held) :
    ∃ first, d.GoesBack s first := by
  have hregion : s.stack.region ∈ d.pages.regions :=
    hd.regions.mem_iff.mpr (List.mem_map.mpr ⟨s, hs, rfl⟩)
  obtain ⟨⟨first, count⟩, he, hregion⟩ := List.mem_map.mp hregion
  obtain ⟨haddr, rfl⟩ := Prod.mk.inj hregion
  have hfree := hd.valid.free_extent he haddr.symm
  have hback (c : StackConfig) (hsize : c.extentPages = s.stack.pages) :
      (c.release d.pages s.stack).result = .ok (d.pages.giveBack ⟨first, s.stack.pages⟩) :=
    StackConfig.release_eq_ok.mpr ⟨hsize.symm, hfree⟩
  refine ⟨first, haddr.symm, hd.valid.giveBack_adds he, hback, fun c => ?_⟩
  by_cases hsize : c.extentPages = s.stack.pages
  · simp [hback c hsize, hsize]
  · simp [StackConfig.release, Ne.symm hsize, hsize, Except.bind]

/-- However stacks of several sizes have been acquired from one arena and released, each by its
holder: the live extents are the stacks that are held, no two of which overlap; stacks overlap
exactly if they share a page; each is its guard and a working area of the size of its maker; and
it goes back through any allocator of that size, and through no other. -/
theorem stacks_of_all_sizes {requests : List Request} (hspan : CanonicalSpan base pages)
    (hnew : (Arena.new base pages).result = .ok a₀)
    (hfair : Fair answer May { pages := a₀ } requests)
    (hrun : (requests.foldlM answer { pages := a₀ }).result = .ok d) :
    d.pages.regions.Perm (d.held.map (·.stack.region)) ∧
    (d.held.Pairwise fun s t => s.stack.overlaps t.stack = .ok false ∧
      t.stack.overlaps s.stack = .ok false) ∧
    (∀ s ∈ d.made, ∀ t ∈ d.made, ∃ b, s.stack.overlaps t.stack = .ok b ∧
      (b = true ↔ ∃ w, s.stack.HasPage w ∧ t.stack.HasPage w)) ∧
    (∀ s ∈ d.held, s ∈ d.made) ∧
    (∀ s ∈ d.made, ∃ bottom top, s.Laid bottom top) ∧
    (∀ s ∈ d.held, ∃ first, d.GoesBack s first) ∧
    ∀ c, ∃ d', (d.answer (.acquire c)).result = .ok d' := by
  have hstart : Sound base pages { pages := a₀ } := by
    have hvalid := Arena.valid_new hnew
    obtain ⟨-, -, rfl⟩ := Arena.new_eq_ok.mp hnew
    exact ⟨hvalid, rfl, rfl, .refl _, by simp, by simp⟩
  have hd : d.Sound base pages := hfair.invariant hrun hstart fun d r d' hd hmay hanswer => by
    cases r with
    | acquire c => exact hd.acquire hspan hmay hanswer
    | release c s => exact hd.release hmay.2 hanswer
  refine ⟨hd.regions, hd.apart hspan, fun s hs t ht => (hd.fits s hs).overlaps (hd.fits t ht) hspan,
    hd.kept, fun s hs => (hd.fits s hs).laid hspan, fun s hs => hd.goesBack hs, fun c => ?_⟩
  rw [← hd.base_eq, ← hd.total_eq] at hspan
  obtain ⟨base?, a, halloc⟩ := Arena.Valid.alloc_ok hspan c.extentPages
  exact ⟨_, answer_acquire_eq_ok.mpr ⟨base?, a, halloc, rfl⟩⟩

/-- Stacks of one and of two working pages. One of the small ones has gone back, and so there is
room for a large one above it and for a small one in its place. -/
theorem stacks_of_all_sizes_small : ∃ d base low high, base.toNat = 0x100000 ∧
    (Arena.new base 8).result = .ok ⟨base, 8, .clear 8, [], 8⟩ ∧
    low = ⟨⟨4096⟩, base, 2⟩ ∧
    (List.foldlM answer { pages := ⟨base, 8, .clear 8, [], 8⟩ } [.acquire ⟨4096⟩, .acquire ⟨8192⟩,
      .release ⟨4096⟩ low, .acquire ⟨8192⟩, .acquire ⟨4096⟩]).result = .ok d ∧
    d.held.map (·.stack.region) = [(0x102000, 3), (0x105000, 3), (0x100000, 2)] ∧
    high ∈ d.held ∧ high.stack.region = (0x105000, 3) ∧
    (∃ b, high.stack.overlaps low.stack = .ok b ∧
      (b = true ↔ ∃ w, high.stack.HasPage w ∧ low.stack.HasPage w)) ∧
    (∃ fault, ((⟨4096⟩ : StackConfig).release d.pages high.stack).result = .error fault) ∧
    ∃ a, ((⟨8192⟩ : StackConfig).release d.pages high.stack).result = .ok a := by
  have hspan : CanonicalSpan ⟨0x100000, by decide⟩ 8 := by
    intro w hlow hhigh
    simp only [pageSize] at hhigh
    unfold Canonical
    omega
  have hnew : (Arena.new ⟨0x100000, by decide⟩ 8).result =
      .ok ⟨⟨0x100000, by decide⟩, 8, .clear 8, [], 8⟩ := rfl
  let low : Stock := ⟨⟨4096⟩, ⟨0x100000, by decide⟩, 2⟩
  let high : Stock := ⟨⟨8192⟩, ⟨0x105000, by decide⟩, 3⟩
  obtain ⟨d, hrun, hd⟩ := observe_ok
    (x := (List.foldlM answer { pages := ⟨⟨0x100000, by decide⟩, 8, .clear 8, [], 8⟩ }
      [.acquire ⟨4096⟩, .acquire ⟨8192⟩, .release ⟨4096⟩ low, .acquire ⟨8192⟩,
        .acquire ⟨4096⟩]).result)
    (fun d => (d.held.map (·.stack.region), decide (high ∈ d.held ∧ high ∈ d.made ∧ low ∈ d.made)))
    (b := ([(0x102000, 3), (0x105000, 3), (0x100000, 2)], true)) (by decide +kernel)
  obtain ⟨hheld, hhas⟩ := Prod.mk.inj hd
  obtain ⟨hhigh, hmade, hlow⟩ := of_decide_eq_true hhas
  obtain ⟨-, -, hoverlaps, -, -, hback, -⟩ :=
    stacks_of_all_sizes hspan hnew (by decide +kernel) hrun
  obtain ⟨first, hback⟩ := hback high hhigh
  exact ⟨d, _, low, high, rfl, hnew, rfl, hrun, hheld, hhigh, rfl, hoverlaps high hmade low hlow,
    (hback.fails_iff ⟨4096⟩).mpr (by decide), _, hback.through ⟨8192⟩ (by decide)⟩

end Depot

end KernelThreads
