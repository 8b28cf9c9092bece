import KernelThreads.Proofs.Memory.Rotation
import KernelThreads.Proofs.Memory.Spans
import KernelThreads.Proofs.Thread.Occupancy

/-!
What is given straight back. Of pages no trace is left: bitmap, extents and count are what
they were, to the last bit. A slot leaves a trace in the order in which the pool searches,
and a thread in the generation of its slot.
-/
namespace KernelThreads

namespace Bitmap
variable {b c : Bitmap} {start count : Nat}

/-- Bitmaps with the same number of words and the same pages are equal. -/
theorem ext_get (hsize : b.words.size = c.words.size) (hget : ∀ p, b.get p = c.get p) : b = c := by
  have hwords : b.words = c.words := by
    refine Array.ext hsize fun i hb hc => UInt64.toNat_inj.mp (Nat.eq_of_testBit_eq fun j => ?_)
    by_cases hj : j < 64
    · have hbit := hget (64 * i + j)
      have hword : (64 * i + j) / 64 = i := by omega
      have hplace : (64 * i + j) % 64 = j := by omega
      simpa [get, and_mask, hword, hplace, Array.getElem?_eq_getElem, hb, hc] using hbit
    · have hhigh (w : UInt64) : w.toNat.testBit j = false :=
        Nat.testBit_lt_two_pow (Nat.lt_of_lt_of_le w.toNat_lt
          (Nat.pow_le_pow_right (by decide) (Nat.le_of_not_lt hj)))
      rw [hhigh, hhigh]
  cases b
  cases c
  exact congrArg mk hwords

/-- To set free pages and to clear them again changes nothing. -/
theorem fill_fill (hfree : b.Free start count) (hroom : start + count ≤ 64 * b.words.size) :
    (b.fill start count true).fill start count false = b := by
  refine ext_get (by rw [size_fill, size_fill]) fun p => ?_
  rw [get_fill _ _ _ _ _ (by rwa [size_fill]), get_fill _ _ _ _ _ hroom]
  split
  case isTrue hin => exact (hfree p hin.1 hin.2).symm
  case isFalse => rfl

end Bitmap

/-- To place an extent where none starts and to drop it again changes nothing. -/
theorem Extent.filter_place {e : Extent} {xs : List Extent} (hnew : ∀ x ∈ xs, x.first ≠ e.first) :
    (e.place xs).filter (·.first ≠ e.first) = xs := by
  induction xs with
  | nil => simp [place]
  | cons x xs ih =>
    obtain ⟨hx, hxs⟩ := List.forall_mem_cons.mp hnew
    unfold place
    split
    · rw [List.filter_cons_of_neg (by simp)]
      exact List.filter_eq_self.mpr fun y hy => by simpa using hnew y hy
    · rw [List.filter_cons_of_pos (by simpa using hx), ih hxs]

namespace Arena
variable {a b c : Arena} {addr : VirtAddr} {first count : Nat}

theorem Valid.giveBack_take (h : a.Valid) (hcount : 0 < count) (hroom : count ≤ a.available)
    (htotal : first + count ≤ a.total) (hfree : a.taken.Free first count) :
    (a.take ⟨first, count⟩).giveBack ⟨first, count⟩ = a := by
  have hnew : ∀ x ∈ a.extents, x.first ≠ first := by
    intro x hx
    -- two extents from the same page on would share it
    have hpos := h.positive x hx
    have happart := h.before_or_after hcount htotal hfree x hx
    simp only [Extent.Before] at happart
    omega
  have htaken := Bitmap.fill_fill hfree (Nat.le_trans htotal h.room)
  have hextents := Extent.filter_place (e := ⟨first, count⟩) hnew
  unfold Arena.take Arena.giveBack
  rw [htaken, hextents, Nat.sub_add_cancel hroom]

/-- Pages that come straight back leave no trace. -/
theorem Valid.alloc_free (h : a.Valid) (hspan : CanonicalSpan a.base a.total)
    (halloc : (a.alloc count).result = .ok (some addr, b))
    (hfree : (b.free addr count).result = .ok c) : c = a := by
  rcases alloc_eq_ok.mp halloc with ⟨hnone, -⟩ | ⟨first, addr', hsome, rfl, hpos, hroom, hrun, hat⟩
  · cases hnone
  · cases hsome
    obtain ⟨-, htotal, hclear, -⟩ := Bitmap.findRun?_eq_some hrun
    obtain ⟨page, hpage, hextent, rfl⟩ := free_eq_ok.mp hfree
    obtain ⟨addr', hoffset, hvalue⟩ := hspan.offset (show first ≤ _ by omega)
    cases hat.symm.trans hoffset
    have hbase : addr.toNat = a.base.toNat + page * pageSize := (pageAt?_eq_some.mp hpage).1
    have hsame : page = first := by
      simp only [pageSize] at hbase hvalue
      omega
    rw [hsame]
    exact h.giveBack_take hpos hroom htotal hclear

end Arena

theorem SlotPool.free_alloc {p q r : SlotPool} {slot : Nat} (h : p.alloc = (some slot, q))
    (hr : (q.free slot).result = .ok r) : r = { p with next := (slot + 1) % p.capacity } := by
  obtain ⟨hused, hcount⟩ := alloc_free h hr
  obtain ⟨-, rfl⟩ := free_eq_ok.mp hr
  unfold alloc at h
  split at h
  · split at h
    · cases h
      simp only at hused hcount
      rw [hused, hcount]
    · cases h
  · cases h

namespace Registry
variable {r s : Registry} {h : Handle} {t : Thread}

/-- To empty a slot that stands empty changes nothing. -/
theorem erase_awaits (hh : r.awaits h = true) : r.erase h = r :=
  modify_self (awaits_iff.mp hh) rfl

/-- Who moves in and out again, leaves nothing behind. -/
theorem erase_insert (hs : (r.insert t).result = .ok s) : s.erase t.id = r := by
  obtain ⟨hawaits, rfl⟩ := insert_eq_ok.mp hs
  refine (modify_modify ..).trans ?_
  exact erase_awaits hawaits

end Registry

end KernelThreads
