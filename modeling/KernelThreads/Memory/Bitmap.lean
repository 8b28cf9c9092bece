/-!
A set of page numbers packed 64 to a word, and the search for a run of pages
outside it. `get_set` is the view through which the words are read.
-/
namespace KernelThreads

structure Bitmap where
  words : Array UInt64
deriving DecidableEq, Repr

namespace Bitmap

/-- Room for `pages` pages, none of them set. -/
def clear (pages : Nat) : Bitmap := ⟨Array.replicate ((pages + 63) / 64) 0⟩

/-- The bit of page `p` in its word. -/
def mask (p : Nat) : UInt64 := 1 <<< (p % 64).toUInt64

def get (b : Bitmap) (p : Nat) : Bool := b.words[p / 64]?.getD 0 &&& mask p != 0

def set (b : Bitmap) (p : Nat) (v : Bool) : Bitmap :=
  ⟨b.words.modify (p / 64) fun w => if v then w ||| mask p else w &&& ~~~mask p⟩

/-- Gives the pages `start`, …, `start + count - 1` the value `v`. -/
def fill (b : Bitmap) (start count : Nat) (v : Bool) : Bitmap :=
  (List.range' start count).foldl (fun b p => b.set p v) b

/-- The first of the pages `start`, …, `start + count - 1` that is set. -/
def firstSet? (b : Bitmap) (start count : Nat) : Option Nat :=
  (List.range' start count).find? b.get

/-- The first run of `count` clear pages at or after `start` and below `total`.
A set page inside a candidate run rules out every run that contains it, so the
search goes on behind that page. -/
def findRun? (b : Bitmap) (total count : Nat) (start : Nat := 0) : Option Nat :=
  if start + count ≤ total then
    match h : b.firstSet? start count with
    | some busy => b.findRun? total count (busy + 1)
    | none => some start
  else none
termination_by total + 1 - start
decreasing_by
  have := List.mem_range'_1.mp (List.mem_of_find?_eq_some h)
  omega

theorem testBit_mask (p i : Nat) : (mask p).toNat.testBit i = decide (p % 64 = i) := by
  have h : p % 64 < 64 := Nat.mod_lt p (by decide)
  have hp : 2 ^ (p % 64) < 2 ^ 64 := Nat.pow_lt_pow_right (by decide) h
  have hm : (mask p).toNat = 2 ^ (p % 64) := by
    simp [mask, UInt64.toNat_shiftLeft, Nat.mod_eq_of_lt h, Nat.shiftLeft_eq]
    simpa using hp
  rw [hm, Nat.testBit_two_pow]

/-- Masking a word tests the bit of the page. -/
theorem and_mask (w : UInt64) (p : Nat) : (w &&& mask p != 0) = w.toNat.testBit (p % 64) := by
  have hbit (i : Nat) : (w &&& mask p).toNat.testBit i =
      (w.toNat.testBit i && decide (p % 64 = i)) := by
    rw [UInt64.toNat_and, Nat.testBit_and, testBit_mask]
  cases h : w.toNat.testBit (p % 64) with
  | true =>
    rw [bne_iff_ne]
    intro h0
    have := hbit (p % 64)
    simp [h0, h] at this
  | false =>
    rw [bne_eq_false_iff_eq, ← UInt64.toNat_inj]
    refine Nat.eq_of_testBit_eq fun i => ?_
    rw [hbit i]
    by_cases hi : p % 64 = i
    · simp [← hi, h]
    · simp [hi]

/-- The word that `set` writes. -/
theorem testBit_write (w : UInt64) (p : Nat) (v : Bool) {i : Nat} (hi : i < 64) :
    (if v then w ||| mask p else w &&& ~~~mask p).toNat.testBit i =
      if p % 64 = i then v else w.toNat.testBit i := by
  cases v with
  | true =>
    rw [if_pos rfl, UInt64.toNat_or, Nat.testBit_or, testBit_mask]
    by_cases h : p % 64 = i <;> simp [h]
  | false =>
    rw [if_neg Bool.false_ne_true, UInt64.toNat_and, Nat.testBit_and,
      ← UInt64.toNat_toBitVec (~~~mask p), UInt64.toBitVec_not, BitVec.testBit_toNat,
      BitVec.getLsbD_not, ← BitVec.testBit_toNat, UInt64.toNat_toBitVec, testBit_mask]
    by_cases h : p % 64 = i <;> simp [h, hi]

theorem size_set (b : Bitmap) (p : Nat) (v : Bool) : (b.set p v).words.size = b.words.size := by
  simp [set]

/-- A write is read back at its own page, if the page has a word, and nowhere else. -/
theorem get_set (b : Bitmap) (p q : Nat) (v : Bool) (h : p / 64 < b.words.size) :
    (b.set p v).get q = if p = q then v else b.get q := by
  simp only [get, and_mask, set, Array.getElem?_modify]
  by_cases hw : p / 64 = q / 64
  · have hm : p % 64 = q % 64 ↔ p = q := by omega
    have hq : q % 64 < 64 := Nat.mod_lt q (by decide)
    rw [if_pos hw, ← hw, Array.getElem?_eq_getElem h]
    simp only [Option.map_some, Option.getD_some]
    rw [testBit_write _ _ _ hq]
    simp only [hm]
  · have hne : p ≠ q := fun e => hw (e ▸ rfl)
    rw [if_neg hw, if_neg hne]

end Bitmap

end KernelThreads
