/-!
Hexadecimal text of words: `0x`, then lowercase digits without leading zeros.
-/
namespace KernelThreads.Hex

def render (n : Nat) : String := "0x" ++ String.ofList (Nat.toDigits 16 n)

def digit? (c : Char) : Option Nat :=
  if '0' ≤ c ∧ c ≤ '9' then some (c.toNat - '0'.toNat)
  else if 'a' ≤ c ∧ c ≤ 'f' then some (c.toNat - 'a'.toNat + 10)
  else none

def digits? (cs : List Char) : Option Nat :=
  cs.foldlM (fun n c => (digit? c).map (16 * n + ·)) 0

/-- Text of a 64-bit word. Longer digit strings are refused, not truncated. -/
def word? (s : String) : Option UInt64 :=
  match s.toList with
  | '0' :: 'x' :: c :: cs =>
    (digits? (c :: cs)).bind fun n => if n < UInt64.size then some n.toUInt64 else none
  | _ => none

end KernelThreads.Hex
