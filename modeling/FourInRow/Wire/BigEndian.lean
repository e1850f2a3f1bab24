/-!
# Numbers as bytes

A number is written in a fixed count of bytes, the most significant one first.  Reading the
bytes gives the number back, up to what does not fit into them.
-/

namespace FourInRow

namespace BigEndian

/-- The lowest `count` bytes of a number, the most significant one first. -/
def encode : Nat → Nat → List UInt8
  | 0, _ => []
  | count + 1, n => UInt8.ofNat (n >>> (8 * count)) :: encode count n

/-- The number that bytes stand for, the most significant one first. -/
def decode (bytes : List UInt8) : Nat :=
  bytes.foldl (fun n b => 256 * n + b.toNat) 0

@[simp] theorem length_encode (count n : Nat) : (encode count n).length = count := by
  induction count with
  | zero => rfl
  | succ count ih => simp [encode, ih]

end BigEndian

end FourInRow
