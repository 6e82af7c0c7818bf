/-! # Powers

Powers of the two bases in which numbers are held and written.
-/

namespace PartScan.Number

def pow2 (n : Nat) : Nat := Nat.pow 2 n

def pow10 (n : Nat) : Nat := Nat.pow 10 n

theorem pow10_pos (n : Nat) : 0 < pow10 n := Nat.pow_pos (by decide)

end PartScan.Number
