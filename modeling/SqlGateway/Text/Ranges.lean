/-!
# Sets of code points

A character property of the Unicode standard is kept as a list of inclusive ranges of code points,
in increasing order.  A long list is given by the lengths of its stretches: how many code points lie
outside, how many inside, and so on in turn.  The lengths are packed into hexadecimal numbers that
are read from their last digit: a digit holds three bits of a length, the lowest first, and a digit
from eight on says that more bits follow.
-/

namespace SqlGateway.Text

/-- Inclusive ranges of code points. -/
abbrev Ranges := List (Nat × Nat)

def Ranges.has (rs : Ranges) (n : Nat) : Bool :=
  rs.any fun r => decide (r.1 ≤ n) && decide (n ≤ r.2)

/-- The ranges from `start` on whose stretches, outside and inside in turn, have the given lengths. -/
def Ranges.ofStretches (start : Nat) : List Nat → Ranges
  | outside :: inside :: rest =>
    (start + outside, start + outside + inside - 1) :: ofStretches (start + outside + inside) rest
  | _ => []

/-- The numbers in the next digits of `code`, where `n` is what was read of the first of them and `unit` the
weight of its next digit. -/
def unpack : (digits : Nat) → (code n unit : Nat) → List Nat
  | 0, _, _, _ => []
  | digits + 1, code, n, unit =>
    if code % 16 < 8 then (n + unit * (code % 16)) :: unpack digits (code / 16) 0 1
    else unpack digits (code / 16) (n + unit * (code % 8)) (8 * unit)

def unpacked (rows : List Nat) : List Nat :=
  rows.flatMap fun row => unpack (row.log2 / 4 + 1) row 0 1

def Ranges.packed (rows : List Nat) : Ranges :=
  .ofStretches 0 (unpacked rows)

end SqlGateway.Text
