/-!
# Tables of code points

A character class or a case map of Unicode is kept as a short table of code point ranges in
increasing order.  This module says what such a table means; the tables themselves stand in the
modules that are named for the class or map.  A plain range is an inclusive pair.  A strided range
also has a step, because upper and lower case letters alternate in many alphabets.
-/

namespace NgIndex
namespace Text

/-- Membership in a table of inclusive ranges that stand in increasing order. -/
def inRanges : List (Nat × Nat) → Nat → Bool
  | [], _ => false
  | (lo, hi) :: rest, code =>
      if code < lo then false else decide (code ≤ hi) || inRanges rest code

/-- Membership in a table of strided ranges: every `step`-th code point from `lo` to `hi`. -/
def inStrides : List (Nat × Nat × Nat) → Nat → Bool
  | [], _ => false
  | (lo, hi, step) :: rest, code =>
      if code < lo then false
      else (decide (code ≤ hi) && (code - lo) % step == 0) || inStrides rest code

/-- The image of a code point under a table of strided shifts; a code point in no range is kept. -/
def shifted : List (Nat × Nat × Nat × Int) → Nat → Nat
  | [], code => code
  | (lo, hi, step, shift) :: rest, code =>
      if code < lo then code
      else if code ≤ hi && (code - lo) % step == 0 then (Int.ofNat code + shift).toNat
      else shifted rest code

/-- The code points that a table of strided shifts sends to the given one. -/
def shiftedFrom : List (Nat × Nat × Nat × Int) → Nat → List Nat
  | [], _ => []
  | (lo, hi, step, shift) :: rest, image =>
      let source := (Int.ofNat image - shift).toNat
      if lo ≤ source && source ≤ hi && (source - lo) % step == 0 then
        source :: shiftedFrom rest image
      else shiftedFrom rest image

end Text
end NgIndex
