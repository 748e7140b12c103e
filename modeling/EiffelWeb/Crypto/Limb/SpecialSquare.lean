import EiffelWeb.Crypto.Limb.Karatsuba

set_option relaxedAutoImplicit false
set_option autoImplicit false

/-!
# Squares of limb arrays

The routines `sqr_diagonal`, `sqr_basecase`, `kara_sqr_n` and `sqr_n` of `SPECIAL_ARITHMETIC`, which
`mul` calls for two operands that are the same part of one array, and `lshift` of `SPECIAL_LOGIC`.

## Main definitions

* `SpecialLogic.lshift`
* `SpecialArithmetic.sqrBasecase`
* `SpecialArithmetic.karaSqrN`, `SpecialArithmetic.sqrN`
-/

namespace EiffelWeb

open Limbs Arrays

/-! ## Shifts to the left -/

namespace SpecialLogic

/-- The loop of `lshift`, from the high end: `up` and `rp` are behind the limbs that are left. -/
def lshiftLoop (target op1 count : ℕ) :
    (i up rp : ℕ) → Natural32 → LimbHeap → Option LimbHeap
  | 0, _, rp, highLimb, h => h.put target (rp - 1) highLimb
  | i + 1, up, rp, highLimb, h => do
    let lowLimb ← h.item op1 (up - 1)
    let h ← h.put target (rp - 1) (highLimb ||| lowLimb >>> (32 - count))
    lshiftLoop target op1 count i (up - 1) (rp - 1) (lowLimb <<< count) h

/-- `lshift (target, target_offset, op1, op1_offset, n, count, carry)`, for `n` at least one and
`count` from 1 to 31. -/
def lshift (target targetOffset op1 op1Offset n count : ℕ) (h : LimbHeap) :
    Option (Natural32 × LimbHeap) := do
  let lowLimb ← h.item op1 (op1Offset + n - 1)
  let h ← lshiftLoop target op1 count (n - 1) (op1Offset + n - 1) (targetOffset + n)
    (lowLimb <<< count) h
  return (lowLimb >>> (32 - count), h)

end SpecialLogic

namespace SpecialArithmetic

/-! ## The schoolbook square -/

/-- `sqr_diagonal (target, target_offset, op1, op1_offset, op1_count)`: the squares of the limbs. -/
def sqrDiagonal (target op1 : ℕ) : (op1Count targetOffset op1Offset : ℕ) → LimbHeap →
    Option LimbHeap
  | 0, _, _, h => some h
  | n + 1, targetOffset, op1Offset, h => do
    let ul ← h.item op1 op1Offset
    let h ← h.put target (targetOffset + 1) (umulPpmm ul ul).1
    let h ← h.put target targetOffset (umulPpmm ul ul).2
    sqrDiagonal target op1 n (targetOffset + 2) (op1Offset + 1) h

/-- The loop of `sqr_basecase` over the products of different limbs, `k` times from `i` on. -/
def sqrLoop (tp op1 op1Offset op1Count : ℕ) : (k i : ℕ) → LimbHeap → Option LimbHeap
  | 0, _, h => some h
  | k + 1, i, h => do
    let vl ← h.item op1 (op1Offset + i - 1)
    let (cy, h) ← addmul1 tp (2 * i - 2) op1 (op1Offset + i) (op1Count - i) vl h
    let h ← h.put tp (op1Count + i - 2) cy
    sqrLoop tp op1 op1Offset op1Count k (i + 1) h

/-- `sqr_basecase (target, target_offset, op1, op1_offset, op1_count)`, for `op1_count` at least
one. The array that the routine creates gets the reference `fresh`. -/
def sqrBasecase (fresh target targetOffset op1 op1Offset op1Count : ℕ) (h : LimbHeap) :
    Option LimbHeap := do
  let ul ← h.item op1 op1Offset
  let h ← h.put target (targetOffset + 1) (umulPpmm ul ul).1
  let h ← h.put target targetOffset (umulPpmm ul ul).2
  if 1 < op1Count then
    let h : LimbHeap := Function.update h fresh (List.replicate 128 0)
    let vl ← h.item op1 op1Offset
    let (cy, h) ← mul1 fresh 0 op1 (op1Offset + 1) (op1Count - 1) vl h
    let h ← h.put fresh (op1Count - 1) cy
    let h ← sqrLoop fresh op1 op1Offset op1Count (op1Count - 2) 2 h
    let h ← sqrDiagonal target op1 (op1Count - 1) (targetOffset + 2) (op1Offset + 1) h
    let (cy, h) ← SpecialLogic.lshift fresh 0 fresh 0 (2 * op1Count - 2) 1 h
    let (carry, h) ← addN target (targetOffset + 1) target (targetOffset + 1) fresh 0
      (2 * op1Count - 2) h
    let x ← h.item target (targetOffset + 2 * op1Count - 1)
    h.put target (targetOffset + 2 * op1Count - 1) (x + (cy + carry))
  else return h

/-! ## The square by parts -/

/-- The arguments of a routine that squares. -/
abbrev Square := (target targetOffset op1 op1Offset n ws wsOffset : ℕ) → LimbHeap → Option LimbHeap

/-- `kara_sqr_n` for an odd number of limbs. The limb that takes the carry is written back as it
was, and a high part of 64 limbs or more is squared with the number of limbs of the low part. -/
def karaSqrOdd (part : Square) (target targetOffset op1 op1Offset op1Count ws wsOffset : ℕ)
    (h : LimbHeap) : Option LimbHeap := do
  let n2 := op1Count / 2
  let n3 := op1Count - n2
  let (_, h) ← absDifferenceOdd target targetOffset op1 op1Offset n2 n3 h
  let n1 := op1Count + 1
  let h ← part ws wsOffset target targetOffset n3 ws (wsOffset + n1) h
  let h ← part target targetOffset op1 op1Offset n3 ws (wsOffset + n1) h
  let h ← part target (targetOffset + n1) op1 (op1Offset + n3) (if n2 < 64 then n2 else n3) ws
    (wsOffset + n1) h
  let nm1 := op1Count - 1
  let (_, h) ← subN ws wsOffset target targetOffset ws wsOffset n1 h
  let (c, h) ← addN ws wsOffset target (targetOffset + n1) ws wsOffset nm1 h
  let h ← (if c ≠ 0 then do
      let xlimb ← h.item ws (wsOffset + nm1)
      let h ← h.put ws (wsOffset + nm1) xlimb
      if xlimb = 0 then
        let y ← h.item ws (wsOffset + op1Count)
        h.put ws (wsOffset + op1Count) (y + 1)
      else return h
    else some h)
  let (carry, h) ← addN target (targetOffset + n3) target (targetOffset + n3) ws wsOffset n1 h
  if carry ≠ 0 then incrU target (targetOffset + n1 + n3) 1 h else return h

/-- `kara_sqr_n` for an even number of limbs. -/
def karaSqrEven (part : Square) (target targetOffset op1 op1Offset op1Count ws wsOffset : ℕ)
    (h : LimbHeap) : Option LimbHeap := do
  let n2 := op1Count / 2
  let (_, h) ← absDifference target targetOffset op1 op1Offset n2 n2 h
  let h ← part ws wsOffset target targetOffset n2 ws (wsOffset + op1Count) h
  let h ← part target targetOffset op1 op1Offset n2 ws (wsOffset + op1Count) h
  let h ← part target (targetOffset + op1Count) op1 (op1Offset + n2) n2 ws (wsOffset + op1Count) h
  let (carry, h) ← subN ws wsOffset target targetOffset ws wsOffset op1Count h
  let w := 0 - carry
  let (carry, h) ← addN ws wsOffset target (targetOffset + op1Count) ws wsOffset op1Count h
  let w := w + carry
  let (carry, h) ← addN target (targetOffset + n2) target (targetOffset + n2) ws wsOffset op1Count h
  incrU target (targetOffset + n2 + op1Count) (w + carry) h

/-- `kara_sqr_n (target, target_offset, op1, op1_offset, op1_count, ws, ws_offset)`. The first
argument bounds the depth of the recursion; `fresh` is the reference for `sqr_basecase`. -/
def karaSqrN (fresh : ℕ) : ℕ → Square
  | 0 => fun _ _ _ _ _ _ _ _ => none
  | depth + 1 => fun target targetOffset op1 op1Offset op1Count ws wsOffset h =>
    let part : Square := fun target targetOffset op1 op1Offset n ws wsOffset h =>
      if n < 64 then sqrBasecase fresh target targetOffset op1 op1Offset n h
      else karaSqrN fresh depth target targetOffset op1 op1Offset n ws wsOffset h
    if op1Count % 2 ≠ 0 then
      karaSqrOdd part target targetOffset op1 op1Offset op1Count ws wsOffset h
    else karaSqrEven part target targetOffset op1 op1Offset op1Count ws wsOffset h

/-- `sqr_n (target, target_offset, op1, op1_offset, op1_count)`. The arrays that the routine and
`sqr_basecase` create get the references `fresh` and `fresh + 1`. -/
def sqrN (fresh target targetOffset op1 op1Offset op1Count : ℕ) (h : LimbHeap) : Option LimbHeap :=
  if op1Count < 64 then sqrBasecase (fresh + 1) target targetOffset op1 op1Offset op1Count h
  else karaSqrN (fresh + 1) op1Count target targetOffset op1 op1Offset op1Count fresh 0
    (Function.update h fresh (List.replicate (2 * op1Count + 2 * 32) 0))

end SpecialArithmetic

end EiffelWeb
