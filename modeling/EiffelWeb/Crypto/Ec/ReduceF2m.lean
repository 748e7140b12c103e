import EiffelWeb.Crypto.Ec.CurveF2m
import EiffelWeb.Crypto.Limb.IntegerXArithmetic
import EiffelWeb.Crypto.Limb.LimbBits

set_option relaxedAutoImplicit false
set_option autoImplicit false

/-!
# Reduction modulo a field polynomial

The routine `reduce` of `EC_FIELD_ELEMENT_F2M` goes through the bits of a product from the highest
one down to bit `m`. A bit that is set is cleared, and the bits that the field polynomial puts in
its place are flipped. For each exponent of the polynomial there is a pointer to the bit to be
flipped. What is to be flipped in the limb a pointer is in is collected and written when the pointer
leaves the limb.

The logical state is the number in the array with everything that is collected flipped. It is this
number that is reduced bit by bit.

## Main definitions

* `LimbPointer` — a pointer to a bit and what is collected for its limb.
* `EcFieldElementF2m.reduce`
* `EcFieldElementF2m.ReduceState.logical` — the logical state.

## Main results

* `LimbPointer.back_run` — a pointer goes back by one bit.
* `EcFieldElementF2m.reduceStep_holds` — one bit.
* `EcFieldElementF2m.reduceLoop_run` — the remainder.
-/

namespace EiffelWeb

open Limbs Arrays Polynomial

/-- A pointer to a bit: the position of its limb, its position in the limb, and the bits of the limb
that are to be flipped. -/
structure LimbPointer where
  /-- `limb_position` -/
  limbPosition : ℕ
  /-- `bit_position` -/
  bitPosition : ℕ
  /-- `limb_diff` -/
  limbDiff : Natural32

namespace LimbPointer

/-- The pointer to a bit, with nothing to be flipped. -/
def start (i : ℕ) : LimbPointer := ⟨i / 32, i % 32, 0⟩

/-- The bit is to be flipped. -/
def mark (p : LimbPointer) : LimbPointer :=
  { p with limbDiff := setBit p.limbDiff true p.bitPosition }

/-- `special [limb_position] := special [limb_position].bit_xor (limb_diff)`. -/
def flush (special : ℕ) (p : LimbPointer) (h : LimbHeap) : Option LimbHeap :=
  flipLimb special p.limbPosition p.limbDiff h

/-- The pointer to the next lower bit. The limb below the lowest one, in the source at -1, is not
used. -/
def back (special : ℕ) (p : LimbPointer) (h : LimbHeap) : Option (LimbPointer × LimbHeap) :=
  if p.bitPosition = 0 then do
    let h ← p.flush special h
    return (⟨p.limbPosition - 1, 31, 0⟩, h)
  else some ({ p with bitPosition := p.bitPosition - 1 }, h)

/-- What is written after the loop. -/
def finish (special : ℕ) (p : LimbPointer) (h : LimbHeap) : Option LimbHeap :=
  if p.bitPosition ≠ 31 then p.flush special h else some h

/-- `back` for pointers one after the other. -/
def backAll (special : ℕ) : List LimbPointer → LimbHeap → Option (List LimbPointer × LimbHeap)
  | [], h => some ([], h)
  | p :: ps, h => do
    let (p, h) ← p.back special h
    let (ps, h) ← backAll special ps h
    return (p :: ps, h)

/-- `finish` for pointers one after the other. -/
def finishAll (special : ℕ) : List LimbPointer → LimbHeap → Option LimbHeap
  | [], h => some h
  | p :: ps, h => do
    let h ← p.finish special h
    finishAll special ps h

end LimbPointer

namespace EcFieldElementF2m

/-- The locals of the loop of `reduce`, and the arrays. -/
structure ReduceState where
  /-- `limb` -/
  limb : Natural32
  /-- The pointer to the bit that is read. -/
  main : LimbPointer
  /-- The pointers for the exponents of the field polynomial. -/
  lower : List LimbPointer
  /-- The arrays. -/
  heap : LimbHeap

/-- The limb with the next bit. The next lower one is read when the pointer has left its limb. -/
def nextLimb (special : ℕ) (main next : LimbPointer) (limb : Natural32) (h : LimbHeap) :
    Option Natural32 :=
  if main.bitPosition = 0 then h.item special next.limbPosition else some limb

/-- One iteration of the loop of `reduce`. -/
def reduceStep (special : ℕ) (st : ReduceState) : Option ReduceState := do
  let bit := st.limb.getLsbD st.main.bitPosition
  let main := if bit then st.main.mark else st.main
  let lower := if bit then st.lower.map LimbPointer.mark else st.lower
  let (next, h) ← main.back special st.heap
  let limb ← nextLimb special main next st.limb h
  let (lower, h) ← LimbPointer.backAll special lower h
  return ⟨limb, next, lower, h⟩

/-- The loop of `reduce`, `n` times. -/
def reduceLoop (special : ℕ) : ℕ → ReduceState → Option ReduceState
  | 0, st => some st
  | n + 1, st => (reduceStep special st).bind (reduceLoop special n)

/-- `normalize (special, 0, count)` for a count, which is not changed if it is not positive. -/
def normalizeCount (special : ℕ) (count : ℤ) (h : LimbHeap) : Option ℤ :=
  if count ≤ 0 then some count
  else (SpecialUtility.normalize special 0 count.toNat h).map fun n => (n : ℤ)

/-- `reduce (in, curve)`. The loop runs from bit `2 * m - 1` down to bit `m`. -/
def reduce (op : ℕ) (curve : EcCurveF2m) (m : IntegerXMemory) : Option IntegerXMemory := do
  let special := m.item op
  let i := curve.m + curve.m - 1
  let limb ← m.arrays.item special (i / 32)
  let st ← reduceLoop special curve.m
    ⟨limb, .start i, curve.exponents.map fun e => .start (e + i - curve.m), m.arrays⟩
  let h ← st.main.finish special st.heap
  let h ← LimbPointer.finishAll special st.lower h
  let count ← normalizeCount special (m.count op) h
  return { m with arrays := h, count := Function.update m.count op count }

end EcFieldElementF2m

/-! ## Pointers -/

namespace LimbPointer

/-- What is to be flipped in the number. -/
def pending (p : LimbPointer) : ℕ := p.limbDiff.toNat <<< (32 * p.limbPosition)

/-- What several pointers are to flip. -/
def pendingAll : List LimbPointer → ℕ
  | [] => 0
  | p :: ps => p.pending ^^^ pendingAll ps

/-- The pointer has `c` bits left: it is at bit `c - 1`, and the bits below that one in its limb are
not to be flipped. -/
structure Before (c : ℕ) (p : LimbPointer) : Prop where
  /-- The limb. -/
  limbPosition : p.limbPosition = (c - 1) / 32
  /-- The place in the limb. -/
  bitPosition : p.bitPosition = (c + 31) % 32
  /-- The bits below. -/
  low : ∀ i < p.bitPosition, p.limbDiff.getLsbD i = false

/-- The pointer has `c` bits left, and its bit is not to be flipped either. -/
structure At (c : ℕ) (p : LimbPointer) : Prop extends Before c p where
  /-- The bit of the pointer. -/
  bit : p.limbDiff.getLsbD p.bitPosition = false

variable {special n c : ℕ} {p : LimbPointer} {h : LimbHeap}

lemma at_start (i : ℕ) : (start i).At (i + 1) where
  limbPosition := by rw [start, Nat.add_sub_cancel]
  bitPosition := by
    show i % 32 = _
    omega
  low _ _ := BitVec.getLsbD_zero
  bit := BitVec.getLsbD_zero

lemma pending_start (i : ℕ) : (start i).pending = 0 := Nat.zero_shiftLeft _

/-- The bits above the limb of a pointer are not to be flipped. -/
lemma testBit_pending {j : ℕ} (hj : 32 * (p.limbPosition + 1) ≤ j) :
    p.pending.testBit j = false := by
  have hlt : p.limbDiff.toNat < 2 ^ (j - 32 * p.limbPosition) :=
    p.limbDiff.isLt.trans_le (Nat.pow_le_pow_right (by decide) (by omega))
  rw [pending, Nat.testBit_shiftLeft, Nat.testBit_lt_two_pow hlt, Bool.and_false]

lemma testBit_pendingAll {ps : List LimbPointer} {j : ℕ}
    (hj : ∀ p ∈ ps, 32 * (p.limbPosition + 1) ≤ j) : (pendingAll ps).testBit j = false := by
  induction ps with
  | nil => exact Nat.zero_testBit j
  | cons p ps ih =>
    rw [pendingAll, Nat.testBit_xor, testBit_pending (hj p (by simp)),
      ih fun q hq => hj q (by simp [hq])]
    rfl

/-- Marking a bit flips it. -/
lemma At.mark (hp : p.At (c + 1)) :
    p.mark.Before (c + 1) ∧ p.mark.pending = p.pending ^^^ 2 ^ c := by
  have hpos := hp.bitPosition
  have hlimb := hp.limbPosition
  have hc : 32 * p.limbPosition + p.bitPosition = c := by omega
  have hlt : p.bitPosition < 32 := by omega
  refine ⟨⟨hlimb, hpos, fun i hi => ?_⟩, ?_⟩
  · show (setBit p.limbDiff true p.bitPosition).getLsbD i = false
    have hi' : i < p.bitPosition := hi
    rw [getLsbD_setBit _ _ _ (by omega), if_neg (by omega), hp.low i hi']
  · apply Nat.eq_of_testBit_eq
    intro j
    rw [pending, pending, Nat.testBit_xor, Nat.testBit_shiftLeft, Nat.testBit_shiftLeft,
      Nat.testBit_two_pow]
    show (decide (j ≥ 32 * p.limbPosition) && (setBit p.limbDiff true p.bitPosition).getLsbD
      (j - 32 * p.limbPosition)) = (((decide (j ≥ 32 * p.limbPosition) &&
        p.limbDiff.getLsbD (j - 32 * p.limbPosition))) ^^ decide (c = j))
    by_cases hge : j ≥ 32 * p.limbPosition
    · rw [decide_eq_true hge, Bool.true_and, Bool.true_and]
      by_cases hj : j - 32 * p.limbPosition < 32
      · rw [getLsbD_setBit _ _ _ hj]
        by_cases hbit : j - 32 * p.limbPosition = p.bitPosition
        · rw [if_pos hbit, hbit, hp.bit, decide_eq_true (by omega)]
          rfl
        · rw [if_neg hbit, decide_eq_false (by omega), Bool.xor_false]
      · rw [BitVec.getLsbD_of_ge _ _ (by omega), BitVec.getLsbD_of_ge _ _ (by omega),
          decide_eq_false (by omega)]
        rfl
    · rw [decide_eq_false hge, decide_eq_false (by omega)]
      rfl

/-- Writing what is to be flipped. -/
lemma flush_run (hlimb : p.limbPosition < n) (hn : n ≤ (h special).length) :
    ∃ h' : LimbHeap, p.flush special h = some h' ∧
      h'.number special 0 n = h.number special 0 n ^^^ p.pending ∧
      SameOutside (region special 0 n) h h' :=
  flipLimb_run hlimb hn p.limbDiff

/-- **A pointer goes back by one bit.** What it has collected is written or kept. -/
lemma back_run (hp : p.Before (c + 1)) (hc : c < 32 * n) (hn : n ≤ (h special).length) :
    ∃ (p' : LimbPointer) (h' : LimbHeap), p.back special h = some (p', h') ∧ p'.At c ∧
      (p.bitPosition = 0 → p'.pending = 0) ∧
      h'.number special 0 n ^^^ p'.pending = h.number special 0 n ^^^ p.pending ∧
      SameOutside (region special 0 n) h h' := by
  have hpos := hp.bitPosition
  have hlimb := hp.limbPosition
  by_cases hzero : p.bitPosition = 0
  · obtain ⟨h', hflush, hnum, hfoot⟩ := flush_run (p := p) (by omega) hn
    have hpending : pending ⟨p.limbPosition - 1, 31, 0⟩ = 0 := Nat.zero_shiftLeft _
    refine ⟨⟨p.limbPosition - 1, 31, 0⟩, h', ?_, ⟨⟨?_, ?_, fun _ _ => BitVec.getLsbD_zero⟩,
      BitVec.getLsbD_zero⟩, fun _ => hpending, ?_, hfoot⟩
    · rw [back, if_pos hzero, hflush]
      rfl
    · show p.limbPosition - 1 = _
      omega
    · show 31 = _
      omega
    · rw [hpending, Nat.xor_zero, hnum]
  · refine ⟨{ p with bitPosition := p.bitPosition - 1 }, h, by rw [back, if_neg hzero],
      ⟨⟨?_, ?_, fun i hi => hp.low i ?_⟩, hp.low _ ?_⟩, fun h0 => absurd h0 hzero, rfl,
      SameOutside.refl _ h⟩
    · show p.limbPosition = _
      omega
    · show p.bitPosition - 1 = _
      omega
    · have hi' : i < p.bitPosition - 1 := hi
      omega
    · show p.bitPosition - 1 < p.bitPosition
      omega

/-- **The last write of a pointer.** -/
lemma finish_run (hp : p.At c) (hc : c ≤ 32 * n) (hn : n ≤ (h special).length) :
    ∃ h' : LimbHeap, p.finish special h = some h' ∧
      h'.number special 0 n = h.number special 0 n ^^^ p.pending ∧
      SameOutside (region special 0 n) h h' := by
  have hbit := hp.bitPosition
  have hlimb := hp.limbPosition
  by_cases hlast : p.bitPosition = 31
  · have hdiff : p.limbDiff = 0 := by
      apply BitVec.eq_of_getLsbD_eq
      intro i hi
      refine Eq.trans ?_ BitVec.getLsbD_zero.symm
      by_cases h31 : i = 31
      · rw [h31, ← hlast, hp.bit]
      · exact hp.low i (by omega)
    refine ⟨h, by rw [finish, if_neg (not_not.mpr hlast)], ?_, SameOutside.refl _ h⟩
    have hzero : p.pending = 0 := by
      rw [pending, hdiff]
      exact Nat.zero_shiftLeft _
    rw [hzero, Nat.xor_zero]
  · rw [finish, if_pos hlast]
    exact flush_run (by omega) hn

/-- **Several pointers go back by one bit.** -/
lemma backAll_run {ps : List LimbPointer} {es : List ℕ}
    (hps : List.Forall₂ (fun p e => p.Before (e + c + 1)) ps es) (hes : ∀ e ∈ es, e + c < 32 * n)
    (hn : n ≤ (h special).length) :
    ∃ (ps' : List LimbPointer) (h' : LimbHeap), backAll special ps h = some (ps', h') ∧
      List.Forall₂ (fun p e => p.At (e + c)) ps' es ∧
      h'.number special 0 n ^^^ pendingAll ps' = h.number special 0 n ^^^ pendingAll ps ∧
      SameOutside (region special 0 n) h h' := by
  induction hps generalizing h with
  | nil => exact ⟨[], h, rfl, .nil, rfl, SameOutside.refl _ h⟩
  | @cons p e ps es hp hps ih =>
    obtain ⟨p', g, hback, hat, -, hnum, hfoot⟩ := back_run hp (hes e (by simp)) hn
    obtain ⟨ps', h', hbacks, hats, hnums, hfoots⟩ := ih (h := g)
      (fun d hd => hes d (by simp [hd])) (by rw [hfoot.length]; exact hn)
    refine ⟨p' :: ps', h', ?_, .cons hat hats, ?_, hfoot.trans hfoots⟩
    · simp only [backAll, hback, hbacks, Option.bind_eq_bind, Option.bind_some]
      rfl
    · rw [pendingAll, pendingAll, Nat.xor_left_comm, hnums, ← Nat.xor_assoc, ← Nat.xor_assoc,
        Nat.xor_comm p'.pending, hnum]

/-- **The last writes of several pointers.** -/
lemma finishAll_run {ps : List LimbPointer} {es : List ℕ}
    (hps : List.Forall₂ (fun p e => p.At (e + c)) ps es) (hes : ∀ e ∈ es, e + c ≤ 32 * n)
    (hn : n ≤ (h special).length) :
    ∃ h' : LimbHeap, finishAll special ps h = some h' ∧
      h'.number special 0 n = h.number special 0 n ^^^ pendingAll ps ∧
      SameOutside (region special 0 n) h h' := by
  induction hps generalizing h with
  | nil => exact ⟨h, rfl, (Nat.xor_zero _).symm, SameOutside.refl _ h⟩
  | @cons p e ps es hp hps ih =>
    obtain ⟨g, hfinish, hnum, hfoot⟩ := finish_run hp (hes e (by simp)) hn
    obtain ⟨h', hfinishes, hnums, hfoots⟩ := ih (h := g)
      (fun d hd => hes d (by simp [hd])) (by rw [hfoot.length]; exact hn)
    refine ⟨h', ?_, ?_, hfoot.trans hfoots⟩
    · simp only [finishAll, hfinish, Option.bind_eq_bind, Option.bind_some]
      exact hfinishes
    · rw [hnums, hnum, pendingAll, Nat.xor_assoc]

/-- A pointer of a list belongs to an exponent. -/
lemma exists_exponent {R : LimbPointer → ℕ → Prop} {ps : List LimbPointer} {es : List ℕ}
    (hps : List.Forall₂ R ps es) (hp : p ∈ ps) : ∃ e ∈ es, R p e := by
  induction hps with
  | nil => cases hp
  | @cons q e ps es hq _ ih =>
    rcases List.mem_cons.mp hp with rfl | hp
    · exact ⟨e, by simp, hq⟩
    · obtain ⟨d, hd, hr⟩ := ih hp
      exact ⟨d, by simp [hd], hr⟩

/-- **Several pointers are marked.** -/
lemma markAll {ps : List LimbPointer} {es : List ℕ}
    (hps : List.Forall₂ (fun p e => p.At (e + c + 1)) ps es) :
    List.Forall₂ (fun p e => p.Before (e + c + 1)) (ps.map mark) es ∧
      pendingAll (ps.map mark) = pendingAll ps ^^^ Gf2.flips (es.map (· + c)) := by
  induction hps with
  | nil => exact ⟨.nil, (Nat.xor_self 0).symm⟩
  | @cons p e ps es hp hps ih =>
    refine ⟨.cons hp.mark.1 ih.1, ?_⟩
    rw [List.map_cons, pendingAll, hp.mark.2, ih.2, pendingAll, List.map_cons, Gf2.flips,
      Nat.xor_assoc, Nat.xor_assoc, Nat.xor_left_comm (2 ^ (e + c))]

end LimbPointer

/-! ## The loop -/

namespace EcFieldElementF2m

open LimbPointer

variable {special n m c : ℕ} {es : List ℕ} {y : ℕ} {h₀ : LimbHeap} {st : ReduceState}

/-- The number in the array with everything that is collected flipped. -/
def ReduceState.logical (special n : ℕ) (st : ReduceState) : ℕ :=
  (st.heap.number special 0 n ^^^ st.main.pending) ^^^ pendingAll st.lower

/-- What holds at the head of the loop when `c` bits are left, for a polynomial of degree `m` with
the exponents `es` below `m`; `y` is the number that is reduced. -/
structure ReduceState.Holds (special n m : ℕ) (es : List ℕ) (y : ℕ) (h₀ : LimbHeap) (c : ℕ)
    (st : ReduceState) : Prop where
  /-- The pointer to the bit that is read. -/
  main : st.main.At (m + c)
  /-- The pointers to the bits that are flipped. -/
  lower : List.Forall₂ (fun p e => p.At (e + c)) st.lower es
  /-- The limb that was read. -/
  limb : ∀ i ≤ st.main.bitPosition, st.limb.getLsbD i =
    (st.logical special n).testBit (32 * st.main.limbPosition + i)
  /-- The bits above are cleared. -/
  high : ∀ j, m + c ≤ j → (st.logical special n).testBit j = false
  /-- The class modulo the polynomial. -/
  dvd : X ^ m + (es.map fun e => (X : (ZMod 2)[X]) ^ e).sum ∣
    Gf2.ofBits (st.logical special n) - Gf2.ofBits y
  /-- The other arrays. -/
  foot : SameOutside (region special 0 n) h₀ st.heap

/-- The logical state after one bit. -/
def cancel (m c : ℕ) (es : List ℕ) (v : ℕ) : ℕ :=
  if v.testBit (m + c) then (v ^^^ 2 ^ (m + c)) ^^^ Gf2.flips (es.map (· + c)) else v

/-- A bit is cancelled with a multiple of the polynomial. -/
lemma dvd_cancel (v : ℕ) :
    X ^ m + (es.map fun e => (X : (ZMod 2)[X]) ^ e).sum ∣
      Gf2.ofBits (cancel m c es v) - Gf2.ofBits v := by
  rw [cancel]
  split
  · have hsum : ((es.map (· + c)).map fun i => (X : (ZMod 2)[X]) ^ i).sum =
        X ^ c * (es.map fun e => (X : (ZMod 2)[X]) ^ e).sum := by
      rw [List.map_map, ← List.sum_map_mul_left]
      congr 2
      funext e
      rw [Function.comp_apply, pow_add, mul_comm]
    rw [Gf2.ofBits_xor, Gf2.ofBits_xor, Gf2.ofBits_two_pow, Gf2.ofBits_flips, hsum]
    refine ⟨X ^ c, ?_⟩
    ring
  · rw [sub_self]
    exact dvd_zero _

/-- The bits that are not touched. -/
lemma testBit_cancel {v j : ℕ} (hj : j ≠ m + c) (hes : ∀ e ∈ es, e + c ≠ j) :
    (cancel m c es v).testBit j = v.testBit j := by
  rw [cancel]
  split
  · rw [Nat.testBit_xor, Nat.testBit_xor, Nat.testBit_two_pow, decide_eq_false hj.symm,
      Bool.xor_false, Gf2.testBit_flips_eq_false, Bool.xor_false]
    intro i hi
    obtain ⟨e, he, rfl⟩ := List.mem_map.mp hi
    exact hes e he
  · rfl

/-- The bits from the cancelled one on are cleared. -/
lemma testBit_cancel_high {v : ℕ} (hes : ∀ e ∈ es, e < m)
    (hv : ∀ j, m + (c + 1) ≤ j → v.testBit j = false) {j : ℕ} (hj : m + c ≤ j) :
    (cancel m c es v).testBit j = false := by
  rcases hj.eq_or_lt with rfl | hlt
  · rw [cancel]
    split
    case isTrue htrue =>
      rw [Nat.testBit_xor, Nat.testBit_xor, htrue, Nat.testBit_two_pow_self,
        Gf2.testBit_flips_eq_false]
      · rfl
      · intro i hi
        obtain ⟨e, he, rfl⟩ := List.mem_map.mp hi
        have := hes e he
        omega
    case isFalse hfalse => exact Bool.not_eq_true _ ▸ hfalse
  · rw [testBit_cancel (by omega) fun e he => by have := hes e he; omega]
    exact hv j (by omega)

/-- The pointers after the bit was read. -/
lemma ReduceState.Holds.marked (h : st.Holds special n m es y h₀ (c + 1)) {bit : Bool}
    (hbit : bit = (st.logical special n).testBit (m + c)) :
    (if bit then st.main.mark else st.main).Before (m + c + 1) ∧
      List.Forall₂ (fun p e => p.Before (e + c + 1))
        (if bit then st.lower.map LimbPointer.mark else st.lower) es ∧
      (st.heap.number special 0 n ^^^ (if bit then st.main.mark else st.main).pending) ^^^
        pendingAll (if bit then st.lower.map LimbPointer.mark else st.lower) =
          cancel m c es (st.logical special n) := by
  have hmain : st.main.At (m + c + 1) := h.main
  have hlower : List.Forall₂ (fun p e => p.At (e + c + 1)) st.lower es := h.lower
  cases bit
  · rw [if_neg Bool.false_ne_true, if_neg Bool.false_ne_true, cancel, ← hbit,
      if_neg Bool.false_ne_true]
    exact ⟨hmain.toBefore, hlower.imp fun _ _ hp => hp.toBefore, rfl⟩
  · rw [if_pos rfl, if_pos rfl, cancel, ← hbit, if_pos rfl]
    refine ⟨hmain.mark.1, (markAll hlower).1, ?_⟩
    rw [hmain.mark.2, (markAll hlower).2, logical]
    simp only [Nat.xor_assoc, Nat.xor_left_comm]

/-- **One bit.** -/
lemma reduceStep_holds (h : st.Holds special n m es y h₀ (c + 1)) (hc : c < m) (hm : 64 ≤ m)
    (hes : ∀ e ∈ es, e + 64 ≤ m) (hn : 2 * m ≤ 32 * n) (hlen : n ≤ (h₀ special).length) :
    ∃ st' : ReduceState, reduceStep special st = some st' ∧ st'.Holds special n m es y h₀ c := by
  have hpos := h.main.bitPosition
  have hlimb := h.main.limbPosition
  have hlen' : n ≤ (st.heap special).length := by
    rw [h.foot.length]
    exact hlen
  have hbit : st.limb.getLsbD st.main.bitPosition = (st.logical special n).testBit (m + c) := by
    rw [h.limb _ le_rfl]
    congr 1
    omega
  obtain ⟨hmain, hlower, hlogical⟩ := h.marked hbit
  have hsame : (if st.limb.getLsbD st.main.bitPosition then st.main.mark else st.main).bitPosition =
      st.main.bitPosition := by
    split <;> rfl
  set main := if st.limb.getLsbD st.main.bitPosition then st.main.mark else st.main with hmain_def
  set lower := if st.limb.getLsbD st.main.bitPosition then st.lower.map LimbPointer.mark
    else st.lower with hlower_def
  obtain ⟨next, g, hback, hnext, hzero, hnum, hfoot⟩ := back_run hmain
    (by omega : m + c < 32 * n) hlen'
  obtain ⟨lower', h', hbacks, hlower', hnums, hfoots⟩ := backAll_run hlower
    (show ∀ e ∈ es, e + c < 32 * n from fun e he => by have := hes e he; omega)
    (show n ≤ (g special).length by rw [hfoot.length]; exact hlen')
  have hnextpos := hnext.bitPosition
  have hnextlimb := hnext.limbPosition
  have hstate : (h'.number special 0 n ^^^ next.pending) ^^^ pendingAll lower' =
      cancel m c es (st.logical special n) := by
    calc (h'.number special 0 n ^^^ next.pending) ^^^ pendingAll lower'
        = (h'.number special 0 n ^^^ pendingAll lower') ^^^ next.pending := by
          rw [Nat.xor_right_comm]
      _ = (g.number special 0 n ^^^ next.pending) ^^^ pendingAll lower := by
          rw [hnums, Nat.xor_right_comm]
      _ = cancel m c es (st.logical special n) := by rw [hnum, hlogical]
  obtain ⟨limb, hread, hvalue⟩ : ∃ limb : Natural32,
      nextLimb special main next st.limb g = some limb ∧
      ∀ i ≤ next.bitPosition, limb.getLsbD i =
        (cancel m c es (st.logical special n)).testBit (32 * next.limbPosition + i) := by
    by_cases h0 : main.bitPosition = 0
    · -- the next limb is read after all pointers have left it
      obtain ⟨x, hx, -⟩ := LimbHeap.exists_limb (h := g) (a := special) (i := next.limbPosition)
        (by rw [hfoot.length]; omega)
      refine ⟨x, by rw [nextLimb, if_pos h0, hx], fun i hi => ?_⟩
      have hfar : (pendingAll lower).testBit (32 * next.limbPosition + i) = false := by
        refine testBit_pendingAll fun p hp => ?_
        obtain ⟨e, he, hbefore⟩ := exists_exponent hlower hp
        have := hes e he
        have := hbefore.limbPosition
        omega
      rw [← hlogical, ← hnum, hzero h0, Nat.xor_zero, Nat.testBit_xor, hfar, Bool.xor_false,
        LimbHeap.getLsbD_item hx (by omega) (by omega)]
    · refine ⟨st.limb, by rw [nextLimb, if_neg h0], fun i hi => ?_⟩
      have hlimb' : next.limbPosition = st.main.limbPosition := by omega
      rw [h.limb i (by omega), hlimb', testBit_cancel (by omega)]
      intro e he
      have := hes e he
      omega
  have hnew : ReduceState.logical special n ⟨limb, next, lower', h'⟩ =
      cancel m c es (st.logical special n) := hstate
  refine ⟨⟨limb, next, lower', h'⟩, ?_, hnext, hlower', ?_, ?_, ?_,
    (h.foot.trans hfoot).trans hfoots⟩
  · simp only [reduceStep, ← hmain_def, ← hlower_def, hback, hread, hbacks, Option.bind_eq_bind,
      Option.bind_some]
    rfl
  · intro i hi
    rw [hnew]
    exact hvalue i hi
  · intro j hj
    rw [hnew]
    exact testBit_cancel_high (fun e he => by have := hes e he; omega) h.high hj
  · rw [hnew]
    have hsum := dvd_add (@dvd_cancel m c es (st.logical special n)) h.dvd
    rwa [sub_add_sub_cancel] at hsum

/-- **The loop** leaves the remainder. -/
lemma reduceLoop_run (h : st.Holds special n m es y h₀ c) (hc : c ≤ m) (hm : 64 ≤ m)
    (hes : ∀ e ∈ es, e + 64 ≤ m) (hn : 2 * m ≤ 32 * n) (hlen : n ≤ (h₀ special).length) :
    ∃ st' : ReduceState, reduceLoop special c st = some st' ∧ st'.Holds special n m es y h₀ 0 := by
  induction c generalizing st with
  | zero => exact ⟨st, rfl, h⟩
  | succ c ih =>
    obtain ⟨st', hstep, h'⟩ := reduceStep_holds h (by omega) hm hes hn hlen
    obtain ⟨st'', hloop, h''⟩ := ih h' (by omega)
    exact ⟨st'', by rw [reduceLoop, hstep, Option.bind_some, hloop], h''⟩

/-! ## The routine -/

lemma normalizeCount_some {special : ℕ} {count : ℤ} {h : LimbHeap}
    (hcount : count ≤ (h special).length) : ∃ r, normalizeCount special count h = some r := by
  rw [normalizeCount]
  split
  · exact ⟨_, rfl⟩
  · obtain ⟨r, hr, -⟩ := SpecialUtility.normalize_eq h (a := special) (i := 0) (n := count.toNat)
      (by omega)
    exact ⟨r, by rw [hr]; rfl⟩

/-- **`reduce`** leaves the remainder modulo the field polynomial in the array. -/
lemma reduce_run {op : ℕ} {curve : EcCurveF2m} {mem : IntegerXMemory}
    (hes : ∀ e ∈ curve.exponents, e + 64 ≤ curve.m) (hm : 64 ≤ curve.m)
    (hn : 2 * curve.m ≤ 32 * n) (hlen : n ≤ (mem.arrays (mem.item op)).length)
    (hcount : mem.count op ≤ (mem.arrays (mem.item op)).length)
    (hy : mem.arrays.number (mem.item op) 0 n = y) (hlt : y < 2 ^ (2 * curve.m)) :
    ∃ (h' : LimbHeap) (count : ℤ), reduce op curve mem =
        some { mem with arrays := h', count := Function.update mem.count op count } ∧
      h'.number (mem.item op) 0 n < 2 ^ curve.m ∧
      Gf2.ofBits (h'.number (mem.item op) 0 n) = Gf2.ofBits y % curve.fieldPolynomial ∧
      SameOutside (region (mem.item op) 0 n) mem.arrays h' := by
  obtain ⟨limb, hlimb, -⟩ := LimbHeap.exists_limb (h := mem.arrays) (a := mem.item op)
    (i := (curve.m + curve.m - 1) / 32) (by omega)
  set st : ReduceState := ⟨limb, .start (curve.m + curve.m - 1),
    curve.exponents.map fun e => .start (e + (curve.m + curve.m - 1) - curve.m), mem.arrays⟩
    with hst
  have hpending : pendingAll st.lower = 0 := by
    have hall (l : List ℕ) :
        pendingAll (l.map fun e => start (e + (curve.m + curve.m - 1) - curve.m)) = 0 := by
      induction l with
      | nil => rfl
      | cons e l ih => rw [List.map_cons, pendingAll, pending_start, ih, Nat.xor_self]
    exact hall _
  have hlogical : st.logical (mem.item op) n = y := by
    rw [ReduceState.logical, hpending, hst, pending_start, Nat.xor_zero, Nat.xor_zero, hy]
  have hholds : st.Holds (mem.item op) n curve.m curve.exponents y mem.arrays curve.m := by
    refine ⟨?_, ?_, ?_, ?_, ?_, SameOutside.refl _ _⟩
    · have hstart := at_start (curve.m + curve.m - 1)
      rwa [Nat.sub_add_cancel (by omega)] at hstart
    · have hall (l : List ℕ) : List.Forall₂ (fun p e => LimbPointer.At (e + curve.m) p)
          (l.map fun e => start (e + (curve.m + curve.m - 1) - curve.m)) l := by
        induction l with
        | nil => exact .nil
        | cons e l ih =>
          have hstart := at_start (e + (curve.m + curve.m - 1) - curve.m)
          have hindex : e + (curve.m + curve.m - 1) - curve.m + 1 = e + curve.m := by omega
          rw [hindex] at hstart
          exact .cons hstart ih
      exact hall _
    · intro i hi
      have hi' : i ≤ (curve.m + curve.m - 1) % 32 := hi
      rw [hlogical, ← hy]
      exact (LimbHeap.getLsbD_item hlimb (by omega) (by omega)).symm
    · intro j hj
      rw [hlogical]
      exact Nat.testBit_lt_two_pow (hlt.trans_le (Nat.pow_le_pow_right two_pos (by omega)))
    · rw [hlogical, sub_self]
      exact dvd_zero _
  obtain ⟨st', hloop, hholds'⟩ := reduceLoop_run hholds le_rfl hm hes hn hlen
  have hlen' : n ≤ (st'.heap (mem.item op)).length := by
    rw [hholds'.foot.length]
    exact hlen
  obtain ⟨g, hfinish, hnum, hfoot⟩ := finish_run hholds'.main (by omega) hlen'
  obtain ⟨h', hfinishes, hnums, hfoots⟩ := finishAll_run hholds'.lower
    (show ∀ e ∈ curve.exponents, e + 0 ≤ 32 * n from fun e he => by have := hes e he; omega)
    (show n ≤ (g (mem.item op)).length by rw [hfoot.length]; exact hlen')
  have hresult : h'.number (mem.item op) 0 n = st'.logical (mem.item op) n := by
    rw [hnums, hnum, ReduceState.logical]
  have hlength (a : ℕ) : (h' a).length = (mem.arrays a).length := by
    rw [hfoots.length, hfoot.length, hholds'.foot.length]
  obtain ⟨count, hnorm⟩ := normalizeCount_some
    (show mem.count op ≤ (h' (mem.item op)).length by rw [hlength]; exact hcount)
  have hlow : st'.logical (mem.item op) n < 2 ^ curve.m :=
    Nat.lt_pow_two_of_testBit _ hholds'.high
  refine ⟨h', count, ?_, ?_, ?_, (hholds'.foot.trans hfoot).trans hfoots⟩
  · simp only [reduce, hlimb, ← hst, hloop, hfinish, hfinishes, hnorm, Option.bind_eq_bind,
      Option.bind_some]
    rfl
  · rw [hresult]
    exact hlow
  · rw [hresult]
    refine EcCurveF2m.eq_mod_of_dvd (fun e he => by have := hes e he; omega) hlow ?_
    rw [EcCurveF2m.fieldPolynomial_eq]
    exact hholds'.dvd

end EcFieldElementF2m

end EiffelWeb
