import EiffelWeb.Arrays
import EiffelWeb.Crypto.ArrayFacilities

set_option relaxedAutoImplicit false
set_option autoImplicit false

/-!
# Sums and differences of limb arrays

The routines `add_n`, `add`, `sub_n` and `sub` of `SPECIAL_ARITHMETIC`. An operand is an array with
an offset and a number of limbs; the array written may be that of an operand. The routines return
the carry or the borrow.

Offsets and numbers of limbs are integers without bound.

## Main definitions

* `SpecialArithmetic.addN`, `SpecialArithmetic.subN` — operands of the same length.
* `SpecialArithmetic.add`, `SpecialArithmetic.sub` — a second operand that is not longer.

## Main results

* `SpecialArithmetic.addN_eq`, `SpecialArithmetic.subN_eq`
* `SpecialArithmetic.add_eq`, `SpecialArithmetic.sub_eq`
-/

namespace EiffelWeb

open Limbs Arrays

/-- A heap of arrays of limbs. -/
abbrev LimbHeap := Arrays Natural32

/-- `b.to_integer.to_natural_32`. -/
def toLimb (b : Bool) : Natural32 := if b then 1 else 0

/-- The number in an array from an offset on. -/
def LimbHeap.number (h : LimbHeap) (a i n : ℕ) : ℕ := value (h.segment a i n)

lemma LimbHeap.number_lt (h : LimbHeap) {a i n : ℕ} (hn : i + n ≤ (h a).length) :
    h.number a i n < (2 ^ 32) ^ n := by
  have hlt := value_lt (h.segment a i n)
  rwa [length_segment hn] at hlt

namespace SpecialArithmetic

/-! ## Operands of the same length -/

/-- One iteration of `add_n`: the limb written and the next carry. -/
def addStep (carry ul vl : Natural32) : Natural32 × Natural32 :=
  let sl := ul + vl
  let cy1 := toLimb (sl < ul)
  let rl := sl + carry
  let cy2 := toLimb (rl < sl)
  (rl, cy1 ||| cy2)

/-- `add_n (target, target_offset, op1, op1_offset, op2, op2_offset, n, carry)`: the carry and the
arrays afterwards. -/
def addN (target targetOffset op1 op1Offset op2 op2Offset n : ℕ) (h : LimbHeap) :
    Option (Natural32 × LimbHeap) :=
  zipLoop addStep target op1 op2 n targetOffset op1Offset op2Offset 0 h

/-- One iteration of `sub_n`: the limb written and the next borrow. -/
def subStep (carry ul vl : Natural32) : Natural32 × Natural32 :=
  let sl := ul - vl
  let cy1 := toLimb (ul < sl)
  let rl := sl - carry
  let cy2 := toLimb (sl < rl)
  (rl, cy1 ||| cy2)

/-- `sub_n (target, target_offset, op1, op1_offset, op2, op2_offset, n, carry)`. -/
def subN (target targetOffset op1 op1Offset op2 op2Offset n : ℕ) (h : LimbHeap) :
    Option (Natural32 × LimbHeap) :=
  zipLoop subStep target op1 op2 n targetOffset op1Offset op2Offset 0 h

lemma toNat_zero_limb : (0 : Natural32).toNat = 0 := rfl

lemma toLimb_or_toNat (a b : Bool) : (toLimb a ||| toLimb b).toNat = (a || b).toNat := by
  cases a <;> cases b <;> rfl

/-- An iteration of `add_n` adds the two limbs and the carry. -/
lemma addStep_spec (c u v : Natural32) (hc : c.toNat ≤ 1) :
    (addStep c u v).2.toNat ≤ 1 ∧
      (addStep c u v).1.toNat + 2 ^ 32 * (addStep c u v).2.toNat =
        (u.toNat + v.toNat) + c.toNat := by
  have hu := u.isLt
  have hv := v.isLt
  simp only [addStep, toLimb_or_toNat, BitVec.lt_def, BitVec.toNat_add]
  refine ⟨Bool.toNat_le _, ?_⟩
  by_cases h₁ : (u.toNat + v.toNat) % 2 ^ 32 < u.toNat
  · simp only [h₁, decide_true, Bool.true_or, Bool.toNat_true]
    omega
  · by_cases h₂ : ((u.toNat + v.toNat) % 2 ^ 32 + c.toNat) % 2 ^ 32 <
        (u.toNat + v.toNat) % 2 ^ 32
    · simp only [h₁, h₂, decide_true, Bool.or_true, Bool.toNat_true]
      omega
    · simp only [h₁, h₂, decide_false, Bool.or_self, Bool.toNat_false]
      omega

/-- An iteration of `sub_n` takes the second limb and the borrow away from the first limb. -/
lemma subStep_spec (c u v : Natural32) (hc : c.toNat ≤ 1) :
    (subStep c u v).2.toNat ≤ 1 ∧
      (subStep c u v).1.toNat + v.toNat + c.toNat =
        u.toNat + 2 ^ 32 * (subStep c u v).2.toNat := by
  have hu := u.isLt
  have hv := v.isLt
  simp only [subStep, toLimb_or_toNat, BitVec.lt_def, BitVec.toNat_sub]
  refine ⟨Bool.toNat_le _, ?_⟩
  by_cases h₁ : u.toNat < (2 ^ 32 - v.toNat + u.toNat) % 2 ^ 32
  · simp only [h₁, decide_true, Bool.true_or, Bool.toNat_true]
    omega
  · by_cases h₂ : (2 ^ 32 - v.toNat + u.toNat) % 2 ^ 32 <
        (2 ^ 32 - c.toNat + (2 ^ 32 - v.toNat + u.toNat) % 2 ^ 32) % 2 ^ 32
    · simp only [h₁, h₂, decide_true, Bool.or_true, Bool.toNat_true]
      omega
    · simp only [h₁, h₂, decide_false, Bool.or_self, Bool.toNat_false]
      omega

section SameLength

variable {target targetOffset op1 op1Offset op2 op2Offset n : ℕ} {h : LimbHeap}

/-- **`add_n`** writes the low limbs of the sum and returns the carry. -/
lemma addN_eq (ht : targetOffset + n ≤ (h target).length) (h₁ : op1Offset + n ≤ (h op1).length)
    (h₂ : op2Offset + n ≤ (h op2).length) (hr₁ : ReadsAhead n target targetOffset op1 op1Offset)
    (hr₂ : ReadsAhead n target targetOffset op2 op2Offset) :
    addN target targetOffset op1 op1Offset op2 op2Offset n h =
      some (BitVec.ofNat 32 ((h.number op1 op1Offset n + h.number op2 op2Offset n) / (2 ^ 32) ^ n),
        h.store target targetOffset
          (ofNat 32 n (h.number op1 op1Offset n + h.number op2 op2Offset n))) := by
  have hlen : (h.segment op1 op1Offset n).length = (h.segment op2 op2Offset n).length := by
    rw [length_segment h₁, length_segment h₂]
  have hpass := zipCarry_eq (P := fun c => c.toNat ≤ 1) addStep_spec hlen (c := 0) (by decide)
  rw [weigh_add hlen, length_segment h₁, toNat_zero_limb, Nat.add_zero] at hpass
  rw [addN, zipLoop_eq addStep 0 ht h₁ h₂ hr₁ hr₂, hpass]
  rfl

/-- **`sub_n`** writes the difference, reduced to the length, and returns the borrow. -/
lemma subN_eq (ht : targetOffset + n ≤ (h target).length) (h₁ : op1Offset + n ≤ (h op1).length)
    (h₂ : op2Offset + n ≤ (h op2).length) (hr₁ : ReadsAhead n target targetOffset op1 op1Offset)
    (hr₂ : ReadsAhead n target targetOffset op2 op2Offset) :
    subN target targetOffset op1 op1Offset op2 op2Offset n h =
      some (BitVec.ofNat 32 (if h.number op1 op1Offset n < h.number op2 op2Offset n then 1 else 0),
        h.store target targetOffset
          (ofNat 32 n (h.number op1 op1Offset n + (2 ^ 32) ^ n - h.number op2 op2Offset n))) := by
  have hlen : (h.segment op1 op1Offset n).length = (h.segment op2 op2Offset n).length := by
    rw [length_segment h₁, length_segment h₂]
  have hpass := zipBorrow_eq (g := fun _ v => v.toNat) subStep_spec hlen (c := 0) (by decide)
  rw [weigh_right hlen, length_segment h₁, toNat_zero_limb, Nat.add_zero] at hpass
  rw [subN, zipLoop_eq subStep 0 ht h₁ h₂ hr₁ hr₂, hpass]
  rfl

end SameLength

/-! ## Operands of different length -/

/-- The loop of `add` and `sub` that hands the carry on: `f` gives the limb written for a limb of
`op1`, and whether the loop ends with it. The result is the number of limbs left over when the loop
has ended with a limb, and nothing when the limbs were used up. -/
def propagate (f : Natural32 → Natural32 × Bool) (target op1 : ℕ) :
    (n i j : ℕ) → LimbHeap → Option (Option ℕ × LimbHeap)
  | 0, _, _, h => some (none, h)
  | n + 1, i, j, h =>
    (h.item op1 j).bind fun x =>
      (h.put target i (f x).1).bind fun h =>
        if (f x).2 then some (some n, h) else propagate f target op1 n (i + 1) (j + 1) h

/-- The loop that copies the last `n` limbs of `op1`, which end at `j`, to `target`, where they end
at `i`. There is nothing to copy inside one array. -/
def copyRest (target op1 n i j : ℕ) (h : LimbHeap) : Option LimbHeap :=
  if target ≠ op1 then
    (zipLoop (fun _ x _ => (x, ())) target op1 op1 n (i - n) (j - n) (j - n) () h).map Prod.snd
  else some h

/-- The end of `add` and `sub`: the carry is one if the limbs were used up, else the rest is copied
and it is zero. -/
def finish (target op1 i j : ℕ) (r : Option ℕ × LimbHeap) : Option (Natural32 × LimbHeap) :=
  match r with
  | (none, h) => some (1, h)
  | (some n, h) => (copyRest target op1 n i j h).map fun h => (0, h)

/-- `add` and `sub` after the limbs of `op2`. -/
def carryOn (f : Natural32 → Natural32 × Bool) (target targetOffset op1 op1Offset op1Count : ℕ)
    (op2Count : ℕ) (r : Natural32 × LimbHeap) : Option (Natural32 × LimbHeap) := do
  let rest := op1Count - op2Count
  let r ← if r.1 ≠ 0 then
      propagate f target op1 rest (targetOffset + op2Count) (op1Offset + op2Count) r.2
    else some (some rest, r.2)
  finish target op1 (targetOffset + op2Count + rest) (op1Offset + op2Count + rest) r

/-- `add (target, target_offset, op1, op1_offset, op1_count, op2, op2_offset, op2_count, carry)`. -/
def add (target targetOffset op1 op1Offset op1Count op2 op2Offset op2Count : ℕ) (h : LimbHeap) :
    Option (Natural32 × LimbHeap) :=
  (addN target targetOffset op1 op1Offset op2 op2Offset op2Count h).bind
    (carryOn (fun x => (x + 1, x + 1 ≠ 0)) target targetOffset op1 op1Offset op1Count op2Count)

/-- `sub (target, target_offset, op1, op1_offset, op1_count, op2, op2_offset, op2_count, carry)`. -/
def sub (target targetOffset op1 op1Offset op1Count op2 op2Offset op2Count : ℕ) (h : LimbHeap) :
    Option (Natural32 × LimbHeap) :=
  (subN target targetOffset op1 op1Offset op2 op2Offset op2Count h).bind
    (carryOn (fun x => (x - 1, x ≠ 0)) target targetOffset op1 op1Offset op1Count op2Count)

section Rest

variable {target op1 n i j : ℕ} {h : LimbHeap}

/-- A pass that copies. -/
lemma zipCarry_copy {α : Type*} (a b : List α) (hlen : a.length = b.length) :
    zipCarry (fun _ x _ => (x, ())) () a b = (a, ()) := by
  induction a generalizing b with
  | nil => rfl
  | cons x a ih =>
    obtain ⟨y, b, rfl⟩ : ∃ y b', b = y :: b' := List.exists_cons_of_length_eq_add_one hlen.symm
    rw [zipCarry, ih b (by simpa using hlen)]

/-- The rest is copied; inside one array it is in its place. -/
lemma copyRest_eq (ht : i + n ≤ (h target).length) (h₁ : j + n ≤ (h op1).length)
    (hsame : target = op1 → i = j) :
    copyRest target op1 n (i + n) (j + n) h = some (h.store target i (h.segment op1 j n)) := by
  rw [copyRest, Nat.add_sub_cancel, Nat.add_sub_cancel]
  by_cases he : target = op1
  · rw [if_neg (not_not.mpr he)]
    have hij := hsame he
    subst he hij
    rw [store_segment h₁]
  · rw [if_pos he, zipLoop_eq _ _ ht h₁ h₁ (.of_ne (Ne.symm he)) (.of_ne (Ne.symm he)),
      zipCarry_copy _ _ rfl]
    rfl

/-- A step of the loop that hands the carry on. `g` is what the loop adds to a number of `n` limbs:
the limbs written stand for `g n v`, reduced, and the carry is that of `g n v`. -/
structure Propagates (f : Natural32 → Natural32 × Bool) (g carry : ℕ → ℕ → ℕ) : Prop where
  /-- All limbs are used up. -/
  done : carry 0 0 = 1
  /-- The loop ends with a limb. -/
  stop : ∀ (x : Natural32) (n v : ℕ), v < (2 ^ 32) ^ n → (f x).2 = true →
    ofNat 32 (n + 1) (g (n + 1) (x.toNat + 2 ^ 32 * v)) = (f x).1 :: ofNat 32 n v ∧
      carry (n + 1) (x.toNat + 2 ^ 32 * v) = 0
  /-- The loop goes on. -/
  next : ∀ (x : Natural32) (n v : ℕ), v < (2 ^ 32) ^ n → (f x).2 = false →
    ofNat 32 (n + 1) (g (n + 1) (x.toNat + 2 ^ 32 * v)) = (f x).1 :: ofNat 32 n (g n v) ∧
      carry (n + 1) (x.toNat + 2 ^ 32 * v) = carry n v

/-- **Handing the carry on** through the rest of the first operand.

**Proof sketch.** Induction on the number of limbs. If the loop ends with a limb, the limbs behind
it are copied; otherwise the induction hypothesis applies to them, in the heap in which the limb was
written. -/
lemma propagate_finish {f : Natural32 → Natural32 × Bool} {g carry : ℕ → ℕ → ℕ}
    (hf : Propagates f g carry) (ht : i + n ≤ (h target).length) (h₁ : j + n ≤ (h op1).length)
    (hsame : target = op1 → i = j) :
    (propagate f target op1 n i j h).bind (finish target op1 (i + n) (j + n)) =
      some (BitVec.ofNat 32 (carry n (h.number op1 j n)),
        h.store target i (ofNat 32 n (g n (h.number op1 j n)))) := by
  induction n generalizing i j h with
  | zero =>
    have hzero : h.number op1 j 0 = 0 := by rw [LimbHeap.number, segment_zero, value_nil]
    rw [propagate, Option.bind_some, finish, hzero, hf.done, ofNat, store_nil]
    rfl
  | succ n ih =>
    obtain ⟨x, hx, hseg⟩ := exists_item h₁
    have hnum : h.number op1 j (n + 1) = x.toNat + 2 ^ 32 * h.number op1 (j + 1) n := by
      rw [LimbHeap.number, hseg, value_cons, LimbHeap.number]
    have hlt : h.number op1 (j + 1) n < (2 ^ 32) ^ n := h.number_lt (by omega)
    have hlen (d : ℕ) : (h.store target i [(f x).1] d).length = (h d).length :=
      length_store (by rw [List.length_singleton]; omega) d
    have hkeep : (h.store target i [(f x).1]).segment op1 (j + 1) n =
        h.segment op1 (j + 1) n := by
      refine segment_store_apart (by rw [List.length_singleton]; omega) ?_
      intro he
      have := hsame he.symm
      rw [List.length_singleton]
      omega
    have hstore (u : List Natural32) : (h.store target i [(f x).1]).store target (i + 1) u =
        h.store target i ((f x).1 :: u) := by
      rw [store_store (by rw [List.length_singleton]) (by rw [List.length_singleton]; omega),
        List.singleton_append]
    have hend : i + (n + 1) = i + 1 + n ∧ j + (n + 1) = j + 1 + n := by omega
    rw [propagate, hx, Option.bind_some, put_eq (by omega), Option.bind_some, hnum, hend.1, hend.2]
    by_cases hs : (f x).2 = true
    · obtain ⟨hlimbs, hcarry⟩ := hf.stop x n _ hlt hs
      rw [if_pos hs, Option.bind_some, finish, copyRest_eq (by rw [hlen]; omega)
        (by rw [hlen]; omega) (by omega), hkeep, hstore, hlimbs, hcarry]
      have hval : ofNat 32 n (h.number op1 (j + 1) n) = h.segment op1 (j + 1) n := by
        have hself := ofNat_value (h.segment op1 (j + 1) n)
        rwa [length_segment (by omega)] at hself
      rw [hval]
      rfl
    · obtain ⟨hlimbs, hcarry⟩ := hf.next x n _ hlt (by simpa using hs)
      have hnumber : LimbHeap.number (h.store target i [(f x).1]) op1 (j + 1) n =
          h.number op1 (j + 1) n := by
        rw [LimbHeap.number, hkeep, LimbHeap.number]
      rw [if_neg hs, ih (by rw [hlen]; omega) (by rw [hlen]; omega) (by omega), hnumber, hstore,
        hlimbs, hcarry]

end Rest

/-- `add` hands on a carry of one. -/
lemma propagates_add : Propagates (fun x => (x + 1, x + 1 ≠ 0)) (fun _ v => v + 1)
    (fun n v => (v + 1) / (2 ^ 32) ^ n) where
  done := by simp
  stop x n v hv hs := by
    have hx := x.isLt
    have hne : x + 1 ≠ 0 := by simpa using hs
    have hsucc : (x + 1).toNat = x.toNat + 1 := by
      have hmod : (x + 1).toNat = (x.toNat + 1) % 2 ^ 32 := BitVec.toNat_add x 1
      have hpos : (x + 1).toNat ≠ 0 := (BitVec.toNat_pos_of_ne_zero hne).ne'
      omega
    have hlt := (x + 1).isLt
    rw [hsucc] at hlt
    have hval : x.toNat + 2 ^ 32 * v + 1 = (x + 1).toNat + 2 ^ 32 * v := by omega
    refine ⟨?_, ?_⟩
    · rw [hval, ofNat, Nat.add_mul_div_left _ _ (by decide), Nat.div_eq_of_lt (x + 1).isLt,
        Nat.zero_add]
      refine congrArg (· :: ofNat 32 n v) (BitVec.eq_of_toNat_eq ?_)
      rw [BitVec.toNat_ofNat, Nat.add_mul_mod_self_left, Nat.mod_eq_of_lt (x + 1).isLt]
    · refine Nat.div_eq_of_lt ?_
      rw [pow_succ' (2 ^ 32) n]
      have hle : 2 ^ 32 * (v + 1) ≤ 2 ^ 32 * (2 ^ 32) ^ n := Nat.mul_le_mul_left _ hv
      omega
  next x n v hv hs := by
    have hx := x.isLt
    have hzero : x + 1 = 0 := by simpa using hs
    have hmod : (x + 1).toNat = (x.toNat + 1) % 2 ^ 32 := BitVec.toNat_add x 1
    rw [hzero, toNat_zero_limb] at hmod
    have hval : x.toNat + 2 ^ 32 * v + 1 = 2 ^ 32 * (v + 1) := by omega
    refine ⟨?_, ?_⟩
    · rw [hval, ofNat, Nat.mul_div_cancel_left _ (by decide), hzero]
      refine congrArg (· :: ofNat 32 n (v + 1)) (BitVec.eq_of_toNat_eq ?_)
      rw [BitVec.toNat_ofNat, Nat.mul_mod_right, toNat_zero_limb]
    · rw [hval, pow_succ' (2 ^ 32) n, Nat.mul_div_mul_left _ _ (by decide)]

/-- `sub` hands on a borrow of one. -/
lemma propagates_sub : Propagates (fun x => (x - 1, x ≠ 0)) (fun n v => v + (2 ^ 32) ^ n - 1)
    (fun _ v => if v < 1 then 1 else 0) where
  done := by simp
  stop x n v hv hs := by
    have hx := x.isLt
    have hne : x ≠ 0 := by simpa using hs
    have hpos : x.toNat ≠ 0 := (BitVec.toNat_pos_of_ne_zero hne).ne'
    have hpred : (x - 1).toNat = x.toNat - 1 := by
      have hmod : (x - 1).toNat = (2 ^ 32 - 1 + x.toNat) % 2 ^ 32 := BitVec.toNat_sub x 1
      omega
    have hval : x.toNat + 2 ^ 32 * v + (2 ^ 32) ^ (n + 1) - 1 =
        (x - 1).toNat + 2 ^ 32 * (v + (2 ^ 32) ^ n * 1) := by
      rw [pow_succ' (2 ^ 32) n, hpred]
      omega
    refine ⟨?_, if_neg (by omega)⟩
    rw [hval, ofNat, Nat.add_mul_div_left _ _ (by decide), Nat.div_eq_of_lt (x - 1).isLt,
      Nat.zero_add, ofNat_add_mul]
    refine congrArg (· :: ofNat 32 n v) (BitVec.eq_of_toNat_eq ?_)
    rw [BitVec.toNat_ofNat, Nat.add_mul_mod_self_left, Nat.mod_eq_of_lt (x - 1).isLt]
  next x n v hv hs := by
    have hzero : x = 0 := by simpa using hs
    subst hzero
    have hpos : 0 < (2 ^ 32) ^ n := Nat.pow_pos (by decide)
    have hval : (0 : Natural32).toNat + 2 ^ 32 * v + (2 ^ 32) ^ (n + 1) - 1 =
        (2 ^ 32 - 1) + 2 ^ 32 * (v + (2 ^ 32) ^ n - 1) := by
      rw [pow_succ' (2 ^ 32) n, toNat_zero_limb]
      omega
    refine ⟨?_, ?_⟩
    · rw [hval, ofNat, Nat.add_mul_div_left _ _ (by decide), Nat.div_eq_of_lt (by decide),
        Nat.zero_add]
      refine congrArg (· :: ofNat 32 n (v + (2 ^ 32) ^ n - 1)) (BitVec.eq_of_toNat_eq ?_)
      rw [BitVec.toNat_ofNat, Nat.add_mul_mod_self_left]
      rfl
    · rw [toNat_zero_limb]
      by_cases hv : v < 1
      · rw [if_pos hv, if_pos (by omega)]
      · rw [if_neg hv, if_neg (by omega)]

section DifferentLength

variable {target targetOffset op1 op1Offset op1Count op2 op2Offset op2Count : ℕ} {h : LimbHeap}

/-- What `add` and `sub` write for the rest of the first operand, and the carry they return. -/
lemma carryOn_eq {f : Natural32 → Natural32 × Bool} {g carry : ℕ → ℕ → ℕ}
    (hf : Propagates f g carry) (hcount : op2Count ≤ op1Count)
    (ht : targetOffset + op1Count ≤ (h target).length)
    (h₁ : op1Offset + op1Count ≤ (h op1).length) (hsame : target = op1 → targetOffset = op1Offset)
    (c : Natural32) :
    carryOn f target targetOffset op1 op1Offset op1Count op2Count (c, h) =
      let v := h.number op1 (op1Offset + op2Count) (op1Count - op2Count)
      if c ≠ 0 then
        some (BitVec.ofNat 32 (carry (op1Count - op2Count) v), h.store target
          (targetOffset + op2Count) (ofNat 32 (op1Count - op2Count) (g (op1Count - op2Count) v)))
      else some (0, h.store target (targetOffset + op2Count)
        (ofNat 32 (op1Count - op2Count) v)) := by
  have htarget : targetOffset + op2Count + (op1Count - op2Count) ≤ (h target).length := by omega
  have hop1 : op1Offset + op2Count + (op1Count - op2Count) ≤ (h op1).length := by omega
  have hij : target = op1 → targetOffset + op2Count = op1Offset + op2Count := fun he => by
    rw [hsame he]
  simp only [carryOn]
  by_cases hc : c ≠ 0
  · rw [if_pos hc, if_pos hc]
    exact propagate_finish hf htarget hop1 hij
  · have hself := ofNat_value (h.segment op1 (op1Offset + op2Count) (op1Count - op2Count))
    rw [length_segment hop1] at hself
    rw [if_neg hc, if_neg hc, LimbHeap.number, hself]
    simp only [Option.bind_eq_bind, Option.bind_some, finish, copyRest_eq htarget hop1 hij,
      Option.map_some]

/-- The number of an operand, cut in two. -/
lemma number_split (h : LimbHeap) {a i m n : ℕ} (hmn : m ≤ n) (hn : i + n ≤ (h a).length) :
    h.number a i n = h.number a i m + (2 ^ 32) ^ m * h.number a (i + m) (n - m) := by
  have hsplit : h.segment a i n = h.segment a i m ++ h.segment a (i + m) (n - m) := by
    rw [segment_append, Nat.add_sub_cancel' hmn]
  rw [LimbHeap.number, hsplit, value_append, length_segment (by omega)]
  rfl

/-- The rest of the first operand is not changed by what `add_n` and `sub_n` write. -/
lemma number_store_rest {u : List Natural32} (hu : targetOffset + u.length ≤ (h target).length)
    (hsame : target = op1 → targetOffset = op1Offset) (n : ℕ) :
    LimbHeap.number (h.store target targetOffset u) op1 (op1Offset + u.length) n =
      h.number op1 (op1Offset + u.length) n := by
  rw [LimbHeap.number, segment_store_apart hu, LimbHeap.number]
  intro he
  have := hsame he.symm
  omega

/-- **`add`** writes the low limbs of the sum and returns the carry. -/
lemma add_eq (hcount : op2Count ≤ op1Count) (ht : targetOffset + op1Count ≤ (h target).length)
    (h₁ : op1Offset + op1Count ≤ (h op1).length) (h₂ : op2Offset + op2Count ≤ (h op2).length)
    (hsame : target = op1 → targetOffset = op1Offset)
    (hr₂ : ReadsAhead op2Count target targetOffset op2 op2Offset) :
    add target targetOffset op1 op1Offset op1Count op2 op2Offset op2Count h =
      some (BitVec.ofNat 32 ((h.number op1 op1Offset op1Count +
          h.number op2 op2Offset op2Count) / (2 ^ 32) ^ op1Count),
        h.store target targetOffset (ofNat 32 op1Count
          (h.number op1 op1Offset op1Count + h.number op2 op2Offset op2Count))) := by
  obtain ⟨m, rfl⟩ : ∃ m, op1Count = op2Count + m := ⟨op1Count - op2Count, by omega⟩
  have hr₁ : ReadsAhead op2Count target targetOffset op1 op1Offset := fun he => by
    have := hsame he.symm
    omega
  set s := h.number op1 op1Offset op2Count + h.number op2 op2Offset op2Count with hs
  have hlen : (ofNat 32 op2Count s).length = op2Count := length_ofNat _ _
  have hstored : targetOffset + (ofNat 32 op2Count s).length ≤ (h target).length := by omega
  have hrest := number_store_rest hstored hsame m
  rw [hlen] at hrest
  have hlt₁ : h.number op1 op1Offset op2Count < (2 ^ 32) ^ op2Count := h.number_lt (by omega)
  have hlt₂ : h.number op2 op2Offset op2Count < (2 ^ 32) ^ op2Count := h.number_lt h₂
  have hsplit : h.number op1 op1Offset (op2Count + m) + h.number op2 op2Offset op2Count =
      s + (2 ^ 32) ^ op2Count * h.number op1 (op1Offset + op2Count) m := by
    rw [number_split h (Nat.le_add_right op2Count m) h₁, Nat.add_sub_cancel_left, hs]
    omega
  have hdiv : (s + (2 ^ 32) ^ op2Count * h.number op1 (op1Offset + op2Count) m) /
      (2 ^ 32) ^ op2Count = s / (2 ^ 32) ^ op2Count + h.number op1 (op1Offset + op2Count) m :=
    Nat.add_mul_div_left _ _ (Nat.pow_pos (by decide))
  have hlimbs : ofNat 32 (op2Count + m)
      (s + (2 ^ 32) ^ op2Count * h.number op1 (op1Offset + op2Count) m) =
      ofNat 32 op2Count s ++
        ofNat 32 m (s / (2 ^ 32) ^ op2Count + h.number op1 (op1Offset + op2Count) m) := by
    rw [ofNat_add, ofNat_add_mul, hdiv]
  have hcarry : s / (2 ^ 32) ^ op2Count = 0 ∨ s / (2 ^ 32) ^ op2Count = 1 :=
    Nat.le_one_iff_eq_zero_or_eq_one.mp
      (Nat.lt_succ_iff.mp (Nat.div_lt_of_lt_mul (by omega)))
  rw [add, addN_eq (by omega) (by omega) h₂ hr₁ hr₂, ← hs, Option.bind_some,
    carryOn_eq propagates_add (Nat.le_add_right op2Count m)
      (by rw [length_store hstored]; omega) (by rw [length_store hstored]; omega) hsame,
    Nat.add_sub_cancel_left, hrest, hsplit, hlimbs, pow_add, ← Nat.div_div_eq_div_mul, hdiv]
  simp only
  rw [store_store (by rw [hlen]) hstored, store_store (by rw [hlen]) hstored]
  rcases hcarry with h0 | h0
  · rw [h0, if_neg (by simp), Nat.zero_add, Nat.div_eq_of_lt (h.number_lt (by omega))]
    rfl
  · rw [h0, if_pos (by decide), Nat.add_comm 1]

/-- **`sub`** writes the difference, reduced to the length of the first operand, and returns the
borrow. -/
lemma sub_eq (hcount : op2Count ≤ op1Count) (ht : targetOffset + op1Count ≤ (h target).length)
    (h₁ : op1Offset + op1Count ≤ (h op1).length) (h₂ : op2Offset + op2Count ≤ (h op2).length)
    (hsame : target = op1 → targetOffset = op1Offset)
    (hr₂ : ReadsAhead op2Count target targetOffset op2 op2Offset) :
    sub target targetOffset op1 op1Offset op1Count op2 op2Offset op2Count h =
      some (BitVec.ofNat 32 (if h.number op1 op1Offset op1Count < h.number op2 op2Offset op2Count
          then 1 else 0),
        h.store target targetOffset (ofNat 32 op1Count (h.number op1 op1Offset op1Count +
          (2 ^ 32) ^ op1Count - h.number op2 op2Offset op2Count))) := by
  obtain ⟨m, rfl⟩ : ∃ m, op1Count = op2Count + m := ⟨op1Count - op2Count, by omega⟩
  have hr₁ : ReadsAhead op2Count target targetOffset op1 op1Offset := fun he => by
    have := hsame he.symm
    omega
  set a := h.number op1 op1Offset op2Count with ha
  set b := h.number op2 op2Offset op2Count with hb
  set v := h.number op1 (op1Offset + op2Count) m with hv
  have hlen (d : ℕ) : (ofNat 32 op2Count d).length = op2Count := length_ofNat _ _
  have hstored (d : ℕ) : targetOffset + (ofNat 32 op2Count d).length ≤ (h target).length := by
    rw [hlen]
    omega
  have hrest (d : ℕ) : LimbHeap.number (h.store target targetOffset (ofNat 32 op2Count d)) op1
      (op1Offset + op2Count) m = v := by
    have hkeep := number_store_rest (hstored d) hsame m
    rwa [hlen] at hkeep
  have hlta : a < (2 ^ 32) ^ op2Count := h.number_lt (by omega)
  have hltb : b < (2 ^ 32) ^ op2Count := h.number_lt h₂
  have hltv : v < (2 ^ 32) ^ m := h.number_lt (by omega)
  have hsplit : h.number op1 op1Offset (op2Count + m) = a + (2 ^ 32) ^ op2Count * v := by
    rw [number_split h (Nat.le_add_right op2Count m) h₁, Nat.add_sub_cancel_left]
  have hpos : 0 < (2 ^ 32) ^ op2Count := Nat.pow_pos (by decide)
  have hposm : 0 < (2 ^ 32) ^ m := Nat.pow_pos (by decide)
  rw [sub, subN_eq (by omega) (by omega) h₂ hr₁ hr₂, ← ha, ← hb, Option.bind_some,
    carryOn_eq propagates_sub (Nat.le_add_right op2Count m)
      (by rw [length_store (hstored _)]; omega) (by rw [length_store (hstored _)]; omega) hsame,
    Nat.add_sub_cancel_left, hrest, hsplit, pow_add, ofNat_add]
  simp only
  rw [store_store (by rw [hlen]) (hstored _), store_store (by rw [hlen]) (hstored _)]
  by_cases hlt : a < b
  · -- the borrow is taken from the rest of the first operand
    have hval : a + (2 ^ 32) ^ op2Count * v + (2 ^ 32) ^ op2Count * (2 ^ 32) ^ m - b =
        (a + (2 ^ 32) ^ op2Count - b) + (2 ^ 32) ^ op2Count * (v + (2 ^ 32) ^ m - 1) := by
      have hone : 1 ≤ v + (2 ^ 32) ^ m := by omega
      rw [Nat.mul_sub, Nat.mul_add, Nat.mul_one]
      have hge : (2 ^ 32) ^ op2Count * 1 ≤
          (2 ^ 32) ^ op2Count * v + (2 ^ 32) ^ op2Count * (2 ^ 32) ^ m := by
        rw [← Nat.mul_add]
        exact Nat.mul_le_mul_left _ hone
      omega
    have hdiv : ((a + (2 ^ 32) ^ op2Count - b) +
        (2 ^ 32) ^ op2Count * (v + (2 ^ 32) ^ m - 1)) / (2 ^ 32) ^ op2Count =
        v + (2 ^ 32) ^ m - 1 := by
      rw [Nat.add_mul_div_left _ _ hpos, Nat.div_eq_of_lt (by omega), Nat.zero_add]
    have hborrow : (if v < 1 then 1 else 0) =
        if a + (2 ^ 32) ^ op2Count * v < b then 1 else 0 := by
      rcases Nat.eq_zero_or_pos v with h0 | h0
      · rw [h0, Nat.mul_zero, Nat.add_zero, if_pos hlt, if_pos (by decide)]
      · have hge : (2 ^ 32) ^ op2Count * 1 ≤ (2 ^ 32) ^ op2Count * v := Nat.mul_le_mul_left _ h0
        rw [if_neg (by omega), if_neg (by omega)]
    rw [if_pos hlt, if_pos (by decide), hval, hdiv, ofNat_add_mul, hborrow]
  · have hval : a + (2 ^ 32) ^ op2Count * v + (2 ^ 32) ^ op2Count * (2 ^ 32) ^ m - b =
        (a - b) + (2 ^ 32) ^ op2Count * (v + (2 ^ 32) ^ m * 1) := by
      rw [Nat.mul_add, Nat.mul_one]
      omega
    have hlow : a + (2 ^ 32) ^ op2Count - b = (a - b) + (2 ^ 32) ^ op2Count * 1 := by omega
    have hdiv : ((a - b) + (2 ^ 32) ^ op2Count * (v + (2 ^ 32) ^ m * 1)) / (2 ^ 32) ^ op2Count =
        v + (2 ^ 32) ^ m * 1 := by
      rw [Nat.add_mul_div_left _ _ hpos, Nat.div_eq_of_lt (by omega), Nat.zero_add]
    rw [if_neg hlt, if_neg (by decide), if_neg (by omega), hval, hdiv, hlow, ofNat_add_mul,
      ofNat_add_mul, ofNat_add_mul]
    rfl

end DifferentLength

end SpecialArithmetic

end EiffelWeb
