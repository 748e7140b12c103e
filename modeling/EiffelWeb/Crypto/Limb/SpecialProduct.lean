import EiffelWeb.Footprint
import EiffelWeb.Crypto.Limb.SpecialArithmetic

set_option relaxedAutoImplicit false
set_option autoImplicit false

/-!
# Products of limb arrays

The routines `mul_1`, `addmul_1`, `incr_u` and `mul_basecase` of `SPECIAL_ARITHMETIC`. A product of
two arrays is the sum of the products with the limbs of the second one, each with its weight.

The specifications here give the number that is left in the array written and the footprint.

## Main definitions

* `SpecialArithmetic.umulPpmm` — the product of two limbs.
* `SpecialArithmetic.mul1`, `SpecialArithmetic.addmul1`
* `SpecialArithmetic.incrU`
* `SpecialArithmetic.mulBasecase`

## Main results

* `SpecialArithmetic.addN_run`, `SpecialArithmetic.subN_run`
* `SpecialArithmetic.mul1_run`, `SpecialArithmetic.addmul1_run`
* `SpecialArithmetic.incrU_run`
* `SpecialArithmetic.mulBasecase_run`
-/

namespace EiffelWeb

open Limbs Arrays

namespace LimbHeap

variable {h h' : LimbHeap}

/-- The number in two parts of an array one behind the other. -/
lemma number_add (h : LimbHeap) {a i m n : ℕ} (hm : i + m ≤ (h a).length) :
    h.number a i (m + n) = h.number a i m + (2 ^ 32) ^ m * h.number a (i + m) n := by
  rw [number, ← segment_append, value_append, length_segment hm, number, number]

@[simp] lemma number_zero (h : LimbHeap) (a i : ℕ) : h.number a i 0 = 0 := by
  rw [number, segment_zero, value_nil]

lemma number_one {a i : ℕ} {x : Natural32} (hx : h.item a i = some x) :
    h.number a i 1 = x.toNat := by
  obtain ⟨hi, -⟩ := List.getElem?_eq_some_iff.mp hx
  obtain ⟨y, hy, hseg⟩ := exists_item (h := h) (a := a) (i := i) (n := 0) (by omega)
  rw [hx, Option.some.injEq] at hy
  rw [number, hseg, segment_zero, value_singleton, hy]

/-- The limb at an index is there. -/
lemma exists_limb {a i : ℕ} (hi : i < (h a).length) :
    ∃ x, h.item a i = some x ∧ h.number a i 1 = x.toNat :=
  ⟨(h a)[i], List.getElem?_eq_getElem hi, number_one (List.getElem?_eq_getElem hi)⟩

/-- A number that is apart from the footprint. -/
lemma number_eq {W : ℕ → ℕ → Prop} (hs : SameOutside W h h') {a i n : ℕ}
    (hd : ∀ k, i ≤ k → k < i + n → ¬ W a k) : h'.number a i n = h.number a i n := by
  rw [number, hs.segment hd, number]

/-- A number that is apart from the only part that was written. -/
lemma number_apart {a i m b j n : ℕ} (hs : SameOutside (region a i m) h h')
    (hd : Apart a i m b j n) : h'.number b j n = h.number b j n := by
  rw [number, hs.segment_apart hd, number]

/-- A number below `free` that is apart from the footprint. -/
lemma number_kept {free : ℕ} {W : ℕ → ℕ → Prop} (hk : KeptBelow free W h h') {a i n : ℕ}
    (ha : a < free) (hd : ∀ k, i ≤ k → k < i + n → ¬ W a k) : h'.number a i n = h.number a i n := by
  rw [number, hk.segment ha hd, number]

/-- What writing the limbs of a number leaves. -/
lemma run_store {a i n : ℕ} (hn : i + n ≤ (h a).length) (v : ℕ) :
    LimbHeap.number (h.store a i (ofNat 32 n v)) a i n = v % (2 ^ 32) ^ n ∧
      SameOutside (region a i n) h (h.store a i (ofNat 32 n v)) := by
  have hlen : (ofNat 32 n v).length = n := length_ofNat n v
  have hstored : i + (ofNat 32 n v).length ≤ (h a).length := by rwa [hlen]
  have hread := segment_store_self hstored
  have hfoot := sameOutside_store hstored
  rw [hlen] at hread hfoot
  exact ⟨by rw [number, hread, value_ofNat], hfoot⟩

/-- Writing one limb. -/
lemma run_put {a i : ℕ} (hi : i < (h a).length) (x : Natural32) :
    ∃ h' : LimbHeap, h.put a i x = some h' ∧ h'.number a i 1 = x.toNat ∧
      SameOutside (region a i 1) h h' := by
  have hstored : i + [x].length ≤ (h a).length := by
    rw [List.length_singleton]
    omega
  have hread := segment_store_self hstored
  rw [List.length_singleton] at hread
  exact ⟨_, put_eq hi, by rw [number, hread, value_singleton], sameOutside_store hstored⟩

/-- A limb that was written before the number below it. -/
lemma number_above {g : LimbHeap} {a i n v : ℕ} (hn : i + (n + 1) ≤ (h a).length)
    (hlimb : g.number a (i + n) 1 = v) (hfoot : SameOutside (region a (i + n) 1) h g)
    (hfoot' : SameOutside (region a i n) g h') :
    h'.number a i (n + 1) = h'.number a i n + (2 ^ 32) ^ n * v := by
  rw [h'.number_add (by rw [hfoot'.length, hfoot.length]; omega),
    number_apart hfoot' (Apart.of_le le_rfl), hlimb]

/-- A limb that was written before the number above it. -/
lemma number_below {g : LimbHeap} {a i n v : ℕ} (hn : i + (n + 1) ≤ (h a).length)
    (hlimb : g.number a i 1 = v) (hfoot : SameOutside (region a i 1) h g)
    (hfoot' : SameOutside (region a (i + 1) n) g h') :
    h'.number a i (n + 1) = v + 2 ^ 32 * h'.number a (i + 1) n := by
  rw [Nat.add_comm n 1, h'.number_add (by rw [hfoot'.length, hfoot.length]; omega), pow_one,
    number_apart hfoot' (Apart.of_le le_rfl).symm, hlimb]

/-- Copying limbs. -/
lemma run_copyData {t a i j n : ℕ} (ha : i + n ≤ (h a).length) (ht : j + n ≤ (h t).length) :
    ∃ h' : LimbHeap, h.copyData t a i j n = some h' ∧ h'.number t j n = h.number a i n ∧
      SameOutside (region t j n) h h' := by
  have hlen : (h.segment a i n).length = n := length_segment ha
  have hstored : j + (h.segment a i n).length ≤ (h t).length := by rwa [hlen]
  have hread := segment_store_self hstored
  have hfoot := sameOutside_store hstored
  rw [hlen] at hread hfoot
  exact ⟨_, copyData_eq ha ht, congrArg value hread, hfoot⟩

end LimbHeap

namespace SpecialArithmetic

/-! ## Sums and differences -/

section Sums

variable {target targetOffset op1 op1Offset op2 op2Offset n : ℕ} {h : LimbHeap}

/-- **`add_n`**: the sum, and the carry. -/
lemma addN_run (ht : targetOffset + n ≤ (h target).length) (h₁ : op1Offset + n ≤ (h op1).length)
    (h₂ : op2Offset + n ≤ (h op2).length) (hr₁ : ReadsAhead n target targetOffset op1 op1Offset)
    (hr₂ : ReadsAhead n target targetOffset op2 op2Offset) :
    ∃ c h', addN target targetOffset op1 op1Offset op2 op2Offset n h = some (c, h') ∧
      c.toNat ≤ 1 ∧ h'.number target targetOffset n + (2 ^ 32) ^ n * c.toNat =
        h.number op1 op1Offset n + h.number op2 op2Offset n ∧
      SameOutside (region target targetOffset n) h h' := by
  set s := h.number op1 op1Offset n + h.number op2 op2Offset n with hs
  have hlt₁ := h.number_lt h₁
  have hlt₂ := h.number_lt h₂
  have hcarry : s / (2 ^ 32) ^ n ≤ 1 := Nat.lt_succ_iff.mp (Nat.div_lt_of_lt_mul (by omega))
  have hlimb : (BitVec.ofNat 32 (s / (2 ^ 32) ^ n)).toNat = s / (2 ^ 32) ^ n := by
    rw [BitVec.toNat_ofNat, Nat.mod_eq_of_lt (by omega)]
  obtain ⟨hnum, hfoot⟩ := LimbHeap.run_store ht s
  refine ⟨_, _, addN_eq ht h₁ h₂ hr₁ hr₂, ?_, ?_, hfoot⟩
  · rw [← hs, hlimb]
    exact hcarry
  · rw [← hs, hlimb, hnum, Nat.mod_add_div]

/-- **`sub_n`**: the difference, and the borrow. -/
lemma subN_run (ht : targetOffset + n ≤ (h target).length) (h₁ : op1Offset + n ≤ (h op1).length)
    (h₂ : op2Offset + n ≤ (h op2).length) (hr₁ : ReadsAhead n target targetOffset op1 op1Offset)
    (hr₂ : ReadsAhead n target targetOffset op2 op2Offset) :
    ∃ c h', subN target targetOffset op1 op1Offset op2 op2Offset n h = some (c, h') ∧
      c.toNat ≤ 1 ∧ h'.number target targetOffset n + h.number op2 op2Offset n =
        h.number op1 op1Offset n + (2 ^ 32) ^ n * c.toNat ∧
      SameOutside (region target targetOffset n) h h' := by
  set a := h.number op1 op1Offset n with ha
  set b := h.number op2 op2Offset n with hb
  have hlta : a < (2 ^ 32) ^ n := h.number_lt h₁
  have hltb : b < (2 ^ 32) ^ n := h.number_lt h₂
  obtain ⟨hnum, hfoot⟩ := LimbHeap.run_store ht (a + (2 ^ 32) ^ n - b)
  refine ⟨_, _, subN_eq ht h₁ h₂ hr₁ hr₂, ?_, ?_, hfoot⟩
  · split <;> decide
  · rw [← ha, ← hb, hnum]
    by_cases hlt : a < b
    · rw [if_pos hlt, Nat.mod_eq_of_lt (by omega)]
      show a + (2 ^ 32) ^ n - b + b = a + (2 ^ 32) ^ n * 1
      omega
    · have hmod : a + (2 ^ 32) ^ n - b = (a - b) + (2 ^ 32) ^ n * 1 := by omega
      rw [if_neg hlt, hmod, Nat.add_mul_mod_self_left, Nat.mod_eq_of_lt (by omega)]
      show a - b + b = a + (2 ^ 32) ^ n * 0
      omega

end Sums

/-! ## Products with one limb -/

/-- `umul_ppmm (xh, xl, m0, m1)`: the high and the low limb of the product. -/
def umulPpmm (m0 m1 : Natural32) : Natural32 × Natural32 :=
  let t := m0.setWidth 64 * m1.setWidth 64
  ((t >>> 32).setWidth 32, t.setWidth 32)

/-- One iteration of `mul_1`: the limb written and the next carry. -/
def mulStep (vl carry ul : Natural32) : Natural32 × Natural32 :=
  let hl := umulPpmm ul vl
  let lpl := hl.2 + carry
  let carry := toLimb (lpl < carry)
  (lpl, carry + hl.1)

/-- `mul_1 (target, target_offset, op1, op1_offset, n, vl, carry)`. -/
def mul1 (target targetOffset op1 op1Offset n : ℕ) (vl : Natural32) (h : LimbHeap) :
    Option (Natural32 × LimbHeap) :=
  zipLoop (fun c u _ => mulStep vl c u) target op1 op1 n targetOffset op1Offset op1Offset 0 h

/-- One iteration of `addmul_1`. -/
def addmulStep (vl carry rl ul : Natural32) : Natural32 × Natural32 :=
  let hl := umulPpmm ul vl
  let lpl := hl.2 + carry
  let carry := toLimb (lpl < carry) + hl.1
  let lpl := rl + lpl
  (lpl, carry + toLimb (lpl < rl))

/-- `addmul_1 (target, target_offset, op1, op1_offset, n, vl, carry)`. -/
def addmul1 (target targetOffset op1 op1Offset n : ℕ) (vl : Natural32) (h : LimbHeap) :
    Option (Natural32 × LimbHeap) :=
  zipLoop (addmulStep vl) target target op1 n targetOffset targetOffset op1Offset 0 h

/-- The product of two limbs. -/
lemma umulPpmm_spec (u v : Natural32) :
    (umulPpmm u v).2.toNat + 2 ^ 32 * (umulPpmm u v).1.toNat = u.toNat * v.toNat := by
  have hmul : u.toNat * v.toNat ≤ (2 ^ 32 - 1) * (2 ^ 32 - 1) :=
    Nat.mul_le_mul (Nat.le_sub_one_of_lt u.isLt) (Nat.le_sub_one_of_lt v.isLt)
  have hwide (x : Natural32) : (x.setWidth 64).toNat = x.toNat := by
    have hx := x.isLt
    rw [BitVec.toNat_setWidth, Nat.mod_eq_of_lt (by omega)]
  simp only [umulPpmm, BitVec.toNat_setWidth, BitVec.toNat_ushiftRight, BitVec.toNat_mul, hwide,
    Nat.shiftRight_eq_div_pow]
  omega

lemma toNat_toLimb (b : Bool) : (toLimb b).toNat = b.toNat := by
  cases b <;> rfl

/-- An iteration of `mul_1` multiplies and adds the carry. -/
lemma mulStep_spec (v c u : Natural32) :
    (mulStep v c u).1.toNat + 2 ^ 32 * (mulStep v c u).2.toNat = u.toNat * v.toNat + c.toNat := by
  have hmul : u.toNat * v.toNat ≤ (2 ^ 32 - 1) * (2 ^ 32 - 1) :=
    Nat.mul_le_mul (Nat.le_sub_one_of_lt u.isLt) (Nat.le_sub_one_of_lt v.isLt)
  have hspec := umulPpmm_spec u v
  have hlo := (umulPpmm u v).2.isLt
  have hc := c.isLt
  simp only [mulStep, BitVec.toNat_add, BitVec.lt_def, toNat_toLimb]
  by_cases hlt : ((umulPpmm u v).2.toNat + c.toNat) % 2 ^ 32 < c.toNat
  · simp only [hlt, decide_true, Bool.toNat_true]
    omega
  · simp only [hlt, decide_false, Bool.toNat_false]
    omega

/-- An iteration of `addmul_1` multiplies and adds the limb in the target and the carry. -/
lemma addmulStep_spec (v c r u : Natural32) :
    (addmulStep v c r u).1.toNat + 2 ^ 32 * (addmulStep v c r u).2.toNat =
      (r.toNat + u.toNat * v.toNat) + c.toNat := by
  have hmul : u.toNat * v.toNat ≤ (2 ^ 32 - 1) * (2 ^ 32 - 1) :=
    Nat.mul_le_mul (Nat.le_sub_one_of_lt u.isLt) (Nat.le_sub_one_of_lt v.isLt)
  have hspec := mulStep_spec v c u
  have hstep : addmulStep v c r u = (r + (mulStep v c u).1,
    (mulStep v c u).2 + toLimb (r + (mulStep v c u).1 < r)) := rfl
  have hlo := (mulStep v c u).1.isLt
  have hr := r.isLt
  have hc := c.isLt
  simp only [hstep, BitVec.toNat_add, BitVec.lt_def, toNat_toLimb]
  by_cases hlt : (r.toNat + (mulStep v c u).1.toNat) % 2 ^ 32 < r.toNat
  · simp only [hlt, decide_true, Bool.toNat_true]
    omega
  · simp only [hlt, decide_false, Bool.toNat_false]
    omega

section OneLimb

variable {target targetOffset op1 op1Offset n : ℕ} {h : LimbHeap}

/-- What a loop with a carry leaves, from what its pass computes. -/
lemma zipLoop_run {f : Natural32 → Natural32 → Natural32 → Natural32 × Natural32}
    {g : Natural32 → Natural32 → ℕ}
    (hf : ∀ c u v, (f c u v).1.toNat + 2 ^ 32 * (f c u v).2.toNat = g u v + c.toNat)
    {a i b j : ℕ} (ht : targetOffset + n ≤ (h target).length) (ha : i + n ≤ (h a).length)
    (hb : j + n ≤ (h b).length) (hra : ReadsAhead n target targetOffset a i)
    (hrb : ReadsAhead n target targetOffset b j) :
    ∃ (c : Natural32) (h' : LimbHeap),
      zipLoop f target a b n targetOffset i j 0 h = some (c, h') ∧
      h'.number target targetOffset n + (2 ^ 32) ^ n * c.toNat =
        weigh g (h.segment a i n) (h.segment b j n) ∧
      SameOutside (region target targetOffset n) h h' := by
  have hlen : (h.segment a i n).length = (h.segment b j n).length := by
    rw [length_segment ha, length_segment hb]
  obtain ⟨-, hval⟩ := value_zipCarry (P := fun _ => True)
    (fun c u v _ => ⟨trivial, hf c u v⟩) hlen (c := 0) trivial
  have hout := length_zipCarry f 0 hlen
  rw [length_segment ha] at hval hout
  have hstored : targetOffset + (zipCarry f 0 (h.segment a i n) (h.segment b j n)).1.length ≤
      (h target).length := by rwa [hout]
  have hread := segment_store_self hstored
  have hfoot := sameOutside_store hstored
  rw [hout] at hread hfoot
  refine ⟨_, _, zipLoop_eq f 0 ht ha hb hra hrb, ?_, hfoot⟩
  rw [LimbHeap.number, hread, hval, toNat_zero_limb, Nat.add_zero]

/-- **`mul_1`**: the product with a limb. -/
lemma mul1_run (ht : targetOffset + n ≤ (h target).length) (h₁ : op1Offset + n ≤ (h op1).length)
    (hr : ReadsAhead n target targetOffset op1 op1Offset) (vl : Natural32) :
    ∃ c h', mul1 target targetOffset op1 op1Offset n vl h = some (c, h') ∧
      h'.number target targetOffset n + (2 ^ 32) ^ n * c.toNat =
        h.number op1 op1Offset n * vl.toNat ∧
      SameOutside (region target targetOffset n) h h' := by
  obtain ⟨c, h', hrun, hval, hfoot⟩ :=
    zipLoop_run (g := fun u _ => u.toNat * vl.toNat) (fun c u _ => mulStep_spec vl c u) ht h₁ h₁ hr
      hr
  rw [weigh_mul _ rfl] at hval
  exact ⟨c, h', hrun, hval, hfoot⟩

/-- **`addmul_1`**: the product with a limb is added. -/
lemma addmul1_run (ht : targetOffset + n ≤ (h target).length)
    (h₁ : op1Offset + n ≤ (h op1).length) (hr : ReadsAhead n target targetOffset op1 op1Offset)
    (vl : Natural32) :
    ∃ c h', addmul1 target targetOffset op1 op1Offset n vl h = some (c, h') ∧
      h'.number target targetOffset n + (2 ^ 32) ^ n * c.toNat =
        h.number target targetOffset n + h.number op1 op1Offset n * vl.toNat ∧
      SameOutside (region target targetOffset n) h h' := by
  obtain ⟨c, h', hrun, hval, hfoot⟩ :=
    zipLoop_run (g := fun r u => r.toNat + u.toNat * vl.toNat) (addmulStep_spec vl) ht ht h₁
      (.refl _ _ _) hr
  rw [weigh_add_mul _ (by rw [length_segment ht, length_segment h₁])] at hval
  exact ⟨c, h', hrun, hval, hfoot⟩

end OneLimb

/-! ## Increments -/

/-- The loop of `incr_u`: one is added to the limbs from `cursor` on until a limb is not zero. The
first argument is the number of limbs up to the end of the array, where the loop fails. -/
def incrLoop (target : ℕ) : (n cursor : ℕ) → LimbHeap → Option LimbHeap
  | 0, _, _ => none
  | n + 1, cursor, h =>
    (h.item target cursor).bind fun x =>
      (h.put target cursor (x + 1)).bind fun h =>
        if x + 1 ≠ 0 then some h else incrLoop target n (cursor + 1) h

/-- `incr_u (target, target_offset, incr)`. -/
def incrU (target targetOffset : ℕ) (incr : Natural32) (h : LimbHeap) : Option LimbHeap := do
  let x ← h.item target targetOffset
  let h ← h.put target targetOffset (x + incr)
  if x + incr < incr then
    incrLoop target ((h target).length - (targetOffset + 1)) (targetOffset + 1) h
  else return h

section Increment

variable {target i k : ℕ} {h : LimbHeap}

/-- The first limb of a number and the rest. -/
lemma number_succ (h : LimbHeap) {a i n : ℕ} (hi : i < (h a).length) :
    ∃ x, h.item a i = some x ∧
      h.number a i (n + 1) = x.toNat + 2 ^ 32 * h.number a (i + 1) n := by
  obtain ⟨x, hx, hnum⟩ := LimbHeap.exists_limb hi
  refine ⟨x, hx, ?_⟩
  rw [Nat.add_comm n 1, h.number_add (by omega), hnum, pow_one]

/-- Writing the first limb of a number. -/
lemma put_first (hk : i + (k + 1) ≤ (h target).length) (y : Natural32) :
    ∃ h' : LimbHeap, h.put target i y = some h' ∧ SameOutside (region target i 1) h h' ∧
      h'.number target i 1 = y.toNat ∧
      h'.number target (i + 1) k = h.number target (i + 1) k := by
  obtain ⟨h', hput, hnum, hfoot⟩ := LimbHeap.run_put (show i < (h target).length by omega) y
  refine ⟨h', hput, hfoot, hnum, LimbHeap.number_eq hfoot ?_⟩
  simp only [region]
  omega

/-- **The loop of `incr_u`** adds one.

**Proof sketch.** Induction on the number of limbs that the result needs. -/
lemma incrLoop_run (hk : i + k ≤ (h target).length) (hlt : h.number target i k + 1 < (2 ^ 32) ^ k)
    {n : ℕ} (hn : k ≤ n) :
    ∃ h' : LimbHeap, incrLoop target n i h = some h' ∧
      h'.number target i k = h.number target i k + 1 ∧
      SameOutside (region target i k) h h' := by
  induction k generalizing i h n with
  | zero => simp at hlt
  | succ k ih =>
    obtain ⟨n, rfl⟩ : ∃ n', n = n' + 1 := ⟨n - 1, by omega⟩
    obtain ⟨x, hx, hnum⟩ := number_succ h (n := k) (show i < (h target).length by omega)
    obtain ⟨h₁, hput, hfoot, hfirst, hrest⟩ := put_first hk (x + 1)
    have hsplit (g : LimbHeap) (hg : (g target).length = (h target).length) :
        g.number target i (k + 1) = g.number target i 1 + 2 ^ 32 * g.number target (i + 1) k := by
      rw [Nat.add_comm k 1, g.number_add (by omega), pow_one]
    have hx' := x.isLt
    have hsucc : (x + 1).toNat = (x.toNat + 1) % 2 ^ 32 := BitVec.toNat_add x 1
    rw [incrLoop, hx, Option.bind_some, hput, Option.bind_some, hnum]
    by_cases hzero : x + 1 = 0
    · have hmax : x.toNat + 1 = 2 ^ 32 := by
        rw [hzero, toNat_zero_limb] at hsucc
        omega
      rw [hnum, pow_succ' (2 ^ 32) k] at hlt
      have hlt' : h.number target (i + 1) k + 1 < (2 ^ 32) ^ k := by
        refine Nat.lt_of_mul_lt_mul_left (a := 2 ^ 32) ?_
        omega
      obtain ⟨h₂, hloop, hval, hfoot'⟩ := ih (i := i + 1) (h := h₁)
        (by rw [hfoot.length]; omega) (by rw [hrest]; exact hlt') (n := n) (by omega)
      refine ⟨h₂, ?_, ?_, ?_⟩
      · rw [if_neg (not_not.mpr hzero)]
        exact hloop
      · have hkeep : h₂.number target i 1 = h₁.number target i 1 := by
          refine LimbHeap.number_eq hfoot' ?_
          simp only [region]
          omega
        rw [hsplit h₂ (by rw [hfoot'.length, hfoot.length]), hkeep, hfirst, hval, hrest, hzero,
          toNat_zero_limb]
        omega
      · exact hfoot.join hfoot' (by omega) (by omega)
    · have hmax : (x + 1).toNat = x.toNat + 1 := by
        have hne : (x + 1).toNat ≠ 0 := (BitVec.toNat_pos_of_ne_zero hzero).ne'
        omega
      refine ⟨h₁, ?_, ?_, ?_⟩
      · rw [if_pos hzero]
      · rw [hsplit h₁ (hfoot.length target), hfirst, hrest, hmax]
        omega
      · refine hfoot.mono ?_
        simp only [region]
        omega

/-- **`incr_u`** adds a limb to a number. -/
lemma incrU_run (hk : i + (k + 1) ≤ (h target).length) (y : Natural32)
    (hlt : h.number target i (k + 1) + y.toNat < (2 ^ 32) ^ (k + 1)) :
    ∃ h' : LimbHeap, incrU target i y h = some h' ∧
      h'.number target i (k + 1) = h.number target i (k + 1) + y.toNat ∧
      SameOutside (region target i (k + 1)) h h' := by
  obtain ⟨x, hx, hnum⟩ := number_succ h (n := k) (show i < (h target).length by omega)
  obtain ⟨h₁, hput, hfoot, hfirst, hrest⟩ := put_first hk (x + y)
  have hsplit (g : LimbHeap) (hg : (g target).length = (h target).length) :
      g.number target i (k + 1) = g.number target i 1 + 2 ^ 32 * g.number target (i + 1) k := by
    rw [Nat.add_comm k 1, g.number_add (by omega), pow_one]
  have hx' := x.isLt
  have hy' := y.isLt
  have hsum : (x + y).toNat = (x.toNat + y.toNat) % 2 ^ 32 := BitVec.toNat_add x y
  rw [incrU, hx, hnum]
  simp only [Option.bind_eq_bind, Option.bind_some, hput]
  by_cases hover : x + y < y
  · have hover' : (x.toNat + y.toNat) % 2 ^ 32 < y.toNat := by
      rw [← hsum]
      exact hover
    rw [hnum, pow_succ' (2 ^ 32) k] at hlt
    have hlt' : h.number target (i + 1) k + 1 < (2 ^ 32) ^ k := by
      refine Nat.lt_of_mul_lt_mul_left (a := 2 ^ 32) ?_
      omega
    have hroom : i + 1 + k ≤ (h₁ target).length := by
      rw [hfoot.length]
      omega
    obtain ⟨h₂, hloop, hval, hfoot'⟩ := incrLoop_run hroom (by rw [hrest]; exact hlt')
      (n := (h₁ target).length - (i + 1)) (by omega)
    refine ⟨h₂, ?_, ?_, ?_⟩
    · rw [if_pos hover]
      exact hloop
    · have hkeep : h₂.number target i 1 = h₁.number target i 1 := by
        refine LimbHeap.number_eq hfoot' ?_
        simp only [region]
        omega
      rw [hsplit h₂ (by rw [hfoot'.length, hfoot.length]), hkeep, hfirst, hval, hrest, hsum]
      omega
    · exact hfoot.join hfoot' (by omega) (by omega)
  · have hover' : y.toNat ≤ (x.toNat + y.toNat) % 2 ^ 32 := by
      rw [← hsum]
      exact not_lt.mp hover
    refine ⟨h₁, ?_, ?_, ?_⟩
    · rw [if_neg hover]
      rfl
    · rw [hsplit h₁ (hfoot.length target), hfirst, hrest, hsum]
      omega
    · refine hfoot.mono ?_
      simp only [region]
      omega

end Increment

/-! ## The schoolbook product -/

/-- The loop of `mul_basecase`, for `k` more limbs of `op2`. -/
def basecaseLoop (target targetOffset op1 op1Offset op1Count op2 op2Offset : ℕ) :
    (k cursor : ℕ) → LimbHeap → Option LimbHeap
  | 0, _, h => some h
  | k + 1, cursor, h => do
    let vl ← h.item op2 (op2Offset + cursor)
    let (carry, h) ← addmul1 target (targetOffset + cursor) op1 op1Offset op1Count vl h
    let h ← h.put target (targetOffset + op1Count + cursor) carry
    basecaseLoop target targetOffset op1 op1Offset op1Count op2 op2Offset k (cursor + 1) h

/-- `mul_basecase (target, target_offset, op1, op1_offset, op1_count, op2, op2_offset, op2_count)`,
for `op2_count` at least one. -/
def mulBasecase (target targetOffset op1 op1Offset op1Count op2 op2Offset op2Count : ℕ)
    (h : LimbHeap) : Option LimbHeap := do
  let vl ← h.item op2 op2Offset
  let (carry, h) ← mul1 target targetOffset op1 op1Offset op1Count vl h
  let h ← h.put target (targetOffset + op1Count) carry
  basecaseLoop target targetOffset op1 op1Offset op1Count op2 op2Offset (op2Count - 1) 1 h

section Basecase

variable {target targetOffset op1 op1Offset op1Count op2 op2Offset op2Count : ℕ} {h : LimbHeap}

/-- One limb more of the second operand. -/
lemma basecase_step {j : ℕ} (hj : j < op2Count)
    (ht : targetOffset + (op1Count + op2Count) ≤ (h target).length)
    (h₁ : op1Offset + op1Count ≤ (h op1).length) (h₂ : op2Offset + op2Count ≤ (h op2).length)
    (ha₁ : Apart target targetOffset (op1Count + op2Count) op1 op1Offset op1Count)
    (hval : h.number target targetOffset (op1Count + j) =
      h.number op1 op1Offset op1Count * h.number op2 op2Offset j) :
    ∃ (vl c : Natural32) (g h' : LimbHeap), h.item op2 (op2Offset + j) = some vl ∧
      addmul1 target (targetOffset + j) op1 op1Offset op1Count vl h = some (c, g) ∧
      g.put target (targetOffset + op1Count + j) c = some h' ∧
      h'.number target targetOffset (op1Count + (j + 1)) =
        h.number op1 op1Offset op1Count * h.number op2 op2Offset (j + 1) ∧
      SameOutside (region target targetOffset (op1Count + op2Count)) h h' := by
  obtain ⟨v, hv, hnum⟩ := LimbHeap.exists_limb (show op2Offset + j < (h op2).length by omega)
  have hr : ReadsAhead op1Count target (targetOffset + j) op1 op1Offset := fun he => by
    have := ha₁ he.symm
    omega
  obtain ⟨c, g, hmul, hsum, hfoot⟩ := addmul1_run
    (show targetOffset + j + op1Count ≤ (h target).length by omega) h₁ hr v
  obtain ⟨h', hput, hlimb, hfoot'⟩ := LimbHeap.run_put
    (show targetOffset + op1Count + j < (g target).length by rw [hfoot.length]; omega) c
  refine ⟨v, c, g, h', hv, hmul, hput, ?_, ?_⟩
  · -- the limbs below `j` are kept, those from `j` on are the sum and the carry
    have hlow : h'.number target targetOffset j = h.number target targetOffset j := by
      rw [LimbHeap.number_eq hfoot', LimbHeap.number_eq hfoot] <;>
      · simp only [region]
        omega
    have hmid : h'.number target (targetOffset + j) op1Count =
        g.number target (targetOffset + j) op1Count := by
      refine LimbHeap.number_eq hfoot' ?_
      simp only [region]
      omega
    have hcarry : h'.number target (targetOffset + j + op1Count) 1 = c.toNat := by
      rw [← hlimb]
      congr 1
      omega
    have hnew : h'.number target targetOffset (op1Count + (j + 1)) =
        h.number target targetOffset j + (2 ^ 32) ^ j *
          (g.number target (targetOffset + j) op1Count + (2 ^ 32) ^ op1Count * c.toNat) := by
      have hlen : (h' target).length = (h target).length := by rw [hfoot'.length, hfoot.length]
      rw [show op1Count + (j + 1) = j + (op1Count + 1) by omega, h'.number_add (by omega),
        h'.number_add (by omega), hlow, hmid, hcarry]
    have hold : h.number target targetOffset (op1Count + j) = h.number target targetOffset j +
        (2 ^ 32) ^ j * h.number target (targetOffset + j) op1Count := by
      rw [Nat.add_comm op1Count j, h.number_add (by omega)]
    rw [hnew, hsum, h.number_add (by omega), hnum]
    calc h.number target targetOffset j + (2 ^ 32) ^ j *
          (h.number target (targetOffset + j) op1Count + h.number op1 op1Offset op1Count * v.toNat)
        = h.number target targetOffset (op1Count + j) +
          (2 ^ 32) ^ j * (h.number op1 op1Offset op1Count * v.toNat) := by
          rw [hold]
          ring
      _ = h.number op1 op1Offset op1Count *
          (h.number op2 op2Offset j + (2 ^ 32) ^ j * v.toNat) := by
          rw [hval]
          ring
  · exact hfoot.join hfoot' (by omega) (by omega)

/-- **The loop of `mul_basecase`.**

**Proof sketch.** Induction on the limbs of the second operand that are left; the array holds the
product with the limbs before the cursor. -/
lemma basecaseLoop_run (k : ℕ) {j : ℕ} (hj : j + k = op2Count)
    (ht : targetOffset + (op1Count + op2Count) ≤ (h target).length)
    (h₁ : op1Offset + op1Count ≤ (h op1).length) (h₂ : op2Offset + op2Count ≤ (h op2).length)
    (ha₁ : Apart target targetOffset (op1Count + op2Count) op1 op1Offset op1Count)
    (ha₂ : Apart target targetOffset (op1Count + op2Count) op2 op2Offset op2Count)
    (hval : h.number target targetOffset (op1Count + j) =
      h.number op1 op1Offset op1Count * h.number op2 op2Offset j) :
    ∃ h' : LimbHeap,
      basecaseLoop target targetOffset op1 op1Offset op1Count op2 op2Offset k j h = some h' ∧
      h'.number target targetOffset (op1Count + op2Count) =
        h.number op1 op1Offset op1Count * h.number op2 op2Offset op2Count ∧
      SameOutside (region target targetOffset (op1Count + op2Count)) h h' := by
  induction k generalizing j h with
  | zero =>
    rw [Nat.add_zero] at hj
    rw [hj] at hval
    exact ⟨h, rfl, hval, .refl _ _⟩
  | succ k ih =>
    obtain ⟨v, c, g, h', hv, hmul, hput, hval', hfoot⟩ :=
      basecase_step (show j < op2Count by omega) ht h₁ h₂ ha₁ hval
    have hkeep (n : ℕ) (hn : n ≤ op2Count) : h'.number op2 op2Offset n =
        h.number op2 op2Offset n :=
      LimbHeap.number_apart hfoot (ha₂.right le_rfl (by omega))
    obtain ⟨h'', hloop, hfinal, hfoot'⟩ := ih (h := h') (j := j + 1) (by omega)
      (by rw [hfoot.length]; exact ht) (by rw [hfoot.length]; exact h₁)
      (by rw [hfoot.length]; exact h₂)
      (by rw [hval', LimbHeap.number_apart hfoot ha₁, hkeep _ (by omega)])
    refine ⟨h'', ?_, ?_, hfoot.trans hfoot'⟩
    · simp only [basecaseLoop, hv, hmul, hput, Option.bind_eq_bind, Option.bind_some]
      exact hloop
    · rw [hfinal, LimbHeap.number_apart hfoot ha₁, hkeep _ le_rfl]

/-- **`mul_basecase`**: the product. -/
lemma mulBasecase_run (hcount : 1 ≤ op2Count)
    (ht : targetOffset + (op1Count + op2Count) ≤ (h target).length)
    (h₁ : op1Offset + op1Count ≤ (h op1).length) (h₂ : op2Offset + op2Count ≤ (h op2).length)
    (ha₁ : Apart target targetOffset (op1Count + op2Count) op1 op1Offset op1Count)
    (ha₂ : Apart target targetOffset (op1Count + op2Count) op2 op2Offset op2Count) :
    ∃ h' : LimbHeap,
      mulBasecase target targetOffset op1 op1Offset op1Count op2 op2Offset op2Count h = some h' ∧
      h'.number target targetOffset (op1Count + op2Count) =
        h.number op1 op1Offset op1Count * h.number op2 op2Offset op2Count ∧
      SameOutside (region target targetOffset (op1Count + op2Count)) h h' := by
  obtain ⟨v, hv, hnum⟩ := LimbHeap.exists_limb (show op2Offset < (h op2).length by omega)
  have hr : ReadsAhead op1Count target targetOffset op1 op1Offset := fun he => by
    have := ha₁ he.symm
    omega
  obtain ⟨c, g, hmul, hsum, hfoot⟩ := mul1_run
    (show targetOffset + op1Count ≤ (h target).length by omega) h₁ hr v
  obtain ⟨h', hput, hlimb, hfoot'⟩ := LimbHeap.run_put
    (show targetOffset + op1Count < (g target).length by rw [hfoot.length]; omega) c
  have hboth : SameOutside (region target targetOffset (op1Count + op2Count)) h h' := by
    exact hfoot.join hfoot' (by omega) (by omega)
  have hone : h'.number op2 op2Offset 1 = v.toNat := by
    rw [LimbHeap.number_apart hboth (ha₂.right le_rfl (by omega)), hnum]
  have hlow : h'.number target targetOffset op1Count = g.number target targetOffset op1Count :=
    LimbHeap.number_apart hfoot' (Apart.of_le le_rfl).symm
  have hstart : h'.number target targetOffset (op1Count + 1) =
      h'.number op1 op1Offset op1Count * h'.number op2 op2Offset 1 := by
    have hlen : (h' target).length = (h target).length := hboth.length target
    rw [h'.number_add (by omega), hlow, hlimb, hsum, hone, LimbHeap.number_apart hboth ha₁]
  obtain ⟨h'', hloop, hfinal, hfoot''⟩ := basecaseLoop_run (op2Count - 1)
    (show 1 + (op2Count - 1) = op2Count by omega) (by rw [hboth.length]; exact ht)
    (by rw [hboth.length]; exact h₁) (by rw [hboth.length]; exact h₂) ha₁ ha₂ hstart
  refine ⟨h'', ?_, ?_, hboth.trans hfoot''⟩
  · simp only [mulBasecase, hv, hmul, hput, Option.bind_eq_bind, Option.bind_some]
    exact hloop
  · rw [hfinal, LimbHeap.number_apart hboth ha₁, LimbHeap.number_apart hboth ha₂]

end Basecase

end SpecialArithmetic

end EiffelWeb
