import EiffelWeb.Crypto.Limb.IntegerXSingleBit

set_option relaxedAutoImplicit false
set_option autoImplicit false

/-!
# Changing a bit

The routine `bit_complement` of `INTEGER_X_LOGIC`, behind `bit_complement_value`. For a number that
is not negative it takes the limbs up to the one with the bit as they are in the array. For a
negative one it adds to the absolute value or takes away from it, but does not set the count after
an addition, and looks at a limb of the array behind the number as if it had a meaning. The
difference is made with more limbs than there are; no borrow gets to those.

## Main definitions

* `IntegerXMemory.bitComplement`, `IntegerXMemory.bitComplementValue`
* `IntegerXMemory.ComplementRight` — the numbers for which the result is right.

## Main results

* `IntegerXMemory.bitComplement_outcome`, `IntegerXMemory.bitComplement_wrong`
* `IntegerXMemory.single_bit_updates` — when one bit and no other is changed, for `bit_set`,
  `bit_clear` and `bit_complement`.
-/

namespace EiffelWeb

open Limbs Arrays

namespace SpecialArithmetic

variable {target offset n n' k k' i : ℕ} {h h' : LimbHeap} {op2 : Natural32}

/-- The loop of `sub_1` inside one array, with more limbs. -/
lemma sub1Loop_more (hk : k ≤ k')
    (hrun : sub1Loop target offset target offset k i h = some (0, h')) :
    sub1Loop target offset target offset k' i h = some (0, h') := by
  induction k generalizing k' i h with
  | zero =>
    rw [sub1Loop, Option.some.injEq, Prod.mk.injEq] at hrun
    exact absurd hrun.1 (by decide)
  | succ k ih =>
    obtain ⟨l, rfl⟩ : ∃ l, k' = l + 1 := ⟨k' - 1, by omega⟩
    simp only [sub1Loop, Option.bind_eq_bind, Option.bind_eq_some_iff] at hrun ⊢
    obtain ⟨x, hx, g, hput, hrun⟩ := hrun
    refine ⟨x, hx, g, hput, ?_⟩
    split at hrun
    · next hlt =>
      rw [if_pos hlt]
      simpa only [ne_eq, not_true_eq_false, if_false, Option.bind_some] using hrun
    · next hlt =>
      rw [if_neg hlt]
      exact ih (by omega) hrun

/-- **`sub_1`** inside one array without a borrow in the end, with more limbs. -/
lemma sub1_more (hn : n ≤ n') (hrun : sub1 target offset target offset n op2 h = some (0, h')) :
    sub1 target offset target offset n' op2 h = some (0, h') := by
  simp only [sub1, Option.bind_eq_bind, Option.bind_eq_some_iff] at hrun ⊢
  obtain ⟨x, hx, g, hput, hrun⟩ := hrun
  refine ⟨x, hx, g, hput, ?_⟩
  split at hrun
  · next hlt =>
    rw [if_pos hlt]
    exact sub1Loop_more (by omega) hrun
  · next hlt =>
    rw [if_neg hlt]
    simpa only [ne_eq, not_true_eq_false, if_false, Option.bind_some] using hrun

end SpecialArithmetic

namespace IntegerXMemory

/-- The part of `bit_complement` for a negative number, of which `dsize` limbs are looked at. -/
def complementNegative (d limbIndex dsize : ℕ) (bitL : Natural32) (m : IntegerXMemory) :
    Option IntegerXMemory := do
  let dp := m.item d
  let limb ← m.arrays.item dp limbIndex
  let x ← bitTestLoop dp m.arrays limbIndex (0 - limb)
  if x &&& bitL ≠ 0 then
    let m := m.resize d (dsize + 1)
    let dp := m.item d
    let (c, h) ← SpecialArithmetic.add1 dp limbIndex dp limbIndex (dsize - limbIndex : ℕ) bitL
      m.arrays
    -- the count is not set
    let h ← h.put dp dsize c
    return { m with arrays := h }
  else
    let (_, h) ← SpecialArithmetic.sub1 dp limbIndex dp limbIndex (dsize + limbIndex) bitL m.arrays
    let dsize ← SpecialUtility.normalize dp 0 dsize h
    return m.conclude d h dsize true

/-- `bit_complement (d, bit_index)`. -/
def bitComplement (d bitIndex : ℕ) (m : IntegerXMemory) : Option IntegerXMemory :=
  let limbIndex := bitIndex / 32
  let bitL := bitMask bitIndex
  let dsize := max (m.count d).natAbs (limbIndex + 1)
  let m := if (m.count d).natAbs ≤ limbIndex then m.resize d (limbIndex + 1) else m
  if 0 ≤ m.count d then
    (flipLimb (m.item d) limbIndex bitL m.arrays).bind fun h =>
      (SpecialUtility.normalize (m.item d) 0 dsize h).map fun dsize => m.conclude d h dsize false
  else m.complementNegative d limbIndex dsize bitL

/-- `bit_complement_value (bit_a)`. -/
def bitComplementValue (x bitA : ℕ) (m : IntegerXMemory) : Option IntegerXMemory :=
  (m.identity x).bitComplement m.objects bitA

/-! ## The limbs behind a number -/

section Behind

variable {h : LimbHeap} {a c n i : ℕ}

/-- Limbs behind a number that are zero, and only those, leave it as it is. -/
lemma number_behind_iff (hc : c ≤ n) :
    h.number a 0 n = h.number a 0 c ↔ ∀ j, c ≤ j → j < n → (h.item a j).getD 0 = 0 := by
  constructor
  · intro heq j hj hjn
    apply BitVec.eq_of_getLsbD_eq
    intro q hq
    have hdiv : (32 * j + q) / 32 = j := by omega
    have hmod : (32 * j + q) % 32 = q := by omega
    have hbit := LimbHeap.testBit_number h a n (32 * j + q)
    rw [heq, LimbHeap.testBit_number, hdiv, hmod, decide_eq_true hjn, decide_eq_false (by omega),
      Bool.false_and, Bool.true_and] at hbit
    rw [← hbit]
    exact BitVec.getLsbD_zero.symm
  · intro hzero
    apply Nat.eq_of_testBit_eq
    intro j
    rw [LimbHeap.testBit_number, LimbHeap.testBit_number]
    by_cases hj : j / 32 < c
    · rw [decide_eq_true hj, decide_eq_true (hj.trans_le hc)]
    · rw [decide_eq_false hj, Bool.false_and]
      by_cases hjn : j / 32 < n
      · rw [hzero _ (not_lt.mp hj) hjn]
        exact (congrArg _ BitVec.getLsbD_zero).trans (Bool.and_false _)
      · rw [decide_eq_false hjn, Bool.false_and]

/-- The bit that `bit_complement` looks at. -/
lemma and_bitMask_ne_zero (d : Natural32) (i : ℕ) :
    d &&& bitMask i ≠ 0 ↔ d.getLsbD (i % 32) = true := by
  have hi : i % 32 < 32 := Nat.mod_lt i (by decide)
  have hbit {q : ℕ} (hq : q < 32) :
      (d &&& bitMask i).getLsbD q = (d.getLsbD q && decide (q = i % 32)) := by
    rw [BitVec.getLsbD_and, bitMask, getLsbD_one_shiftLeft hq]
  constructor
  · intro hne
    by_contra hfalse
    refine hne (BitVec.eq_of_getLsbD_eq fun q hq => ?_)
    rw [hbit hq]
    by_cases hqi : q = i % 32
    · rw [hqi, Bool.eq_false_iff.mpr hfalse, Bool.false_and]
      exact BitVec.getLsbD_zero.symm
    · rw [decide_eq_false hqi, Bool.and_false]
      exact BitVec.getLsbD_zero.symm
  · intro htrue hzero
    have hread := hbit hi
    rw [hzero, htrue, decide_eq_true rfl] at hread
    exact absurd (BitVec.getLsbD_zero.symm.trans hread) (by decide)

end Behind

/-! ## The outcome of `bit_complement` -/

section Complement

variable {m m' s : IntegerXMemory} {x i : ℕ}

/-- The numbers for which `bit_complement` is right: those that are not negative, if the limbs up to
the one with the bit that are behind the number are zero, and negative ones with this limb that have
enough limbs for the new absolute value. -/
def ComplementRight (m : IntegerXMemory) (x i : ℕ) : Prop :=
  (0 ≤ m.value x ∧ ∀ j, (m.count x).natAbs ≤ j → j < i / 32 + 1 →
      (m.arrays.item (m.item x) j).getD 0 = 0) ∨
    (m.value x < 0 ∧ i / 32 < (m.count x).natAbs ∧ ((m.value x).testBit i = true →
      (m.value x).natAbs + 2 ^ i < (2 ^ 32) ^ (m.count x).natAbs))

/-- The object that `bit_complement` works on: the array has the limb with the bit. -/
lemma bitComplement_room (hm : m.WellFormed) (hx : x < m.objects) (hnx : m.Normalised x) (i : ℕ) :
    ∃ s, s = (if (m.count x).natAbs ≤ i / 32 then m.resize x (i / 32 + 1) else m) ∧
      m.Extends s ∧ max (m.count x).natAbs (i / 32 + 1) ≤ (s.arrays (s.item x)).length ∧
      ∀ n, s.arrays.number (s.item x) 0 n = m.arrays.number (m.item x) 0 n := by
  have hcap := hnx.count_le
  refine ⟨_, rfl, ?_⟩
  split
  · obtain ⟨hext, hroom⟩ := extends_resize hm hx (i / 32 + 1)
    rw [capacity] at hroom
    exact ⟨hext, by omega, number_resize m x _⟩
  · rw [capacity] at hcap
    exact ⟨.refl hm, by omega, fun _ => rfl⟩

/-- **`bit_complement`** of a number that is not negative changes the bit in what the array has. -/
lemma bitComplement_nonneg (hm : m.WellFormed) (hx : x < m.objects) (hnx : m.Normalised x)
    (hpos : 0 ≤ m.count x) :
    ∃ m', m.bitComplement x i = some m' ∧ m.Outcome m' x
      ((m.arrays.number (m.item x) 0 (max (m.count x).natAbs (i / 32 + 1)) ^^^ 2 ^ i : ℕ) : ℤ) := by
  obtain ⟨s, hs, hext, hroom, hnumber⟩ := bitComplement_room hm hx hnx i
  obtain ⟨g, hflip, hval, hfoot⟩ := flipLimb_run (i := i / 32) (by omega) hroom (bitMask i)
  rw [hnumber, Nat.shiftLeft_eq, Nat.mul_comm, Nat.pow_mul, pow_mul_bitMask] at hval
  obtain ⟨size, hsize, hout⟩ := (hext.keepsOthers x).outcome_normalize hx (hfoot.keptBelow s.free)
    hroom hval false
  have hcount : 0 ≤ s.count x := by rwa [hext.count]
  refine ⟨s.conclude x g size false, ?_, hout⟩
  simp only [bitComplement, ← hs, if_pos hcount, hflip, Option.bind_some, hsize, Option.map_some]

/-- **`bit_complement`** of a negative number. With `D` for the absolute value in the limbs that it
looks at, the bit of `-D` is changed. If it is set, the limbs from the one with the bit on are
written, and the count stays as it is. -/
lemma bitComplement_negative (hm : m.WellFormed) (hx : x < m.objects) (hnx : m.Normalised x)
    (hneg : m.count x < 0) {n D : ℕ} (hn : n = max (m.count x).natAbs (i / 32 + 1))
    (hD : m.arrays.number (m.item x) 0 n = D) :
    ((-(D : ℤ)).testBit i = true → ∃ (t : IntegerXMemory) (g : LimbHeap) (c : ℕ),
      m.bitComplement x i = some { t with arrays := g } ∧ m.Extends t ∧
      n + 1 ≤ (t.arrays (t.item x)).length ∧
      SameOutside (region (t.item x) (i / 32) (n + 1 - i / 32)) t.arrays g ∧
      g.number (t.item x) 0 n + (2 ^ 32) ^ n * c = D + 2 ^ i) ∧
    ((-(D : ℤ)).testBit i = false → ∃ m', m.bitComplement x i = some m' ∧
      m.Outcome m' x (Int.xor (-(D : ℤ)) (2 ^ i : ℕ))) := by
  obtain ⟨s, hs, hext, hroom, hnumber⟩ := bitComplement_room hm hx hnx i
  rw [← hn] at hroom
  obtain ⟨k, hk⟩ : ∃ k, n = i / 32 + (k + 1) := ⟨n - i / 32 - 1, by omega⟩
  obtain ⟨limb, hlimb, -⟩ := LimbHeap.exists_limb (h := s.arrays) (a := s.item x) (i := i / 32)
    (by omega)
  have hcount : ¬ 0 ≤ s.count x := by
    rw [hext.count]
    omega
  have hDs := (hnumber n).trans hD
  have hbit := testBit_neg_number hroom (by omega) hlimb (Nat.mod_lt i (by decide))
  rw [Nat.div_add_mod, hDs] at hbit
  have hloop : bitTestLoop (s.item x) s.arrays (i / 32) (0 - limb) =
      some (negLimb s.arrays (s.item x) (i / 32) limb) := bitTestLoop_eq _ _ (by omega)
  have hsplit : D = s.arrays.number (s.item x) 0 (i / 32) +
      (2 ^ 32) ^ (i / 32) * s.arrays.number (s.item x) (i / 32) (k + 1) := by
    rw [← hDs, hk, s.arrays.number_add (by omega), Nat.zero_add]
  have hdiff : n - i / 32 = k + 1 := by omega
  constructor
  · intro hset
    obtain ⟨hextt, hroomt⟩ := extends_resize hext.wellFormed (by rwa [hext.objects] : x < s.objects)
      (n + 1)
    have hnumbert := number_resize s x (n + 1)
    set t := s.resize x (n + 1) with ht
    rw [capacity] at hroomt
    have hsplitt := t.arrays.number_add (a := t.item x) (i := 0) (m := i / 32) (n := k + 1)
      (by omega)
    rw [← hk, hnumbert, hDs, Nat.zero_add] at hsplitt
    have hroom' : i / 32 + (k + 1) ≤ (t.arrays (t.item x)).length := by omega
    obtain ⟨c, f, hadd, hval, hfoot⟩ := SpecialArithmetic.add1_run (fun _ => rfl)
      (rfl : ((k + 1 : ℕ) : ℤ) = (k + 1 : ℕ)) hroom' hroom' (bitMask i)
    obtain ⟨g, hput, -, hfoot'⟩ := LimbHeap.run_put (h := f) (a := t.item x) (i := n)
      (by rw [hfoot.length]; omega) c
    refine ⟨t, g, c.toNat, ?_, hext.trans hextt, hroomt,
      hfoot.join hfoot' (by omega) (by omega), ?_⟩
    · simp only [bitComplement, ← hs, if_neg hcount, complementNegative, ← hn, hlimb, hloop,
        Option.bind_eq_bind, Option.bind_some, if_pos ((and_bitMask_ne_zero _ _).mpr (hbit ▸ hset)),
        ← ht, hdiff, hadd, hput]
      rfl
    · rw [LimbHeap.number_apart hfoot' (Apart.symm (Apart.of_le (by omega))), hk,
        f.number_add (by rw [hfoot.length]; omega), Nat.zero_add,
        LimbHeap.number_apart hfoot (Apart.symm (Apart.of_le (by omega))), hsplitt,
        ← pow_mul_bitMask i, pow_add (2 ^ 32) (i / 32)]
      linear_combination (2 ^ 32) ^ (i / 32) * hval
  · intro hclear
    have hpos : 0 < D := by
      refine Nat.pos_of_ne_zero fun h0 => ?_
      have hmod := number_mod s.arrays (show (m.count x).natAbs ≤ n by omega) hroom
      rw [hDs, h0, Nat.zero_mod, hnumber] at hmod
      exact (hnx.magnitude_pos hneg.ne).ne' hmod
    have hpow : 2 ^ i ≤ D := by
      have hpred : -(D : ℤ) = Int.negSucc (D - 1) := by omega
      have hnot : (!(D - 1).testBit i) = false := by rwa [hpred] at hclear
      have hle := Nat.ge_two_pow_of_testBit (Bool.not_inj (hnot.trans Bool.not_true.symm))
      omega
    have hle : (bitMask i).toNat ≤ s.arrays.number (s.item x) (i / 32) (k + 1) := by
      by_contra hlt
      have hlow : s.arrays.number (s.item x) 0 (i / 32) < (2 ^ 32) ^ (i / 32) :=
        s.arrays.number_lt (by omega)
      have hmul := Nat.mul_le_mul_left ((2 ^ 32) ^ (i / 32)) (Nat.succ_le_of_lt (not_le.mp hlt))
      rw [pow_mul_bitMask, Nat.mul_succ] at hmul
      omega
    have hroom' : i / 32 + (k + 1) ≤ (s.arrays (s.item x)).length := by omega
    have hsub := SpecialArithmetic.sub1_eq (fun _ => rfl) (Nat.succ_pos k) hroom' hroom' hle
    have hsub' := SpecialArithmetic.sub1_more (show k + 1 ≤ n + i / 32 by omega) hsub
    obtain ⟨hval, hfoot⟩ := LimbHeap.run_store (h := s.arrays) (a := s.item x) (i := i / 32)
      (n := k + 1) (by omega)
      (s.arrays.number (s.item x) (i / 32) (k + 1) - (bitMask i).toNat)
    set g := s.arrays.store (s.item x) (i / 32)
      (ofNat 32 (k + 1) (s.arrays.number (s.item x) (i / 32) (k + 1) - (bitMask i).toNat)) with hg
    have hlt : s.arrays.number (s.item x) (i / 32) (k + 1) < (2 ^ 32) ^ (k + 1) :=
      s.arrays.number_lt (by omega)
    rw [Nat.mod_eq_of_lt (by omega)] at hval
    have hnum : LimbHeap.number g (s.item x) 0 n = D - 2 ^ i := by
      have hmul := Nat.mul_sub ((2 ^ 32) ^ (i / 32))
        (s.arrays.number (s.item x) (i / 32) (k + 1)) (bitMask i).toNat
      have hle' := Nat.mul_le_mul_left ((2 ^ 32) ^ (i / 32)) hle
      rw [pow_mul_bitMask] at hmul hle'
      rw [hk, LimbHeap.number_add _ (by rw [hfoot.length]; omega), Nat.zero_add, hval,
        LimbHeap.number_apart hfoot (Apart.symm (Apart.of_le (by omega))), hmul]
      omega
    obtain ⟨size, hsize, hout⟩ := (hext.keepsOthers x).outcome_normalize hx
      ((hfoot.within (k := 0) (l := n) (by omega)).keptBelow s.free)
      hroom hnum true
    have hvalue : Int.xor (-(D : ℤ)) (2 ^ i : ℕ) = -((D - 2 ^ i : ℕ) : ℤ) := by
      rw [TwosComplement.int_xor_two_pow_eq, hclear, if_neg Bool.false_ne_true,
        Nat.cast_sub hpow]
      push_cast
      ring
    rw [hvalue]
    refine ⟨s.conclude x g size true, ?_, hout⟩
    have hzero : negLimb s.arrays (s.item x) (i / 32) limb &&& bitMask i = 0 := by
      by_contra hne
      rw [(and_bitMask_ne_zero _ _).mp hne, hclear] at hbit
      exact absurd hbit (by decide)
    simp only [bitComplement, ← hs, if_neg hcount, complementNegative, ← hn, hlimb, hloop,
      Option.bind_eq_bind, Option.bind_some, ne_eq, hzero, not_true_eq_false, if_false, hsub',
      hsize]
    rfl

/-- **`bit_complement`** is right. -/
lemma bitComplement_outcome (hm : m.WellFormed) (hx : x < m.objects) (hnx : m.Normalised x)
    (h : m.ComplementRight x i) :
    ∃ m', m.bitComplement x i = some m' ∧
      m.Outcome m' x (Int.xor (m.value x) (2 ^ i : ℕ)) := by
  rw [ComplementRight, ← not_lt, hnx.value_neg_iff, not_lt, natAbs_value] at h
  rcases h with ⟨hpos, hzero⟩ | ⟨hneg, hi, hroom⟩
  · obtain ⟨m', hrun, hout⟩ := bitComplement_nonneg (i := i) hm hx hnx hpos
    have hsame := (number_behind_iff (h := m.arrays) (a := m.item x)
      (Nat.le_max_left (m.count x).natAbs (i / 32 + 1))).mpr fun j hj hjn => hzero j hj (by omega)
    rw [hsame] at hout
    rw [value_of_count_nonneg hpos]
    exact ⟨m', hrun, hout⟩
  · have hmax : (m.count x).natAbs = max (m.count x).natAbs (i / 32 + 1) := by omega
    obtain ⟨hset, hclear⟩ := bitComplement_negative (i := i) hm hx hnx hneg hmax rfl
    rw [value_of_count_neg hneg] at hroom ⊢
    by_cases hbit : (-(m.magnitude x : ℤ)).testBit i = true
    · obtain ⟨t, g, c, hrun, hext, hcap, hfoot, hval⟩ := hset hbit
      have hlt := hroom hbit
      rw [← magnitude] at hval
      have hc : c = 0 := by
        by_contra hne
        have hmul := Nat.mul_le_mul_left ((2 ^ 32) ^ (m.count x).natAbs)
          (Nat.pos_of_ne_zero hne)
        omega
      rw [hc, Nat.mul_zero, Nat.add_zero] at hval
      have hout := outcome_of_count (hext.keepsOthers x) hx
        ((hfoot.within (k := 0) (l := (m.count x).natAbs + 1) (by omega)).keptBelow t.free)
        (by rw [capacity]; omega) hval fun hne =>
          ((normalised_iff.mp hnx).2 hne).trans (Nat.le_add_right _ _)
      rw [if_pos hneg] at hout
      refine ⟨_, hrun, ?_⟩
      rw [TwosComplement.int_xor_two_pow_eq, if_pos hbit]
      push_cast at hout
      rwa [neg_add'] at hout
    · exact hclear (Bool.eq_false_iff.mpr hbit)

/-- **`bit_complement`** is wrong for all other numbers.

**Proof sketch.** Of a number that is not negative, limbs are counted in that had no meaning. For a
negative number with the limb, the carry is lost. Without the limb, the number stays as it was, or
the bit is set and should be cleared. -/
lemma bitComplement_wrong (hm : m.WellFormed) (hx : x < m.objects) (hnx : m.Normalised x)
    (h : ¬ m.ComplementRight x i) (hrun : m.bitComplement x i = some m') :
    m'.value x ≠ Int.xor (m.value x) (2 ^ i : ℕ) := by
  rw [ComplementRight, ← not_lt, hnx.value_neg_iff, not_lt, natAbs_value, not_or] at h
  obtain ⟨hnonneg, hnegative⟩ := h
  rcases lt_or_ge (m.count x) 0 with hneg | hpos
  · obtain ⟨hset, hclear⟩ := bitComplement_negative (i := i) hm hx hnx hneg rfl rfl
    set n := max (m.count x).natAbs (i / 32 + 1) with hn
    rw [value_of_count_neg hneg] at hnegative ⊢
    by_cases hbit : (-(m.arrays.number (m.item x) 0 n : ℤ)).testBit i = true
    · obtain ⟨t, g, c, hrun', hext, hcap, hfoot, hval⟩ := hset hbit
      rw [hrun', Option.some.injEq] at hrun
      have hneg' : ({ t with arrays := g } : IntegerXMemory).count x < 0 := by
        show t.count x < 0
        rwa [hext.count]
      have hcount : ({ t with arrays := g } : IntegerXMemory).count x = m.count x := by
        rw [← hext.count]
      rw [← hrun, value_of_count_neg hneg', magnitude, hcount]
      show -(g.number (t.item x) 0 (m.count x).natAbs : ℤ) ≠ _
      by_cases hi : i / 32 < (m.count x).natAbs
      · have hnc : n = (m.count x).natAbs := by omega
        rw [hnc] at hbit hval
        rw [← magnitude] at hbit hval
        have hge : (2 ^ 32) ^ (m.count x).natAbs ≤ m.magnitude x + 2 ^ i := by
          by_contra hlt
          exact hnegative ⟨hneg, hi, fun _ => not_le.mp hlt⟩
        have hlt : g.number (t.item x) 0 (m.count x).natAbs < (2 ^ 32) ^ (m.count x).natAbs :=
          g.number_lt (by rw [hfoot.length]; omega)
        rw [TwosComplement.int_xor_two_pow_eq, if_pos hbit]
        intro heq
        have hsum : g.number (t.item x) 0 (m.count x).natAbs = m.magnitude x + 2 ^ i := by
          zify
          linarith
        omega
      · -- the limbs that are counted were not written
        rw [LimbHeap.number_apart hfoot (Apart.symm (Apart.of_le (by omega))),
          hext.number hx hnx.count_le, ← magnitude]
        intro heq
        have hflip := TwosComplement.testBit_xor_two_pow (-(m.magnitude x : ℤ)) i i
        rw [← heq, if_pos rfl] at hflip
        exact (Bool.eq_not_self _).mp hflip
    · obtain ⟨m'', hrun', hout⟩ := hclear (Bool.eq_false_iff.mpr hbit)
      rw [hrun', Option.some.injEq] at hrun
      rw [← hrun, hout.value]
      intro heq
      by_cases hi : i / 32 < (m.count x).natAbs
      · have hnc : n = (m.count x).natAbs := by omega
        rw [hnc, ← magnitude] at hbit
        exact hnegative ⟨hneg, hi, fun hbit' => absurd hbit' hbit⟩
      · have hflip := TwosComplement.testBit_xor_two_pow (-(m.magnitude x : ℤ)) i i
        have hbound : m.magnitude x < 2 ^ i := by
          refine hnx.magnitude_lt.trans_le ?_
          rw [← Nat.pow_mul]
          exact Nat.pow_le_pow_right (by decide) (by omega)
        rw [← heq, TwosComplement.testBit_xor_two_pow, if_pos rfl, if_pos rfl,
          Bool.eq_false_iff.mpr hbit, TwosComplement.testBit_neg (by
            rw [Nat.mod_eq_of_lt hbound]
            exact (hnx.magnitude_pos hneg.ne).ne'), Nat.testBit_eq_false_of_lt hbound] at hflip
        exact absurd hflip (by decide)
  · obtain ⟨m'', hrun', hout⟩ := bitComplement_nonneg (i := i) hm hx hnx hpos
    rw [hrun', Option.some.injEq] at hrun
    rw [← hrun, hout.value, value_of_count_nonneg hpos]
    intro heq
    have hxor := congrArg (· ^^^ 2 ^ i) (Int.ofNat.inj heq)
    simp only [Nat.xor_assoc, Nat.xor_self, Nat.xor_zero] at hxor
    refine hnonneg ⟨hpos, fun j hj hjn => ?_⟩
    exact (number_behind_iff (Nat.le_max_left _ (i / 32 + 1))).mp hxor j hj (by omega)

end Complement

/-! ## The bits of the results -/

section Bits

variable {m : IntegerXMemory} {x i : ℕ}

/-- A copy of an object is right for the same bits. -/
lemma copy_right_bit (hm : m.WellFormed) (hnx : m.Normalised x) (i : ℕ) :
    ((m.identity x).SetRight m.objects i ↔ m.SetRight x i) ∧
      ((m.identity x).ClearRight m.objects i ↔ m.ClearRight x i) ∧
      ((m.identity x).ComplementRight m.objects i ↔ m.ComplementRight x i) := by
  have hvalue := (created_identity hm hnx).value
  have hcount : (m.identity x).count m.objects = m.count x := newObject_count _ _
  have hitem (j : ℕ) : (m.identity x).arrays.item ((m.identity x).item m.objects) j =
      m.arrays.item (m.item x) j := by
    rw [Arrays.item, identity, newObject_item, Arrays.item]
  simp only [SetRight, ClearRight, ComplementRight, hvalue, hcount, hitem, and_self]

/-- The bits that `bit_test` reads of a new object are those of its number. -/
lemma created_bitTest_iff {run : Option IntegerXMemory} (hnx : m.Normalised x) (i : ℕ)
    {bit : Option Bool} {b : Bool} (hbit : bit = some b) :
    (∃ (m' : IntegerXMemory) (v : ℤ), run = some m' ∧ m.Created m' v ∧
      ∀ j, m'.bitTest m.objects j = if j = i then bit else m.bitTest x j) ↔
    ∃ (m' : IntegerXMemory) (v : ℤ), run = some m' ∧ m.Created m' v ∧
      ∀ j, v.testBit j = if j = i then b else (m.value x).testBit j := by
  refine exists_congr fun m' => exists_congr fun v => and_congr_right fun _ =>
    and_congr_right fun hcreated => forall_congr' fun j => ?_
  rw [hcreated.normalised.bitTest_eq, hcreated.value, hnx.bitTest_eq, hbit, ← apply_ite,
    Option.some.injEq]

/-- **Updates of one bit.** For a normalised object `x` with any sign and every index `i`, the
routine `set_bit_value` creates a normalised object that has bit `i` set and all other bits of `x`
if and only if `x` and `i` are right for `bit_set`; it creates one with the bit cleared if and only
if they are right for `bit_clear`; and `bit_complement_value` creates one with the bit changed if
and only if they are right for `bit_complement`. -/
theorem single_bit_updates (m : IntegerXMemory) (hm : m.WellFormed) (x : ℕ) (hnx : m.Normalised x)
    (i : ℕ) :
    ((∃ (m' : IntegerXMemory) (v : ℤ), m.setBitValue true x i = some m' ∧ m.Created m' v ∧
      ∀ j, m'.bitTest m.objects j = if j = i then some true else m.bitTest x j) ↔
        m.SetRight x i) ∧
    ((∃ (m' : IntegerXMemory) (v : ℤ), m.setBitValue false x i = some m' ∧ m.Created m' v ∧
      ∀ j, m'.bitTest m.objects j = if j = i then some false else m.bitTest x j) ↔
        m.ClearRight x i) ∧
    ((∃ (m' : IntegerXMemory) (v : ℤ), m.bitComplementValue x i = some m' ∧ m.Created m' v ∧
      ∀ j, m'.bitTest m.objects j = if j = i then (m.bitTest x i).map (!·) else m.bitTest x j) ↔
        m.ComplementRight x i) := by
  have hcopy := created_identity hm hnx
  obtain ⟨hset, hclear, hcomplement⟩ := copy_right_bit hm hnx i
  have hobj := hcopy.objects
  have hx : m.objects < (m.identity x).objects := by omega
  have hvalue := hcopy.value
  have hflip (j : ℕ) : (Int.xor (m.value x) (2 ^ i : ℕ)).testBit j =
      if j = i then !(m.value x).testBit i else (m.value x).testBit j :=
    TwosComplement.testBit_xor_two_pow _ _ _
  have hbit : (m.bitTest x i).map (!·) = some (!(m.value x).testBit i) := by
    rw [hnx.bitTest_eq, Option.map_some]
  rw [created_bitTest_iff hnx i rfl, created_bitTest_iff hnx i rfl, created_bitTest_iff hnx i hbit,
    ← hset, ← hclear, ← hcomplement]
  refine ⟨created_bits_iff hcopy (TwosComplement.testBit_withBit _ _ _) (fun h => ?_)
      fun h m' hrun => ?_,
    created_bits_iff hcopy (TwosComplement.testBit_withBit _ _ _) (fun h => ?_)
      fun h m' hrun => ?_,
    created_bits_iff hcopy hflip (fun h => ?_) fun h m' hrun => ?_⟩
  · rw [← hvalue]
    exact bitSet_outcome hcopy.wellFormed hx hcopy.normalised h
  · rw [← hvalue]
    exact bitSet_wrong hcopy.wellFormed hx hcopy.normalised h hrun
  · rw [← hvalue]
    exact bitClear_outcome hcopy.wellFormed hx hcopy.normalised h
  · rw [← hvalue]
    exact bitClear_wrong hcopy.normalised h hrun
  · rw [← hvalue]
    exact bitComplement_outcome hcopy.wellFormed hx hcopy.normalised h
  · rw [← hvalue]
    exact bitComplement_wrong hcopy.wellFormed hx hcopy.normalised h hrun

/-- Bit `1` of the number `-5`. -/
theorem single_bit_updates_five :
    ((∃ (m' : IntegerXMemory) (v : ℤ), (single [5] (-1)).setBitValue true 0 1 = some m' ∧
      (single [5] (-1)).Created m' v ∧ ∀ j, m'.bitTest (single [5] (-1)).objects j =
        if j = 1 then some true else (single [5] (-1)).bitTest 0 j) ↔
          (single [5] (-1)).SetRight 0 1) ∧
    ((∃ (m' : IntegerXMemory) (v : ℤ), (single [5] (-1)).setBitValue false 0 1 = some m' ∧
      (single [5] (-1)).Created m' v ∧ ∀ j, m'.bitTest (single [5] (-1)).objects j =
        if j = 1 then some false else (single [5] (-1)).bitTest 0 j) ↔
          (single [5] (-1)).ClearRight 0 1) ∧
    ((∃ (m' : IntegerXMemory) (v : ℤ), (single [5] (-1)).bitComplementValue 0 1 = some m' ∧
      (single [5] (-1)).Created m' v ∧ ∀ j, m'.bitTest (single [5] (-1)).objects j =
        if j = 1 then ((single [5] (-1)).bitTest 0 1).map (!·)
        else (single [5] (-1)).bitTest 0 j) ↔ (single [5] (-1)).ComplementRight 0 1) :=
  single_bit_updates (single [5] (-1)) ⟨by decide, by decide⟩ 0 ⟨by decide, by decide⟩ 1

/-- Setting and clearing bit `0` of `-2`, and changing bit `32` of the same number. -/
theorem not_single_bit_updates :
    ¬ ((∃ (m' : IntegerXMemory) (v : ℤ), (single [2] (-1)).setBitValue true 0 0 = some m' ∧
      (single [2] (-1)).Created m' v ∧ ∀ j, m'.bitTest (single [2] (-1)).objects j =
        if j = 0 then some true else (single [2] (-1)).bitTest 0 j) ∨
    (∃ (m' : IntegerXMemory) (v : ℤ), (single [2] (-1)).setBitValue false 0 0 = some m' ∧
      (single [2] (-1)).Created m' v ∧ ∀ j, m'.bitTest (single [2] (-1)).objects j =
        if j = 0 then some false else (single [2] (-1)).bitTest 0 j) ∨
    ∃ (m' : IntegerXMemory) (v : ℤ), (single [2] (-1)).bitComplementValue 0 32 = some m' ∧
      (single [2] (-1)).Created m' v ∧ ∀ j, m'.bitTest (single [2] (-1)).objects j =
        if j = 32 then ((single [2] (-1)).bitTest 0 32).map (!·)
        else (single [2] (-1)).bitTest 0 j) := by
  -- the bit with index `j` that is read of the result
  have hread {run : Option IntegerXMemory} (bit : ℕ → Option Bool) (j : ℕ)
      (hne : run.bind (·.bitTest 1 j) ≠ bit j) :
      ¬ ∃ (m' : IntegerXMemory) (v : ℤ), run = some m' ∧ (single [2] (-1)).Created m' v ∧
        ∀ j, m'.bitTest 1 j = bit j := by
    rintro ⟨m', v, hrun, -, hbits⟩
    rw [hrun, Option.bind_some] at hne
    exact hne (hbits j)
  rintro (h | h | h)
  · exact hread (fun j => if j = 0 then some true else (single [2] (-1)).bitTest 0 j) 1
      (by decide) h
  · exact hread (fun j => if j = 0 then some false else (single [2] (-1)).bitTest 0 j) 0
      (by decide) h
  · exact hread (fun j => if j = 32 then ((single [2] (-1)).bitTest 0 32).map (!·)
      else (single [2] (-1)).bitTest 0 j) 32 (by decide) h

end Bits

end IntegerXMemory

end EiffelWeb
