import EiffelWeb.Crypto.Limb.IntegerXLogic

set_option relaxedAutoImplicit false
set_option autoImplicit false

/-!
# Shifts of objects

The routines `mul_2exp` of `INTEGER_X_ARITHMETIC` and `tdiv_q_2exp` of `INTEGER_X_DIVISION`, behind
`bit_shift_left` and `bit_shift_right`. A shift by whole limbs copies them; the other bits are
shifted by `lshift` and `rshift`. The highest limb of the result may be one more, or one less.

## Main definitions

* `IntegerXMemory.tdivQ2exp`
* `IntegerXMemory.bitShiftLeftValue`, `IntegerXMemory.bitShiftRightValue`

## Main results

* `IntegerXMemory.mul2exp_outcome` — the product with a power of two.
* `IntegerXMemory.tdivQ2exp_outcome` — the quotient by a power of two, towards zero.
* `IntegerXMemory.shift_left_right` — both, and that the one undoes the other.
-/

namespace EiffelWeb

open Limbs Arrays

namespace IntegerXMemory

/-- The limbs of `tdiv_q_2exp`, and the number of limbs that the quotient needs. -/
def tdivQ2expLimbs (wp up limbCount wsize count : ℕ) (h : LimbHeap) : Option (ℕ × LimbHeap) :=
  if count ≠ 0 then do
    let (_, h) ← SpecialLogic.rshift wp 0 up limbCount wsize count h
    let top ← h.item wp (wsize - 1)
    return (wsize - (if top = 0 then 1 else 0), h)
  else do
    let h ← h.copyData wp up limbCount 0 wsize
    return (wsize, h)

/-- `tdiv_q_2exp (target, op, count)`. -/
def tdivQ2exp (target op count : ℕ) (m : IntegerXMemory) : Option IntegerXMemory :=
  let usize := m.count op
  let limbCount := count / 32
  if usize.natAbs ≤ limbCount then some { m with count := Function.update m.count target 0 }
  else do
    let wsize := usize.natAbs - limbCount
    let m := m.resize target wsize
    let (wsize, h) ← tdivQ2expLimbs (m.item target) (m.item op) limbCount wsize (count % 32)
      m.arrays
    return { m with
      arrays := h
      count := Function.update m.count target (if 0 ≤ usize then (wsize : ℤ) else -wsize) }

/-- `bit_shift_left_value (bits)`. The result is the new object. -/
def bitShiftLeftValue (x bits : ℕ) (m : IntegerXMemory) : Option IntegerXMemory :=
  (m.identity x).mul2exp m.objects m.objects bits

/-- `bit_shift_right_value (bits)`. The result is the new object. -/
def bitShiftRightValue (x bits : ℕ) (m : IntegerXMemory) : Option IntegerXMemory :=
  (m.identity x).tdivQ2exp m.objects m.objects bits

variable {m : IntegerXMemory} {target op : ℕ}

/-- The number of an object whose count has the sign of another one. -/
lemma sign_like {u : ℤ} {k v : ℕ} (hk : k = 0 → v = 0) (hu : u ≠ 0) :
    (if 0 ≤ u then (k : ℤ) else -k).sign * (v : ℤ) = u.sign * v := by
  rcases Nat.eq_zero_or_pos k with h0 | hpos
  · rw [hk h0, Int.natCast_zero, mul_zero, mul_zero]
  · rcases lt_or_gt_of_ne hu with hneg | hpos'
    · rw [if_neg (not_le.mpr hneg), Int.sign_neg, Int.sign_natCast_of_ne_zero hpos.ne',
        Int.sign_eq_neg_one_of_neg hneg]
    · rw [if_pos hpos'.le, Int.sign_natCast_of_ne_zero hpos.ne', Int.sign_eq_one_of_pos hpos']

/-- **`mul_2exp`**: the product with a power of two, whichever objects are the same.

**Proof sketch.** The shifted limbs stand behind the zeros for the whole limbs. They are as many as
the limbs of the operand, which is normalised, or one more if the carry of `lshift` is not zero. -/
lemma mul2exp_outcome (hm : m.WellFormed) (ht : target < m.objects) (ho : op < m.objects)
    (hn : m.Normalised op) (count : ℕ) :
    ∃ m', m.mul2exp target op count = some m' ∧
      m.Outcome m' target (m.value op * 2 ^ count) := by
  by_cases hzero : m.count op = 0
  · have hval : m.value op = 0 := by rw [IntegerXMemory.value, hzero, Int.sign_zero, zero_mul]
    rw [hval, zero_mul]
    exact ⟨_, if_pos hzero, outcome_zero hm ht⟩
  · set n := (m.count op).natAbs with hnabs
    set l := count / 32 with hl
    obtain ⟨hext, hroom⟩ := extends_resize hm ht (n + l + 1)
    have hmag := hext.number ho hn.count_le
    have hlow := (normalised_iff.mp hn).2 hzero
    have hroom₁ := hn.count_le.trans (hext.capacity op ho)
    rw [← hnabs] at hmag hlow hroom₁
    set r := m.resize target (n + l + 1) with hr
    obtain ⟨e, g, hlimbs, he, hnum, hcarry, hfoot⟩ := mul2expLimbs_number
      (Nat.mod_lt count (show 0 < 32 by decide)) (show 1 ≤ n by omega) hroom hroom₁
    rw [hmag, ← magnitude] at hnum hcarry
    -- the zeros below the shifted limbs
    have hroom₂ : 0 + (List.replicate l (0 : Natural32)).length ≤ (g (r.item target)).length := by
      have hcap : n + l + 1 ≤ (r.arrays (r.item target)).length := hroom
      rw [List.length_replicate, hfoot.length]
      omega
    have hfoot' := sameOutside_store hroom₂
    have hread := segment_store_self hroom₂
    set h : LimbHeap := g.store (r.item target) 0 (List.replicate l 0) with hh
    rw [List.length_replicate] at hfoot' hread hroom₂
    have hpow : 2 ^ count = (2 ^ 32) ^ l * 2 ^ (count % 32) := by
      rw [← Nat.pow_mul, ← pow_add, hl, Nat.div_add_mod]
    have hwsize : n + l + e = l + (n + e) := by omega
    have hnumber : h.number (r.item target) 0 (n + l + e) = m.magnitude op * 2 ^ count := by
      have hlow' : h.number (r.item target) 0 l = 0 := by
        rw [LimbHeap.number, hread, value_replicate_zero]
      rw [hwsize, LimbHeap.number_add _ (by rw [hfoot'.length]; exact hroom₂), hlow', Nat.zero_add,
        Nat.zero_add, LimbHeap.number_apart hfoot' (Apart.of_le (by omega)), hnum, hpow]
      ring
    have hneed : (2 ^ 32) ^ (n + l + e - 1) ≤ m.magnitude op * 2 ^ count := by
      rcases Nat.le_one_iff_eq_zero_or_eq_one.mp he with rfl | rfl
      · have hsplit : n + l + 0 - 1 = (n - 1) + l := by omega
        calc (2 ^ 32) ^ (n + l + 0 - 1) = (2 ^ 32) ^ (n - 1) * (2 ^ 32) ^ l := by
              rw [hsplit, pow_add]
          _ ≤ m.magnitude op * (2 ^ 32) ^ l := Nat.mul_le_mul_right _ hlow
          _ ≤ m.magnitude op * 2 ^ count := by
              rw [hpow]
              exact Nat.mul_le_mul_left _ (Nat.le_mul_of_pos_right _ (Nat.two_pow_pos _))
      · calc (2 ^ 32) ^ (n + l + 1 - 1) = (2 ^ 32) ^ l * (2 ^ 32) ^ n := by
              rw [Nat.add_sub_cancel, pow_add, Nat.mul_comm]
          _ ≤ (2 ^ 32) ^ l * (m.magnitude op * 2 ^ (count % 32)) :=
              Nat.mul_le_mul_left _ (hcarry rfl)
          _ = m.magnitude op * 2 ^ count := by
              rw [hpow]
              ring
    set c : ℤ := if 0 ≤ m.count op then ((n + l + e : ℕ) : ℤ) else -((n + l + e : ℕ) : ℤ) with hc
    have habs : c.natAbs = n + l + e := by
      rw [hc]
      split <;> omega
    have hout := (hext.keepsOthers target).outcome (c := c) ht
      ((hfoot.join hfoot' (show 0 ≤ l ∧ l + (n + e) ≤ 0 + (n + l + e) by omega)
        (show 0 ≤ 0 ∧ 0 + l ≤ 0 + (n + l + e) by omega)).keptBelow r.free)
      (by rw [habs]; omega) (by rw [habs, hnumber]) (fun _ => by rw [habs]; exact hneed)
    have hval : m.value op * 2 ^ count = (m.count op).sign * (m.magnitude op * 2 ^ count : ℕ) := by
      rw [IntegerXMemory.value, mul_assoc, Nat.cast_mul, Nat.cast_pow]
      rfl
    rw [sign_like (by omega) hzero, ← hval] at hout
    refine ⟨_, ?_, hout⟩
    simp only [mul2exp, if_neg hzero, ← hnabs, ← hl, ← hr, hlimbs, ← hh, Option.bind_eq_bind,
      Option.bind_some]
    rfl

/-- **The limbs of `tdiv_q_2exp`**: the quotient by a power of two, without a high zero limb. -/
lemma tdivQ2expLimbs_number {wp up w l c v : ℕ} {h : LimbHeap} (hc : c < 32) (hw : 1 ≤ w)
    (ht : w ≤ (h wp).length) (h₁ : l + w ≤ (h up).length) (hv : h.number up l w = v)
    (hlow : (2 ^ 32) ^ (w - 1) ≤ v) :
    ∃ (r : ℕ) (h' : LimbHeap), tdivQ2expLimbs wp up l w c h = some (r, h') ∧ r ≤ w ∧
      h'.number wp 0 r = v / 2 ^ c ∧ (r ≠ 0 → (2 ^ 32) ^ (r - 1) ≤ v / 2 ^ c) ∧
      SameOutside (region wp 0 w) h h' := by
  by_cases hzero : c = 0
  · obtain ⟨h', hcopy, hnum, hfoot⟩ := LimbHeap.run_copyData (h := h) (t := wp) (a := up) (i := l)
      (j := 0) (n := w) h₁ (by omega)
    rw [hzero, pow_zero, Nat.div_one, ← hv]
    refine ⟨w, h', ?_, le_rfl, hnum, fun _ => hv ▸ hlow, hfoot⟩
    simp only [tdivQ2expLimbs, ne_eq, not_true_eq_false, if_false, hcopy, Option.bind_eq_bind,
      Option.bind_some]
    rfl
  · obtain ⟨carry, h', hshift, hnum, -, hfoot⟩ := @SpecialLogic.rshift_run wp 0 up l c
      h hc.le w hw ht h₁
    rw [hv] at hnum
    obtain ⟨n, rfl⟩ : ∃ n, w = n + 1 := ⟨w - 1, by omega⟩
    obtain ⟨top, htop, hsplit⟩ := h'.exists_last (a := wp) (i := 0) (n := n)
      (by rw [hfoot.length]; omega)
    rw [Nat.zero_add] at htop
    have hrun : tdivQ2expLimbs wp up l (n + 1) c h =
        some (n + 1 - (if top = 0 then 1 else 0), h') := by
      simp only [tdivQ2expLimbs, ne_eq, hzero, not_false_eq_true, if_true, hshift,
        Nat.add_sub_cancel, htop, Option.bind_eq_bind, Option.bind_some]
      rfl
    by_cases htop0 : top = 0
    · rw [if_pos htop0, Nat.add_sub_cancel] at hrun
      rw [htop0, SpecialArithmetic.toNat_zero_limb, Nat.mul_zero, Nat.add_zero, hnum] at hsplit
      refine ⟨n, h', hrun, Nat.le_succ n, hsplit.symm, fun hn => ?_, hfoot⟩
      -- less than one limb was shifted out
      obtain ⟨k, rfl⟩ := Nat.exists_eq_succ_of_ne_zero hn
      rw [Nat.le_div_iff_mul_le (Nat.two_pow_pos c)]
      calc (2 ^ 32) ^ (k + 1 - 1) * 2 ^ c ≤ (2 ^ 32) ^ k * 2 ^ 32 :=
            Nat.mul_le_mul_left _ (Nat.pow_le_pow_right (by decide) hc.le)
        _ = (2 ^ 32) ^ (k + 1) := (pow_succ (2 ^ 32) k).symm
        _ ≤ v := hlow
    · rw [if_neg htop0, Nat.sub_zero] at hrun
      refine ⟨n + 1, h', hrun, le_rfl, hnum, fun _ => ?_, hfoot⟩
      calc (2 ^ 32) ^ n ≤ (2 ^ 32) ^ n * top.toNat := pow_le_mul_toNat htop0 n
        _ ≤ v / 2 ^ c := by
            rw [← hnum, hsplit]
            exact Nat.le_add_left _ _

/-- A quotient towards zero is the one of the absolute values with the sign. -/
lemma sign_mul_tdiv (u : ℤ) (v d : ℕ) :
    (u.sign * (v : ℤ)).tdiv d = u.sign * (v / d : ℕ) := by
  rcases lt_trichotomy u 0 with hneg | rfl | hpos
  · rw [Int.sign_eq_neg_one_of_neg hneg, neg_one_mul, neg_one_mul, Int.neg_tdiv,
      Int.ofNat_tdiv]
  · rw [Int.sign_zero, zero_mul, zero_mul, Int.zero_tdiv]
  · rw [Int.sign_eq_one_of_pos hpos, one_mul, one_mul, Int.ofNat_tdiv]

/-- **`tdiv_q_2exp`**: the quotient by a power of two, towards zero, whichever objects are the
same. -/
lemma tdivQ2exp_outcome (hm : m.WellFormed) (ht : target < m.objects) (ho : op < m.objects)
    (hn : m.Normalised op) (count : ℕ) :
    ∃ m', m.tdivQ2exp target op count = some m' ∧
      m.Outcome m' target ((m.value op).tdiv (2 ^ count)) := by
  have hval : (m.value op).tdiv (2 ^ count) =
      (m.count op).sign * (m.magnitude op / 2 ^ count : ℕ) := by
    rw [← sign_mul_tdiv, IntegerXMemory.value, Nat.cast_pow]
    rfl
  have hpow : 2 ^ count = (2 ^ 32) ^ (count / 32) * 2 ^ (count % 32) := by
    rw [← Nat.pow_mul, ← pow_add, Nat.div_add_mod]
  rw [hval, hpow, ← Nat.div_div_eq_div_mul]
  set n := (m.count op).natAbs with hnabs
  set l := count / 32 with hl
  have hroom : 0 + n ≤ (m.arrays (m.item op)).length := by
    rw [Nat.zero_add]
    exact hn.count_le
  by_cases hle : n ≤ l
  · have hlt : m.magnitude op < (2 ^ 32) ^ l :=
      Nat.lt_of_lt_of_le (m.arrays.number_lt hroom) (Nat.pow_le_pow_right (by decide) hle)
    rw [Nat.div_eq_of_lt hlt, Nat.zero_div, Int.natCast_zero, mul_zero]
    exact ⟨_, if_pos hle, outcome_zero hm ht⟩
  · have hne : m.count op ≠ 0 := by omega
    obtain ⟨w, hw⟩ := Nat.exists_eq_add_of_le (not_le.mp hle).le
    obtain ⟨hext, hcap⟩ := extends_resize hm ht w
    set r := m.resize target w with hr
    -- the limbs from index `l` on stand for the quotient by whole limbs
    have hsplit := m.arrays.number_add (a := m.item op) (i := 0) (m := l) (n := w) (by omega)
    have hupper : m.magnitude op / (2 ^ 32) ^ l = r.arrays.number (r.item op) l w := by
      have hsplit' := r.arrays.number_add (a := r.item op) (i := 0) (m := l) (n := w) (by
        have := hext.capacity op ho
        rw [capacity, capacity] at this
        omega)
      have hsame := hext.number ho hn.count_le
      rw [← hnabs, hw] at hsame
      rw [magnitude, ← hnabs, hw, ← hsame, hsplit', Nat.zero_add,
        Nat.add_mul_div_left _ _ (by positivity), Nat.div_eq_of_lt (LimbHeap.number_lt _ ?_),
        Nat.zero_add]
      have := hext.capacity op ho
      rw [capacity, capacity] at this
      omega
    have hlow : (2 ^ 32) ^ (w - 1) ≤ m.magnitude op / (2 ^ 32) ^ l := by
      rw [Nat.le_div_iff_mul_le (by positivity), ← pow_add]
      have hexp : w - 1 + l = n - 1 := by omega
      rw [hexp]
      exact (normalised_iff.mp hn).2 hne
    obtain ⟨k, h', hlimbs, hk, hnum, hneed, hfoot⟩ := tdivQ2expLimbs_number
      (Nat.mod_lt count (show 0 < 32 by decide)) (show 1 ≤ w by omega) hcap
      (show l + w ≤ (r.arrays (r.item op)).length by
        have := hext.capacity op ho
        rw [capacity, capacity] at this
        omega) hupper.symm hlow
    set c : ℤ := if 0 ≤ m.count op then (k : ℤ) else -k with hc
    have habs : c.natAbs = k := by
      rw [hc]
      split <;> omega
    have hout := (hext.keepsOthers target).outcome (c := c) ht (hfoot.keptBelow r.free)
      (by rw [habs]; omega) (by rw [habs, hnum]) (fun _ => by rw [habs]; exact hneed (by omega))
    rw [sign_like (fun h0 => by rw [← hnum, h0, LimbHeap.number_zero]) hne] at hout
    refine ⟨_, ?_, hout⟩
    have hwsize : n - l = w := by omega
    simp only [tdivQ2exp, ← hnabs, ← hl, if_neg hle, hwsize, ← hr, hlimbs, Option.bind_eq_bind,
      Option.bind_some]
    rfl

/-- `bit_shift_left_value` and `bit_shift_right_value` create the shifted number. -/
lemma created_shift (hm : m.WellFormed) {x : ℕ} (hn : m.Normalised x) (k : ℕ) :
    (∃ m', m.bitShiftLeftValue x k = some m' ∧ m.Created m' (m.value x * 2 ^ k)) ∧
    ∃ m', m.bitShiftRightValue x k = some m' ∧ m.Created m' ((m.value x).tdiv (2 ^ k)) := by
  have hcopy := created_identity hm hn
  have hnew : m.objects < (m.identity x).objects := by
    rw [hcopy.objects]
    exact Nat.lt_succ_self _
  obtain ⟨m₁, hrun₁, hout₁⟩ := mul2exp_outcome hcopy.wellFormed hnew hnew hcopy.normalised k
  obtain ⟨m₂, hrun₂, hout₂⟩ := tdivQ2exp_outcome hcopy.wellFormed hnew hnew hcopy.normalised k
  rw [hcopy.value] at hout₁ hout₂
  exact ⟨⟨m₁, hrun₁, hcopy.outcome hout₁⟩, ⟨m₂, hrun₂, hcopy.outcome hout₂⟩⟩

/-- **Shifts.** For a normalised object `x` and every number `k` of bits, `bit_shift_left_value`
creates the normalised product with `2 ^ k` and `bit_shift_right_value` the normalised quotient by
`2 ^ k` towards zero; the second one gives back what the first one shifted. In the form with a
target, which may be `x`, the outcome is the same, and no other object is changed. -/
theorem shift_left_right (m : IntegerXMemory) (hm : m.WellFormed) (x : ℕ) (hx : x < m.objects)
    (hn : m.Normalised x) (k : ℕ) :
    (∃ m₁, m.bitShiftLeftValue x k = some m₁ ∧ m.Created m₁ (m.value x * 2 ^ k) ∧
      ∃ m₂, m₁.bitShiftRightValue m.objects k = some m₂ ∧ m₁.Created m₂ (m.value x)) ∧
    (∃ m', m.bitShiftRightValue x k = some m' ∧ m.Created m' ((m.value x).tdiv (2 ^ k))) ∧
    ∀ target < m.objects,
      (∃ m', m.mul2exp target x k = some m' ∧ m.Outcome m' target (m.value x * 2 ^ k)) ∧
      ∃ m', m.tdivQ2exp target x k = some m' ∧
        m.Outcome m' target ((m.value x).tdiv (2 ^ k)) := by
  obtain ⟨⟨m₁, hrun₁, hnew₁⟩, hright⟩ := created_shift hm hn k
  refine ⟨⟨m₁, hrun₁, hnew₁, ?_⟩, hright, fun target ht =>
    ⟨mul2exp_outcome hm ht hx hn k, tdivQ2exp_outcome hm ht hx hn k⟩⟩
  obtain ⟨m₂, hrun₂, hnew₂⟩ := (created_shift hnew₁.wellFormed hnew₁.normalised k).2
  rw [hnew₁.value, Int.mul_tdiv_cancel _ (by positivity)] at hnew₂
  exact ⟨m₂, hrun₂, hnew₂⟩

/-- The object `- 5 * 2 ^ 32` is shifted by 33 bits. -/
theorem shift_left_right_five :
    (∃ m₁, (single [0, 5] (-2)).bitShiftLeftValue 0 33 = some m₁ ∧
      (single [0, 5] (-2)).Created m₁ ((single [0, 5] (-2)).value 0 * 2 ^ 33) ∧
      ∃ m₂, m₁.bitShiftRightValue 1 33 = some m₂ ∧
        m₁.Created m₂ ((single [0, 5] (-2)).value 0)) ∧
    (∃ m', (single [0, 5] (-2)).bitShiftRightValue 0 33 = some m' ∧
      (single [0, 5] (-2)).Created m' (((single [0, 5] (-2)).value 0).tdiv (2 ^ 33))) ∧
    ∀ target < 1,
      (∃ m', (single [0, 5] (-2)).mul2exp target 0 33 = some m' ∧
        (single [0, 5] (-2)).Outcome m' target ((single [0, 5] (-2)).value 0 * 2 ^ 33)) ∧
      ∃ m', (single [0, 5] (-2)).tdivQ2exp target 0 33 = some m' ∧
        (single [0, 5] (-2)).Outcome m' target (((single [0, 5] (-2)).value 0).tdiv (2 ^ 33)) :=
  shift_left_right (single [0, 5] (-2)) ⟨by decide, by decide⟩ 0 (by decide)
    ⟨by decide, by decide⟩ 33

end IntegerXMemory

end EiffelWeb
