import EiffelWeb.Crypto.Limb.IntegerXObject

set_option relaxedAutoImplicit false
set_option autoImplicit false

/-!
# Sums and differences of `INTEGER_X` objects

The routines `add` and `sub` of `INTEGER_X_ARITHMETIC`. The two differ in the sign that the second
operand is taken with; `sub` has the loop of `normalize` in its own text. The operand with more
limbs comes first. The signs decide whether the limbs are added or subtracted, and for a difference
of operands with the same number of limbs a comparison decides which one is taken from the other.

## Main definitions

* `IntegerXMemory.addSized` — the common part, for operands with given signs.
* `IntegerXMemory.add`, `IntegerXMemory.sub`

## Main results

* `IntegerXMemory.addSized_outcome` — the common part, whichever objects are the same.
* `IntegerXMemory.add_sub_outcome` — the sum and the difference.
-/

namespace EiffelWeb

open Limbs Arrays

namespace IntegerXMemory

/-- The end of an addition or a subtraction: the limbs are those of the heap `h`, the sign of the
result is negative if `negative` holds. -/
def conclude (m : IntegerXMemory) (target : ℕ) (h : LimbHeap) (wsize : ℕ) (negative : Bool) :
    IntegerXMemory :=
  { m with arrays := h
           count := Function.update m.count target (if negative then -wsize else wsize) }

/-- `add` and `sub` for operands `op1` and `op2` with the counts `usize` and `vsize`, of which the
first is not shorter. -/
def addSized (target op1 op2 : ℕ) (usize vsize : ℤ) (m : IntegerXMemory) :
    Option IntegerXMemory :=
  let absUsize := usize.natAbs
  let absVsize := vsize.natAbs
  let m := m.resize target (absUsize + 1)
  let up := m.item op1
  let vp := m.item op2
  let wp := m.item target
  -- `usize.bit_xor (vsize) < 0`
  if (decide (usize < 0) ^^ decide (vsize < 0)) = true then
    if absUsize ≠ absVsize then do
      let (_, h) ← SpecialArithmetic.sub wp 0 up 0 absUsize vp 0 absVsize m.arrays
      let wsize ← SpecialUtility.normalize wp 0 absUsize h
      return m.conclude target h wsize (usize < 0)
    else do
      let order ← SpecialComparison.cmp up 0 vp 0 absUsize m.arrays
      if order < 0 then
        let (_, h) ← SpecialArithmetic.subN wp 0 vp 0 up 0 absUsize m.arrays
        let wsize ← SpecialUtility.normalize wp 0 absUsize h
        return m.conclude target h wsize (0 ≤ usize)
      else
        let (_, h) ← SpecialArithmetic.subN wp 0 up 0 vp 0 absUsize m.arrays
        let wsize ← SpecialUtility.normalize wp 0 absUsize h
        return m.conclude target h wsize (usize < 0)
  else do
    let (cyLimb, h) ← SpecialArithmetic.add wp 0 up 0 absUsize vp 0 absVsize m.arrays
    let h ← h.put wp absUsize cyLimb
    return m.conclude target h (absUsize + cyLimb.toNat) (usize < 0)

/-- The operand with more limbs comes first. -/
def addArranged (target op1 op2 : ℕ) (usize vsize : ℤ) (m : IntegerXMemory) :
    Option IntegerXMemory :=
  if usize.natAbs < vsize.natAbs then addSized target op2 op1 vsize usize m
  else addSized target op1 op2 usize vsize m

/-- `add (target, op1, op2)`. -/
def add (target op1 op2 : ℕ) (m : IntegerXMemory) : Option IntegerXMemory :=
  addArranged target op1 op2 (m.count op1) (m.count op2) m

/-- `sub (target, op1, op2)`. -/
def sub (target op1 op2 : ℕ) (m : IntegerXMemory) : Option IntegerXMemory :=
  addArranged target op1 op2 (m.count op1) (-m.count op2) m

section Outcome

variable {m m' : IntegerXMemory} {target : ℕ}

/-- A number with the sign of its count. -/
lemma sign_mul_count {k v : ℕ} {negative : Bool} (hk : k = 0 → v = 0) :
    (if negative then -(k : ℤ) else k).sign * (v : ℤ) = if negative then -(v : ℤ) else v := by
  rcases Nat.eq_zero_or_pos k with h0 | hpos
  · rw [hk h0]
    split <;> simp
  · split
    · rw [Int.sign_neg, Int.sign_natCast_of_ne_zero (by omega)]
      omega
    · rw [Int.sign_natCast_of_ne_zero (by omega)]
      omega

/-- The outcome of a limb routine that sets the count to the number of limbs that its number
needs. -/
lemma KeepsOthers.outcome_conclude (h : m.KeepsOthers m' target) (ht : target < m.objects)
    {h' : LimbHeap} {w n v : ℕ}
    (hkept : KeptBelow m'.free (region (m'.item target) 0 w) m'.arrays h')
    (hcap : n ≤ m'.capacity target) (hv : h'.number (m'.item target) 0 n = v)
    (hlow : n ≠ 0 → (2 ^ 32) ^ (n - 1) ≤ v) (negative : Bool) :
    m.Outcome (m'.conclude target h' n negative) target (if negative then -(v : ℤ) else v) := by
  set c : ℤ := if negative then -n else n with hc
  have habs : c.natAbs = n := by
    rw [hc]
    split <;> omega
  have hout := h.outcome ht hkept (show c.natAbs ≤ m'.capacity target by omega)
    (by rw [habs, hv]) fun hne => by
      rw [habs]
      exact hlow (by omega)
  have hsign : c.sign * (v : ℤ) = if negative then -(v : ℤ) else v := by
    refine sign_mul_count fun h0 => ?_
    rw [← hv, h0, LimbHeap.number, segment_zero, value_nil]
  rw [hsign] at hout
  exact hout

/-- **The outcome of a limb routine with `normalize`**, which finds the limbs that the number
needs. -/
lemma KeepsOthers.outcome_normalize (h : m.KeepsOthers m' target) (ht : target < m.objects)
    {h' : LimbHeap} {w n v : ℕ}
    (hkept : KeptBelow m'.free (region (m'.item target) 0 w) m'.arrays h')
    (hcap : n ≤ m'.capacity target) (hv : h'.number (m'.item target) 0 n = v) (negative : Bool) :
    ∃ wsize, SpecialUtility.normalize (m'.item target) 0 n h' = some wsize ∧
      m.Outcome (m'.conclude target h' wsize negative) target
        (if negative then -(v : ℤ) else v) := by
  have hbelow : m'.item target < m'.free := h.wellFormed.allocated _ (by rwa [h.objects])
  obtain ⟨r, hr, hle, hval, hlow⟩ := SpecialUtility.normalize_eq h'
    (show 0 + n ≤ (h' (m'.item target)).length by
      rw [hkept.length _ hbelow, Nat.zero_add]
      exact hcap)
  rw [hv] at hval hlow
  exact ⟨r, hr, h.outcome_conclude ht hkept (hle.trans hcap) hval hlow negative⟩

/-- The outcome of a difference. -/
lemma Extends.outcome_normalize (h : m.Extends m') (ht : target < m.objects) {n v : ℕ}
    (hcap : n ≤ m'.capacity target) (hv : v < (2 ^ 32) ^ n) (negative : Bool) :
    ∃ wsize, SpecialUtility.normalize (m'.item target) 0 n
        (m'.arrays.store (m'.item target) 0 (ofNat 32 n v)) = some wsize ∧
      m.Outcome (m'.conclude target (m'.arrays.store (m'.item target) 0 (ofNat 32 n v)) wsize
        negative) target (if negative then -(v : ℤ) else v) := by
  have hlen : (ofNat 32 n v).length = n := length_ofNat n v
  have hstored : 0 + (ofNat 32 n v).length ≤ (m'.arrays (m'.item target)).length := by
    rw [hlen, Nat.zero_add]
    exact hcap
  refine (h.keepsOthers target).outcome_normalize ht
    ((sameOutside_store hstored).keptBelow m'.free) hcap ?_ negative
  have hread := segment_store_self hstored
  rw [hlen] at hread
  rw [LimbHeap.number, hread, value_ofNat_of_lt hv]

/-- The outcome of a sum: the carry becomes the highest limb. -/
lemma Extends.outcome_carry (h : m.Extends m') (ht : target < m.objects) {n v : ℕ}
    (hcap : n + 1 ≤ m'.capacity target) (hv : v < 2 * (2 ^ 32) ^ n)
    (hlow : n ≠ 0 → (2 ^ 32) ^ (n - 1) ≤ v) (negative : Bool) :
    ∃ h', Arrays.put (m'.arrays.store (m'.item target) 0 (ofNat 32 n v)) (m'.item target) n
        (BitVec.ofNat 32 (v / (2 ^ 32) ^ n)) = some h' ∧
      m.Outcome (m'.conclude target h' (n + (BitVec.ofNat 32 (v / (2 ^ 32) ^ n)).toNat) negative)
        target (if negative then -(v : ℤ) else v) := by
  have hpos : 0 < (2 ^ 32) ^ n := Nat.pow_pos (by decide)
  have hcarry : v / (2 ^ 32) ^ n ≤ 1 :=
    Nat.lt_succ_iff.mp (Nat.div_lt_of_lt_mul (by omega))
  have hlen : (ofNat 32 n v).length = n := length_ofNat n v
  have hroom : n + 1 ≤ (m'.arrays (m'.item target)).length := hcap
  have hstored : 0 + (ofNat 32 n v).length ≤ (m'.arrays (m'.item target)).length := by omega
  have hlimb : (BitVec.ofNat 32 (v / (2 ^ 32) ^ n)).toNat = v / (2 ^ 32) ^ n := by
    rw [BitVec.toNat_ofNat, Nat.mod_eq_of_lt (by omega)]
  have hlimbs : ofNat 32 n v ++ [BitVec.ofNat 32 (v / (2 ^ 32) ^ n)] = ofNat 32 (n + 1) v := by
    rw [ofNat_add]
    rfl
  refine ⟨_, put_eq (by rw [length_store hstored]; omega), ?_⟩
  rw [store_store (by rw [hlen, Nat.zero_add]) hstored, hlimbs, hlimb]
  set c : ℤ := if negative then -((n + v / (2 ^ 32) ^ n : ℕ) : ℤ) else (n + v / (2 ^ 32) ^ n : ℕ)
    with hc
  have habs : c.natAbs = n + v / (2 ^ 32) ^ n := by
    rw [hc]
    split <;> omega
  have hlt : v < (2 ^ 32) ^ (n + v / (2 ^ 32) ^ n) := by
    rcases Nat.le_one_iff_eq_zero_or_eq_one.mp hcarry with h0 | h1
    · rw [h0, Nat.add_zero]
      exact (Nat.div_eq_zero_iff_lt hpos).mp h0
    · rw [h1, pow_succ (2 ^ 32) n]
      omega
  have htake : Limbs.value ((ofNat 32 (n + 1) v).take c.natAbs) = v := by
    have hsplit : n + 1 = (n + v / (2 ^ 32) ^ n) + (1 - v / (2 ^ 32) ^ n) := by omega
    rw [habs, hsplit, ofNat_add, List.take_left' (by rw [length_ofNat]), value_ofNat_of_lt hlt]
  have hout := h.outcome_setNumber (u := ofNat 32 (n + 1) v) (c := c) ht
    (by rw [length_ofNat]; exact hcap) (by rw [habs, length_ofNat]; omega) htake ?_
  · have hsign : c.sign * (v : ℤ) = if negative then -(v : ℤ) else v := by
      refine sign_mul_count fun h0 => ?_
      rw [h0, pow_zero] at hlt
      omega
    rw [hsign] at hout
    exact hout
  · intro hne
    rw [habs]
    rcases Nat.le_one_iff_eq_zero_or_eq_one.mp hcarry with h0 | h1
    · rw [h0, Nat.add_zero]
      exact hlow (by omega)
    · rw [h1, Nat.add_sub_cancel]
      have hge := Nat.div_mul_le_self v ((2 ^ 32) ^ n)
      rwa [h1, Nat.one_mul] at hge

/-- The absolute value of an object, with a sign for the same number of limbs. -/
lemma sign_mul_magnitude {x : ℕ} {c : ℤ} (hc : c.natAbs = (m.count x).natAbs) :
    c.sign * (m.magnitude x : ℤ) = if c < 0 then -(m.magnitude x : ℤ) else m.magnitude x := by
  rcases lt_trichotomy c 0 with h | h | h
  · rw [if_pos h, Int.sign_eq_neg_one_of_neg h]
    omega
  · have hzero : m.magnitude x = 0 := by
      have hcount : (m.count x).natAbs = 0 := by omega
      rw [magnitude, hcount, LimbHeap.number, segment_zero, value_nil]
    rw [hzero]
    split <;> simp
  · rw [if_neg (by omega), Int.sign_eq_one_of_pos h]
    omega

/-- A difference that is not negative needs no borrow. -/
lemma ofNat_difference {x y n : ℕ} (hxy : y ≤ x) :
    ofNat 32 n (x + (2 ^ 32) ^ n - y) = ofNat 32 n (x - y) := by
  have hval : x + (2 ^ 32) ^ n - y = (x - y) + (2 ^ 32) ^ n * 1 := by omega
  rw [hval, ofNat_add_mul]

/-- A sum of numbers with different signs is a difference with the sign of the larger number. -/
lemma sum_of_different_signs {c d : ℤ} (hcd : (decide (c < 0) ^^ decide (d < 0)) = true) {x y : ℕ}
    (hyx : y ≤ x) : (if c < 0 then -(x : ℤ) else x) + (if d < 0 then -(y : ℤ) else y) =
      if decide (c < 0) = true then -((x - y : ℕ) : ℤ) else (x - y : ℕ) := by
  by_cases hneg : c < 0
  · have hpos : ¬ d < 0 := by simpa [hneg] using hcd
    simp only [hneg, hpos, if_true, if_false, decide_true]
    omega
  · have hneg' : d < 0 := by simpa [hneg] using hcd
    simp only [hneg, hneg', if_true, if_false, decide_false, Bool.false_eq_true]
    omega

/-- A sum of numbers with the same sign. -/
lemma sum_of_same_signs {c d : ℤ} (hcd : ¬ (decide (c < 0) ^^ decide (d < 0)) = true) {x y : ℕ} :
    (if c < 0 then -(x : ℤ) else x) + (if d < 0 then -(y : ℤ) else y) =
      if decide (c < 0) = true then -((x + y : ℕ) : ℤ) else (x + y : ℕ) := by
  by_cases hneg : c < 0
  · have hneg' : d < 0 := by simpa [hneg] using hcd
    simp only [hneg, hneg', if_true, decide_true]
    omega
  · have hpos : ¬ d < 0 := by simpa [hneg] using hcd
    simp only [hneg, hpos, if_false, decide_false, Bool.false_eq_true]
    omega

/-- **The common part of `add` and `sub`**, whichever objects are the same.

**Proof sketch.** `resize` keeps the limbs of every object, so that the limb routines work on the
numbers of the operands; in each of them an operand that shares the array of the target is read and
written at the same index. The first operand of `sub` is the larger number, because it has more
limbs and is normalised; `sub_n` is called with the larger number first. -/
lemma addSized_outcome (hm : m.WellFormed) {op1 op2 : ℕ} (ht : target < m.objects)
    (h₁ : op1 < m.objects) (h₂ : op2 < m.objects) (hn₁ : m.Normalised op1)
    (hn₂ : m.Normalised op2) {usize vsize : ℤ} (hu : usize.natAbs = (m.count op1).natAbs)
    (hv : vsize.natAbs = (m.count op2).natAbs) (hle : vsize.natAbs ≤ usize.natAbs) :
    ∃ m', addSized target op1 op2 usize vsize m = some m' ∧
      m.Outcome m' target (usize.sign * m.magnitude op1 + vsize.sign * m.magnitude op2) := by
  obtain ⟨hext, hroom⟩ := extends_resize hm ht (usize.natAbs + 1)
  rw [sign_mul_magnitude hu, sign_mul_magnitude hv]
  have hcap₁ : usize.natAbs ≤ m.capacity op1 := by rw [hu]; exact hn₁.count_le
  have hcap₂ : vsize.natAbs ≤ m.capacity op2 := by rw [hv]; exact hn₂.count_le
  have hlow : usize.natAbs ≠ 0 → (2 ^ 32) ^ (usize.natAbs - 1) ≤ m.magnitude op1 := by
    intro hne
    rw [hu]
    exact (normalised_iff.mp hn₁).2 (by omega)
  set r := m.resize target (usize.natAbs + 1) with hr
  have ha : r.arrays.number (r.item op1) 0 usize.natAbs = m.magnitude op1 := by
    rw [hext.number h₁ hcap₁, hu, magnitude]
  have hb : r.arrays.number (r.item op2) 0 vsize.natAbs = m.magnitude op2 := by
    rw [hext.number h₂ hcap₂, hv, magnitude]
  have hlen₁ : 0 + usize.natAbs ≤ (r.arrays (r.item op1)).length := by
    rw [Nat.zero_add]
    exact hcap₁.trans (hext.capacity op1 h₁)
  have hlen₂ : 0 + vsize.natAbs ≤ (r.arrays (r.item op2)).length := by
    rw [Nat.zero_add]
    exact hcap₂.trans (hext.capacity op2 h₂)
  have hlent : 0 + usize.natAbs ≤ (r.arrays (r.item target)).length := by
    rw [Nat.zero_add]
    exact (Nat.le_succ _).trans hroom
  have hahead (n a : ℕ) : ReadsAhead n (r.item target) 0 a 0 := fun _ => Or.inl le_rfl
  have hlta : m.magnitude op1 < (2 ^ 32) ^ usize.natAbs := ha ▸ r.arrays.number_lt hlen₁
  have hltb : m.magnitude op2 < (2 ^ 32) ^ vsize.natAbs := hb ▸ r.arrays.number_lt hlen₂
  have hpow : (2 ^ 32) ^ vsize.natAbs ≤ (2 ^ 32) ^ usize.natAbs :=
    Nat.pow_le_pow_right (by decide) hle
  have hcapt : usize.natAbs ≤ r.capacity target := (Nat.le_succ _).trans hroom
  simp only [addSized, ← hr]
  by_cases hsigns : (decide (usize < 0) ^^ decide (vsize < 0)) = true
  · rw [if_pos hsigns]
    by_cases habs : usize.natAbs ≠ vsize.natAbs
    · -- the first operand has more limbs
      have hlt : (2 ^ 32) ^ vsize.natAbs ≤ (2 ^ 32) ^ (usize.natAbs - 1) :=
        Nat.pow_le_pow_right (by decide) (by omega)
      have hba : m.magnitude op2 ≤ m.magnitude op1 := by
        have := hlow (by omega)
        omega
      obtain ⟨wsize, hw, hout⟩ := hext.outcome_normalize ht hcapt
        (show m.magnitude op1 - m.magnitude op2 < (2 ^ 32) ^ usize.natAbs by omega) (usize < 0)
      rw [if_pos habs, SpecialArithmetic.sub_eq hle hlent hlen₁ hlen₂ (fun _ => rfl) (hahead _ _),
        ha, hb, ofNat_difference hba]
      simp only [Option.bind_eq_bind, Option.bind_some, hw, Option.pure_def]
      refine ⟨_, rfl, ?_⟩
      rwa [sum_of_different_signs hsigns hba]
    · have hsame : vsize.natAbs = usize.natAbs := by omega
      rw [hsame] at hb hlen₂
      rw [if_neg habs, SpecialComparison.cmp_eq r.arrays hlen₁ hlen₂, ha, hb]
      simp only [Option.bind_eq_bind, Option.bind_some]
      by_cases hab : m.magnitude op1 < m.magnitude op2
      · obtain ⟨wsize, hw, hout⟩ := hext.outcome_normalize ht hcapt
          (show m.magnitude op2 - m.magnitude op1 < (2 ^ 32) ^ usize.natAbs by omega) (0 ≤ usize)
        rw [SpecialComparison.order_eq_of_lt hab, if_pos (by decide),
          SpecialArithmetic.subN_eq hlent hlen₂ hlen₁ (hahead _ _) (hahead _ _), ha, hb,
          ofNat_difference hab.le]
        simp only [Option.bind_some, hw, Option.pure_def]
        refine ⟨_, rfl, ?_⟩
        have hflip : (decide (vsize < 0) ^^ decide (usize < 0)) = true := by
          rwa [Bool.xor_comm]
        have hnegative : decide (vsize < 0) = decide (0 ≤ usize) := by
          by_cases hneg : usize < 0
          · have hpos : ¬ vsize < 0 := by simpa [hneg] using hsigns
            simp [hneg, hpos]
          · have hneg' : vsize < 0 := by simpa [hneg] using hsigns
            simp [hneg', not_lt.mp hneg]
        rwa [add_comm, sum_of_different_signs hflip hab.le, hnegative]
      · have hba : m.magnitude op2 ≤ m.magnitude op1 := not_lt.mp hab
        obtain ⟨wsize, hw, hout⟩ := hext.outcome_normalize ht hcapt
          (show m.magnitude op1 - m.magnitude op2 < (2 ^ 32) ^ usize.natAbs by omega) (usize < 0)
        rw [if_neg (by rw [SpecialComparison.order, if_neg hab]; split <;> decide),
          SpecialArithmetic.subN_eq hlent hlen₁ hlen₂ (hahead _ _) (hahead _ _), ha, hb,
          ofNat_difference hba]
        simp only [Option.bind_some, hw, Option.pure_def]
        refine ⟨_, rfl, ?_⟩
        rwa [sum_of_different_signs hsigns hba]
  · obtain ⟨h', hput, hout⟩ := hext.outcome_carry ht hroom
      (show m.magnitude op1 + m.magnitude op2 < 2 * (2 ^ 32) ^ usize.natAbs by omega)
      (fun hne => (hlow hne).trans (Nat.le_add_right _ _)) (usize < 0)
    rw [if_neg hsigns, SpecialArithmetic.add_eq hle hlent hlen₁ hlen₂ (fun _ => rfl) (hahead _ _),
      ha, hb]
    simp only [Option.bind_eq_bind, Option.bind_some, hput, Option.pure_def]
    refine ⟨_, rfl, ?_⟩
    rwa [sum_of_same_signs hsigns]

/-- The operands in either order. -/
lemma addArranged_outcome (hm : m.WellFormed) {op1 op2 : ℕ} (ht : target < m.objects)
    (h₁ : op1 < m.objects) (h₂ : op2 < m.objects) (hn₁ : m.Normalised op1)
    (hn₂ : m.Normalised op2) {usize vsize : ℤ} (hu : usize.natAbs = (m.count op1).natAbs)
    (hv : vsize.natAbs = (m.count op2).natAbs) :
    ∃ m', addArranged target op1 op2 usize vsize m = some m' ∧
      m.Outcome m' target (usize.sign * m.magnitude op1 + vsize.sign * m.magnitude op2) := by
  by_cases hlt : usize.natAbs < vsize.natAbs
  · rw [addArranged, if_pos hlt, add_comm]
    exact addSized_outcome hm ht h₂ h₁ hn₂ hn₁ hv hu hlt.le
  · rw [addArranged, if_neg hlt]
    exact addSized_outcome hm ht h₁ h₂ hn₁ hn₂ hu hv (not_lt.mp hlt)

/-- **Sums and differences.** For normalised objects `x` and `y`, `add` and `sub` return, read no
limb outside an array, and leave in the target the normalised sum and difference; the target may be
`x`, `y` or both, and no other object is changed. -/
theorem add_sub_outcome (m : IntegerXMemory) (hm : m.WellFormed) (target x y : ℕ)
    (ht : target < m.objects) (hx : x < m.objects) (hy : y < m.objects) (hnx : m.Normalised x)
    (hny : m.Normalised y) :
    (∃ m', add target x y m = some m' ∧ m.Outcome m' target (m.value x + m.value y)) ∧
      ∃ m', sub target x y m = some m' ∧ m.Outcome m' target (m.value x - m.value y) := by
  refine ⟨addArranged_outcome hm ht hx hy hnx hny rfl rfl, ?_⟩
  have hneg : (-m.count y).natAbs = (m.count y).natAbs := Int.natAbs_neg _
  obtain ⟨m', hrun, hout⟩ :=
    addArranged_outcome hm ht hx hy hnx hny (Eq.refl (m.count x).natAbs) hneg
  refine ⟨m', hrun, ?_⟩
  rwa [Int.sign_neg, Int.neg_mul, ← Int.sub_eq_add_neg] at hout

/-- Memory with one object. -/
def single (limbs : List Natural32) (count : ℤ) : IntegerXMemory where
  arrays := fun _ => limbs
  free := 1
  objects := 1
  item := fun _ => 0
  count := fun _ => count

/-- The object `2 ^ 32 - 1` is added to itself and subtracted from itself. -/
theorem add_sub_outcome_same :
    (∃ m', add 0 0 0 (single [0xffffffff] 1) = some m' ∧
      (single [0xffffffff] 1).Outcome m' 0 (2 * (2 ^ 32 - 1))) ∧
      ∃ m', sub 0 0 0 (single [0xffffffff] 1) = some m' ∧
        (single [0xffffffff] 1).Outcome m' 0 0 :=
  add_sub_outcome (single [0xffffffff] 1) ⟨by decide, by decide⟩ 0 0 0 (by decide) (by decide)
    (by decide) ⟨by decide, by decide⟩ ⟨by decide, by decide⟩

end Outcome

end IntegerXMemory

end EiffelWeb
