import EiffelWeb.Crypto.Limb.IntegerXArithmetic
import EiffelWeb.Crypto.Limb.SpecialMul

set_option relaxedAutoImplicit false
set_option autoImplicit false

/-!
# Products of `INTEGER_X` objects

The routine `mul` of `INTEGER_X_ARITHMETIC`. A product of at most 32 limbs with a target of its own
is made by the schoolbook method, every other product by the routine `mul` on arrays of limbs. This
one must not write to its operands: the target gets a new array if its array is too short, and else
an operand with the array of the target is copied.

## Main definitions

* `IntegerXMemory.mulInto` — the product of two arrays.
* `IntegerXMemory.mul`

## Main results

* `IntegerXMemory.mul_outcome` — the product, if the operands have the same number of limbs or one
  of them has less than 32.
* `IntegerXMemory.mul_truncates` — a product of 33 and 32 limbs that loses its highest limb.
-/

namespace EiffelWeb

open Limbs Arrays

namespace IntegerXMemory

/-- The product of the arrays `up` and `vp`, which are not the one of the target. -/
def mulInto (target up vp usize vsize : ℕ) (negative : Bool) (m : IntegerXMemory) :
    Option IntegerXMemory := do
  let (cyLimb, h) ← SpecialArithmetic.mul m.free (m.item target) 0 up 0 usize vp 0 vsize m.arrays
  return m.conclude target h (usize + vsize - if cyLimb = 0 then 1 else 0) negative

/-- `create up.make_filled (0, usize)` and `up.copy_data (wp, 0, 0, usize)`. -/
def copyArray (wp usize : ℕ) (m : IntegerXMemory) : Option IntegerXMemory :=
  let h : LimbHeap := Function.update m.arrays m.free (List.replicate usize 0)
  (h.copyData m.free wp 0 0 usize).map fun h => { m with arrays := h, free := m.free + 1 }

/-- `create wp.make_filled (0, wsize)` and `target.item := wp`. -/
def newItem (target wsize : ℕ) (m : IntegerXMemory) : IntegerXMemory :=
  { m with
    arrays := Function.update m.arrays m.free (List.replicate wsize 0)
    free := m.free + 1
    item := Function.update m.item target m.free }

/-- `mul` with the longer operand first, for a product of more than 32 limbs or a target that is one
of the operands. -/
def mulArranged (target op1 op2 usize vsize : ℕ) (negative : Bool) (m : IntegerXMemory) :
    Option IntegerXMemory :=
  let up := m.item op1
  let vp := m.item op2
  let wp := m.item target
  if m.capacity target < usize + vsize then
    mulInto target up vp usize vsize negative (m.newItem target (usize + vsize))
  else if wp = up then do
    let copied ← m.copyArray wp usize
    mulInto target m.free (if wp = vp then m.free else vp) usize vsize negative copied
  else if wp = vp then do
    let copied ← m.copyArray wp vsize
    mulInto target up m.free usize vsize negative copied
  else mulInto target up vp usize vsize negative m

/-- `mul (target, op1, op2)`. -/
def mul (target op1 op2 : ℕ) (m : IntegerXMemory) : Option IntegerXMemory :=
  let usize := (m.count op1).natAbs
  let vsize := (m.count op2).natAbs
  -- `op1.count.bit_xor (op2.count) < 0`
  let negative := decide (m.count op1 < 0) ^^ decide (m.count op2 < 0)
  if usize = 0 ∨ vsize = 0 then some { m with count := Function.update m.count target 0 }
  else if vsize = 1 then do
    let m := m.resize target (usize + 1)
    let wp := m.item target
    let v ← m.arrays.item (m.item op2) 0
    let (cyLimb, h) ← SpecialArithmetic.mul1 wp 0 (m.item op1) 0 usize v m.arrays
    let h ← h.put wp usize cyLimb
    return m.conclude target h (if cyLimb ≠ 0 then usize + 1 else usize) negative
  else
    let wsize := usize + vsize
    if wsize ≤ 32 ∧ target ≠ op1 ∧ target ≠ op2 then do
      let m := m.resize target wsize
      let wp := m.item target
      let h ← (if vsize < usize then
          SpecialArithmetic.mulBasecase wp 0 (m.item op1) 0 usize (m.item op2) 0 vsize m.arrays
        else SpecialArithmetic.mulBasecase wp 0 (m.item op2) 0 vsize (m.item op1) 0 usize m.arrays)
      let x ← h.item wp (wsize - 1)
      return m.conclude target h (wsize - if x = 0 then 1 else 0) negative
    else if usize < vsize then mulArranged target op2 op1 vsize usize negative m
    else mulArranged target op1 op2 usize vsize negative m

section Outcome

variable {m m' : IntegerXMemory} {target : ℕ}

/-- The signs of a product. -/
lemma value_mul_value (x y : ℕ) : m.value x * m.value y =
    if (decide (m.count x < 0) ^^ decide (m.count y < 0)) = true then
      -((m.magnitude x * m.magnitude y : ℕ) : ℤ) else (m.magnitude x * m.magnitude y : ℕ) := by
  rw [IntegerXMemory.value, IntegerXMemory.value, sign_mul_magnitude rfl, sign_mul_magnitude rfl]
  by_cases hx : m.count x < 0 <;> by_cases hy : m.count y < 0 <;> simp [hx, hy]

/-- The outcome of a result of `w` limbs, of which the highest one may be zero. -/
lemma KeepsOthers.outcome_product (h : m.KeepsOthers m' target) (ht : target < m.objects)
    {h' : LimbHeap} {w n v : ℕ} {x : Natural32}
    (hkept : KeptBelow m'.free (region (m'.item target) 0 n) m'.arrays h') (hw : 1 ≤ w)
    (hcap : w ≤ m'.capacity target) (hv : h'.number (m'.item target) 0 w = v)
    (hx : h'.item (m'.item target) (w - 1) = some x) (hlow : 2 ≤ w → (2 ^ 32) ^ (w - 2) ≤ v)
    (negative : Bool) :
    m.Outcome (m'.conclude target h' (w - if x = 0 then 1 else 0) negative) target
      (if negative then -(v : ℤ) else v) := by
  set k := w - if x = 0 then 1 else 0 with hk
  have hbelow : m'.item target < m'.free := h.wellFormed.allocated _ (by rwa [h.objects])
  obtain ⟨j, rfl⟩ : ∃ j, w = j + 1 := ⟨w - 1, by omega⟩
  have hroom : 0 + (j + 1) ≤ (h' (m'.item target)).length := by
    rw [hkept.length _ hbelow, Nat.zero_add]
    exact hcap
  obtain ⟨y, hy, hnum⟩ := h'.exists_last hroom
  rw [Nat.add_sub_cancel] at hx
  rw [Nat.zero_add, hx] at hy
  rw [← Option.some.inj hy, hv] at hnum
  have hval : h'.number (m'.item target) 0 k = v ∧ (k ≠ 0 → (2 ^ 32) ^ (k - 1) ≤ v) := by
    by_cases hzero : x = 0
    · rw [hzero, SpecialArithmetic.toNat_zero_limb, Nat.mul_zero, Nat.add_zero] at hnum
      rw [if_pos hzero, Nat.add_sub_cancel] at hk
      rw [hk]
      exact ⟨hnum.symm, fun hj => hlow (by omega)⟩
    · have hle := pow_le_mul_toNat hzero j
      rw [if_neg hzero, Nat.sub_zero] at hk
      rw [hk, Nat.add_sub_cancel]
      exact ⟨hv, fun _ => by omega⟩
  have hle : k ≤ m'.capacity target := (Nat.sub_le _ _).trans hcap
  set c : ℤ := if negative then -(k : ℤ) else k with hc
  have habs : c.natAbs = k := by
    rw [hc]
    split <;> omega
  have hnum' : h'.number (m'.item target) 0 c.natAbs = v := by
    rw [habs]
    exact hval.1
  have hout := h.outcome ht hkept (show c.natAbs ≤ m'.capacity target by rw [habs]; exact hle) hnum'
    fun hne => by
      rw [habs]
      exact hval.2 (by omega)
  have hsign : c.sign * (v : ℤ) = if negative then -(v : ℤ) else v := by
    refine sign_mul_count fun h0 => ?_
    rw [← hval.1, h0, LimbHeap.number_zero]
  rw [hsign] at hout
  exact hout

/-- The product of two normalised numbers has at most one zero limb. -/
lemma Normalised.mul_low {x y : ℕ} (hx : m.Normalised x) (hy : m.Normalised y)
    (hx' : (m.count x).natAbs ≠ 0) (hy' : (m.count y).natAbs ≠ 0) :
    (2 ^ 32) ^ ((m.count x).natAbs + (m.count y).natAbs - 2) ≤ m.magnitude x * m.magnitude y := by
  have hsplit : (m.count x).natAbs + (m.count y).natAbs - 2 =
      ((m.count x).natAbs - 1) + ((m.count y).natAbs - 1) := by omega
  rw [hsplit, pow_add]
  exact Nat.mul_le_mul ((normalised_iff.mp hx).2 (by omega)) ((normalised_iff.mp hy).2 (by omega))

/-- **The product of two arrays** that are not the one of the target. -/
lemma mulInto_outcome (h : m.KeepsOthers m' target) (ht : target < m.objects)
    {up vp usize vsize X Y : ℕ} (hup : up < m'.free) (hvp : vp < m'.free)
    (hut : m'.item target ≠ up) (hvt : m'.item target ≠ vp) (huv : up ≠ vp) (hpos : 1 ≤ vsize)
    (hle : vsize ≤ usize) (hmax : usize ≤ 2 ^ 32) (hcond : usize = vsize ∨ vsize < 32)
    (hcap : usize + vsize ≤ m'.capacity target) (hu : usize ≤ (m'.arrays up).length)
    (hv : vsize ≤ (m'.arrays vp).length) (hX : m'.arrays.number up 0 usize = X)
    (hY : m'.arrays.number vp 0 vsize = Y) (hlow : (2 ^ 32) ^ (usize + vsize - 2) ≤ X * Y)
    (negative : Bool) :
    ∃ r, mulInto target up vp usize vsize negative m' = some r ∧
      m.Outcome r target (if negative then -((X * Y : ℕ) : ℤ) else (X * Y : ℕ)) := by
  have hbelow : m'.item target < m'.free := h.wellFormed.allocated _ (by rwa [h.objects])
  obtain ⟨c, h', hrun, hval, htop, hkept⟩ := SpecialArithmetic.mul_run (h := m'.arrays)
    (le_refl m'.free) hbelow hup hvp hpos hle hmax huv hcond
    (show 0 + (usize + vsize) ≤ (m'.arrays (m'.item target)).length by
      rw [Nat.zero_add]
      exact hcap)
    (show 0 + usize ≤ (m'.arrays up).length by omega)
    (show 0 + vsize ≤ (m'.arrays vp).length by omega) (fun he => absurd he hut)
    (fun he => absurd he hvt)
  rw [Nat.zero_add] at htop
  rw [hX, hY] at hval
  refine ⟨_, ?_, h.outcome_product ht hkept (by omega) hcap hval htop (fun _ => hlow) negative⟩
  rw [mulInto, hrun]
  rfl

/-- The target gets a new array. -/
lemma keepsOthers_newItem (hm : m.WellFormed) (target n : ℕ) :
    m.KeepsOthers (m.newItem target n) target := by
  have hitem (y : ℕ) (hy : y ≠ target) : (m.newItem target n).item y = m.item y :=
    Function.update_of_ne hy _ _
  have hself : (m.newItem target n).item target = m.free := Function.update_self _ _ _
  have harray (y : ℕ) (hy : y < m.objects) (hyt : y ≠ target) :
      (m.newItem target n).arrays ((m.newItem target n).item y) = m.arrays (m.item y) := by
    rw [hitem y hyt]
    exact Function.update_of_ne (Nat.ne_of_lt (hm.allocated y hy)) _ _
  refine ⟨⟨?_, ?_⟩, rfl, rfl, ?_, ?_⟩
  · intro y hy
    show _ < m.free + 1
    by_cases hyt : y = target
    · rw [hyt, hself]
      omega
    · rw [hitem y hyt]
      exact (hm.allocated y hy).trans (Nat.lt_succ_self _)
  · intro y hy z hz he
    have hy' := hm.allocated y hy
    have hz' := hm.allocated z hz
    by_cases hyt : y = target <;> by_cases hzt : z = target
    · rw [hyt, hzt]
    · rw [hyt, hself, hitem z hzt] at he
      omega
    · rw [hzt, hself, hitem y hyt] at he
      omega
    · rw [hitem y hyt, hitem z hzt] at he
      exact hm.owned y hy z hz he
  · intro y hy hyt
    rw [capacity, capacity, harray y hy hyt]
  · intro y hy hyt k hk
    rw [Arrays.segment, harray y hy hyt, Arrays.segment]

/-- An array is copied. -/
lemma copyArray_run (hm : m.WellFormed) {x n : ℕ} (hx : x < m.objects) (hn : n ≤ m.capacity x) :
    ∃ r, m.copyArray (m.item x) n = some r ∧ m.Extends r ∧ r.free = m.free + 1 ∧
      r.item = m.item ∧ (∀ a < m.free, r.arrays a = m.arrays a) ∧
      (r.arrays m.free).length = n ∧
      r.arrays.number m.free 0 n = m.arrays.number (m.item x) 0 n := by
  set h : LimbHeap := Function.update m.arrays m.free (List.replicate n 0) with hh
  have hbelow := hm.allocated x hx
  have hold (a : ℕ) (ha : a < m.free) : h a = m.arrays a := Function.update_of_ne (by omega) _ _
  have hnew : (h m.free).length = n := by
    rw [hh, Function.update_self, List.length_replicate]
  have hlen : (h.segment (m.item x) 0 n).length = n := by
    refine length_segment ?_
    rw [hold _ hbelow, Nat.zero_add]
    exact hn
  have hstored : 0 + (h.segment (m.item x) 0 n).length ≤ (h m.free).length := by omega
  set g := h.store m.free 0 (h.segment (m.item x) 0 n) with hg
  have hkeep (a : ℕ) (ha : a < m.free) : g a = m.arrays a := by
    rw [hg, store_apply_of_ne (by omega), hold a ha]
  have hcopy : h.copyData m.free (m.item x) 0 0 n = some g := by
    refine copyData_eq ?_ (by omega)
    rw [hold _ hbelow, Nat.zero_add]
    exact hn
  refine ⟨{ m with arrays := g, free := m.free + 1 }, ?_, extends_of_eq hm (Nat.le_succ _) hkeep,
    rfl, rfl, hkeep, ?_, ?_⟩
  · rw [copyArray, ← hh, hcopy, Option.map_some]
  · show (g m.free).length = n
    rw [hg, length_store hstored, hnew]
  · have hread := segment_store_self hstored
    rw [hlen] at hread
    show LimbHeap.number g m.free 0 n = _
    rw [LimbHeap.number, hread, Arrays.segment, hold _ hbelow, LimbHeap.number, Arrays.segment]

/-- **The product with the longer operand first**, whichever operand the target is. -/
lemma mulArranged_outcome (hm : m.WellFormed) {x y : ℕ} (ht : target < m.objects)
    (hx : x < m.objects) (hy : y < m.objects) (hxy : x ≠ y) (hnx : m.Normalised x)
    (hny : m.Normalised y) {usize vsize : ℕ} (hu : (m.count x).natAbs = usize)
    (hv : (m.count y).natAbs = vsize) (hpos : 1 ≤ vsize) (hle : vsize ≤ usize)
    (hmax : usize ≤ 2 ^ 32) (hcond : usize = vsize ∨ vsize < 32) (negative : Bool) :
    ∃ r, mulArranged target x y usize vsize negative m = some r ∧
      m.Outcome r target (if negative then -((m.magnitude x * m.magnitude y : ℕ) : ℤ)
        else (m.magnitude x * m.magnitude y : ℕ)) := by
  have hlow := hnx.mul_low hny (by omega) (by omega)
  have hcapx : usize ≤ m.capacity x := hu ▸ hnx.count_le
  have hcapy : vsize ≤ m.capacity y := hv ▸ hny.count_le
  have hX : m.arrays.number (m.item x) 0 usize = m.magnitude x := by rw [magnitude, hu]
  have hY : m.arrays.number (m.item y) 0 vsize = m.magnitude y := by rw [magnitude, hv]
  have hfx := hm.allocated x hx
  have hfy := hm.allocated y hy
  have hft := hm.allocated target ht
  have hitem : m.item x ≠ m.item y := fun he => hxy (hm.owned x hx y hy he)
  rw [hu, hv] at hlow
  simp only [mulArranged]
  by_cases hshort : m.capacity target < usize + vsize
  · -- the operands keep their arrays
    have hself : (m.newItem target (usize + vsize)).item target = m.free :=
      Function.update_self _ _ _
    have hold (a : ℕ) (ha : a < m.free) :
        (m.newItem target (usize + vsize)).arrays a = m.arrays a :=
      Function.update_of_ne (by omega) _ _
    have hroom : usize + vsize ≤ (m.newItem target (usize + vsize)).capacity target := by
      have hnew : (m.newItem target (usize + vsize)).arrays m.free =
          List.replicate (usize + vsize) 0 := Function.update_self _ _ _
      rw [capacity, hself, hnew, List.length_replicate]
    rw [if_pos hshort]
    refine mulInto_outcome (keepsOthers_newItem hm target _) ht (Nat.lt_succ_of_lt hfx)
      (Nat.lt_succ_of_lt hfy) (by rw [hself]; omega) (by rw [hself]; omega) hitem hpos hle hmax
      hcond hroom ?_ ?_ ?_ ?_ hlow negative
    · rw [hold _ hfx]
      exact hcapx
    · rw [hold _ hfy]
      exact hcapy
    · rw [LimbHeap.number, Arrays.segment, hold _ hfx]
      exact hX
    · rw [LimbHeap.number, Arrays.segment, hold _ hfy]
      exact hY
  · rw [if_neg hshort]
    have hroom : usize + vsize ≤ m.capacity target := not_lt.mp hshort
    by_cases htx : m.item target = m.item x
    · -- the first operand is copied
      obtain ⟨r, hcopy, hext, hfree, hritem, hold, hlen, hnum⟩ :=
        copyArray_run hm hx hcapx
      rw [if_pos htx, if_neg (by rw [htx]; exact hitem), htx, hcopy]
      refine mulInto_outcome (hext.keepsOthers target) ht (by omega) (by omega)
        (by rw [hritem]; omega) (by rw [hritem, htx]; exact hitem) (by omega) hpos hle hmax hcond
        (hroom.trans (hext.capacity target ht)) hlen.ge ?_ (hnum.trans hX) ?_ hlow negative
      · rw [hold _ hfy]
        exact hcapy
      · rw [LimbHeap.number, Arrays.segment, hold _ hfy]
        exact hY
    · rw [if_neg htx]
      by_cases hty : m.item target = m.item y
      · -- the second operand is copied
        obtain ⟨r, hcopy, hext, hfree, hritem, hold, hlen, hnum⟩ :=
          copyArray_run hm hy hcapy
        rw [if_pos hty, hty, hcopy]
        refine mulInto_outcome (hext.keepsOthers target) ht (by omega) (by omega)
          (by rw [hritem]; exact htx) (by rw [hritem]; omega) (by omega) hpos hle hmax hcond
          (hroom.trans (hext.capacity target ht)) ?_ hlen.ge ?_ (hnum.trans hY) hlow negative
        · rw [hold _ hfx]
          exact hcapx
        · rw [LimbHeap.number, Arrays.segment, hold _ hfx]
          exact hX
      · rw [if_neg hty]
        exact mulInto_outcome ((Extends.refl hm).keepsOthers target) ht hfx hfy htx hty hitem hpos
          hle hmax hcond hroom hcapx hcapy hX hY hlow negative

/-- **The product with one limb.** The operand may be the target, whose limbs are read and written
at the same index. -/
lemma mulOne_outcome (hm : m.WellFormed) {x : ℕ} (ht : target < m.objects) (hx : x < m.objects)
    {usize : ℕ} (hcap : usize ≤ m.capacity x) {X : ℕ} (hX : m.arrays.number (m.item x) 0 usize = X)
    (v : Natural32) (hpos : 1 ≤ usize) (hlow : (2 ^ 32) ^ (usize + 1 - 2) ≤ X * v.toNat)
    (negative : Bool) :
    ∃ (c : Natural32) (g h : LimbHeap),
      SpecialArithmetic.mul1 ((m.resize target (usize + 1)).item target) 0
        ((m.resize target (usize + 1)).item x) 0 usize v (m.resize target (usize + 1)).arrays =
          some (c, g) ∧
      g.put ((m.resize target (usize + 1)).item target) usize c = some h ∧
      m.Outcome ((m.resize target (usize + 1)).conclude target h
        (if c ≠ 0 then usize + 1 else usize) negative) target
        (if negative then -((X * v.toNat : ℕ) : ℤ) else (X * v.toNat : ℕ)) := by
  obtain ⟨hext, hroom⟩ := extends_resize hm ht (usize + 1)
  set r := m.resize target (usize + 1) with hr
  have hroom' : usize + 1 ≤ (r.arrays (r.item target)).length := hroom
  obtain ⟨c, g, hrun, hval, hfoot⟩ := SpecialArithmetic.mul1_run (h := r.arrays)
    (show 0 + usize ≤ (r.arrays (r.item target)).length by omega)
    (show 0 + usize ≤ (r.arrays (r.item x)).length by
      rw [Nat.zero_add]
      exact hcap.trans (hext.capacity x hx))
    (fun _ => Or.inl le_rfl) v
  rw [hext.number hx hcap, hX] at hval
  have hlast : usize < (g (r.item target)).length := by
    rw [hfoot.length]
    omega
  obtain ⟨h, hput, hnum, hfoot'⟩ := LimbHeap.run_put hlast c
  have htop : h.item (r.item target) usize = some c := by
    obtain ⟨d, hd, hd'⟩ := LimbHeap.exists_limb (h := h) (a := r.item target) (i := usize)
      (by rw [hfoot'.length]; exact hlast)
    rw [hd]
    exact congrArg some (BitVec.eq_of_toNat_eq (hd'.symm.trans hnum))
  have hkept : KeptBelow r.free (region (r.item target) 0 (usize + 1)) r.arrays h := by
    refine ((hfoot.keptBelow _).mono ?_).trans ((hfoot'.keptBelow _).mono ?_) <;>
    · simp only [region]
      omega
  have hprod : h.number (r.item target) 0 (usize + 1) = X * v.toNat := by
    have hkeep : h.number (r.item target) 0 usize = g.number (r.item target) 0 usize :=
      LimbHeap.number_apart hfoot' (Apart.of_le (by omega)).symm
    rw [h.number_add (by rw [hfoot'.length]; omega), hkeep, Nat.zero_add, hnum, hval]
  have hcount : (if c ≠ 0 then usize + 1 else usize) = usize + 1 - if c = 0 then 1 else 0 := by
    by_cases hzero : c = 0
    · rw [if_neg (not_not.mpr hzero), if_pos hzero, Nat.add_sub_cancel]
    · rw [if_pos hzero, if_neg hzero, Nat.sub_zero]
  refine ⟨c, g, h, hrun, hput, ?_⟩
  rw [hcount]
  exact (hext.keepsOthers target).outcome_product ht hkept (by omega) hroom hprod htop
    (fun _ => hlow) negative

/-- **The schoolbook product** in the array of a target that is not an operand. -/
lemma mulShort_outcome (hm : m.WellFormed) {x y : ℕ} (ht : target < m.objects)
    (hx : x < m.objects) (hy : y < m.objects) (htx : target ≠ x) (hty : target ≠ y)
    {usize vsize : ℕ} (hcapx : usize ≤ m.capacity x) (hcapy : vsize ≤ m.capacity y) {X Y : ℕ}
    (hX : m.arrays.number (m.item x) 0 usize = X) (hY : m.arrays.number (m.item y) 0 vsize = Y)
    (hu : 1 ≤ usize) (hv : 1 ≤ vsize) (hlow : (2 ^ 32) ^ (usize + vsize - 2) ≤ X * Y)
    (negative : Bool) :
    ∃ (h : LimbHeap) (d : Natural32),
      (if vsize < usize then
          SpecialArithmetic.mulBasecase ((m.resize target (usize + vsize)).item target) 0
            ((m.resize target (usize + vsize)).item x) 0 usize
            ((m.resize target (usize + vsize)).item y) 0 vsize
            (m.resize target (usize + vsize)).arrays
        else SpecialArithmetic.mulBasecase ((m.resize target (usize + vsize)).item target) 0
            ((m.resize target (usize + vsize)).item y) 0 vsize
            ((m.resize target (usize + vsize)).item x) 0 usize
            (m.resize target (usize + vsize)).arrays) = some h ∧
      h.item ((m.resize target (usize + vsize)).item target) (usize + vsize - 1) = some d ∧
      m.Outcome ((m.resize target (usize + vsize)).conclude target h
        (usize + vsize - if d = 0 then 1 else 0) negative) target
        (if negative then -((X * Y : ℕ) : ℤ) else (X * Y : ℕ)) := by
  obtain ⟨hext, hroom⟩ := extends_resize hm ht (usize + vsize)
  set r := m.resize target (usize + vsize) with hr
  have hroom' : usize + vsize ≤ (r.arrays (r.item target)).length := hroom
  have hne {z : ℕ} (hz : z < m.objects) (htz : target ≠ z) : r.item target ≠ r.item z := fun he =>
    htz (hext.wellFormed.owned _ (by rwa [hext.objects]) _ (by rwa [hext.objects]) he)
  have hlenx : 0 + usize ≤ (r.arrays (r.item x)).length := by
    rw [Nat.zero_add]
    exact hcapx.trans (hext.capacity x hx)
  have hleny : 0 + vsize ≤ (r.arrays (r.item y)).length := by
    rw [Nat.zero_add]
    exact hcapy.trans (hext.capacity y hy)
  obtain ⟨h, hrun, hval, hfoot⟩ : ∃ h : LimbHeap,
      (if vsize < usize then
          SpecialArithmetic.mulBasecase (r.item target) 0 (r.item x) 0 usize (r.item y) 0 vsize
            r.arrays
        else SpecialArithmetic.mulBasecase (r.item target) 0 (r.item y) 0 vsize (r.item x) 0 usize
            r.arrays) = some h ∧
      h.number (r.item target) 0 (usize + vsize) =
        r.arrays.number (r.item x) 0 usize * r.arrays.number (r.item y) 0 vsize ∧
      SameOutside (region (r.item target) 0 (usize + vsize)) r.arrays h := by
    by_cases hlt : vsize < usize
    · rw [if_pos hlt]
      exact SpecialArithmetic.mulBasecase_run hv (by omega) hlenx hleny
        (fun he => absurd he (hne hx htx)) (fun he => absurd he (hne hy hty))
    · rw [if_neg hlt, Nat.add_comm usize, Nat.mul_comm]
      exact SpecialArithmetic.mulBasecase_run hu (by omega) hleny hlenx
        (fun he => absurd he (hne hy hty)) (fun he => absurd he (hne hx htx))
  rw [hext.number hx hcapx, hext.number hy hcapy, hX, hY] at hval
  obtain ⟨d, hd, -⟩ := LimbHeap.exists_limb (h := h) (a := r.item target) (i := usize + vsize - 1)
    (by rw [hfoot.length]; omega)
  exact ⟨h, d, hrun, hd, (hext.keepsOthers target).outcome_product ht (hfoot.keptBelow r.free)
    (by omega) hroom hval hd (fun _ => hlow) negative⟩

/-- The only limb of an object of one limb is its absolute value. -/
lemma Extends.exists_only_limb (h : m.Extends m') {x : ℕ} (hx : x < m.objects)
    (hn : m.Normalised x) (hone : (m.count x).natAbs = 1) :
    ∃ v : Natural32, m'.arrays.item (m'.item x) 0 = some v ∧ v.toNat = m.magnitude x := by
  have hcap : 1 ≤ m.capacity x := hone ▸ hn.count_le
  have hcap' : 0 < (m'.arrays (m'.item x)).length := hcap.trans (h.capacity x hx)
  obtain ⟨v, hv, hnum⟩ := LimbHeap.exists_limb hcap'
  refine ⟨v, hv, ?_⟩
  rw [magnitude, hone, ← hnum, h.number hx hcap]

/-- **Products.** For normalised objects `x` and `y`, which are not the same object, `mul` returns,
reads and writes no limb outside an array, and leaves in the target the normalised product, if `x`
and `y` have the same number of limbs or one of them has less than 32. The target may be `x` or `y`,
and no other object is changed. The number of limbs of the product is an `INTEGER_32`. -/
theorem mul_outcome (m : IntegerXMemory) (hm : m.WellFormed) (target x y : ℕ)
    (ht : target < m.objects) (hx : x < m.objects) (hy : y < m.objects) (hxy : x ≠ y)
    (hnx : m.Normalised x) (hny : m.Normalised y)
    (hsize : (m.count x).natAbs + (m.count y).natAbs < 2 ^ 31)
    (hcond : (m.count x).natAbs = (m.count y).natAbs ∨
      (m.count x).natAbs < 32 ∨ (m.count y).natAbs < 32) :
    ∃ m', mul target x y m = some m' ∧ m.Outcome m' target (m.value x * m.value y) := by
  simp only [mul]
  by_cases hzero : (m.count x).natAbs = 0 ∨ (m.count y).natAbs = 0
  · rw [if_pos hzero]
    have hval : m.value x * m.value y = 0 := by
      rw [value_mul_value]
      rcases hzero with h0 | h0 <;> simp [magnitude, h0]
    rw [hval]
    exact ⟨_, rfl, outcome_zero hm ht⟩
  · have hx0 : (m.count x).natAbs ≠ 0 := fun h0 => hzero (Or.inl h0)
    have hy0 : (m.count y).natAbs ≠ 0 := fun h0 => hzero (Or.inr h0)
    have hlow := hnx.mul_low hny hx0 hy0
    rw [if_neg hzero, value_mul_value]
    by_cases hone : (m.count y).natAbs = 1
    · obtain ⟨hext, -⟩ := extends_resize hm ht ((m.count x).natAbs + 1)
      obtain ⟨v, hv, hmag⟩ := hext.exists_only_limb hy hny hone
      rw [hone, ← hmag] at hlow
      obtain ⟨c, g, h, hrun, hput, hout⟩ := mulOne_outcome hm ht hx hnx.count_le
        (Eq.refl (m.magnitude x)) v (by omega) hlow
        (decide (m.count x < 0) ^^ decide (m.count y < 0))
      rw [if_pos hone, hv, ← hmag]
      simp only [Option.bind_eq_bind, Option.bind_some, hrun, hput]
      exact ⟨_, rfl, hout⟩
    · rw [if_neg hone]
      by_cases hshort : (m.count x).natAbs + (m.count y).natAbs ≤ 32 ∧ target ≠ x ∧ target ≠ y
      · obtain ⟨h, d, hrun, hd, hout⟩ := mulShort_outcome hm ht hx hy hshort.2.1 hshort.2.2
          hnx.count_le hny.count_le (Eq.refl (m.magnitude x)) (Eq.refl (m.magnitude y)) (by omega)
          (by omega) hlow (decide (m.count x < 0) ^^ decide (m.count y < 0))
        rw [if_pos hshort, hrun]
        simp only [Option.bind_eq_bind, Option.bind_some, hd]
        exact ⟨_, rfl, hout⟩
      · rw [if_neg hshort]
        by_cases hlt : (m.count x).natAbs < (m.count y).natAbs
        · rw [if_pos hlt, Nat.mul_comm (m.magnitude x)]
          exact mulArranged_outcome hm ht hy hx hxy.symm hny hnx rfl rfl (by omega) hlt.le
            (by omega) (by omega) _
        · rw [if_neg hlt]
          exact mulArranged_outcome hm ht hx hy hxy hnx hny rfl rfl (by omega) (not_lt.mp hlt)
            (by omega) (by omega) _

/-- Memory with two objects. -/
def pair (u v : List Natural32) (c d : ℤ) : IntegerXMemory where
  arrays := fun a => if a = 0 then u else if a = 1 then v else []
  free := 2
  objects := 2
  item := fun x => x
  count := fun x => if x = 0 then c else d

/-- The objects `2 ^ 32 + 5` and `- 3 * 2 ^ 32` are multiplied; the product is left in the second
one. -/
theorem mul_outcome_pair :
    ∃ m', mul 1 0 1 (pair [5, 1] [0, 3] 2 (-2)) = some m' ∧
      (pair [5, 1] [0, 3] 2 (-2)).Outcome m' 1
        ((pair [5, 1] [0, 3] 2 (-2)).value 0 * (pair [5, 1] [0, 3] 2 (-2)).value 1) :=
  mul_outcome (pair [5, 1] [0, 3] 2 (-2)) ⟨by decide, by decide⟩ 1 0 1 (by decide) (by decide)
    (by decide) (by decide) ⟨by decide, by decide⟩ ⟨by decide, by decide⟩ (by decide) (by decide)

/-- The low limbs of a number. -/
lemma number_low (h : LimbHeap) {a k n v : ℕ} (hn : k + n ≤ (h a).length)
    (hv : h.number a 0 (k + n) = v) : h.number a 0 k = v % (2 ^ 32) ^ k := by
  rw [← hv, h.number_add (by omega), Nat.add_mul_mod_self_left,
    Nat.mod_eq_of_lt (h.number_lt (by omega))]

/-- The objects `(2 ^ 32 - 1) * (2 ^ 32) ^ 32` of 33 limbs and `(2 ^ 32 - 1) * (2 ^ 32) ^ 31` of 32
limbs. -/
def lopsided : IntegerXMemory :=
  pair (List.replicate 32 0 ++ [0xffffffff]) (List.replicate 31 0 ++ [0xffffffff]) 33 32

/-- The product of the objects `lopsided` has 65 limbs. The one with index 32 is zero, and so the
count of the target is one less: the highest limb is lost. -/
theorem mul_truncates :
    lopsided.WellFormed ∧ lopsided.Normalised 0 ∧ lopsided.Normalised 1 ∧
      lopsided.value 0 * lopsided.value 1 = (2 ^ 32 - 1) ^ 2 * (2 ^ 32) ^ 63 ∧
      ∃ m', mul 0 0 1 lopsided = some m' ∧ m'.value 0 = (2 ^ 32) ^ 63 := by
  refine ⟨⟨by decide, by decide⟩, ⟨by decide, by decide⟩, ⟨by decide, by decide⟩, by decide, ?_⟩
  have hrun : mul 0 0 1 lopsided = mulInto 0 0 1 33 32 false (lopsided.newItem 0 65) := rfl
  set r := lopsided.newItem 0 65 with hr
  obtain ⟨c, h, hmul, hval, hc, hkept⟩ := SpecialArithmetic.mulSlices_run (h := r.arrays)
    (le_refl 3) (show 2 < 3 by decide) (show 0 < 3 by decide) (show 1 < 3 by decide)
    (show 32 ≤ 32 by decide) (by decide) (show 1 ≤ 1 by decide) (by decide)
    (show 0 + (32 + 1 + 32) ≤ (r.arrays 2).length by decide)
    (show 0 + (32 + 1) ≤ (r.arrays 0).length by decide)
    (show 0 + 32 ≤ (r.arrays 1).length by decide) (fun he => by omega) (fun he => by omega)
  have hprod : h.number 2 0 65 = (2 ^ 32 - 1) ^ 2 * (2 ^ 32) ^ 63 := by
    have hX : r.arrays.number 0 0 (32 + 1) = (2 ^ 32 - 1) * (2 ^ 32) ^ 32 := by decide
    have hY : r.arrays.number 1 0 32 = (2 ^ 32 - 1) * (2 ^ 32) ^ 31 := by decide
    rw [hX, hY] at hval
    exact hval
  have hlen : (h 2).length = 65 := by
    rw [hkept.length 2 (by decide)]
    decide
  -- the limb that is returned
  have hzero : c = 0 := by
    have hlow : h.number 2 0 (32 + 1) = 0 := by
      rw [number_low h (n := 32) (by omega) hprod]
      decide
    obtain ⟨d, hd, hlast⟩ := h.exists_last (a := 2) (i := 0) (n := 32) (by omega)
    rw [hd] at hc
    rw [hlow, Option.some.inj hc] at hlast
    have hpos : 0 < (2 ^ 32) ^ 32 := by decide
    rcases Nat.eq_zero_or_pos c.toNat with h0 | hc'
    · exact BitVec.eq_of_toNat_eq h0
    · have := Nat.mul_pos hpos hc'
      omega
  have hmul' : SpecialArithmetic.mul 3 2 0 0 0 33 1 0 32 r.arrays = some (c, h) := by
    rw [SpecialArithmetic.mul, if_neg (by decide), if_neg (by decide)]
    exact hmul
  refine ⟨r.conclude 0 h 64 false, ?_, ?_⟩
  · have hinto : mulInto 0 0 1 33 32 false r =
        (SpecialArithmetic.mul 3 2 0 0 0 33 1 0 32 r.arrays).bind
        fun p => some (r.conclude 0 p.2 (33 + 32 - if p.1 = 0 then 1 else 0) false) := rfl
    rw [hrun, hinto, hmul', Option.bind_some, if_pos hzero]
  · have hmag : (r.conclude 0 h 64 false).magnitude 0 = h.number 2 0 64 := rfl
    have hcount : (r.conclude 0 h 64 false).count 0 = 64 := rfl
    rw [IntegerXMemory.value, hmag, hcount, number_low h (n := 1) (by omega) hprod]
    decide

end Outcome

end IntegerXMemory

end EiffelWeb
