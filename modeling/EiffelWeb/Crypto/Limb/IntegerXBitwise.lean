import EiffelWeb.Crypto.Limb.IntegerXLogic
import EiffelWeb.Crypto.Limb.IntegerXSingle
import EiffelWeb.TwosComplement

set_option relaxedAutoImplicit false
set_option autoImplicit false

/-!
# Exclusive disjunctions and complements of new objects

The routines `bit_xor_value` and `bit_not_value` of `READABLE_INTEGER_X` work on a copy of the
object. A negative number `- (b + 1)` has the bits of `b` the other way, so that `bit_xor` needs the
bits of `b` only: a new array takes the absolute value less one, and one is added to the result if
it is negative.

## Main definitions

* `IntegerXMemory.bitOneComplement`, `IntegerXMemory.bitXorValue`, `IntegerXMemory.bitNotValue`
* `IntegerXMemory.NewArray` — a number in an array that was made.

## Main results

* `IntegerXMemory.predArray_run`, `IntegerXMemory.addOne_run` — to and from the number whose bits
  are combined.
* `IntegerXMemory.bitXor_outcome`, `IntegerXMemory.bitOneComplement_outcome`
* `IntegerXMemory.xor_not_bits` — the bits of the results.
-/

namespace EiffelWeb

open Limbs Arrays

namespace IntegerXMemory

/-- `bit_one_complement (target, op)`. -/
def bitOneComplement (target op : ℕ) (m : IntegerXMemory) : Option IntegerXMemory :=
  let size := m.count op
  if 0 ≤ size then
    let m := m.resize target (size.toNat + 1)
    if size = 0 then
      (m.arrays.put (m.item target) 0 1).map fun h => m.conclude target h 1 true
    else
      (addOne (m.item target) (m.item op) size.toNat m.arrays).map fun r =>
        m.conclude target r.2 r.1 true
  else
    -- one is taken away and a high zero limb is dropped
    subAbs target op size.natAbs 1 false (m.resize target size.natAbs)

/-- `bit_xor_value (other)`. The new object has the number of objects before. -/
def bitXorValue (x other : ℕ) (m : IntegerXMemory) : Option IntegerXMemory :=
  (m.identity x).bitXor m.objects m.objects other

/-- `bit_not_value`. -/
def bitNotValue (x : ℕ) (m : IntegerXMemory) : Option IntegerXMemory :=
  (m.identity x).bitOneComplement m.objects m.objects

/-! ## One less and one more -/

/-- A new array, numbered `free` before, has the number `v` in `n` limbs. -/
structure NewArray (m m' : IntegerXMemory) (n v : ℕ) : Prop where
  /-- The objects have kept their limbs. -/
  extends_old : m.Extends m'
  /-- The reference of the new array is in use. -/
  free : m'.free = m.free + 1
  /-- The arrays of the objects are the same. -/
  item : m'.item = m.item
  /-- The arrays in use before. -/
  arrays : ∀ a < m.free, m'.arrays a = m.arrays a
  /-- The limbs of the new array. -/
  length : (m'.arrays m.free).length = n
  /-- The number in the new array. -/
  number : m'.arrays.number m.free 0 n = v

section Parts

variable {m m' : IntegerXMemory} {target op x y n v : ℕ}

/-- An array in use keeps its numbers. -/
lemma NewArray.number_old (h : m.NewArray m' n v) {a : ℕ} (ha : a < m.free) (i k : ℕ) :
    m'.arrays.number a i k = m.arrays.number a i k := by
  rw [LimbHeap.number, Arrays.segment, h.arrays a ha, LimbHeap.number, Arrays.segment]

/-- **One less** in a new array, of the low limbs of a number. If they are zero, one is borrowed.

**Proof sketch.** The array is new, so that `sub_1` does not write to the one it reads. -/
lemma predArray_run (hm : m.WellFormed) {p : ℕ} (hp : p < m.free) (hn : 1 ≤ n)
    (hlen : n ≤ (m.arrays p).length) :
    ∃ (r : IntegerXMemory) (v c : ℕ), m.predArray p n = some r ∧ m.NewArray r n v ∧
      v + 1 = m.arrays.number p 0 n + (2 ^ 32) ^ n * c := by
  obtain ⟨k, rfl⟩ : ∃ k, n = k + 1 := ⟨n - 1, by omega⟩
  set h : LimbHeap := Function.update m.arrays m.free (List.replicate (k + 1) 0) with hh
  have hold (a : ℕ) (ha : a < m.free) : h a = m.arrays a := Function.update_of_ne (by omega) _ _
  have hnew : (h m.free).length = k + 1 := by
    rw [hh, Function.update_self, List.length_replicate]
  have hnum : h.number p 0 (k + 1) = m.arrays.number p 0 (k + 1) := by
    rw [LimbHeap.number, Arrays.segment, hold p hp, LimbHeap.number, Arrays.segment]
  obtain ⟨c, g, hsub, hval, hfoot⟩ := SpecialArithmetic.sub1_run (h := h) (fun _ => rfl)
    (show 0 + (k + 1) ≤ (h m.free).length by omega)
    (show 0 + (k + 1) ≤ (h p).length by rw [hold p hp]; omega) 1
  have hkeep (a : ℕ) (ha : a < m.free) : g a = m.arrays a := by
    rw [eq_of_sameOutside hfoot (by omega), hold a ha]
  refine ⟨{ m with arrays := g, free := m.free + 1 }, _, c.toNat, ?_,
    ⟨extends_of_eq hm (Nat.le_succ _) hkeep, rfl, rfl, hkeep, (hfoot.length m.free).trans hnew,
      rfl⟩, by rw [← hnum]; exact hval⟩
  rw [predArray, if_neg (not_lt.mpr (Int.natCast_nonneg _)), Int.toNat_natCast, ← hh, hsub,
    Option.map_some]

/-- The low limbs of a number. -/
lemma number_mod (h : LimbHeap) {a k n : ℕ} (hk : k ≤ n) (hn : n ≤ (h a).length) :
    h.number a 0 k = h.number a 0 n % (2 ^ 32) ^ k := by
  obtain ⟨d, rfl⟩ := Nat.exists_eq_add_of_le hk
  exact number_low h hn rfl

/-- One less, reduced, from a number that was reduced before. -/
lemma eq_pred_mod {u v c d : ℕ} (hu : 0 < u) (hv : v < d) (h : v + 1 = u % d + d * c) :
    v = (u - 1) % d := by
  have hmod : v + 1 ≡ (u - 1) + 1 [MOD d] := by
    rw [Nat.sub_add_cancel hu, h, Nat.ModEq, Nat.add_mul_mod_self_left, Nat.mod_mod]
  have hcancel : v ≡ u - 1 [MOD d] := Nat.ModEq.add_right_cancel' 1 hmod
  rw [Nat.ModEq, Nat.mod_eq_of_lt hv] at hcancel
  exact hcancel

/-- **One less** than the absolute value of an object that is negative, in the low limbs. -/
lemma predArray_magnitude (hext : m.Extends m') (hx : x < m.objects) (hnx : m.Normalised x)
    (hneg : m.count x < 0) (hn : 1 ≤ n) (hle : n ≤ (m.count x).natAbs) :
    ∃ r, m'.predArray (m'.item x) n = some r ∧
      m'.NewArray r n ((m.magnitude x - 1) % (2 ^ 32) ^ n) := by
  have hcount := hnx.count_le
  have hcap := hcount.trans (hext.capacity x hx)
  obtain ⟨r, v, c, hrun, hnew, hval⟩ := predArray_run hext.wellFormed
    (hext.wellFormed.allocated x (by rwa [hext.objects])) hn (hle.trans hcap)
  have hlt : v < (2 ^ 32) ^ n := by
    rw [← hnew.number]
    exact r.arrays.number_lt (by rw [hnew.length, Nat.zero_add])
  rw [number_mod m'.arrays hle hcap, hext.number hx hcount, ← magnitude] at hval
  rw [← eq_pred_mod (hnx.magnitude_pos hneg.ne) hlt hval]
  exact ⟨r, hrun, hnew⟩

/-- All limbs take one less than the absolute value. -/
lemma pred_magnitude_mod (hnx : m.Normalised x) :
    (m.magnitude x - 1) % (2 ^ 32) ^ (m.count x).natAbs = m.magnitude x - 1 := by
  refine Nat.mod_eq_of_lt ((Nat.sub_le _ _).trans_lt ?_)
  exact m.arrays.number_lt (by rw [Nat.zero_add]; exact hnx.count_le)

/-- **One more**: a carry becomes a further limb, for which there must be room. -/
lemma addOne_run {rp p : ℕ} {h : LimbHeap} (hn : 1 ≤ n) (hr : n ≤ (h rp).length)
    (hp : n ≤ (h p).length)
    (hroom : (2 ^ 32) ^ n ≤ h.number p 0 n + 1 → n + 1 ≤ (h rp).length) :
    ∃ (e : ℕ) (h' : LimbHeap), addOne rp p n h = some (n + e, h') ∧ e ≤ 1 ∧
      h'.number rp 0 (n + e) = h.number p 0 n + 1 ∧ n + e ≤ (h rp).length ∧
      (e = 1 → (2 ^ 32) ^ n ≤ h.number p 0 n + 1) ∧ SameOutside (region rp 0 (n + e)) h h' := by
  obtain ⟨k, rfl⟩ : ∃ k, n = k + 1 := ⟨n - 1, by omega⟩
  obtain ⟨c, g, hadd, hval, hfoot⟩ := SpecialArithmetic.add1_run (h := h) (fun _ => rfl) rfl
    (show 0 + (k + 1) ≤ (h rp).length by omega) (show 0 + (k + 1) ≤ (h p).length by omega) 1
  change _ = h.number p 0 (k + 1) + 1 at hval
  by_cases hcarry : c = 0
  · rw [hcarry, SpecialArithmetic.toNat_zero_limb, Nat.mul_zero, Nat.add_zero] at hval
    refine ⟨0, g, ?_, Nat.zero_le 1, hval, hr, fun he => absurd he (by decide), hfoot⟩
    simp only [addOne, hadd, hcarry, ne_eq, not_true_eq_false, if_false, Option.bind_eq_bind,
      Option.bind_some, Nat.add_zero]
  · have hge := pow_le_mul_toNat hcarry (k + 1)
    have hover : (2 ^ 32) ^ (k + 1) ≤ h.number p 0 (k + 1) + 1 := by omega
    have hlen := hroom hover
    obtain ⟨h', hput, htop, hfoot'⟩ := LimbHeap.run_put (h := g) (a := rp) (i := k + 1)
      (by rw [hfoot.length]; exact hlen) c
    refine ⟨1, h', ?_, le_rfl, ?_, hlen, fun _ => hover, hfoot.join hfoot' (by omega) (by omega)⟩
    · simp only [addOne, hadd, ne_eq, hcarry, not_false_eq_true, if_true, hput,
        Option.bind_eq_bind, Option.bind_some, Option.map_some]
    · rw [h'.number_add (by rw [hfoot'.length, hfoot.length]; omega), Nat.zero_add, htop,
        LimbHeap.number_apart hfoot' (Apart.of_le (by omega)).symm, hval]

/-- A negative number by the bits that its complement has. -/
lemma Normalised.value_eq_negSucc (hx : m.Normalised x) (hneg : m.count x < 0) :
    m.value x = Int.negSucc (m.magnitude x - 1) := by
  have hpos := hx.magnitude_pos hneg.ne
  rw [value_of_count_neg hneg]
  omega

/-- The operands of a routine on limbs: the arrays `p` and `q` have the numbers `u` and `v` in `n`
and `k` limbs, and the objects have kept theirs. -/
structure LimbOperands (m s : IntegerXMemory) (p n u q k v : ℕ) : Prop where
  /-- The objects have kept their limbs. -/
  extends_old : m.Extends s
  /-- The first array is in use. -/
  first_lt : p < s.free
  /-- The limbs of the first array. -/
  first_length : n ≤ (s.arrays p).length
  /-- The first number. -/
  first : s.arrays.number p 0 n = u
  /-- The second array is in use. -/
  second_lt : q < s.free
  /-- The limbs of the second array. -/
  second_length : k ≤ (s.arrays q).length
  /-- The second number. -/
  second : s.arrays.number q 0 k = v

/-- Making room for the result. -/
lemma LimbOperands.resize {s : IntegerXMemory} {p u q k : ℕ} (h : m.LimbOperands s p n u q k v)
    (ht : target < m.objects) (size : ℕ) :
    m.LimbOperands (s.resize target size) p n u q k v ∧
      size ≤ (s.resize target size).capacity target := by
  have hold := h.extends_old
  obtain ⟨hext, hcap⟩ := extends_resize hold.wellFormed (x := target) (by rwa [hold.objects]) size
  obtain ⟨hfree, -, -, harrays⟩ := resize_keeps s target size
  have hp := harrays p h.first_lt
  have hq := harrays q h.second_lt
  refine ⟨⟨hold.trans hext, h.first_lt.trans_le hfree, by rw [hp]; exact h.first_length, ?_,
    h.second_lt.trans_le hfree, by rw [hq]; exact h.second_length, ?_⟩, hcap⟩
  · rw [LimbHeap.number, Arrays.segment, hp]
    exact h.first
  · rw [LimbHeap.number, Arrays.segment, hq]
    exact h.second

/-- The operands for a number that is not negative and one that is. -/
lemma operands_mixed {op1 op2 : ℕ} (hm : m.WellFormed) (h₁ : op1 < m.objects)
    (h₂ : op2 < m.objects) (hn₁ : m.Normalised op1) (hn₂ : m.Normalised op2)
    (hneg : m.count op2 < 0) :
    ∃ s, m.predArray (m.item op2) (m.count op2).natAbs = some s ∧ s.item = m.item ∧
      m.LimbOperands s (m.item op1) (m.count op1).natAbs (m.magnitude op1) m.free
        (m.count op2).natAbs (m.magnitude op2 - 1) := by
  obtain ⟨s, hpred, hnew⟩ := predArray_magnitude (.refl hm) h₂ hn₂ hneg (by omega) le_rfl
  rw [pred_magnitude_mod hn₂] at hnew
  have hf₁ := hm.allocated op1 h₁
  have hfree := hnew.free
  refine ⟨s, hpred, hnew.item, hnew.extends_old, by omega, ?_, ?_, by omega, hnew.length.ge,
    hnew.number⟩
  · rw [hnew.arrays _ hf₁]
    exact hn₁.count_le
  · rw [hnew.number_old hf₁, magnitude]

/-- The operands for two negative numbers, in the low limbs. -/
lemma operands_negative {op1 op2 k : ℕ} (hm : m.WellFormed) (h₁ : op1 < m.objects)
    (h₂ : op2 < m.objects) (hn₁ : m.Normalised op1) (hn₂ : m.Normalised op2)
    (hneg₁ : m.count op1 < 0) (hneg₂ : m.count op2 < 0) (hn : 1 ≤ n)
    (hle₁ : n ≤ (m.count op1).natAbs) (hk : 1 ≤ k) (hle₂ : k ≤ (m.count op2).natAbs) :
    ∃ r s : IntegerXMemory, m.predArray (m.item op1) n = some r ∧
      r.predArray (r.item op2) k = some s ∧
      m.LimbOperands s m.free n ((m.magnitude op1 - 1) % (2 ^ 32) ^ n) r.free k
        ((m.magnitude op2 - 1) % (2 ^ 32) ^ k) := by
  obtain ⟨r, hpred₁, hnew₁⟩ := predArray_magnitude (.refl hm) h₁ hn₁ hneg₁ hn hle₁
  obtain ⟨s, hpred₂, hnew₂⟩ := predArray_magnitude hnew₁.extends_old h₂ hn₂ hneg₂ hk hle₂
  have hfree₁ := hnew₁.free
  have hfree₂ := hnew₂.free
  refine ⟨r, s, hpred₁, hpred₂, hnew₁.extends_old.trans hnew₂.extends_old, by omega, ?_, ?_,
    by omega, hnew₂.length.ge, hnew₂.number⟩
  · rw [hnew₂.arrays _ (by omega), hnew₁.length]
  · rw [hnew₂.number_old (by omega), hnew₁.number]

end Parts

/-! ## Exclusive disjunctions -/

section Xor

variable {m : IntegerXMemory} {target op1 op2 x y : ℕ}

/-- **`bit_xor`** of a number that is not negative and one that is. -/
lemma bitXorMixed_outcome (hm : m.WellFormed) (ht : target < m.objects) (h₁ : op1 < m.objects)
    (h₂ : op2 < m.objects) (hn₁ : m.Normalised op1) (hn₂ : m.Normalised op2)
    (hnonneg : 0 ≤ m.count op1) (hneg : m.count op2 < 0) :
    ∃ m', m.bitXorMixed target op1 op2 = some m' ∧
      m.Outcome m' target (Int.negSucc (m.magnitude op1 ^^^ (m.magnitude op2 - 1))) := by
  obtain ⟨r, hpred, -, hops⟩ := operands_mixed hm h₁ h₂ hn₁ hn₂ hneg
  set b := (m.count op2).natAbs with hb
  obtain ⟨a, ha⟩ : ∃ a : ℕ, m.count op1 = a := ⟨(m.count op1).toNat, by omega⟩
  rw [ha, Int.natAbs_natCast] at hops
  obtain ⟨hops', hcap⟩ := hops.resize ht (max a b + 1)
  set s := r.resize target (max a b + 1) with hs
  rw [capacity] at hcap
  obtain ⟨g, hcombine, hval, hfoot⟩ := SpecialLogic.combine_run SpecialLogic.actsOnBits_xor
    (show b < a → b ≤ a from fun h => h.le) (fun h => not_lt.mp h) rfl rfl
    (show max a b ≤ (s.arrays (s.item target)).length by omega) hops'.first_length
    hops'.second_length
  rw [hops'.first, hops'.second] at hval
  obtain ⟨e, g', hone, -, hval', hroom, -, hfoot'⟩ := addOne_run (h := g)
    (p := s.item target) (show 1 ≤ max a b by omega)
    (show max a b ≤ (g (s.item target)).length by rw [hfoot.length]; omega)
    (by rw [hfoot.length]; omega) fun _ => by rw [hfoot.length]; exact hcap
  rw [hfoot.length] at hroom
  rw [hval] at hval'
  have hboth : SameOutside (region (s.item target) 0 (max a b + e)) s.arrays g' :=
    hfoot.join hfoot' (by omega) (by omega)
  obtain ⟨wsize, hnorm, hout⟩ := (hops'.extends_old.keepsOthers target).outcome_normalize ht
    (hboth.keptBelow s.free) hroom hval' true
  refine ⟨_, ?_, hout⟩
  simp only [bitXorMixed, ha, Int.toNat_natCast, ← hb, hpred, Option.bind_eq_bind,
    Option.bind_some, ← hs, hcombine, hone, hnorm]
  rfl

/-- **`bit_xor`** of two negative numbers. -/
lemma bitXorNegative_outcome (hm : m.WellFormed) (ht : target < m.objects) (h₁ : op1 < m.objects)
    (h₂ : op2 < m.objects) (hn₁ : m.Normalised op1) (hn₂ : m.Normalised op2)
    (hneg₁ : m.count op1 < 0) (hneg₂ : m.count op2 < 0) :
    ∃ m', m.bitXorNegative target op1 op2 = some m' ∧
      m.Outcome m' target (((m.magnitude op1 - 1) ^^^ (m.magnitude op2 - 1) : ℕ) : ℤ) := by
  obtain ⟨r₁, r, hpred₁, hpred₂, hops⟩ := operands_negative hm h₁ h₂ hn₁ hn₂ hneg₁ hneg₂
    (by omega) le_rfl (by omega) le_rfl
  rw [pred_magnitude_mod hn₁, pred_magnitude_mod hn₂] at hops
  set a := (m.count op1).natAbs with ha
  set b := (m.count op2).natAbs with hb
  obtain ⟨hops', hcap⟩ := hops.resize ht (max a b)
  set s := r.resize target (max a b) with hs
  have hcap' := hcap
  rw [capacity] at hcap'
  obtain ⟨g, hcombine, hval, hfoot⟩ := SpecialLogic.combine_run SpecialLogic.actsOnBits_xor
    (show b < a → b ≤ a from fun h => h.le) (fun h => not_lt.mp h) rfl rfl hcap'
    hops'.first_length hops'.second_length
  rw [hops'.first, hops'.second] at hval
  obtain ⟨wsize, hnorm, hout⟩ := (hops'.extends_old.keepsOthers target).outcome_normalize ht
    (hfoot.keptBelow s.free) hcap hval false
  refine ⟨_, ?_, hout⟩
  simp only [bitXorNegative, ← ha, ← hb, hpred₁, hpred₂, Option.bind_eq_bind, Option.bind_some,
    ← hs, hcombine, hnorm]
  rfl

/-- **`bit_xor`**, whose target is the first operand, for numbers with any signs. -/
lemma bitXor_outcome (hm : m.WellFormed) (hx : x < m.objects) (hy : y < m.objects) (hyx : y ≠ x)
    (hnx : m.Normalised x) (hny : m.Normalised y) :
    ∃ m', m.bitXor x x y = some m' ∧ m.Outcome m' x (Int.xor (m.value x) (m.value y)) := by
  rcases lt_or_ge (m.count x) 0 with hnegx | hposx
  · rw [hnx.value_eq_negSucc hnegx]
    rcases lt_or_ge (m.count y) 0 with hnegy | hposy
    · rw [hny.value_eq_negSucc hnegy, bitXor, if_neg (by omega), if_neg (by omega),
        if_neg (by omega)]
      exact bitXorNegative_outcome hm hx hx hy hnx hny hnegx hnegy
    · rw [value_of_count_nonneg hposy, bitXor, if_neg (by omega), if_neg (by omega), if_pos hposy]
      have hswap : Int.xor (Int.negSucc (m.magnitude x - 1)) (m.magnitude y) =
          Int.negSucc (m.magnitude y ^^^ (m.magnitude x - 1)) := by
        rw [Nat.xor_comm]
        rfl
      rw [hswap]
      exact bitXorMixed_outcome hm hx hy hx hny hnx hposy hnegx
  · rw [value_of_count_nonneg hposx]
    rcases lt_or_ge (m.count y) 0 with hnegy | hposy
    · rw [hny.value_eq_negSucc hnegy, bitXor, if_neg (by omega), if_pos hposx]
      exact bitXorMixed_outcome hm hx hx hy hnx hny hposx hnegy
    · rw [value_of_count_nonneg hposy]
      set a := (m.count x).toNat with ha
      set b := (m.count y).toNat with hb
      have hcx : (m.count x).natAbs = a := by omega
      have hcy : (m.count y).natAbs = b := by omega
      obtain ⟨hext, hcap⟩ := extends_resize hm hx (max a b)
      have hne : (m.resize x (max a b)).item y ≠ (m.resize x (max a b)).item x := fun he =>
        hyx (hext.wellFormed.owned y (by rwa [hext.objects]) x (by rwa [hext.objects]) he)
      have hnumx := hext.number hx hnx.count_le
      have hnumy := hext.number hy hny.count_le
      have hleny := hny.count_le.trans (hext.capacity y hy)
      rw [← magnitude, hcx] at hnumx
      rw [← magnitude, hcy] at hnumy
      rw [hcy, capacity] at hleny
      set s := m.resize x (max a b) with hs
      have hcap' := hcap
      rw [capacity] at hcap'
      obtain ⟨g, hxor, hval, hfoot⟩ := SpecialLogic.bitXor_run hne
        (show 0 + max a b ≤ (s.arrays (s.item x)).length by rwa [Nat.zero_add])
        (show 0 + b ≤ (s.arrays (s.item y)).length by rwa [Nat.zero_add])
      rw [hnumx, hnumy] at hval
      obtain ⟨wsize, hnorm, hout⟩ := (hext.keepsOthers x).outcome_normalize hx
        (hfoot.keptBelow s.free) hcap hval false
      refine ⟨_, ?_, hout⟩
      simp only [bitXor, if_pos (And.intro hposx hposy), ← ha, ← hb, ← hs, hxor, hnorm,
        Option.bind_eq_bind, Option.bind_some]
      rfl

end Xor

/-! ## Complements -/

section Not

variable {m : IntegerXMemory} {x : ℕ}

/-- **`bit_one_complement`** of an object in place. -/
lemma bitOneComplement_outcome (hm : m.WellFormed) (hx : x < m.objects) (hnx : m.Normalised x) :
    ∃ m', m.bitOneComplement x x = some m' ∧ m.Outcome m' x (Int.lnot (m.value x)) := by
  rcases lt_or_ge (m.count x) 0 with hneg | hnonneg
  · have hpos := hnx.magnitude_pos hneg.ne
    obtain ⟨hext, hcap⟩ := extends_resize hm hx (m.count x).natAbs
    obtain ⟨r, hrun, hout⟩ := subAbs_outcome hext hx hx hnx rfl (by omega) hcap
      (v := 1) hpos false
    refine ⟨r, ?_, ?_⟩
    · simp only [bitOneComplement, if_neg (not_le.mpr hneg)]
      exact hrun
    · rw [hnx.value_eq_negSucc hneg]
      exact hout
  · obtain ⟨n, hn⟩ : ∃ n : ℕ, m.count x = n := ⟨(m.count x).toNat, by omega⟩
    obtain ⟨hext, hcap⟩ := extends_resize hm hx (n + 1)
    have hnum := hext.number hx hnx.count_le
    rw [← magnitude, hn, Int.natAbs_natCast] at hnum
    have hval : Int.lnot (m.value x) = -((m.magnitude x + 1 : ℕ) : ℤ) := by
      rw [value_of_count_nonneg hnonneg]
      rfl
    rw [hval]
    set s := m.resize x (n + 1) with hs
    have hcap' := hcap
    rw [capacity] at hcap'
    by_cases h0 : n = 0
    · have hmag : m.magnitude x = 0 := magnitude_eq_zero (by rw [hn, h0]; rfl)
      obtain ⟨g, hput, hval', hfoot⟩ := LimbHeap.run_put (h := s.arrays) (a := s.item x) (i := 0)
        (by omega) 1
      have hout := (hext.keepsOthers x).outcome_conclude hx (hfoot.keptBelow s.free)
        (show 1 ≤ s.capacity x by omega) (hval'.trans (rfl : (1 : Natural32).toNat = 1))
        (fun _ => le_rfl) true
      refine ⟨s.conclude x g 1 true, ?_, ?_⟩
      · have hzero : (n : ℤ) = 0 := by omega
        simp only [bitOneComplement, hn, if_pos (Int.natCast_nonneg n), Int.toNat_natCast, ← hs,
          if_pos hzero, hput, Option.map_some]
      · rw [hmag]
        exact hout
    · obtain ⟨e, g, hone, he, hval', hroom, hover, hfoot⟩ := addOne_run (h := s.arrays)
        (p := s.item x) (show 1 ≤ n by omega) (show n ≤ (s.arrays (s.item x)).length by omega)
        (by omega) fun _ => hcap'
      rw [hnum] at hval' hover
      have hlow := (normalised_iff.mp hnx).2 (by omega)
      rw [hn, Int.natAbs_natCast] at hlow
      have hout := (hext.keepsOthers x).outcome_conclude hx (hfoot.keptBelow s.free) hroom hval'
        (fun _ => by
          rcases Nat.le_one_iff_eq_zero_or_eq_one.mp he with rfl | rfl
          · exact hlow.trans (Nat.le_succ _)
          · exact hover rfl) true
      refine ⟨_, ?_, hout⟩
      have hne : (n : ℤ) ≠ 0 := by omega
      simp only [bitOneComplement, hn, if_pos (Int.natCast_nonneg n), Int.toNat_natCast, ← hs,
        if_neg hne, hone, Option.map_some]

end Not

/-! ## New objects -/

section Values

variable {m : IntegerXMemory} {x y : ℕ}

/-- **`bit_xor_value`** -/
lemma bitXorValue_created (hm : m.WellFormed) (hy : y < m.objects)
    (hnx : m.Normalised x) (hny : m.Normalised y) :
    ∃ m', m.bitXorValue x y = some m' ∧ m.Created m' (Int.xor (m.value x) (m.value y)) := by
  have hcopy := created_identity hm hnx
  obtain ⟨hny', hvy⟩ := hcopy.others y hy hny
  obtain ⟨m', hrun, hout⟩ := bitXor_outcome hcopy.wellFormed (x := m.objects) (y := y)
    (by rw [hcopy.objects]; omega) (by rw [hcopy.objects]; omega) hy.ne hcopy.normalised hny'
  rw [hcopy.value, hvy] at hout
  exact ⟨m', hrun, hcopy.outcome hout⟩

/-- **`bit_not_value`** -/
lemma bitNotValue_created (hm : m.WellFormed) (hnx : m.Normalised x) :
    ∃ m', m.bitNotValue x = some m' ∧ m.Created m' (Int.lnot (m.value x)) := by
  have hcopy := created_identity hm hnx
  obtain ⟨m', hrun, hout⟩ := bitOneComplement_outcome hcopy.wellFormed (x := m.objects)
    (by rw [hcopy.objects]; omega) hcopy.normalised
  rw [hcopy.value] at hout
  exact ⟨m', hrun, hcopy.outcome hout⟩

/-- The two operands are found again. -/
lemma xor_xor_cancel (u v : ℤ) : Int.xor (Int.xor u v) v = u ∧ Int.xor (Int.xor u v) u = v := by
  constructor
  · refine TwosComplement.eq_of_testBit_eq fun i => ?_
    simp only [Int.testBit_lxor, Bool.xor_assoc, Bool.xor_self, Bool.xor_false]
  · refine TwosComplement.eq_of_testBit_eq fun i => ?_
    rw [Int.testBit_lxor, Int.testBit_lxor, Bool.xor_comm, ← Bool.xor_assoc, Bool.xor_self,
      Bool.false_xor]

/-- **Exclusive disjunctions and complements.** For normalised objects `x` and `y` with any signs,
`bit_xor_value` and `bit_not_value` create a normalised object, whose bits are the exclusive
disjunctions of the bits of `x` and `y` and the complements of the bits of `x`. A second exclusive
disjunction with `y` creates the number `x`, one with `x` the number `y`. -/
theorem xor_not_bits (m : IntegerXMemory) (hm : m.WellFormed) (x y : ℕ) (hx : x < m.objects)
    (hy : y < m.objects) (hnx : m.Normalised x) (hny : m.Normalised y) :
    (∃ (m' : IntegerXMemory) (v : ℤ), m.bitXorValue x y = some m' ∧ m.Created m' v ∧
      (∀ i, v.testBit i = ((m.value x).testBit i ^^ (m.value y).testBit i)) ∧
      (∃ m'', m'.bitXorValue m.objects y = some m'' ∧ m'.Created m'' (m.value x)) ∧
      ∃ m'', m'.bitXorValue m.objects x = some m'' ∧ m'.Created m'' (m.value y)) ∧
    ∃ (m' : IntegerXMemory) (v : ℤ), m.bitNotValue x = some m' ∧ m.Created m' v ∧
      ∀ i, v.testBit i = !(m.value x).testBit i := by
  constructor
  · obtain ⟨m', hrun, hc⟩ := bitXorValue_created hm hy hnx hny
    obtain ⟨hnx', hvx⟩ := hc.others x hx hnx
    obtain ⟨hny', hvy⟩ := hc.others y hy hny
    have hobj := hc.objects
    obtain ⟨my, hrun₁, hc₁⟩ := bitXorValue_created hc.wellFormed (show y < m'.objects by omega)
      hc.normalised hny'
    obtain ⟨mx, hrun₂, hc₂⟩ := bitXorValue_created hc.wellFormed (show x < m'.objects by omega)
      hc.normalised hnx'
    rw [hc.value, hvy, (xor_xor_cancel _ _).1] at hc₁
    rw [hc.value, hvx, (xor_xor_cancel _ _).2] at hc₂
    exact ⟨m', _, hrun, hc, Int.testBit_lxor _ _, ⟨my, hrun₁, hc₁⟩, mx, hrun₂, hc₂⟩
  · obtain ⟨m', hrun, hc⟩ := bitNotValue_created hm hnx
    exact ⟨m', _, hrun, hc, Int.testBit_lnot _⟩

/-- The numbers `-1` and `5`. -/
theorem xor_not_bits_five :
    (∃ (m' : IntegerXMemory) (v : ℤ), (pair [1] [5] (-1) 1).bitXorValue 0 1 = some m' ∧
      (pair [1] [5] (-1) 1).Created m' v ∧
      (∀ i, v.testBit i = (((pair [1] [5] (-1) 1).value 0).testBit i ^^
        ((pair [1] [5] (-1) 1).value 1).testBit i)) ∧
      (∃ m'', m'.bitXorValue 2 1 = some m'' ∧
        m'.Created m'' ((pair [1] [5] (-1) 1).value 0)) ∧
      ∃ m'', m'.bitXorValue 2 0 = some m'' ∧ m'.Created m'' ((pair [1] [5] (-1) 1).value 1)) ∧
    ∃ (m' : IntegerXMemory) (v : ℤ), (pair [1] [5] (-1) 1).bitNotValue 0 = some m' ∧
      (pair [1] [5] (-1) 1).Created m' v ∧
      ∀ i, v.testBit i = !((pair [1] [5] (-1) 1).value 0).testBit i :=
  xor_not_bits (pair [1] [5] (-1) 1) ⟨by decide, by decide⟩ 0 1 (by decide) (by decide)
    ⟨by decide, by decide⟩ ⟨by decide, by decide⟩

end Values

end IntegerXMemory

end EiffelWeb
