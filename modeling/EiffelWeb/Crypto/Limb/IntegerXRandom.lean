import EiffelWeb.Crypto.Limb.IntegerXLogic
import EiffelWeb.Crypto.Limb.IntegerXMul

set_option relaxedAutoImplicit false
set_option autoImplicit false

/-!
# Random numbers below a bound

The routine `urandomm` of `INTEGER_X_RANDOM` draws numbers with as many bits as the greatest allowed
one needs, until one is below the bound, but no more than 80. If the counter is zero after that, the
bound is taken away from the number, which is right if the last number was not below the bound. The
counter is also zero if the eightieth number was the first one below it.

The generator is any sequence of numbers with no more bits than asked for.

## Main definitions

* `IntegerXMemory.randomBits` — the number of bits asked for.
* `IntegerXMemory.urandommLoop`, `IntegerXMemory.urandomm`

## Main results

* `IntegerXMemory.Normalised.randomBits_eq` — the number of bits of the greatest allowed number.
* `IntegerXMemory.urandommLoop_run` — the first number below the bound, or the last number.
* `IntegerXMemory.urandomm_outcome` — what is left in the target.
* `IntegerXMemory.urandomm_lt_iff` — when it is below the bound.
-/

namespace EiffelWeb

open Limbs Arrays

namespace IntegerXMemory

/-- `pow2_p (in)`. -/
def pow2P (x : Natural32) : Bool := x &&& (x - 1) = 0

/-- The loop of `urandomm` over the limbs below the highest one. -/
def pow2Loop (np : ℕ) (h : LimbHeap) : (k npOffset : ℕ) → Option Bool
  | 0, _ => some true
  | k + 1, npOffset =>
    (h.item np npOffset).bind fun x => if x ≠ 0 then some false else pow2Loop np h k (npOffset + 1)

/-- The local `nbits` of `urandomm`. -/
def randomBits (np size : ℕ) (h : LimbHeap) : Option ℕ := do
  let top ← h.item np (size - 1)
  let pow2 ← if pow2P top then pow2Loop np h (size - 1) 0 else some false
  return size * 32 - leadingZeros top - (if pow2 then 1 else 0)

/-- `bits_to_limbs (n)`. -/
def bitsToLimbs (n : ℕ) : ℕ := (n + 32 - 1) / 32

/-- `state.randget (target, offset, nbits)`, for a generator that delivers the number `draw`. -/
def randget (target offset nbits draw : ℕ) (h : LimbHeap) : Option LimbHeap :=
  if offset + bitsToLimbs nbits ≤ (h target).length then
    some (h.store target offset (ofNat 32 (bitsToLimbs nbits) draw))
  else none

/-- The loop of `urandomm`, which returns the local `count`. The numbers drawn are counted from
zero. -/
def urandommLoop (rp np size nbits : ℕ) (draws : ℕ → ℕ) : ℕ → LimbHeap → Option (ℕ × LimbHeap)
  | 0, h => some (0, h)
  | count + 1, h => do
    let h ← randget rp 0 nbits (draws (79 - count)) h
    let cmpL ← SpecialComparison.cmp rp 0 np 0 size h
    if cmpL < 0 then return (count, h)
    else urandommLoop rp np size nbits draws count h

/-- The array `np` of `urandomm` with the limbs of the bound: a copy if the target has this array.
-/
def boundArray (target n : ℕ) (m : IntegerXMemory) : Option (ℕ × IntegerXMemory) :=
  if m.item n = m.item target then
    (m.copyArray (m.item n) (m.count n).natAbs).map fun r => (m.free, r)
  else some (m.item n, m)

/-- The end of `urandomm`: the bound is taken away if no numbers are left. -/
def correct (count rp np size : ℕ) (h : LimbHeap) : Option LimbHeap :=
  if count = 0 then (SpecialArithmetic.subN rp 0 rp 0 np 0 size h).map Prod.snd else some h

/-- `urandomm (target, state, n)`. -/
def urandomm (target n : ℕ) (draws : ℕ → ℕ) (m : IntegerXMemory) : Option IntegerXMemory :=
  let size := (m.count n).natAbs
  if size = 0 then none
  else do
    let nbits ← randomBits (m.item n) size m.arrays
    if nbits = 0 then return { m with count := Function.update m.count target 0 }
    else do
      let (np, m) ← m.boundArray target n
      let m := m.resize target size
      let rp := m.item target
      let h ← m.arrays.put rp (size - 1) 0
      let (count, h) ← urandommLoop rp np size nbits draws 80 h
      let h ← correct count rp np size h
      let size ← SpecialUtility.normalize rp 0 size h
      return m.conclude target h size false

variable {m : IntegerXMemory} {target n : ℕ}

/-! ## The number of bits -/

lemma pow2P_iff {x : Natural32} (hx : x ≠ 0) : pow2P x = true ↔ ∃ i, x.toNat = 2 ^ i := by
  have hne : x.toNat ≠ 0 := (BitVec.toNat_pos_of_ne_zero hx).ne'
  have hlt := x.isLt
  have hpred : (x - 1).toNat = x.toNat - 1 := by
    rw [BitVec.toNat_sub]
    show (2 ^ 32 - 1 + x.toNat) % 2 ^ 32 = _
    omega
  rw [pow2P, decide_eq_true_iff, ← BitVec.toNat_inj, BitVec.toNat_and, hpred]
  exact Nat.and_sub_one_eq_zero_iff_isPowerOfTwo hne

lemma pow2Loop_eq {np : ℕ} {h : LimbHeap} (k npOffset : ℕ) (hlen : npOffset + k ≤ (h np).length) :
    pow2Loop np h k npOffset = some (decide (h.number np npOffset k = 0)) := by
  induction k generalizing npOffset with
  | zero =>
    rw [pow2Loop, LimbHeap.number_zero]
    rfl
  | succ k ih =>
    obtain ⟨x, hx, hnum⟩ := SpecialArithmetic.number_succ h (a := np) (i := npOffset) (n := k)
      (by omega)
    rw [pow2Loop, hx, Option.bind_some, hnum, ih _ (by omega)]
    by_cases hzero : x = 0
    · rw [if_neg (not_not.mpr hzero), hzero, SpecialArithmetic.toNat_zero_limb, Nat.zero_add]
      congr 2
      rw [eq_iff_iff, Nat.mul_eq_zero]
      exact ⟨Or.inr, fun h0 => h0.resolve_left (by decide)⟩
    · have hne : x.toNat ≠ 0 := (BitVec.toNat_pos_of_ne_zero hzero).ne'
      rw [if_pos hzero, decide_eq_false (by omega)]

/-- A number of limbs is a power of two if and only if its highest limb is one and the other ones
are zero. -/
lemma exists_eq_two_pow_iff {k low top : ℕ} (hlow : low < (2 ^ 32) ^ k) (htop : 0 < top) :
    (∃ j, low + (2 ^ 32) ^ k * top = 2 ^ j) ↔ low = 0 ∧ ∃ i, top = 2 ^ i := by
  constructor
  · rintro ⟨j, hj⟩
    have hle : (2 ^ 32) ^ k ≤ 2 ^ j := by
      rw [← hj]
      exact (Nat.le_mul_of_pos_right _ htop).trans (Nat.le_add_left _ _)
    rw [← Nat.pow_mul] at hle hj hlow
    obtain ⟨i, rfl⟩ := Nat.exists_eq_add_of_le ((Nat.pow_le_pow_iff_right (by decide)).mp hle)
    rw [pow_add] at hj
    have hzero : low = 0 := by
      have hmod := congrArg (· % 2 ^ (32 * k)) hj
      simpa only [Nat.add_mul_mod_self_left, Nat.mod_eq_of_lt hlow, Nat.mul_mod_right] using hmod
    rw [hzero, Nat.zero_add] at hj
    exact ⟨hzero, i, Nat.eq_of_mul_eq_mul_left (Nat.two_pow_pos _) hj⟩
  · rintro ⟨rfl, i, rfl⟩
    exact ⟨32 * k + i, by rw [Nat.zero_add, pow_add, Nat.pow_mul]⟩

/-- The number of bits of the predecessor. -/
lemma size_pred {v : ℕ} (hv : 0 < v) [Decidable (∃ j, v = 2 ^ j)] :
    v.size - (if ∃ j, v = 2 ^ j then 1 else 0) = (v - 1).size := by
  split
  case isTrue h =>
    obtain ⟨j, rfl⟩ := h
    rw [Nat.size_pow, Nat.add_sub_cancel]
    refine le_antisymm ?_ (Nat.size_le.mpr (Nat.sub_lt hv Nat.one_pos))
    rcases Nat.eq_zero_or_pos j with rfl | hj
    · exact Nat.zero_le _
    · obtain ⟨i, rfl⟩ : ∃ i, j = i + 1 := ⟨j - 1, by omega⟩
      refine Nat.lt_size.mpr ?_
      have hpos := Nat.two_pow_pos i
      rw [pow_succ]
      omega
  case isFalse h =>
    rw [Nat.sub_zero]
    refine le_antisymm ?_ (Nat.size_le_size (Nat.sub_le v 1))
    obtain ⟨s, hs⟩ : ∃ s, v.size = s + 1 := ⟨v.size - 1, by have := Nat.size_pos.mpr hv; omega⟩
    have hle : 2 ^ s ≤ v := Nat.lt_size.mp (by omega)
    have hne : v ≠ 2 ^ s := fun he => h ⟨s, he⟩
    rw [hs]
    exact Nat.lt_size.mpr (by omega)

/-- **The number of bits asked for** is the one of the greatest allowed number. -/
lemma Normalised.randomBits_eq (hn : m.Normalised n) (hne : (m.count n).natAbs ≠ 0) :
    randomBits (m.item n) (m.count n).natAbs m.arrays = some ((m.magnitude n - 1).size) := by
  obtain ⟨top, htop, hbits⟩ := hn.bits_eq hne
  have hpos := hn.magnitude_pos (by omega)
  have hcap := hn.count_le
  rw [capacity] at hcap
  obtain ⟨k, hk⟩ : ∃ k, (m.count n).natAbs = k + 1 := ⟨(m.count n).natAbs - 1, by omega⟩
  obtain ⟨top', htop', hnum⟩ := m.arrays.exists_last (a := m.item n) (i := 0) (n := k) (by omega)
  rw [hk, Nat.add_sub_cancel] at htop
  rw [Nat.zero_add, htop] at htop'
  obtain rfl := Option.some.inj htop'
  have hne0 : top ≠ 0 := by
    have := hn.top (by omega)
    rw [hk, Nat.add_sub_cancel, htop] at this
    exact fun h0 => this (congrArg some h0)
  have htoppos : 0 < top.toNat := BitVec.toNat_pos_of_ne_zero hne0
  have hlow : m.arrays.number (m.item n) 0 k < (2 ^ 32) ^ k := m.arrays.number_lt (by omega)
  have hiff := exists_eq_two_pow_iff hlow htoppos
  rw [← hnum, ← hk, ← magnitude] at hiff
  classical
  rw [← size_pred hpos, ← hbits, randomBits, hk, Nat.add_sub_cancel, htop]
  by_cases hp : pow2P top = true
  · have hpow2 : pow2Loop (m.item n) m.arrays k 0 = some (decide (∃ j, m.magnitude n = 2 ^ j)) := by
      rw [pow2Loop_eq k 0 (by omega)]
      congr 2
      rw [eq_iff_iff, hiff, and_iff_left ((pow2P_iff hne0).mp hp)]
    simp only [Option.bind_eq_bind, Option.bind_some, if_pos hp, hpow2, decide_eq_true_eq]
    rfl
  · have hnot : ¬ ∃ j, m.magnitude n = 2 ^ j := fun h => hp ((pow2P_iff hne0).mpr (hiff.mp h).2)
    simp only [Option.bind_eq_bind, Option.bind_some, if_neg hp, if_neg hnot]
    rfl

/-! ## The loop -/

section Loop

variable {rp np size nbits v : ℕ} {h : LimbHeap}

/-- **`randget`**: the number drawn, if the limbs above are zero. -/
lemma randget_run {draw : ℕ} (hr : size ≤ (h rp).length) (hl : bitsToLimbs nbits ≤ size)
    (hdraw : draw < 2 ^ nbits)
    (hzero : h.number rp (bitsToLimbs nbits) (size - bitsToLimbs nbits) = 0) :
    ∃ h', randget rp 0 nbits draw h = some h' ∧ h'.number rp 0 size = draw ∧
      h'.number rp (bitsToLimbs nbits) (size - bitsToLimbs nbits) = 0 ∧
      SameOutside (region rp 0 size) h h' := by
  have hroom : 0 + bitsToLimbs nbits ≤ (h rp).length := by omega
  obtain ⟨hnum, hfoot⟩ := LimbHeap.run_store hroom draw
  have hlt : draw < (2 ^ 32) ^ bitsToLimbs nbits := by
    refine hdraw.trans_le ?_
    rw [← Nat.pow_mul]
    refine Nat.pow_le_pow_right (by decide) ?_
    rw [bitsToLimbs]
    omega
  rw [Nat.mod_eq_of_lt hlt] at hnum
  have hupper := (LimbHeap.number_apart hfoot
    (Apart.of_le (show 0 + bitsToLimbs nbits ≤ bitsToLimbs nbits by omega))).trans hzero
  refine ⟨_, if_pos hroom, ?_, hupper, hfoot.mono ?_⟩
  · obtain ⟨d, hd⟩ := Nat.exists_eq_add_of_le hl
    rw [hd, Nat.add_sub_cancel_left] at hupper
    rw [hd, LimbHeap.number_add _ (by rw [hfoot.length]; exact hroom), hnum, Nat.zero_add, hupper,
      Nat.mul_zero, Nat.add_zero]
  · simp only [region]
    omega

/-- **The loop of `urandomm`** stops at the first number that is below the bound, or after the last
number. If `c` numbers are left then, the number of index `79 - c` was drawn last.

**Proof sketch.** Induction on the number of draws that are left. -/
lemma urandommLoop_run {draws : ℕ → ℕ} (hne : np ≠ rp) (hr : size ≤ (h rp).length)
    (hn : size ≤ (h np).length) (hl : bitsToLimbs nbits ≤ size) (hv : h.number np 0 size = v)
    (hdraws : ∀ j, draws j < 2 ^ nbits)
    (hzero : h.number rp (bitsToLimbs nbits) (size - bitsToLimbs nbits) = 0) (count : ℕ) :
    ∃ c h', urandommLoop rp np size nbits draws (count + 1) h = some (c, h') ∧ c ≤ count ∧
      h'.number rp 0 size = draws (79 - c) ∧
      (∀ j, 79 - count ≤ j → j < 79 - c → v ≤ draws j) ∧ (c ≠ 0 → draws (79 - c) < v) ∧
      SameOutside (region rp 0 size) h h' := by
  induction count generalizing h with
  | zero =>
    obtain ⟨g, hget, hnum, -, hfoot⟩ := randget_run hr hl (hdraws (79 - 0)) hzero
    have hcmp := SpecialComparison.cmp_eq g (a := rp) (i := 0) (b := np) (j := 0) (n := size)
      (by rw [hfoot.length]; omega) (by rw [hfoot.length]; omega)
    refine ⟨0, g, ?_, le_rfl, hnum, fun j hj hj' => by omega, fun h0 => absurd rfl h0, hfoot⟩
    simp only [urandommLoop, hget, hcmp, Option.bind_eq_bind, Option.bind_some]
    split <;> rfl
  | succ count ih =>
    obtain ⟨g, hget, hnum, hupper, hfoot⟩ := randget_run hr hl (hdraws (79 - (count + 1))) hzero
    have hkeep : g.number np 0 size = v := by
      rw [LimbHeap.number_apart hfoot fun he => absurd he.symm hne, hv]
    have hcmp := SpecialComparison.cmp_eq g (a := rp) (i := 0) (b := np) (j := 0) (n := size)
      (by rw [hfoot.length]; omega) (by rw [hfoot.length]; omega)
    rw [hnum, hkeep] at hcmp
    by_cases hlt : draws (79 - (count + 1)) < v
    · refine ⟨count + 1, g, ?_, le_rfl, hnum, fun j hj hj' => by omega, fun _ => hlt, hfoot⟩
      rw [urandommLoop, hget]
      simp only [Option.bind_eq_bind, Option.bind_some, hcmp,
        SpecialComparison.order_eq_of_lt hlt]
      rfl
    · obtain ⟨c, h', hloop, hc, hval, hall, hlast, hfoot'⟩ := ih (h := g)
        (by rw [hfoot.length]; exact hr) (by rw [hfoot.length]; exact hn) hkeep hupper
      have hnot : ¬ SpecialComparison.order (draws (79 - (count + 1))) v < 0 := by
        rw [SpecialComparison.order, if_neg hlt]
        split <;> decide
      refine ⟨c, h', ?_, by omega, hval, fun j hj hj' => ?_, hlast, hfoot.trans hfoot'⟩
      · rw [urandommLoop, hget]
        simp only [Option.bind_eq_bind, Option.bind_some, hcmp, if_neg hnot, hloop]
      · rcases Nat.lt_or_ge j (79 - count) with hj'' | hj''
        · have he : j = 79 - (count + 1) := by omega
          rw [he]
          exact not_lt.mp hlt
        · exact hall j hj'' hj'

end Loop

/-! ## The outcome -/

/-- The array with the bound: a copy if the target has this array. -/
lemma boundArray_run (hm : m.WellFormed) (ht : target < m.objects) (hn : n < m.objects)
    (hnorm : m.Normalised n) :
    ∃ np r, m.boundArray target n = some (np, r) ∧ m.Extends r ∧ np < r.free ∧
      np ≠ r.item target ∧ (m.count n).natAbs ≤ (r.arrays np).length ∧
      r.arrays.number np 0 (m.count n).natAbs = m.magnitude n := by
  have hft := hm.allocated target ht
  by_cases hsame : m.item n = m.item target
  · obtain ⟨r, hcopy, hext, hfree, hitem, -, hlen, hnum⟩ := copyArray_run hm hn hnorm.count_le
    refine ⟨m.free, r, by rw [boundArray, if_pos hsame, hcopy, Option.map_some], hext, by omega, ?_,
      hlen.ge, hnum⟩
    rw [hitem]
    omega
  · exact ⟨m.item n, m, if_neg hsame, .refl hm, hm.allocated n hn, hsame, hnorm.count_le, rfl⟩

/-- The limbs that `randget` covers: all limbs of the bound, or all but the highest one. -/
lemma Normalised.bitsToLimbs_size (hnorm : m.Normalised n) (hpos : 1 < m.magnitude n) :
    bitsToLimbs (m.magnitude n - 1).size ≤ (m.count n).natAbs ∧
      (m.count n).natAbs ≤ bitsToLimbs (m.magnitude n - 1).size + 1 := by
  have hne : (m.count n).natAbs ≠ 0 := fun h0 => by
    rw [magnitude_eq_zero h0] at hpos
    omega
  have hlow := (normalised_iff.mp hnorm).2 (by omega)
  have hcap := hnorm.count_le
  rw [capacity] at hcap
  have hlt : m.magnitude n < (2 ^ 32) ^ (m.count n).natAbs := m.arrays.number_lt (by omega)
  rw [← Nat.pow_mul] at hlow hlt
  have hupper : (m.magnitude n - 1).size ≤ 32 * (m.count n).natAbs := Nat.size_le.mpr (by omega)
  have hlower : 32 * ((m.count n).natAbs - 1) < (m.magnitude n).size := Nat.lt_size.mpr hlow
  classical
  have hpred := size_pred (show 0 < m.magnitude n by omega)
  have hone : (if ∃ j, m.magnitude n = 2 ^ j then 1 else 0) ≤ 1 := by split <;> omega
  rw [bitsToLimbs]
  omega

/-- **What `urandomm` leaves in the target**: the first number below the bound, if it is among the
first 79 numbers, and otherwise the last number less the bound, reduced to the limbs of the bound.
-/
lemma urandomm_outcome (hm : m.WellFormed) (ht : target < m.objects) (hn : n < m.objects)
    (hnorm : m.Normalised n) (hpos : 1 < m.magnitude n) {draws : ℕ → ℕ}
    (hdraws : ∀ j, draws j < 2 ^ (m.magnitude n - 1).size) :
    ∃ c ≤ 79, (∀ j < 79 - c, m.magnitude n ≤ draws j) ∧
      (c ≠ 0 → draws (79 - c) < m.magnitude n) ∧
      ∃ m', m.urandomm target n draws = some m' ∧ m.Outcome m' target
        ((if c = 0 then (draws 79 + (2 ^ 32) ^ (m.count n).natAbs - m.magnitude n) %
          (2 ^ 32) ^ (m.count n).natAbs else draws (79 - c) : ℕ) : ℤ) := by
  have hne : (m.count n).natAbs ≠ 0 := fun h0 => by
    rw [magnitude_eq_zero h0] at hpos
    omega
  have hbits := hnorm.randomBits_eq hne
  obtain ⟨hle, hge⟩ := hnorm.bitsToLimbs_size hpos
  have hnbits : (m.magnitude n - 1).size ≠ 0 := by
    have := Nat.size_pos.mpr (show 0 < m.magnitude n - 1 by omega)
    omega
  obtain ⟨np, r₀, hbound, hext₀, hnp, hnpt, hlen₀, hnum₀⟩ := boundArray_run hm ht hn hnorm
  have ht₀ : target < r₀.objects := by rwa [hext₀.objects]
  set size := (m.count n).natAbs with hsize
  set nbits := (m.magnitude n - 1).size with hnb
  obtain ⟨hext, hroom⟩ := extends_resize hext₀.wellFormed ht₀ size
  obtain ⟨-, hself, -, harrays⟩ := resize_keeps r₀ target size
  set r := r₀.resize target size with hr
  have hnpr : np ≠ r.item target := by
    rcases hself with he | hfree
    · rwa [he]
    · omega
  rw [capacity] at hroom
  obtain ⟨g, hput, htop, hfoot⟩ := LimbHeap.run_put (h := r.arrays) (a := r.item target)
    (i := size - 1) (by omega) 0
  have hzero : g.number (r.item target) (bitsToLimbs nbits) (size - bitsToLimbs nbits) = 0 := by
    rcases Nat.lt_or_ge (bitsToLimbs nbits) size with hlt | hge'
    · have hl : bitsToLimbs nbits = size - 1 := by omega
      have hone : size - (size - 1) = 1 := by omega
      rw [hl, hone, htop]
      rfl
    · rw [Nat.sub_eq_zero_of_le hge', LimbHeap.number_zero]
  have hnp' : r.arrays np = r₀.arrays np := harrays np hnp
  have hnumg : g.number np 0 size = m.magnitude n := by
    rw [LimbHeap.number_apart hfoot fun he => absurd he.symm hnpr, LimbHeap.number,
      Arrays.segment, hnp']
    exact hnum₀
  have hleng : size ≤ (g np).length := by
    rw [hfoot.length, hnp']
    exact hlen₀
  obtain ⟨c, h₁, hloop, hc, hval, hall, hlast, hfoot₁⟩ := urandommLoop_run hnpr
    (show size ≤ (g (r.item target)).length by rw [hfoot.length]; exact hroom) hleng hle hnumg
    hdraws hzero 79
  have hfoot₂ : SameOutside (region (r.item target) 0 size) r.arrays h₁ :=
    hfoot.join hfoot₁ (by omega) (by omega)
  -- the bound is taken away if the counter is zero
  obtain ⟨h₂, hsub, hval₂, hfoot₃⟩ : ∃ h₂, correct c (r.item target) np size h₁ = some h₂ ∧
      h₂.number (r.item target) 0 size = (if c = 0 then
        (draws 79 + (2 ^ 32) ^ size - m.magnitude n) % (2 ^ 32) ^ size else draws (79 - c)) ∧
      SameOutside (region (r.item target) 0 size) r.arrays h₂ := by
    by_cases hc0 : c = 0
    · have hlent : 0 + size ≤ (h₁ (r.item target)).length := by
        rw [hfoot₂.length]
        omega
      have hlenn : 0 + size ≤ (h₁ np).length := by
        rw [hfoot₁.length]
        omega
      have hnumn : h₁.number np 0 size = m.magnitude n := by
        rw [LimbHeap.number_apart hfoot₁ fun he => absurd he.symm hnpr, hnumg]
      obtain ⟨hnum, hfoot'⟩ := LimbHeap.run_store hlent
        (h₁.number (r.item target) 0 size + (2 ^ 32) ^ size - h₁.number np 0 size)
      rw [hval, hnumn, hc0, Nat.sub_zero] at hnum hfoot'
      refine ⟨_, ?_, by rw [if_pos hc0]; exact hnum, hfoot₂.trans hfoot'⟩
      rw [correct, if_pos hc0, SpecialArithmetic.subN_eq hlent hlent hlenn (fun _ => Or.inl le_rfl)
        (fun _ => Or.inl le_rfl), Option.map_some, hval, hnumn, hc0]
    · exact ⟨h₁, by rw [correct, if_neg hc0], by rw [if_neg hc0, hval], hfoot₂⟩
  obtain ⟨wsize, hnormalize, hout⟩ := ((hext₀.trans hext).keepsOthers target).outcome_normalize ht
    (hfoot₃.keptBelow r.free) hroom hval₂ false
  refine ⟨c, hc, fun j hj => hall j (by omega) hj, hlast, _, ?_, hout⟩
  simp only [urandomm, ← hsize, if_neg hne, hbits, if_neg hnbits, hbound, ← hr, hput, hloop, hsub,
    hnormalize, Option.bind_eq_bind, Option.bind_some]
  rfl

/-- The bound one: no bit is asked for. -/
lemma urandomm_one (hm : m.WellFormed) (ht : target < m.objects) (hnorm : m.Normalised n)
    (hone : m.magnitude n = 1) (draws : ℕ → ℕ) :
    ∃ m', m.urandomm target n draws = some m' ∧ m.Outcome m' target 0 := by
  have hne : (m.count n).natAbs ≠ 0 := fun h0 => by
    rw [magnitude_eq_zero h0] at hone
    omega
  have hbits := hnorm.randomBits_eq hne
  rw [hone, Nat.sub_self, Nat.size_zero] at hbits
  refine ⟨_, ?_, outcome_zero hm ht⟩
  simp only [urandomm, if_neg hne, hbits, Option.bind_eq_bind, Option.bind_some, if_true]
  rfl

/-- **Random numbers below a bound.** For a normalised bound `n` that is greater than zero and every
sequence of numbers with no more bits than `n - 1`, `urandomm` leaves in the target, which may be
`n`, a normalised number from 0 to `n - 1` if and only if one of the first 79 numbers is below `n`,
or the eightieth number is not, or the bound taken away from the eightieth number wraps around to a
number below `n` again. -/
theorem urandomm_lt_iff (m : IntegerXMemory) (hm : m.WellFormed) (target n : ℕ)
    (ht : target < m.objects) (hn : n < m.objects) (hnorm : m.Normalised n)
    (hpos : 0 < m.value n) (draws : ℕ → ℕ)
    (hdraws : ∀ j, draws j < 2 ^ (m.value n - 1).toNat.size) :
    (∃ m' v, m.urandomm target n draws = some m' ∧ m.Outcome m' target v ∧ 0 ≤ v ∧
      v < m.value n) ↔
    (∃ j < 79, (draws j : ℤ) < m.value n) ∨ m.value n ≤ draws 79 ∨
      (2 ^ 32) ^ (m.count n).natAbs + (draws 79 : ℤ) < 2 * m.value n := by
  have hval : m.value n = m.magnitude n := by
    rw [← natAbs_value]
    omega
  have hpred : (m.value n - 1).toNat = m.magnitude n - 1 := by omega
  rw [hpred] at hdraws
  rcases Nat.lt_or_ge 1 (m.magnitude n) with hgt | hle
  · obtain ⟨c, hc, hall, hlast, m', hrun, hout⟩ := urandomm_outcome hm ht hn hnorm hgt hdraws
    have hcap := hnorm.count_le
    rw [capacity] at hcap
    have hlt : m.magnitude n < (2 ^ 32) ^ (m.count n).natAbs := m.arrays.number_lt (by omega)
    have hbound : draws 79 < 2 * m.magnitude n := by
      obtain ⟨s, hs⟩ : ∃ s, (m.magnitude n - 1).size = s + 1 := by
        refine ⟨(m.magnitude n - 1).size - 1, ?_⟩
        have := Nat.size_pos.mpr (show 0 < m.magnitude n - 1 by omega)
        omega
      have hlow : 2 ^ s ≤ m.magnitude n - 1 := Nat.lt_size.mp (by omega)
      have hdraw := hdraws 79
      rw [hs, pow_succ] at hdraw
      omega
    have hiff (v : ℕ) (hv : m.Outcome m' target v) :
        (∃ m' v, m.urandomm target n draws = some m' ∧ m.Outcome m' target v ∧ 0 ≤ v ∧
          v < m.value n) ↔ v < m.magnitude n := by
      constructor
      · rintro ⟨m'', v', hrun', hout', -, hlt'⟩
        obtain rfl := Option.some.inj (hrun.symm.trans hrun')
        rw [← hout'.value, hv.value, hval] at hlt'
        exact_mod_cast hlt'
      · intro hlt'
        exact ⟨m', v, hrun, hv, Int.natCast_nonneg v, by omega⟩
    rw [hiff _ hout, hval]
    set B := (2 ^ 32) ^ (m.count n).natAbs with hB
    have hcast : ((2 : ℤ) ^ 32) ^ (m.count n).natAbs = (B : ℕ) := by
      rw [hB]
      push_cast
      rfl
    rw [hcast]
    by_cases hc0 : c = 0
    · subst hc0
      have hnone : ¬ ∃ j < 79, (draws j : ℤ) < m.magnitude n := by
        rintro ⟨j, hj, hlt'⟩
        have := hall j (by omega)
        omega
      rw [if_pos rfl, or_iff_right hnone]
      rcases Nat.lt_or_ge (draws 79) (m.magnitude n) with hwrap | hge
      · rw [Nat.mod_eq_of_lt (by omega)]
        omega
      · have hsub : draws 79 + B - m.magnitude n = draws 79 - m.magnitude n + B := by omega
        rw [hsub, Nat.add_mod_right, Nat.mod_eq_of_lt (by omega)]
        exact iff_of_true (by omega) (Or.inl (by omega))
    · rw [if_neg hc0]
      have := hlast hc0
      exact iff_of_true this (Or.inl ⟨79 - c, by omega, by omega⟩)
  · have hone : m.magnitude n = 1 := by omega
    obtain ⟨m', hrun, hout⟩ := urandomm_one hm ht hnorm hone draws
    have hdraw := hdraws 0
    rw [hone, Nat.sub_self, Nat.size_zero, pow_zero] at hdraw
    exact iff_of_true ⟨m', 0, hrun, hout, le_rfl, hpos⟩ (Or.inl ⟨0, by decide, by omega⟩)

/-- The bound 5, which is the target too, and the numbers 7. -/
theorem urandomm_lt_iff_five :
    (∃ m' v, (single [5] 1).urandomm 0 0 (fun _ => 7) = some m' ∧
      (single [5] 1).Outcome m' 0 v ∧ 0 ≤ v ∧ v < (single [5] 1).value 0) ↔
    (∃ j < 79, ((7 : ℕ) : ℤ) < (single [5] 1).value 0) ∨ (single [5] 1).value 0 ≤ (7 : ℕ) ∨
      (2 ^ 32) ^ ((single [5] 1).count 0).natAbs + ((7 : ℕ) : ℤ) < 2 * (single [5] 1).value 0 :=
  urandomm_lt_iff (single [5] 1) ⟨by decide, by decide⟩ 0 0 (by decide) (by decide)
    ⟨by decide, by decide⟩ (by decide) (fun _ => 7) fun _ => by decide

/-- If the first 79 numbers are 7 and the eightieth one is 0, then the bound 5 is taken away from 0.
The number left is `2 ^ 32 - 5`. -/
theorem not_urandomm_lt :
    ((single [5] 1).urandomm 0 0 fun j => if j < 79 then 7 else 0).map (fun m' => m'.value 0) =
      some (2 ^ 32 - 5) := by
  decide +kernel

end IntegerXMemory

end EiffelWeb
