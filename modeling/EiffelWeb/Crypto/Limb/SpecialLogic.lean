import EiffelWeb.Crypto.Limb.IntegerXObject
import EiffelWeb.Crypto.Limb.SpecialSquare

set_option relaxedAutoImplicit false
set_option autoImplicit false

/-!
# Shifts of limb arrays

The routines `lshift` and `rshift` of `SPECIAL_LOGIC`, for shifts by 1 to 31 bits. The first one
works from the high end, the second one from the low end, so that a number may be shifted in place.
`rshift` has an argument `target_offset` that it does not use: it writes from index 0 on.

## Main definitions

* `SpecialLogic.rshift`

## Main results

* `SpecialLogic.lshift_run`, `SpecialLogic.rshift_run`
* `SpecialLogic.shifts_iff` — when both write where they should.
-/

namespace EiffelWeb

open Limbs Arrays

namespace SpecialLogic

/-- The loop of `rshift`, `i` times. -/
def rshiftLoop (target op1 count : ℕ) :
    (i op1Cursor targetCursor : ℕ) → Natural32 → LimbHeap → Option LimbHeap
  | 0, _, targetCursor, lowLimb, h => h.put target targetCursor lowLimb
  | i + 1, op1Cursor, targetCursor, lowLimb, h => do
    let highLimb ← h.item op1 op1Cursor
    let h ← h.put target targetCursor (lowLimb ||| highLimb <<< (32 - count))
    rshiftLoop target op1 count i (op1Cursor + 1) (targetCursor + 1) (highLimb >>> count) h

/-- `rshift (target, target_offset, op1, op1_offset, n, count, carry)`, for `n` at least one and
`count` from 1 to 31. -/
def rshift (target _targetOffset op1 op1Offset n count : ℕ) (h : LimbHeap) :
    Option (Natural32 × LimbHeap) := do
  let highLimb ← h.item op1 op1Offset
  let h ← rshiftLoop target op1 count (n - 1) (op1Offset + 1) 0 (highLimb >>> count) h
  return (highLimb <<< (32 - count), h)

/-! ## The two parts of a limb -/

section Parts

variable {count : ℕ}

/-- A limb shifted to the left, and the bits shifted out. -/
lemma shift_parts (hc : count ≤ 32) (x : Natural32) :
    (x <<< count).toNat + 2 ^ 32 * (x >>> (32 - count)).toNat = x.toNat * 2 ^ count := by
  have hpow : 2 ^ 32 = 2 ^ (32 - count) * 2 ^ count := by rw [← pow_add, Nat.sub_add_cancel hc]
  have hdiv : x.toNat * 2 ^ count / 2 ^ 32 = x.toNat / 2 ^ (32 - count) := by
    rw [hpow, Nat.mul_div_mul_right _ _ (Nat.two_pow_pos count)]
  rw [BitVec.toNat_shiftLeft, BitVec.toNat_ushiftRight, Nat.shiftLeft_eq, Nat.shiftRight_eq_div_pow,
    ← hdiv, Nat.mod_add_div]

/-- The two parts of a limb are put together. -/
lemma toNat_or_parts {x y : Natural32} (hx : 2 ^ count ∣ x.toNat)
    (hy : y.toNat < 2 ^ count) : (x ||| y).toNat = x.toNat + y.toNat := by
  obtain ⟨k, hk⟩ := hx
  rw [BitVec.toNat_or, hk, ← Nat.two_pow_add_eq_or_of_lt hy]

lemma dvd_shiftLeft (hc : count ≤ 32) (x : Natural32) : 2 ^ count ∣ (x <<< count).toNat := by
  rw [BitVec.toNat_shiftLeft, Nat.shiftLeft_eq]
  exact (Nat.dvd_mod_iff (pow_dvd_pow 2 hc)).mpr (Nat.dvd_mul_left _ _)

lemma ushiftRight_lt (hc : count ≤ 32) (x : Natural32) :
    (x >>> (32 - count)).toNat < 2 ^ count := by
  have hx := x.isLt
  have hpow : 2 ^ 32 = 2 ^ (32 - count) * 2 ^ count := by rw [← pow_add, Nat.sub_add_cancel hc]
  rw [BitVec.toNat_ushiftRight, Nat.shiftRight_eq_div_pow]
  exact Nat.div_lt_of_lt_mul (by rw [← hpow]; exact hx)

end Parts

section Shift

variable {target targetOffset op1 op1Offset count : ℕ} {h : LimbHeap}

/-- **The loop of `lshift`.**

**Proof sketch.** Induction on the number of limbs that are still to be read. The limb that is
written lies above them, or the parts have no limb in common. -/
lemma lshiftLoop_run (hc : count ≤ 32) (i : ℕ) {highLimb : Natural32}
    (ht : targetOffset + (i + 1) ≤ (h target).length) (h₁ : op1Offset + i ≤ (h op1).length)
    (hsame : op1 = target → op1Offset ≤ targetOffset ∨ targetOffset + (i + 1) ≤ op1Offset)
    (hd : 2 ^ count ∣ highLimb.toNat) :
    ∃ h' : LimbHeap,
      lshiftLoop target op1 count i (op1Offset + i) (targetOffset + (i + 1)) highLimb h = some h' ∧
      h'.number target targetOffset (i + 1) =
        h.number op1 op1Offset i * 2 ^ count + (2 ^ 32) ^ i * highLimb.toNat ∧
      SameOutside (region target targetOffset (i + 1)) h h' := by
  induction i generalizing h highLimb with
  | zero =>
    obtain ⟨h', hput, hnum, hfoot⟩ := LimbHeap.run_put (h := h) (a := target) (i := targetOffset)
      (by omega) highLimb
    refine ⟨h', hput, ?_, hfoot⟩
    rw [hnum, LimbHeap.number_zero, Nat.zero_mul, Nat.zero_add, pow_zero, Nat.one_mul]
  | succ i ih =>
    obtain ⟨x, hx, hsplit⟩ := h.exists_last (a := op1) (i := op1Offset) (n := i) h₁
    obtain ⟨g, hput, hnum, hfoot⟩ := LimbHeap.run_put (h := h) (a := target)
      (i := targetOffset + (i + 1)) (by omega) (highLimb ||| x >>> (32 - count))
    obtain ⟨h', hloop, hval, hfoot'⟩ := ih (h := g) (by rw [hfoot.length]; omega)
      (by rw [hfoot.length]; omega) (fun he => by have := hsame he; omega) (dvd_shiftLeft hc x)
    have hlow : g.number op1 op1Offset i = h.number op1 op1Offset i := by
      refine LimbHeap.number_apart hfoot fun he => ?_
      have := hsame he.symm
      omega
    have htop : g.number target (targetOffset + (i + 1)) 1 =
        highLimb.toNat + (x >>> (32 - count)).toNat := by
      rw [hnum, toNat_or_parts hd (ushiftRight_lt hc x)]
    refine ⟨h', ?_, ?_, ?_⟩
    · have hread : op1Offset + (i + 1) - 1 = op1Offset + i := by omega
      have hwrite : targetOffset + (i + 1 + 1) - 1 = targetOffset + (i + 1) := by omega
      rw [lshiftLoop, hread, hwrite, hx]
      simp only [Option.bind_eq_bind, Option.bind_some, hput]
      exact hloop
    · have hparts := shift_parts hc x
      have hpow : (2 ^ 32) ^ (i + 1) = (2 ^ 32) ^ i * 2 ^ 32 := pow_succ (2 ^ 32) i
      rw [LimbHeap.number_above ht htop hfoot hfoot', hval, hlow, hsplit, Nat.add_mul,
        Nat.mul_assoc, ← hparts, hpow]
      ring
    · exact hfoot.join hfoot' (by omega) (by omega)

/-- **`lshift`**: the product with a power of two, and the bits shifted out. -/
lemma lshift_run (hc : count ≤ 32) {n : ℕ} (hn : 1 ≤ n)
    (ht : targetOffset + n ≤ (h target).length) (h₁ : op1Offset + n ≤ (h op1).length)
    (hsame : op1 = target → op1Offset ≤ targetOffset ∨ targetOffset + n ≤ op1Offset) :
    ∃ (c : Natural32) (h' : LimbHeap),
      lshift target targetOffset op1 op1Offset n count h = some (c, h') ∧
      h'.number target targetOffset n + (2 ^ 32) ^ n * c.toNat =
        h.number op1 op1Offset n * 2 ^ count ∧
      c.toNat < 2 ^ count ∧ SameOutside (region target targetOffset n) h h' := by
  obtain ⟨i, rfl⟩ : ∃ i, n = i + 1 := ⟨n - 1, by omega⟩
  obtain ⟨x, hx, hsplit⟩ := h.exists_last h₁
  obtain ⟨h', hloop, hval, hfoot⟩ := lshiftLoop_run hc i ht (by omega) hsame (dvd_shiftLeft hc x)
  refine ⟨x >>> (32 - count), h', ?_, ?_, ushiftRight_lt hc x, hfoot⟩
  · have hread : op1Offset + (i + 1) - 1 = op1Offset + i := by omega
    rw [lshift, hread, hx]
    simp only [Option.bind_eq_bind, Option.bind_some, Nat.add_sub_cancel, hloop]
    rfl
  · have hparts := shift_parts hc x
    have hpow : (2 ^ 32) ^ (i + 1) = (2 ^ 32) ^ i * 2 ^ 32 := pow_succ (2 ^ 32) i
    rw [hval, hsplit, Nat.add_mul, Nat.mul_assoc, ← hparts, hpow]
    ring

/-- **The loop of `rshift`.** -/
lemma rshiftLoop_run (hc : count ≤ 32) (i : ℕ) {lowLimb : Natural32} {j k : ℕ}
    (ht : k + (i + 1) ≤ (h target).length) (h₁ : j + i ≤ (h op1).length) (hjk : k + 1 ≤ j)
    (hlow : lowLimb.toNat < 2 ^ (32 - count)) :
    ∃ h' : LimbHeap, rshiftLoop target op1 count i j k lowLimb h = some h' ∧
      h'.number target k (i + 1) = lowLimb.toNat + 2 ^ (32 - count) * h.number op1 j i ∧
      SameOutside (region target k (i + 1)) h h' := by
  induction i generalizing h lowLimb j k with
  | zero =>
    obtain ⟨h', hput, hnum, hfoot⟩ := LimbHeap.run_put (h := h) (a := target) (i := k) (by omega)
      lowLimb
    refine ⟨h', hput, ?_, hfoot⟩
    rw [hnum, LimbHeap.number_zero, Nat.mul_zero, Nat.add_zero]
  | succ i ih =>
    obtain ⟨x, hx, hsplit⟩ := SpecialArithmetic.number_succ h (a := op1) (i := j) (n := i)
      (by omega)
    obtain ⟨g, hput, hnum, hfoot⟩ := LimbHeap.run_put (h := h) (a := target) (i := k) (by omega)
      (lowLimb ||| x <<< (32 - count))
    have hrest : (x >>> count).toNat < 2 ^ (32 - count) := by
      have := @ushiftRight_lt (32 - count) (by omega) x
      rwa [Nat.sub_sub_self hc] at this
    obtain ⟨h', hloop, hval, hfoot'⟩ := @ih g (x >>> count) _ _
      (show k + 1 + (i + 1) ≤ (g target).length by rw [hfoot.length]; omega)
      (show j + 1 + i ≤ (g op1).length by rw [hfoot.length]; omega) (by omega) hrest
    have hkeep : g.number op1 (j + 1) i = h.number op1 (j + 1) i :=
      LimbHeap.number_apart hfoot (Apart.of_le (by omega))
    have hfirst : g.number target k 1 = lowLimb.toNat + (x <<< (32 - count)).toNat := by
      rw [hnum, BitVec.or_comm, toNat_or_parts (dvd_shiftLeft (by omega) x) hlow, Nat.add_comm]
    refine ⟨h', ?_, ?_, ?_⟩
    · rw [rshiftLoop, hx]
      simp only [Option.bind_eq_bind, Option.bind_some, hput]
      exact hloop
    · have hparts := @shift_parts (32 - count) (by omega) x
      rw [Nat.sub_sub_self hc] at hparts
      rw [LimbHeap.number_below ht hfirst hfoot hfoot', hval, hkeep, hsplit,
        Nat.mul_add (2 ^ (32 - count)), Nat.mul_comm (2 ^ (32 - count)) x.toNat, ← hparts]
      ring
    · exact hfoot.join hfoot' (by omega) (by omega)

/-- **`rshift`**: the quotient by a power of two, and the bits shifted out at the high end of a
limb. -/
lemma rshift_run (hc : count ≤ 32) {n : ℕ} (hn : 1 ≤ n) (ht : n ≤ (h target).length)
    (h₁ : op1Offset + n ≤ (h op1).length) :
    ∃ (c : Natural32) (h' : LimbHeap),
      rshift target targetOffset op1 op1Offset n count h = some (c, h') ∧
      h'.number target 0 n = h.number op1 op1Offset n / 2 ^ count ∧
      c.toNat = h.number op1 op1Offset n * 2 ^ (32 - count) % 2 ^ 32 ∧
      SameOutside (region target 0 n) h h' := by
  obtain ⟨i, rfl⟩ : ∃ i, n = i + 1 := ⟨n - 1, by omega⟩
  obtain ⟨x, hx, hsplit⟩ := SpecialArithmetic.number_succ h (a := op1) (i := op1Offset) (n := i)
    (by omega)
  have hrest : (x >>> count).toNat < 2 ^ (32 - count) := by
    have := @ushiftRight_lt (32 - count) (by omega) x
    rwa [Nat.sub_sub_self hc] at this
  have hpow : 2 ^ 32 = 2 ^ count * 2 ^ (32 - count) := by
    rw [← pow_add, Nat.add_comm, Nat.sub_add_cancel hc]
  obtain ⟨h', hloop, hval, hfoot⟩ := @rshiftLoop_run target _ _ h hc i _ _ _
    (show 0 + (i + 1) ≤ (h target).length by omega)
    (show op1Offset + 1 + i ≤ (h op1).length by omega) (by omega) hrest
  refine ⟨x <<< (32 - count), h', ?_, ?_, ?_, hfoot⟩
  · rw [rshift, hx]
    simp only [Option.bind_eq_bind, Option.bind_some, Nat.add_sub_cancel, hloop]
    rfl
  · rw [hval, hsplit, BitVec.toNat_ushiftRight, Nat.shiftRight_eq_div_pow, hpow, Nat.mul_assoc,
      Nat.add_mul_div_left _ _ (Nat.two_pow_pos count)]
  · rw [BitVec.toNat_shiftLeft, Nat.shiftLeft_eq, hsplit, Nat.add_mul, Nat.mul_assoc,
      Nat.add_mul_mod_self_left]

end Shift

/-! ## The shifts at any place -/

/-- `lshift` writes the low limbs of the product with a power of two at `target_offset` and nothing
else, and the carry has the bits shifted out. -/
def ShiftsLeft (target targetOffset op1 op1Offset n count : ℕ) (h : LimbHeap) : Prop :=
  ∃ (carry : Natural32) (h' : LimbHeap),
    lshift target targetOffset op1 op1Offset n count h = some (carry, h') ∧
    h'.number target targetOffset n = h.number op1 op1Offset n * 2 ^ count % (2 ^ 32) ^ n ∧
    carry.toNat = h.number op1 op1Offset n * 2 ^ count / (2 ^ 32) ^ n ∧
    SameOutside (region target targetOffset n) h h'

/-- `rshift` writes the quotient by a power of two at `target_offset` and nothing else, and the
carry has the bits shifted out at its high end. -/
def ShiftsRight (target targetOffset op1 op1Offset n count : ℕ) (h : LimbHeap) : Prop :=
  ∃ (carry : Natural32) (h' : LimbHeap),
    rshift target targetOffset op1 op1Offset n count h = some (carry, h') ∧
    h'.number target targetOffset n = h.number op1 op1Offset n / 2 ^ count ∧
    carry.toNat = h.number op1 op1Offset n % 2 ^ count * 2 ^ (32 - count) ∧
    SameOutside (region target targetOffset n) h h'

section Place

variable {target targetOffset op1 op1Offset n count : ℕ} {h : LimbHeap}

/-- `lshift` does so at every place. -/
lemma shiftsLeft (hc : count ≤ 32) (hn : 1 ≤ n) (ht : targetOffset + n ≤ (h target).length)
    (h₁ : op1Offset + n ≤ (h op1).length)
    (hplace : op1 = target → op1Offset ≤ targetOffset ∨ targetOffset + n ≤ op1Offset) :
    ShiftsLeft target targetOffset op1 op1Offset n count h := by
  obtain ⟨carry, h', hrun, hval, -, hfoot⟩ := lshift_run hc hn ht h₁ hplace
  have hlen : targetOffset + n ≤ (h' target).length := by rwa [hfoot.length]
  have hpos : 0 < (2 ^ 32) ^ n := Nat.pow_pos (by decide)
  have hunique := (Nat.div_mod_unique hpos).mpr ⟨hval, h'.number_lt hlen⟩
  exact ⟨carry, h', hrun, hunique.2.symm, hunique.1.symm, hfoot⟩

/-- `rshift` does so at the start of the target. -/
lemma shiftsRight (hc : count ≤ 32) (hn : 1 ≤ n) (ht : n ≤ (h target).length)
    (h₁ : op1Offset + n ≤ (h op1).length) : ShiftsRight target 0 op1 op1Offset n count h := by
  obtain ⟨carry, h', hrun, hval, hcarry, hfoot⟩ := @rshift_run _ 0 _ _ _ h hc n hn ht h₁
  have hpow : 2 ^ 32 = 2 ^ count * 2 ^ (32 - count) := by
    rw [← pow_add, Nat.add_sub_cancel' hc]
  rw [hpow, Nat.mul_mod_mul_right] at hcarry
  exact ⟨carry, h', hrun, hval, hcarry, hfoot⟩

/-- The highest limb of the place where `rshift` should write is not written. -/
lemma not_shiftsRight (hc : 1 ≤ count) (hc' : count ≤ 31) (hn : 1 ≤ n) (h0 : targetOffset ≠ 0)
    (ht : targetOffset + n ≤ (h target).length) (h₁ : op1Offset + n ≤ (h op1).length)
    (htop : h.item target (targetOffset + n - 1) = some 0xffffffff) :
    ¬ ShiftsRight target targetOffset op1 op1Offset n count h := by
  rintro ⟨carry, g, hrun, hval, -, -⟩
  obtain ⟨_, h', hrun', -, -, hfoot⟩ := @rshift_run _ targetOffset _ _ _ h
    (show count ≤ 32 by omega) n hn (show n ≤ (h target).length by omega) h₁
  obtain ⟨-, rfl⟩ := Prod.mk.inj (Option.some.inj (hrun.symm.trans hrun'))
  obtain ⟨k, rfl⟩ : ∃ k, n = k + 1 := ⟨n - 1, by omega⟩
  obtain ⟨x, hx, hnum⟩ := g.exists_last (a := target) (i := targetOffset) (n := k)
    (by rw [hfoot.length]; omega)
  have hkept : x = 0xffffffff := by
    have hsame := hfoot.item target (targetOffset + k) fun hw => by
      have := hw.2
      omega
    rw [hx, ← Nat.add_sub_cancel (targetOffset + k) 1, Nat.add_assoc, htop] at hsame
    exact Option.some.inj hsame
  have htoNat : (0xffffffff : Natural32).toNat = 2 ^ 32 - 1 := rfl
  have hlt : h.number op1 op1Offset (k + 1) < (2 ^ 32) ^ (k + 1) := h.number_lt h₁
  have hhalf : h.number op1 op1Offset (k + 1) / 2 ^ count < (2 ^ 32) ^ k * 2 ^ 31 := by
    refine Nat.div_lt_of_lt_mul (hlt.trans_le ?_)
    calc (2 ^ 32) ^ (k + 1) = 2 ^ 1 * ((2 ^ 32) ^ k * 2 ^ 31) := by ring
      _ ≤ 2 ^ count * ((2 ^ 32) ^ k * 2 ^ 31) :=
        Nat.mul_le_mul_right _ (Nat.pow_le_pow_right (by decide) hc)
  have hlarge : (2 ^ 32) ^ k * 2 ^ 31 ≤ (2 ^ 32) ^ k * (2 ^ 32 - 1) :=
    Nat.mul_le_mul_left _ (by decide)
  rw [hval, hkept, htoNat] at hnum
  omega

end Place

/-- **The shifts at any place**, with the two parts of the arrays the same or without a common limb:
`lshift` always writes at `target_offset`, and `rshift`, which ignores this argument, does so for
all contents of the arrays exactly if it is zero. -/
theorem shifts_iff (target targetOffset op1 op1Offset n count : ℕ) (hn : 1 ≤ n) (hc : 1 ≤ count)
    (hc' : count ≤ 31)
    (hplace : target = op1 ∧ targetOffset = op1Offset ∨
      Apart target targetOffset n op1 op1Offset n) :
    (∀ h : LimbHeap, targetOffset + n ≤ (h target).length → op1Offset + n ≤ (h op1).length →
      ShiftsLeft target targetOffset op1 op1Offset n count h) ∧
    ((∀ h : LimbHeap, targetOffset + n ≤ (h target).length → op1Offset + n ≤ (h op1).length →
      ShiftsRight target targetOffset op1 op1Offset n count h) ↔ targetOffset = 0) := by
  refine ⟨fun h ht h₁ => shiftsLeft (by omega) hn ht h₁ fun he => ?_, fun hall => ?_, ?_⟩
  · rcases hplace with ⟨-, hsame⟩ | hapart
    · exact Or.inl hsame.ge
    · have := hapart he.symm
      omega
  · by_contra h0
    -- all limbs have all their bits set
    set ones : LimbHeap := fun _ => List.replicate (targetOffset + n + op1Offset) 0xffffffff
      with hones
    have hlen (b : ℕ) : (ones b).length = targetOffset + n + op1Offset := List.length_replicate
    have ht : targetOffset + n ≤ (ones target).length := by
      rw [hlen target]
      omega
    have h₁ : op1Offset + n ≤ (ones op1).length := by
      rw [hlen op1]
      omega
    have htop : ones.item target (targetOffset + n - 1) = some 0xffffffff := by
      rw [Arrays.item, hones]
      exact List.getElem?_replicate_of_lt (by omega)
    exact not_shiftsRight hc hc' hn h0 ht h₁ htop (hall ones ht h₁)
  · rintro rfl h ht h₁
    exact shiftsRight (by omega) hn (by omega) h₁

/-- A number of two limbs shifted by one bit in place. -/
theorem shifts_iff_in_place :
    ShiftsLeft 0 3 0 3 2 1 (fun _ => List.replicate 5 7) ∧
      ShiftsRight 0 0 0 0 2 1 (fun _ => List.replicate 5 7) :=
  ⟨(shifts_iff 0 3 0 3 2 1 (by decide) (by decide) (by decide) (Or.inl ⟨rfl, rfl⟩)).1 _
      (by decide) (by decide),
    (shifts_iff 0 0 0 0 2 1 (by decide) (by decide) (by decide) (Or.inl ⟨rfl, rfl⟩)).2.mpr rfl _
      (by decide) (by decide)⟩

/-- The quotient of 2 by 2 should be written behind another limb of the target, and is written over
that one. -/
theorem not_shifts :
    ¬ ∀ (target targetOffset op1 op1Offset n count : ℕ) (h : LimbHeap), 1 ≤ n → 1 ≤ count →
      count ≤ 31 →
      (target = op1 ∧ targetOffset = op1Offset ∨ Apart target targetOffset n op1 op1Offset n) →
      targetOffset + n ≤ (h target).length → op1Offset + n ≤ (h op1).length →
      ShiftsLeft target targetOffset op1 op1Offset n count h ∧
        ShiftsRight target targetOffset op1 op1Offset n count h := by
  intro hall
  obtain ⟨-, carry, h', hrun, -, -, hfoot⟩ :=
    hall 0 1 1 0 1 1 (fun a => if a = 0 then [7, 7] else [2]) (by decide) (by decide) (by decide)
      (Or.inr fun he => absurd he (by decide)) (by decide) (by decide)
  have hkept := hfoot.item 0 0 fun hw => by
    have := hw.2
    omega
  have hwritten : (rshift 0 1 1 0 1 1 fun a => if a = 0 then [7, 7] else [2]).map
      (fun r => r.2.item 0 0) = some (some 1) := by
    decide
  rw [hrun, Option.map_some, hkept] at hwritten
  exact absurd hwritten (by decide)

end SpecialLogic

end EiffelWeb
