import Mathlib.FieldTheory.Finite.Basic
import Mathlib.GroupTheory.OrderOfElement

set_option relaxedAutoImplicit false
set_option autoImplicit false

/-!
# Strong probable primes

For an odd number `n`, with `n - 1 = 2 ^ k * q` and `q` odd, the powers of a base `x` with the
exponents `q`, `2 * q` and so on up to `n - 1` are squares, each of the one before. If `n` is a
prime and `x` is not a multiple of it, the last of them is one, and the first one is one or one of
the others is minus one. A number with this property is a strong probable prime to base `x`.

## Main definitions

* `StrongProbablePrime`

## Main results

* `StrongProbablePrime.iff_of_eq` — the property for the only such `k` and `q`.
* `StrongProbablePrime.pow_sub_one` — the last power is one, as for a Fermat probable prime.
* `StrongProbablePrime.not_pow_sub_one_modEq` — the last power is never minus one.
-/

/-- The number `n` is a strong probable prime to base `x`. -/
def StrongProbablePrime (n x : ℕ) : Prop :=
  ∃ k q, n - 1 = 2 ^ k * q ∧ Odd q ∧
    (x ^ q ≡ 1 [MOD n] ∨ ∃ j < k, x ^ (2 ^ j * q) ≡ n - 1 [MOD n])

namespace StrongProbablePrime

/-- The residue `n - 1` is minus one. -/
lemma modEq_sub_one_iff {n a : ℕ} (hn : 1 ≤ n) : a ≡ n - 1 [MOD n] ↔ (a : ZMod n) = -1 := by
  rw [← ZMod.natCast_eq_natCast_iff, Nat.cast_sub hn, ZMod.natCast_self, Nat.cast_one, zero_sub]

/-- The residue `1` is one. -/
lemma modEq_one_iff {n a : ℕ} : a ≡ 1 [MOD n] ↔ (a : ZMod n) = 1 := by
  rw [← ZMod.natCast_eq_natCast_iff, Nat.cast_one]

/-- The least residue that is one. -/
lemma mod_eq_one_iff {n a : ℕ} (hn : 1 < n) : a % n = 1 ↔ a ≡ 1 [MOD n] := by
  rw [Nat.ModEq, Nat.mod_eq_of_lt hn]

/-- There is only one way to take the power of two out. -/
lemma eq_of_two_pow_mul {k l q r : ℕ} (hq : Odd q) (hr : Odd r) (h : 2 ^ k * q = 2 ^ l * r) :
    k = l ∧ q = r := by
  have hle {k l q r : ℕ} (hr : Odd r) (h : 2 ^ k * q = 2 ^ l * r) : k ≤ l := by
    by_contra hlt
    obtain ⟨d, rfl⟩ : ∃ d, k = l + (d + 1) := ⟨k - l - 1, by omega⟩
    have heven : r = 2 * (2 ^ d * q) :=
      Nat.eq_of_mul_eq_mul_left (show 0 < 2 ^ l by positivity) (by rw [← h]; ring)
    rw [Nat.odd_iff] at hr
    omega
  obtain rfl : k = l := le_antisymm (hle hr h) (hle hq h.symm)
  exact ⟨rfl, Nat.eq_of_mul_eq_mul_left (show 0 < 2 ^ k by positivity) h⟩

/-- The property for the exponents `k` and `q`. -/
lemma iff_of_eq {n x k q : ℕ} (hk : n - 1 = 2 ^ k * q) (hq : Odd q) :
    StrongProbablePrime n x ↔
      x ^ q ≡ 1 [MOD n] ∨ ∃ j < k, x ^ (2 ^ j * q) ≡ n - 1 [MOD n] := by
  constructor
  · rintro ⟨l, r, hl, hr, h⟩
    obtain ⟨rfl, rfl⟩ := eq_of_two_pow_mul hq hr (hk.symm.trans hl)
    exact h
  · exact fun h => ⟨k, q, hk, hq, h⟩

/-- **A strong probable prime is a Fermat probable prime.** -/
lemma pow_sub_one {n x : ℕ} (hn : 1 ≤ n) (h : StrongProbablePrime n x) :
    x ^ (n - 1) ≡ 1 [MOD n] := by
  obtain ⟨k, q, hk, -, hone | ⟨j, hj, hneg⟩⟩ := h
  · have hpow := hone.pow (2 ^ k)
    rwa [one_pow, ← pow_mul, Nat.mul_comm, ← hk] at hpow
  · rw [modEq_sub_one_iff hn, Nat.cast_pow] at hneg
    rw [modEq_one_iff, Nat.cast_pow]
    obtain ⟨d, rfl⟩ : ∃ d, k = j + (d + 1) := ⟨k - j - 1, by omega⟩
    have hsplit : 2 ^ (j + (d + 1)) * q = 2 ^ j * q * (2 * 2 ^ d) := by ring
    rw [hk, hsplit, pow_mul, hneg, pow_mul, neg_one_sq, one_pow]

/-- A number with prime factors that all leave the remainder one leaves this remainder. -/
lemma modEq_one_of_primes {n d : ℕ} (hn : n ≠ 0)
    (h : ∀ p, p.Prime → p ∣ n → p ≡ 1 [MOD d]) : n ≡ 1 [MOD d] := by
  induction n using induction_on_primes with
  | zero => exact absurd rfl hn
  | one => rfl
  | prime_mul p a hp ih =>
    have ha : a ≠ 0 := fun h0 => hn (by rw [h0, Nat.mul_zero])
    have hpa := (h p hp (Nat.dvd_mul_right p a)).mul
      (ih ha fun r hr hra => h r hr (hra.mul_left p))
    rwa [Nat.mul_one] at hpa

/-- **No power with the exponent `n - 1` is minus one** for an odd number `n`.

**Proof sketch.** With `n - 1 = 2 ^ k * q` and `q` odd, the residue of `x ^ q` for a prime factor
`p` would have the order `2 ^ (k + 1)`, which therefore divides `p - 1`. As this holds for all prime
factors, it divides `n - 1`. -/
lemma not_pow_sub_one_modEq {n : ℕ} (hodd : Odd n) (hn : 1 < n) (x : ℕ) :
    ¬ x ^ (n - 1) ≡ n - 1 [MOD n] := by
  intro h
  obtain ⟨k, q, hq, hk⟩ := Nat.exists_eq_two_pow_mul_odd (n := n - 1) (by omega)
  have hprime (p : ℕ) (hp : p.Prime) (hpn : p ∣ n) : p ≡ 1 [MOD 2 ^ (k + 1)] := by
    have := Fact.mk hp
    have hp2 : Fact (2 < p) := ⟨by
      rcases hp.eq_two_or_odd with rfl | hpodd
      · exact absurd (hodd.of_dvd_nat hpn) (by decide)
      · have := hp.two_le
        omega⟩
    have hmod : ((x : ZMod p) ^ q) ^ 2 ^ k = -1 := by
      have hcast := (ZMod.natCast_eq_natCast_iff _ _ p).mpr (h.of_dvd hpn)
      have hzero : (n : ZMod p) = 0 := (ZMod.natCast_eq_zero_iff n p).mpr hpn
      rw [Nat.cast_sub hn.le, hzero, Nat.cast_one, zero_sub, Nat.cast_pow, hk, Nat.mul_comm,
        pow_mul] at hcast
      exact hcast
    have hne : ¬ ((x : ZMod p) ^ q) ^ 2 ^ k = 1 := by
      rw [hmod]
      exact ZMod.neg_one_ne_one
    have hone : ((x : ZMod p) ^ q) ^ 2 ^ (k + 1) = 1 := by
      rw [pow_succ, pow_mul, hmod, neg_one_sq]
    have horder := orderOf_eq_prime_pow hne hone
    have hunit : (x : ZMod p) ^ q ≠ 0 := fun h0 => by
      rw [h0, zero_pow (by positivity)] at hone
      exact zero_ne_one hone
    have hdvd := ZMod.orderOf_dvd_card_sub_one hunit
    rw [horder] at hdvd
    exact ((Nat.modEq_iff_dvd' hp.one_le).mpr hdvd).symm
  have hmod := modEq_one_of_primes (by omega) hprime
  have hdvd := (Nat.modEq_iff_dvd' hn.le).mp hmod.symm
  rw [hk, pow_succ] at hdvd
  have hodd' := Nat.dvd_of_mul_dvd_mul_left (by positivity) hdvd
  rw [Nat.odd_iff] at hq
  omega

end StrongProbablePrime
