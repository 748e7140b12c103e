import Mathlib.FieldTheory.Finite.Basic
import Mathlib.Tactic.NormNum.Prime
import EiffelWeb.Crypto.NumberTheory

set_option relaxedAutoImplicit false
set_option autoImplicit false

/-!
# RSA keys

The classes `RSA_PUBLIC_KEY`, `RSA_PRIVATE_KEY` and `RSA_KEY_PAIR`. The private exponent is the
inverse of the public one modulo `(p - 1) * (q - 1)`; encrypting and decrypting are modular powers,
signing is decrypting, and a signature is verified by encrypting it. The random primes of a key pair
are arguments.

## Main definitions

* `RsaPublicKey`, `RsaPrivateKey`, `RsaKeyPair`
* `RsaPublicKey.encrypt`, `RsaPublicKey.verify`, `RsaPrivateKey.decrypt`, `RsaPrivateKey.sign`

## Main results

* `pow_modEq_self` — Fermat's theorem for both primes, put together.
* `RsaPrivateKey.keys_consistent` — decrypting undoes encrypting, and a signature is verified.
* `RsaKeyPair.makeWithExponent_spec` — decrypting undoes encrypting for the keys of a pair.
-/

namespace EiffelWeb

open IntegerX

/-- `RSA_PUBLIC_KEY`. -/
@[ext]
structure RsaPublicKey where
  /-- `modulus`. -/
  modulus : ℤ
  /-- `exponent`. -/
  exponent : ℤ

namespace RsaPublicKey

/-- `make (modulus_a, exponent_a)`. -/
def make (modulus exponent : ℤ) : RsaPublicKey := ⟨modulus, exponent⟩

/-- `encrypt`. -/
def encrypt (key : RsaPublicKey) (message : ℤ) : Option ℤ :=
  powmValue message key.exponent key.modulus

/-- `verify`. -/
def verify (key : RsaPublicKey) (message signature : ℤ) : Option Bool :=
  (key.encrypt signature).map (· == message)

end RsaPublicKey

/-- `RSA_PRIVATE_KEY`, with the class invariant. -/
@[ext]
structure RsaPrivateKey where
  /-- `p`. -/
  p : ℤ
  /-- `q`. -/
  q : ℤ
  /-- `d`, the private exponent. -/
  d : ℤ
  /-- `n`. -/
  n : ℤ
  /-- `e`, the public exponent. -/
  e : ℤ
  /-- The class invariant. -/
  product : p * q = n

namespace RsaPrivateKey

/-- `make (p_a, q_a, n_a, e_a)`. There is no key when the exponent has no inverse. -/
def make (p q n e : ℤ) (h : p * q = n) : Option RsaPrivateKey :=
  let phi := (p - 1) * (q - 1)
  (inverseValue e phi).map fun d => ⟨p, q, d, n, e, h⟩

/-- `decrypt`. -/
def decrypt (key : RsaPrivateKey) (cipher : ℤ) : Option ℤ :=
  powmValue cipher key.d key.n

/-- `sign`. -/
def sign (key : RsaPrivateKey) (message : ℤ) : Option ℤ := key.decrypt message

end RsaPrivateKey

/-- `RSA_KEY_PAIR`. -/
structure RsaKeyPair where
  /-- `public`. -/
  publicKey : RsaPublicKey
  /-- `private`. -/
  privateKey : RsaPrivateKey

/-- `make_with_exponent (bits, e_a)` with the primes that were drawn. -/
def RsaKeyPair.makeWithExponent (p q e : ℤ) : Option RsaKeyPair :=
  let n := p * q
  (RsaPrivateKey.make p q n e rfl).map fun key => ⟨.make n e, key⟩

/-! ## The exponents -/

/-- **Fermat**, for every number: the power with an exponent that leaves one modulo `p - 1`. A
number divisible by the prime stays divisible by it. -/
lemma pow_modEq_self_of_prime {p : ℕ} (hp : p.Prime) (x : ℤ) (t : ℕ) :
    x ^ (1 + (p - 1) * t) ≡ x [ZMOD p] := by
  have : Fact p.Prime := ⟨hp⟩
  rw [← ZMod.intCast_eq_intCast_iff, Int.cast_pow]
  by_cases hx : (x : ZMod p) = 0
  · rw [hx, zero_pow (by omega)]
  · rw [pow_add, pow_one, pow_mul, ZMod.pow_card_sub_one_eq_one hx, one_pow, mul_one]

/-- The power with an exponent that leaves one modulo `(p - 1) * (q - 1)`, modulo the product of
the primes.

**Proof sketch.** Both `p - 1` and `q - 1` divide the exponent less one, so Fermat's theorem applies
modulo either prime; the primes are coprime. -/
lemma pow_modEq_self {p q : ℕ} (hp : p.Prime) (hq : q.Prime) (hpq : p ≠ q) (x : ℤ) (t : ℕ) :
    x ^ (1 + (p - 1) * (q - 1) * t) ≡ x [ZMOD (p * q : ℤ)] := by
  have hcop : (p : ℤ).natAbs.Coprime (q : ℤ).natAbs := by
    rw [Int.natAbs_natCast, Int.natAbs_natCast]
    exact (Nat.coprime_primes hp hq).mpr hpq
  refine (Int.modEq_and_modEq_iff_modEq_mul hcop).mp ⟨?_, ?_⟩
  · rw [mul_assoc]
    exact pow_modEq_self_of_prime hp x _
  · rw [mul_comm (p - 1), mul_assoc]
    exact pow_modEq_self_of_prime hq x _

/-- Two different primes leave more than one residue. -/
lemma one_lt_phi {p q : ℕ} (hp : p.Prime) (hq : q.Prime) (hpq : p ≠ q) :
    1 < (p - 1) * (q - 1) := by
  have hp2 := hp.two_le
  have hq2 := hq.two_le
  rcases Nat.lt_or_ge 2 p with h | h
  · have := Nat.mul_le_mul (show 2 ≤ p - 1 by omega) (show 1 ≤ q - 1 by omega)
    omega
  · have := Nat.mul_le_mul (show 1 ≤ p - 1 by omega) (show 2 ≤ q - 1 by omega)
    omega

/-- The product of a positive exponent and its inverse. -/
lemma exists_mul_eq {e d f : ℕ} (hf : 1 < f) (h : (e * d : ℤ) ≡ 1 [ZMOD f]) :
    ∃ t, e * d = 1 + f * t := by
  have hm : 1 ≡ e * d [MOD f] := by
    rw [← Int.natCast_modEq_iff]
    exact_mod_cast h.symm
  have hpos : 1 ≤ e * d := by
    by_contra h0
    have h0' : e * d = 0 := by omega
    rw [h0'] at hm
    have : f ∣ 1 := (Nat.modEq_zero_iff_dvd).mp hm
    exact absurd (Nat.le_of_dvd one_pos this) (by omega)
  obtain ⟨t, ht⟩ := (Nat.modEq_iff_dvd' hpos).mp hm
  exact ⟨t, by omega⟩

/-- A power with one exponent and then with its inverse gives a reduced number back. -/
lemma powmValue_powmValue {p q : ℕ} {n : ℤ} (hp : p.Prime) (hq : q.Prime) (hpq : p ≠ q)
    (hn : (p * q : ℤ) = n) {a b t : ℕ} (h : a * b = 1 + (p - 1) * (q - 1) * t) {m : ℤ}
    (hm : 0 ≤ m) (hmn : m < n) : (powmValue m a n).bind (powmValue · b n) = some m := by
  have hn0 : n ≠ 0 := by omega
  have hpow : (m ^ a % n) ^ b ≡ m [ZMOD n] := calc
    (m ^ a % n) ^ b ≡ (m ^ a) ^ b [ZMOD n] := (Int.mod_modEq _ _).pow b
    _ = m ^ (1 + (p - 1) * (q - 1) * t) := by rw [← pow_mul, h]
    _ ≡ m [ZMOD n] := hn ▸ pow_modEq_self hp hq hpq m t
  rw [powmValue_of_nonneg hn0, Option.bind_some, powmValue_of_nonneg hn0, hpow.eq,
    Int.emod_eq_of_lt hm hmn]

/-! ## The keys -/

namespace RsaPrivateKey

variable {p q : ℕ} {n e : ℤ}

/-- The key exists when the exponent is coprime to `(p - 1) * (q - 1)`, and the product of the two
exponents leaves one. -/
lemma exists_make (hp : p.Prime) (hq : q.Prime) (hpq : p ≠ q) (hn : (p * q : ℤ) = n) (he : 1 ≤ e)
    (hc : e.gcd ((p - 1) * (q - 1)) = 1) :
    ∃ d t : ℕ, make p q n e hn = some ⟨p, q, d, n, e, hn⟩ ∧
      e.natAbs * d = 1 + (p - 1) * (q - 1) * t := by
  have hphi : ((p - 1) * (q - 1) : ℤ) = (((p - 1) * (q - 1) : ℕ) : ℤ) := by
    rw [Nat.cast_mul, Nat.cast_pred hp.pos, Nat.cast_pred hq.pos]
  have hlt := one_lt_phi hp hq hpq
  obtain ⟨y, hy, hy0, -, hm⟩ := exists_inverseValue (by rw [hphi]; exact_mod_cast hlt) hc
  obtain ⟨d, rfl⟩ := Int.eq_ofNat_of_zero_le hy0
  obtain ⟨t, ht⟩ := exists_mul_eq (e := e.natAbs) (d := d) hlt (by
    rw [← hphi, Int.natAbs_of_nonneg (by omega)]
    exact hm)
  exact ⟨d, t, by simp [make, hy], ht⟩

/-- **Key pair consistency.** The exponent has an inverse, decrypting undoes encrypting, and what is
signed is verified, of every message below the modulus. -/
theorem keys_consistent (hp : p.Prime) (hq : q.Prime) (hpq : p ≠ q) (hn : (p * q : ℤ) = n)
    (he : 1 ≤ e) (hc : e.gcd ((p - 1) * (q - 1)) = 1) :
    ∃ key, make p q n e hn = some key ∧ ∀ m, 0 ≤ m → m < n →
      ((RsaPublicKey.make n e).encrypt m).bind key.decrypt = some m ∧
      (key.sign m).bind ((RsaPublicKey.make n e).verify m) = some true := by
  obtain ⟨d, t, hk, ht⟩ := exists_make hp hq hpq hn he hc
  obtain ⟨k, rfl⟩ := Int.eq_ofNat_of_zero_le (show 0 ≤ e by omega)
  rw [Int.natAbs_natCast] at ht
  refine ⟨_, hk, fun m hm hmn => ⟨?_, ?_⟩⟩
  · exact powmValue_powmValue hp hq hpq hn ht hm hmn
  · have h := powmValue_powmValue hp hq hpq hn ((mul_comm d k).trans ht) hm hmn
    obtain ⟨s, hs, hv⟩ := Option.bind_eq_some_iff.mp h
    simp only [sign, decrypt, RsaPublicKey.verify, RsaPublicKey.encrypt, RsaPublicKey.make, hs,
      Option.bind_some, hv, Option.map_some, beq_self_eq_true]

/-- The primes 3 and 11, of which the second divides the message. -/
theorem keys_consistent_eleven : ∃ key, make (3 : ℕ) (11 : ℕ) 33 7 rfl = some key ∧
    ((RsaPublicKey.make 33 7).encrypt 22).bind key.decrypt = some 22 ∧
    (key.sign 22).bind ((RsaPublicKey.make 33 7).verify 22) = some true := by
  obtain ⟨key, hk, h⟩ := keys_consistent (p := 3) (q := 11) (n := 33) (e := 7) (by norm_num)
    (by norm_num) (by decide) rfl (by decide) (by decide)
  exact ⟨key, hk, h 22 (by decide) (by decide)⟩

end RsaPrivateKey

/-- A key pair created from two primes: decrypting undoes encrypting. -/
theorem RsaKeyPair.makeWithExponent_spec {p q : ℕ} {e : ℤ} (hp : p.Prime) (hq : q.Prime)
    (hpq : p ≠ q) (he : 1 ≤ e) (hc : e.gcd ((p - 1) * (q - 1)) = 1) :
    ∃ pair, makeWithExponent p q e = some pair ∧ ∀ m : ℤ, 0 ≤ m → m < p * q →
      (pair.publicKey.encrypt m).bind pair.privateKey.decrypt = some m := by
  obtain ⟨d, t, hk, ht⟩ := RsaPrivateKey.exists_make hp hq hpq rfl he hc
  obtain ⟨k, rfl⟩ := Int.eq_ofNat_of_zero_le (show 0 ≤ e by omega)
  rw [Int.natAbs_natCast] at ht
  refine ⟨⟨.make (p * q) k, ⟨p, q, d, p * q, k, rfl⟩⟩, ?_, fun m hm hmn => ?_⟩
  · rw [makeWithExponent, hk, Option.map_some]
  · exact powmValue_powmValue hp hq hpq rfl ht hm hmn

end EiffelWeb
