import Mathlib.Data.ZMod.Basic
import Mathlib.GroupTheory.OrderOfElement
import EiffelWeb.Crypto.NumberTheory
import EiffelWeb.Loop

set_option relaxedAutoImplicit false
set_option autoImplicit false

/-!
# Elliptic curve signatures

The classes `EC_DOMAIN_PARAMETERS`, `EC_PRIVATE_KEY` and `EC_PUBLIC_KEY` over an arbitrary group of
points: `product_value` and `plus_value` are the operations of the group, and of a point only the
number `x.x` is read. The random values that `sign` asks for come from a stream.

`sign` has three nested loops, for the nonce `k`, for `r` and for `s`. They run on one state, since
none of the loops sets the variables of the inner ones back.

## Main definitions

* `EcDomainParameters`, `EcPrivateKey`, `EcPublicKey`
* `EcPrivateKey.sign` — the nested loops, with a bound on the iterations of each.
* `EcPublicKey.verifyRS`, `EcPublicKey.verify`
* `EcPrivateKey.attempt` — the pair that a nonce gives.
* `EcPrivateKey.Usable` — the pair exists and both numbers are different from zero.

## Main results

* `EcPrivateKey.verify_attempt` — the identity behind the signature.
* `EcPrivateKey.exists_sign` — a usable nonce after zeros is used.
* `EcPrivateKey.sign_eq_none` — another nonce keeps `sign` from returning.
* `EcPrivateKey.verify_sign` — what `sign` returns is accepted.
* `EcPrivateKey.retriesFresh_iff` — the streams on which the retries work.
-/

namespace EiffelWeb

open IntegerX

/-- `EC_DOMAIN_PARAMETERS` over a group of points. -/
structure EcDomainParameters (G : Type*) where
  /-- `x.x` of a point. -/
  x : G → ℤ
  /-- `g`, the base point. -/
  g : G
  /-- `n`, the order of the base point. -/
  n : ℕ
  /-- The order is not trivial. -/
  one_lt_n : 1 < n

/-- `params.n.bits`. -/
def EcDomainParameters.nBitLength {G : Type*} (params : EcDomainParameters G) : ℕ :=
  params.n.log2 + 1

/-- `EC_PRIVATE_KEY`. -/
structure EcPrivateKey (G : Type*) where
  /-- `params`. -/
  params : EcDomainParameters G
  /-- `d`. -/
  d : ℤ

/-- `EC_PUBLIC_KEY`. -/
structure EcPublicKey (G : Type*) where
  /-- `params`. -/
  params : EcDomainParameters G
  /-- `q`. -/
  q : G

/-- The local variables of `sign` that change, with the number of random values drawn so far. -/
structure SignState where
  /-- `k`. -/
  k : ℤ := 0
  /-- `r`. -/
  r : ℤ := 0
  /-- `s`. -/
  s : ℤ := 0
  /-- The number of random values drawn. -/
  drawn : ℕ := 0

variable {G : Type*} [AddCommGroup G]

namespace EcPrivateKey

/-- The random values of `create k.make_random (nBitLength)`, one for each call. -/
abbrev Stream (key : EcPrivateKey G) := ℕ → Fin (2 ^ key.params.nBitLength)

/-- The loop that draws `k`. -/
def nonceLoop (key : EcPrivateKey G) (stream : key.Stream) : Loop SignState where
  exit st := st.k ≠ 0
  body st := some { st with k := (stream st.drawn : ℕ), drawn := st.drawn + 1 }

/-- The remainder `p.x.x \\ params.n` of the point of a nonce. -/
def rOf (key : EcPrivateKey G) (k : ℤ) : ℤ := key.params.x (k • key.params.g) % key.params.n

/-- The loop that computes `r`. -/
def rLoop (key : EcPrivateKey G) (stream : key.Stream) (fuel : ℕ) : Loop SignState where
  exit st := st.r ≠ 0
  body st := do
    let st ← (key.nonceLoop stream).run fuel st
    return { st with r := key.rOf st.k }

/-- The outer loop, that computes `s`. The nonce is inverted in place. -/
def sLoop (key : EcPrivateKey G) (e : ℤ) (stream : key.Stream) (fuel : ℕ) : Loop SignState where
  exit st := st.s ≠ 0
  body st := do
    let st ← (key.rLoop stream fuel).run fuel st
    let k ← inverseValue st.k key.params.n
    return { st with k := k, s := (key.d * st.r + e) * k % key.params.n }

/-- `sign (e)`: the signature, with the number of random values drawn. -/
def sign (key : EcPrivateKey G) (e : ℤ) (stream : key.Stream) (fuel : ℕ) :
    Option ((ℤ × ℤ) × ℕ) := do
  let st ← (key.sLoop e stream fuel).run fuel {}
  return ((st.r, st.s), st.drawn)

/-- `agreement (other)`. -/
def agreement (key : EcPrivateKey G) (other : EcPublicKey G) : ℤ :=
  key.params.x (key.d • other.q)

/-- The public key of `EC_KEY_PAIR.make`. -/
def publicKey (key : EcPrivateKey G) : EcPublicKey G := ⟨key.params, key.d • key.params.g⟩

@[simp] lemma publicKey_params (key : EcPrivateKey G) : key.publicKey.params = key.params := rfl

@[simp] lemma publicKey_q (key : EcPrivateKey G) :
    key.publicKey.q = key.d • key.params.g := rfl

end EcPrivateKey

namespace EcPublicKey

/-- `verify_r_s (e, r, s, curve)`. -/
def verifyRS (key : EcPublicKey G) (e r s : ℤ) : Option Bool :=
  if r < 1 ∨ r ≥ key.params.n then some false
  else if s < 1 ∨ s ≥ key.params.n then some false
  else do
    let c ← inverseValue s key.params.n
    let u1 := e * c % key.params.n
    let u2 := r * c % key.params.n
    let point := u1 • key.params.g + u2 • key.q
    let v := key.params.x point % key.params.n
    return v == r

/-- The test made of a pair in range. -/
lemma verifyRS_eq (key : EcPublicKey G) (e : ℤ) {r s c : ℤ} (hr : 1 ≤ r) (hrn : r < key.params.n)
    (hs : 1 ≤ s) (hsn : s < key.params.n) (hc : inverseValue s key.params.n = some c) :
    key.verifyRS e r s = some (key.params.x ((e * c % key.params.n) • key.params.g +
      (r * c % key.params.n) • key.q) % key.params.n == r) := by
  rw [verifyRS, if_neg (by omega), if_neg (by omega), hc]
  rfl

/-- `verify (message, signature)`. -/
def verify (key : EcPublicKey G) (message : ℤ) (signature : ℤ × ℤ) : Option Bool :=
  key.verifyRS message signature.1 signature.2

/-- `agreement (other)`. -/
def agreement (key : EcPublicKey G) (other : EcPrivateKey G) : ℤ :=
  key.params.x (other.d • key.q)

end EcPublicKey

/-- Both parties of an agreement compute the same number. -/
theorem EcPrivateKey.agreement_symm (a b : EcPrivateKey G) (h : a.params = b.params) :
    a.agreement b.publicKey = b.publicKey.agreement a ∧
      a.agreement b.publicKey = b.agreement a.publicKey := by
  refine ⟨?_, ?_⟩
  · simp only [agreement, EcPublicKey.agreement, publicKey, h]
  · simp only [agreement, publicKey, h, smul_smul, mul_comm a.d]

/-! ## The signature of a nonce -/

namespace EcPrivateKey

/-- The pair that the nonce `k` gives, as the comment in `sign` computes it. There is none when the
nonce has no inverse. -/
def attempt (key : EcPrivateKey G) (e k : ℤ) : Option (ℤ × ℤ) := do
  let r := key.rOf k
  let y ← inverseValue k key.params.n
  return (r, (key.d * r + e) * y % key.params.n)

/-- The nonce is coprime to `n`, and neither `r` nor `s` is zero. -/
def Usable (key : EcPrivateKey G) (e k : ℤ) : Prop :=
  k.gcd key.params.n = 1 ∧ ∃ r s, key.attempt e k = some (r, s) ∧ r ≠ 0 ∧ s ≠ 0

variable {key : EcPrivateKey G} {e k r s : ℤ}

/-- Zero is not usable. -/
lemma Usable.ne_zero {k : ℕ} (h : key.Usable e k) : k ≠ 0 := by
  rintro rfl
  have h1 := h.1
  have h2 := key.params.one_lt_n
  rw [Nat.cast_zero, Int.gcd_zero_left, Int.natAbs_natCast] at h1
  omega

/-- What there is to know about the pair of a nonce. -/
lemma attempt_eq_some (h : key.attempt e k = some (r, s)) :
    k.gcd key.params.n = 1 ∧ ∃ y, inverseValue k key.params.n = some y ∧
      k * y ≡ 1 [ZMOD key.params.n] ∧ r = key.rOf k ∧ s = (key.d * r + e) * y % key.params.n := by
  obtain ⟨y, hy, hp⟩ := Option.bind_eq_some_iff.mp h
  have hk : k.gcd key.params.n = 1 := by
    by_contra hk
    rw [inverseValue_eq_none hk] at hy
    cases hy
  obtain ⟨y', hy', -, -, hm⟩ := exists_inverseValue (by exact_mod_cast key.params.one_lt_n) hk
  obtain rfl : y' = y := Option.some.inj (hy'.symm.trans hy)
  obtain ⟨rfl, rfl⟩ := Prod.mk.inj (Option.some.inj hp)
  exact ⟨hk, y', hy, hm, rfl, rfl⟩

/-- **The identity behind the signature**: the multiple of the base point that the verifier computes
is that of the nonce. -/
lemma verifier_modEq {d e k y r s c n : ℤ} (hy : k * y ≡ 1 [ZMOD n])
    (hs : s ≡ (d * r + e) * y [ZMOD n]) (hc : s * c ≡ 1 [ZMOD n]) :
    e * c % n + r * c % n * d ≡ k [ZMOD n] := calc
  e * c % n + r * c % n * d ≡ e * c + r * c * d [ZMOD n] :=
    (Int.mod_modEq _ _).add ((Int.mod_modEq _ _).mul_right d)
  _ = (d * r + e) * c * 1 := by ring
  _ ≡ (d * r + e) * c * (k * y) [ZMOD n] := hy.symm.mul_left _
  _ = (d * r + e) * y * (k * c) := by ring
  _ ≡ s * (k * c) [ZMOD n] := hs.symm.mul_right _
  _ = k * (s * c) := by ring
  _ ≡ k * 1 [ZMOD n] := hc.mul_left k
  _ = k := mul_one k

/-- A number between zero and a prime is coprime to it. -/
lemma gcd_eq_one_of_lt_prime {n : ℕ} (hn : n.Prime) (h0 : 0 < s) (hlt : s < n) : s.gcd n = 1 := by
  obtain ⟨m, rfl⟩ := Int.eq_ofNat_of_zero_le h0.le
  rw [Int.gcd_natCast_natCast]
  exact Nat.Coprime.symm ((Nat.Prime.coprime_iff_not_dvd hn).mpr
    (Nat.not_dvd_of_pos_of_lt (by omega) (by omega)))

/-- **Completeness** for one nonce: the pair is accepted. -/
lemma verify_attempt (hn : key.params.n.Prime) (hg : addOrderOf key.params.g = key.params.n)
    (h : key.attempt e k = some (r, s)) (hr : r ≠ 0) (hs : s ≠ 0) :
    key.publicKey.verify e (r, s) = some true := by
  obtain ⟨-, y, -, hy, hrk, hsk⟩ := attempt_eq_some h
  have hpos : (0 : ℤ) < key.params.n := by exact_mod_cast hn.pos
  have hr0 : 0 ≤ r := hrk ▸ Int.emod_nonneg _ hpos.ne'
  have hrn : r < key.params.n := hrk ▸ Int.emod_lt_of_pos _ hpos
  have hs0 : 0 ≤ s := hsk ▸ Int.emod_nonneg _ hpos.ne'
  have hsn : s < key.params.n := hsk ▸ Int.emod_lt_of_pos _ hpos
  obtain ⟨c, hc, -, -, hm⟩ := exists_inverseValue (x := s) (by exact_mod_cast hn.one_lt)
    (gcd_eq_one_of_lt_prime hn (by omega) hsn)
  have hmod : e * c % key.params.n + r * c % key.params.n * key.d ≡ k [ZMOD key.params.n] :=
    verifier_modEq hy (hsk ▸ Int.mod_modEq _ _) hm
  have hpoint : (e * c % key.params.n) • key.params.g +
      (r * c % key.params.n) • key.d • key.params.g = k • key.params.g := by
    rw [smul_smul, ← add_smul, zsmul_eq_zsmul_iff_modEq, hg]
    exact hmod
  have hv := key.publicKey.verifyRS_eq e (show 1 ≤ r by omega) hrn (show 1 ≤ s by omega) hsn hc
  rw [EcPublicKey.verify, hv, publicKey_params, publicKey_q, hpoint, Option.some.injEq, beq_iff_eq]
  exact hrk.symm

/-! ## The loops

Up to the first random value that is not zero only the innermost loop goes round. After it the
nonce and, as soon as it is not zero, `r` stay as they are. -/

section Loops

variable {stream : key.Stream} {i : ℕ}

/-- The first value that is not zero is the nonce. -/
structure IsFirst (stream : key.Stream) (i : ℕ) : Prop where
  /-- The values before it are zero. -/
  before : ∀ j < i, (stream j : ℕ) = 0
  /-- The value is not zero. -/
  ne_zero : (stream i : ℕ) ≠ 0

/-- The state after the innermost loop. -/
def nonceState (stream : key.Stream) (i : ℕ) : SignState :=
  { k := (stream i : ℕ), drawn := i + 1 }

/-- The state after the middle loop. -/
def rState (stream : key.Stream) (i : ℕ) : SignState :=
  { nonceState stream i with r := key.rOf (stream i : ℕ) }

omit [AddCommGroup G] in
/-- What holds at the head of the innermost loop, and what decreases. -/
lemma nonceLoop_step (h : IsFirst stream i) (st : SignState)
    (hst : st.drawn ≤ i ∧ st = { drawn := st.drawn } ∨ st = nonceState stream i)
    (he : (key.nonceLoop stream).exit st = false) :
    ∃ st', (key.nonceLoop stream).body st = some st' ∧
      (st'.drawn ≤ i ∧ st' = { drawn := st'.drawn } ∨ st' = nonceState stream i) ∧
      i + 1 - st'.drawn < i + 1 - st.drawn := by
  rcases hst with ⟨hd, hst⟩ | rfl
  · refine ⟨_, rfl, ?_, by simp only; omega⟩
    rw [hst]
    rcases hd.lt_or_eq with hlt | heq
    · exact .inl ⟨hlt, by simp [h.before _ hlt]⟩
    · exact .inr (by simp [nonceState, heq])
  · simp [nonceLoop, nonceState, h.ne_zero] at he

omit [AddCommGroup G] in
/-- The innermost loop draws values up to the first that is not zero. -/
lemma nonceLoop_run (h : IsFirst stream i) {fuel : ℕ} (hf : i < fuel) :
    (key.nonceLoop stream).run fuel {} = some (nonceState stream i) := by
  obtain ⟨st, hst, hI, he⟩ := Loop.run_of_variant _ _ (nonceLoop_step h) (n := fuel) (s := {})
    (.inl ⟨Nat.zero_le i, rfl⟩) (by simpa using hf)
  rcases hI with ⟨-, hst'⟩ | rfl
  · rw [hst'] at he
    simp [nonceLoop] at he
  · exact hst

omit [AddCommGroup G] in
/-- The innermost loop does not return from a stream of zeros. -/
lemma nonceLoop_run_eq_none (h : ∀ j, (stream j : ℕ) = 0) (fuel : ℕ) :
    (key.nonceLoop stream).run fuel {} = none := by
  have hnot := Loop.not_terminates_of_invariant (l := key.nonceLoop stream) (fun st => st.k = 0)
    (s := {}) (fun st hst => ⟨by simp [nonceLoop, hst], ?_⟩) rfl
  · rw [Loop.Terminates, not_exists] at hnot
    simpa using hnot fuel
  · rintro st' hb
    obtain rfl := Option.some.inj hb
    simp [h]

omit [AddCommGroup G] in
/-- A nonce that is not zero stays. -/
lemma nonceLoop_run_of_ne_zero {st : SignState} (h : st.k ≠ 0) (fuel : ℕ) :
    (key.nonceLoop stream).run fuel st = some st :=
  Loop.run_of_exit (by simp [nonceLoop, h]) fuel

omit [AddCommGroup G] in
/-- The innermost loop returns no other state. -/
lemma eq_nonceState (h : IsFirst stream i) {fuel : ℕ} {st : SignState}
    (hst : (key.nonceLoop stream).run fuel {} = some st) : st = nonceState stream i := by
  have h1 := Loop.run_mono (Nat.le_max_left fuel (i + 1)) hst
  rw [nonceLoop_run h (by omega)] at h1
  exact (Option.some.inj h1).symm

/-- The middle loop returns when `r` is not zero. -/
lemma rLoop_run (h : IsFirst stream i) (hr : key.rOf (stream i : ℕ) ≠ 0) {fuel : ℕ}
    (hf : i < fuel) : (key.rLoop stream fuel).run fuel {} = some (rState stream i) := by
  obtain ⟨f, rfl⟩ : ∃ f, fuel = f + 1 := ⟨fuel - 1, by omega⟩
  have hb : (key.rLoop stream (f + 1)).body {} = some (rState stream i) := by
    simp only [rLoop, nonceLoop_run h hf]
    rfl
  rw [Loop.run_succ (by simp [rLoop]) hb]
  exact Loop.run_of_exit (by simp [rLoop, rState, hr]) f

/-- The body of the middle loop computes the same `r` again, since the nonce is not drawn again. -/
lemma rLoop_step (h : IsFirst stream i) {fuel : ℕ} (st st' : SignState)
    (hst : st = {} ∨ st = rState stream i) (hb : (key.rLoop stream fuel).body st = some st') :
    st' = rState stream i := by
  obtain ⟨st1, h1, hs'⟩ := Option.bind_eq_some_iff.mp hb
  obtain rfl := Option.some.inj hs'
  rcases hst with rfl | rfl
  · rw [eq_nonceState h h1]
    rfl
  · rw [nonceLoop_run_of_ne_zero (by simpa [rState, nonceState] using h.ne_zero)] at h1
    obtain rfl := Option.some.inj h1
    rfl

/-- The middle loop returns no other state, and none when `r` is zero. -/
lemma eq_rState (h : IsFirst stream i) {fuel : ℕ} {st : SignState}
    (hst : (key.rLoop stream fuel).run fuel {} = some st) :
    st = rState stream i ∧ key.rOf (stream i : ℕ) ≠ 0 := by
  obtain ⟨hI, he⟩ := Loop.run_invariant (I := fun st => st = {} ∨ st = rState stream i)
    (fun st st' hst _ hb => .inr (rLoop_step h st st' hst hb)) (.inl rfl) hst
  rcases hI with rfl | rfl
  · simp [rLoop] at he
  · exact ⟨rfl, by simpa [rLoop, rState] using he⟩

/-- The first iteration of the outer loop makes the attempt with the first value that is not
zero. -/
lemma sLoop_body_start (h : IsFirst stream i) {fuel : ℕ} {st : SignState}
    (hb : (key.sLoop e stream fuel).body {} = some st) :
    key.attempt e (stream i : ℕ) = some (st.r, st.s) ∧ st.r ≠ 0 ∧ st.drawn = i + 1 := by
  obtain ⟨st1, h1, hb⟩ := Option.bind_eq_some_iff.mp hb
  obtain ⟨rfl, hr⟩ := eq_rState h h1
  obtain ⟨y, hy, hb⟩ := Option.bind_eq_some_iff.mp hb
  obtain rfl := Option.some.inj hb
  refine ⟨?_, hr, rfl⟩
  rw [attempt, show inverseValue (stream i : ℕ) key.params.n = some y from hy]
  rfl

/-- **Divergence.** When `n` divides `d * r + e`, the outer loop repeats with the same `r`, and `s`
stays zero, whatever the nonce becomes. -/
lemma not_terminates_sLoop (stream : key.Stream) (fuel : ℕ) {st : SignState} (hs : st.s = 0)
    (hr : st.r ≠ 0) (hd : (key.params.n : ℤ) ∣ key.d * st.r + e) :
    ¬ (key.sLoop e stream fuel).Terminates st := by
  refine Loop.not_terminates_of_invariant
    (fun st => st.s = 0 ∧ st.r ≠ 0 ∧ (key.params.n : ℤ) ∣ key.d * st.r + e) ?_ ⟨hs, hr, hd⟩
  rintro st ⟨hs, hr, hd⟩
  refine ⟨by simp [sLoop, hs], fun st' hb => ?_⟩
  obtain ⟨st1, h1, hb⟩ := Option.bind_eq_some_iff.mp hb
  rw [Loop.run_of_exit (by simp [rLoop, hr])] at h1
  obtain rfl := Option.some.inj h1
  obtain ⟨y, -, hb⟩ := Option.bind_eq_some_iff.mp hb
  obtain rfl := Option.some.inj hb
  exact ⟨Int.emod_eq_zero_of_dvd (hd.mul_right y), hr, hd⟩

/-- What a usable first value gives. -/
lemma exists_sign (h : IsFirst stream i) (hu : key.Usable e (stream i : ℕ)) :
    ∃ r s, key.attempt e (stream i : ℕ) = some (r, s) ∧
      ∀ fuel, i < fuel → key.sign e stream fuel = some ((r, s), i + 1) := by
  obtain ⟨-, r, s, ha, hr, hs⟩ := hu
  refine ⟨r, s, ha, fun fuel hf => ?_⟩
  obtain ⟨-, y, hy, -, rfl, hsy⟩ := attempt_eq_some ha
  obtain ⟨f, rfl⟩ : ∃ f, fuel = f + 1 := ⟨fuel - 1, by omega⟩
  have hb : (key.sLoop e stream (f + 1)).body {} =
      some { k := y, r := key.rOf (stream i : ℕ), s := s, drawn := i + 1 } := by
    simp only [sLoop, rLoop_run h hr hf, Option.bind_eq_bind, Option.bind_some]
    rw [show inverseValue (rState stream i).k key.params.n = some y from hy, hsy]
    rfl
  rw [sign, Loop.run_succ (by simp [sLoop]) hb, Loop.run_of_exit (by simp [sLoop, hs])]
  rfl

omit [AddCommGroup G] in
/-- There is a first value that is not zero, unless all are. -/
lemma exists_isFirst (h : ¬ ∀ j, (stream j : ℕ) = 0) : ∃ i, IsFirst stream i := by
  classical
  rw [not_forall] at h
  exact ⟨Nat.find h, fun j hj => not_not.mp (Nat.find_min h hj), Nat.find_spec h⟩

/-- A divisor of a product with an inverse of the nonce. -/
lemma dvd_of_dvd_mul_inverse {a k y n : ℤ} (hy : k * y ≡ 1 [ZMOD n]) (h : n ∣ a * y) : n ∣ a := by
  have hcop : IsCoprime n y := by
    rw [isCoprime_comm, Int.isCoprime_iff_gcd_eq_one]
    exact gcd_eq_one_of_mul_modEq hy
  exact hcop.dvd_of_dvd_mul_right h

/-- What `sign` returns comes from the first value that is not zero, and that value is usable. -/
lemma sign_eq_some {fuel m : ℕ} (h : key.sign e stream fuel = some ((r, s), m)) :
    ∃ i, IsFirst stream i ∧ m = i + 1 ∧ key.Usable e (stream i : ℕ) ∧
      key.attempt e (stream i : ℕ) = some (r, s) := by
  obtain ⟨st, hst, hres⟩ := Option.bind_eq_some_iff.mp h
  obtain ⟨f, rfl⟩ : ∃ f, fuel = f + 1 := by
    refine Nat.exists_eq_succ_of_ne_zero ?_
    rintro rfl
    simp [Loop.run, sLoop] at hst
  rw [Loop.run_succ_of_not_exit (by simp [sLoop])] at hst
  obtain ⟨st1, hb, hst⟩ := Option.bind_eq_some_iff.mp hst
  obtain ⟨i, hi⟩ : ∃ i, IsFirst stream i := by
    refine exists_isFirst fun hz => ?_
    obtain ⟨st2, h2, -⟩ := Option.bind_eq_some_iff.mp hb
    rw [Loop.run_succ_of_not_exit (by simp [rLoop])] at h2
    obtain ⟨st3, h3, -⟩ := Option.bind_eq_some_iff.mp h2
    obtain ⟨st4, h4, -⟩ := Option.bind_eq_some_iff.mp h3
    rw [nonceLoop_run_eq_none hz] at h4
    cases h4
  obtain ⟨ha, hr, hd⟩ := sLoop_body_start hi hb
  obtain ⟨hk, y, -, hky, -, hsy⟩ := attempt_eq_some ha
  have hs : st1.s ≠ 0 := by
    intro hs
    refine not_terminates_sLoop stream (f + 1) hs hr ?_ ⟨f, by rw [hst]; rfl⟩
    exact dvd_of_dvd_mul_inverse hky (Int.dvd_of_emod_eq_zero (hsy.symm.trans hs))
  rw [Loop.run_of_exit (by simp [sLoop, hs]), Option.some.injEq] at hst
  subst hst
  obtain ⟨hrs, rfl⟩ := Prod.mk.inj (Option.some.inj hres)
  obtain ⟨rfl, rfl⟩ := Prod.mk.inj hrs
  exact ⟨i, hi, hd, ⟨hk, _, _, ha, hr, hs⟩, ha⟩

end Loops

/-! ## Completeness and the retries -/

/-- **Completeness.** In a group in which the base point has prime order, every signature that
`sign` returns is accepted under the public key; and for a usable nonce, drawn after any number of
zeros, `sign` returns the pair of the nonce. Neither the private number nor the message have to be
reduced. -/
theorem verify_sign (key : EcPrivateKey G) (hn : key.params.n.Prime)
    (hg : addOrderOf key.params.g = key.params.n) (e : ℤ) (stream : key.Stream) :
    (∀ fuel sig m, key.sign e stream fuel = some (sig, m) →
      key.publicKey.verify e sig = some true) ∧
    ∀ i, (∀ j < i, (stream j : ℕ) = 0) → key.Usable e (stream i : ℕ) →
      ∃ sig, key.attempt e (stream i : ℕ) = some sig ∧
        (∃ fuel, key.sign e stream fuel = some (sig, i + 1)) ∧
        key.publicKey.verify e sig = some true := by
  refine ⟨fun fuel sig m h => ?_, fun i hz hu => ?_⟩
  · obtain ⟨i, -, -, ⟨-, r, s, ha', hr, hs⟩, ha⟩ := sign_eq_some h
    obtain rfl : (r, s) = sig := Option.some.inj (ha'.symm.trans ha)
    exact verify_attempt hn hg ha' hr hs
  · obtain ⟨r, s, ha, hsign⟩ := exists_sign ⟨hz, hu.ne_zero⟩ hu
    obtain ⟨-, r', s', ha', hr, hs⟩ := hu
    obtain ⟨rfl, rfl⟩ := Prod.mk.inj (Option.some.inj (ha.symm.trans ha'))
    exact ⟨(r, s), ha, ⟨i + 1, hsign _ (Nat.lt_succ_self i)⟩, verify_attempt hn hg ha hr hs⟩

/-- The curve `y ^ 2 = x ^ 3 + 2 * x + 1` modulo five, with the base point `(0, 1)`: its seven
points are the multiples of the base point, which are given here with their first coordinates. -/
def sevenPoints : EcDomainParameters (ZMod 7) where
  x P := [0, 0, 1, 3, 3, 1, 0].getD P.val 0
  g := 1
  n := 7
  one_lt_n := by decide

/-- The private key three over these parameters. -/
def sampleKey : EcPrivateKey (ZMod 7) := ⟨sevenPoints, 3⟩

/-- The stream that begins with a value and goes on with twos. -/
def thenTwos (k : Fin 8) : sampleKey.Stream := fun j => if j = 0 then k else (2 : Fin 8)

/-- Two is a usable nonce for the message two. -/
lemma usable_two : sampleKey.Usable 2 (2 : ℕ) := by
  obtain ⟨y, hy, hy0, hy7, hm⟩ := exists_inverseValue (x := 2) (n := 7) (by decide) (by decide)
  obtain rfl : y = 4 := by
    have := hm.eq
    omega
  have hr : sampleKey.rOf 2 = 1 := by decide
  refine ⟨by decide, 1, 6, ?_, by decide, by decide⟩
  simp only [attempt, Nat.cast_ofNat, hr]
  rw [show inverseValue 2 (sampleKey.params.n : ℕ) = some 4 from hy]
  rfl

/-- A nonce after one zero. -/
theorem verify_sign_two : ∃ sig fuel,
    sampleKey.sign 2 (thenTwos 0) fuel = some (sig, 2) ∧
      sampleKey.publicKey.verify 2 sig = some true := by
  have hg : addOrderOf sampleKey.params.g = sampleKey.params.n := ZMod.addOrderOf_one 7
  obtain ⟨sig, -, ⟨fuel, hsign⟩, hv⟩ :=
    (verify_sign sampleKey Nat.prime_seven hg 2 (thenTwos 0)).2 1 (by decide) usable_two
  exact ⟨sig, fuel, hsign, hv⟩

/-- The retries draw a fresh nonce: `sign` returns the pair of the first usable value of the stream,
and draws no further value. -/
def RetriesFresh (key : EcPrivateKey G) (e : ℤ) (stream : key.Stream) : Prop :=
  ∀ i, key.Usable e (stream i : ℕ) → (∀ j < i, ¬ key.Usable e (stream j : ℕ)) →
    ∃ sig, key.attempt e (stream i : ℕ) = some sig ∧
      ∃ fuel, key.sign e stream fuel = some (sig, i + 1)

/-- **The retries** work exactly on the streams in which nothing but zeros comes before the first
usable value: a value that leads to `r = 0` or to `s = 0` is not replaced. -/
theorem retriesFresh_iff (key : EcPrivateKey G) (e : ℤ) (stream : key.Stream) :
    key.RetriesFresh e stream ↔
      ∀ i, key.Usable e (stream i : ℕ) → (∀ j < i, ¬ key.Usable e (stream j : ℕ)) →
        ∀ j < i, (stream j : ℕ) = 0 := by
  refine ⟨fun h i hu hfirst => ?_, fun h i hu hfirst => ?_⟩
  · obtain ⟨⟨r, s⟩, -, fuel, hsign⟩ := h i hu hfirst
    obtain ⟨i', hi', hm, -⟩ := sign_eq_some hsign
    obtain rfl : i' = i := by omega
    exact hi'.before
  · obtain ⟨r, s, ha, hsign⟩ := exists_sign ⟨h i hu hfirst, hu.ne_zero⟩ hu
    exact ⟨(r, s), ha, i + 1, hsign _ (Nat.lt_succ_self i)⟩

/-- The point of the nonce one is the base point, whose first coordinate is zero. The nonce is kept,
although the stream goes on with a usable value. -/
theorem not_retriesFresh_one : ¬ sampleKey.RetriesFresh 2 (thenTwos 1) := by
  intro h
  have hone : ¬ sampleKey.Usable 2 (1 : ℕ) := by
    rintro ⟨-, r, s, ha, hr, -⟩
    obtain ⟨-, y, -, -, rfl, -⟩ := attempt_eq_some ha
    exact hr (by decide)
  obtain ⟨⟨r, s⟩, -, fuel, hsign⟩ := h 1 usable_two fun j hj => by
    obtain rfl : j = 0 := by omega
    exact hone
  obtain ⟨i, hi, hm, -⟩ := sign_eq_some hsign
  obtain rfl : i = 1 := by omega
  exact absurd (hi.before 0 one_pos) (by decide)

end EcPrivateKey

end EiffelWeb
