import Mathlib.NumberTheory.LegendreSymbol.Basic
import Mathlib.Tactic.FieldSimp
import Mathlib.Tactic.LinearCombination
import Mathlib.Tactic.NormNum.Prime
import EiffelWeb.Crypto.Ec.SquareRoot

set_option relaxedAutoImplicit false
set_option autoImplicit false

/-!
# Square roots modulo a prime that is one modulo four

The recursion `W` of `sqrt` is right: it gives the sums `b ^ n + b⁻¹ ^ n` for the number `b` with
`b + b⁻¹ = r ^ 2 / x - 2`. With a number `r` such that `r ^ 2 - 4 * x` is no square, `b` lies in the
field with `p ^ 2` elements and the result is a root of `x`. The loop that draws `r` leaves when
`r ^ 2 - 4 * x` is a square; then `b` is in the field with `p` elements, and the square of the
result is `r ^ 2 / 4`.

## Main definitions

* `EcFieldElementFp.drawn` — the numbers that `r` goes through.
* `EcFieldElementFp.DrawsTwiceRoot` — the loop leaves with twice a root.

## Main results

* `EcFieldElementFp.w_eq` — what `W` computes.
* `EcFieldElementFp.lucas_root_sq` — the square of the result.
* `EcFieldElementFp.sqrt_sq_iff` — when the result is a root.
-/

namespace EiffelWeb

open IntegerX

/-! ## The recursion -/

/-- The inverse modulo a prime is a power. -/
lemma pow_sub_two_eq_inv {p : ℕ} [hp : Fact p.Prime] (h2 : p ≠ 2) (a : ZMod p) :
    a ^ (p - 2) = a⁻¹ := by
  have hlt := hp.out.two_le
  by_cases ha : a = 0
  · rw [ha, inv_zero, zero_pow (by omega)]
  · refine eq_inv_of_mul_eq_one_left ?_
    have hexp : p - 2 + 1 = p - 1 := by omega
    rw [← pow_succ, hexp, ZMod.pow_card_sub_one_eq_one ha]

/-- Two has an inverse modulo an odd prime. -/
lemma two_ne_zero_of_ne {p : ℕ} [hp : Fact p.Prime] (h2 : p ≠ 2) : (2 : ZMod p) ≠ 0 := by
  intro h0
  have hdvd : p ∣ 2 := (ZMod.natCast_eq_zero_iff 2 p).mp (by exact_mod_cast h0)
  exact h2 ((Nat.prime_dvd_prime_iff_eq hp.out Nat.prime_two).mp hdvd)

namespace EcFieldElementFp

section Recursion

variable {p : ℕ} [hp : Fact p.Prime]

/-- `powm_value (p - TWO, p)` is the inverse. -/
lemma powmValue_sub_two (h2 : p ≠ 2) (x : ℤ) :
    ∃ y, powmValue x ((p : ℤ) - 2) p = some y ∧ (y : ZMod p) = (x : ZMod p)⁻¹ := by
  have hle := hp.out.two_le
  have hexp : (p : ℤ) - 2 = ((p - 2 : ℕ) : ℤ) := by omega
  refine ⟨x ^ (p - 2) % p, by rw [hexp, powmValue_of_nonneg (by omega)], ?_⟩
  rw [ZMod.intCast_mod, Int.cast_pow, pow_sub_two_eq_inv h2]

/-- **The recursion `W`** computes the sums of a power and its inverse.

**Proof sketch.** Induction along the recursion. A square of a sum is the sum of the squares and
two, and a product of two neighbouring sums is the sum for both exponents and the first sum. -/
lemma w_eq (h2 : p ≠ 2) {r x : ℤ} {b : ZMod p} (hb : b ≠ 0)
    (hw : (r : ZMod p) ^ 2 * (x : ZMod p)⁻¹ - 2 = b + b⁻¹) (n : ℕ) (hn : n ≠ 0) :
    ∃ v, w r x p n = some v ∧ (v : ZMod p) = b ^ n + b⁻¹ ^ n := by
  have hone : ∃ v, w r x p 1 = some v ∧ (v : ZMod p) = b + b⁻¹ := by
    obtain ⟨y, hy, hyval⟩ := powmValue_sub_two h2 x
    refine ⟨(r * r * y - 2) % p, ?_, ?_⟩
    · rw [w, if_neg one_ne_zero, if_pos rfl, hy, Option.map_some]
    · rw [ZMod.intCast_mod, ← hw, ← hyval]
      push_cast
      ring
  induction n using Nat.strong_induction_on with
  | _ n ih =>
    rcases Nat.even_or_odd' n with ⟨k, rfl | rfl⟩
    case inl =>
      obtain ⟨v, hv, hval⟩ := ih k (by omega) (by omega)
      refine ⟨(v * v - 2) % p, ?_, ?_⟩
      · rw [w, if_neg hn, if_neg (by omega), if_pos (by omega), Nat.mul_div_cancel_left k two_pos,
          hv, Option.map_some]
      · rw [ZMod.intCast_mod]
        push_cast
        have hinv : b ^ k * b⁻¹ ^ k = 1 := by
          rw [← mul_pow, mul_inv_cancel₀ hb, one_pow]
        rw [hval, pow_mul', pow_mul']
        linear_combination 2 * hinv
    case inr =>
      by_cases hk : k = 0
      · subst hk
        simpa using hone
      obtain ⟨v, hv, hval⟩ := ih (k + 1) (by omega) (by omega)
      obtain ⟨v', hv', hval'⟩ := ih k (by omega) hk
      obtain ⟨v₁, hv₁, hval₁⟩ := hone
      refine ⟨(v * v' - v₁) % p, ?_, ?_⟩
      · have hup : (2 * k + 1 + 1) / 2 = k + 1 := by omega
        have hdown : (2 * k + 1 - 1) / 2 = k := by omega
        rw [w, if_neg hn, if_neg (by omega), if_neg (by omega), hup, hdown, hv, hv', hv₁]
        rfl
      · rw [ZMod.intCast_mod]
        push_cast
        have hinv : b ^ k * b⁻¹ ^ k = 1 := by
          rw [← mul_pow, mul_inv_cancel₀ hb, one_pow]
        have hdouble : b ^ (2 * k + 1) = b ^ k * b ^ k * b := by ring
        have hdouble' : b⁻¹ ^ (2 * k + 1) = b⁻¹ ^ k * b⁻¹ ^ k * b⁻¹ := by ring
        rw [hval, hval', hval₁, hdouble, hdouble', pow_succ, pow_succ]
        linear_combination (b + b⁻¹) * hinv

end Recursion

/-! ## The result -/

section Result

variable {p : ℕ} [hp : Fact p.Prime]

/-- If `r ^ 2 - 4 * x` is a square, the number that the sums belong to is in the field, and so is a
root of it. -/
lemma exists_base (h2 : p ≠ 2) {x r : ZMod p} (hx : x ≠ 0) (hsq : IsSquare x)
    (hd : IsSquare (r ^ 2 - 4 * x)) :
    ∃ a : ZMod p, a ≠ 0 ∧ r ^ 2 * x⁻¹ - 2 = a ^ 2 + (a ^ 2)⁻¹ := by
  obtain ⟨y, rfl⟩ := hsq
  obtain ⟨s, hs⟩ := hd
  have hy : y ≠ 0 := fun h0 => hx (by rw [h0, mul_zero])
  have htwo := two_ne_zero_of_ne h2
  have hmul : ((r + s) / (2 * y)) * ((r - s) / (2 * y)) = 1 := by
    field_simp
    linear_combination hs
  have hne : (r + s) / (2 * y) ≠ 0 := left_ne_zero_of_mul_eq_one hmul
  refine ⟨(r + s) / (2 * y), hne, ?_⟩
  have hinv : (((r + s) / (2 * y)) ^ 2)⁻¹ = ((r - s) / (2 * y)) ^ 2 := by
    rw [← inv_pow, inv_eq_of_mul_eq_one_right hmul]
  rw [hinv]
  field_simp
  linear_combination 2 * hs

/-- **The square of the result** if `r ^ 2 - 4 * x` is a square.

**Proof sketch.** The `(p - 1) / 4`-th power of the square `a ^ 2` is one or minus one, which is its
own inverse. So the two sums are together the sign times `2 + a ^ 2 + a⁻¹ ^ 2`, which is the sign
times `r ^ 2 / x`. -/
lemma lucas_root_sq (h4 : p % 4 = 1) {x r a : ZMod p} (hx : x ≠ 0) (ha : a ≠ 0)
    (hw : r ^ 2 * x⁻¹ - 2 = a ^ 2 + (a ^ 2)⁻¹) :
    4 * (x * (2 * r)⁻¹ * (((a ^ 2) ^ (p / 4) + (a ^ 2)⁻¹ ^ (p / 4)) +
      ((a ^ 2) ^ (p / 4 + 1) + (a ^ 2)⁻¹ ^ (p / 4 + 1)))) ^ 2 = r ^ 2 := by
  have htwo : (2 : ZMod p) ≠ 0 := two_ne_zero_of_ne (by omega)
  have hpow : (a ^ 2) ^ (p / 4) = a ^ (p / 2) := by
    rw [← pow_mul]
    congr 1
    omega
  have hsign : (a ^ (p / 2)) ^ 2 = 1 := by
    rcases ZMod.pow_div_two_eq_neg_one_or_one p ha with h | h <;> rw [h] <;> ring
  have hself : (a ^ 2)⁻¹ ^ (p / 4) = a ^ (p / 2) := by
    rw [inv_pow, hpow]
    exact inv_eq_of_mul_eq_one_right (by rw [← pow_two, hsign])
  rw [pow_succ (a ^ 2), pow_succ (a ^ 2)⁻¹, hpow, hself]
  set e := a ^ (p / 2)
  have hsum : e + e + (e * a ^ 2 + e * (a ^ 2)⁻¹) = e * (r ^ 2 * x⁻¹) := by
    linear_combination -e * hw
  rw [hsum]
  by_cases hr : r = 0
  · rw [hr]
    ring
  · field_simp
    rw [hsign]
    ring

end Result

/-! ## The loop -/

/-- The numbers that `r` goes through. -/
def drawn (p : ℤ) (stream : ℕ → ℕ) : ℕ → ℤ
  | 0 => 2
  | n + 1 => stream n % p

/-- The first number drawn for which `r ^ 2 - 4 * x` is a square or zero is twice a root of `x`. -/
def DrawsTwiceRoot (p x : ℤ) (stream : ℕ → ℕ) : Prop :=
  ∃ n, (∀ k < n, ¬ ∃ s : ℤ, s ^ 2 ≡ drawn p stream k ^ 2 - 4 * x [ZMOD p]) ∧
    drawn p stream n ^ 2 ≡ 4 * x [ZMOD p]

/-- The loop leaves with the first number drawn that satisfies the exit test. -/
lemma run_sqrtLoop {p x e : ℤ} {stream : ℕ → ℕ} {fuel n : ℕ} {st : ℤ × ℕ}
    (h : (sqrtLoop x p e stream).run fuel (drawn p stream n, n) = some st) :
    ∃ k, n ≤ k ∧ st = (drawn p stream k, k) ∧ (sqrtLoop x p e stream).exit st = true ∧
      ∀ j, n ≤ j → j < k → (sqrtLoop x p e stream).exit (drawn p stream j, j) = false := by
  induction fuel generalizing n with
  | zero =>
    rw [Loop.run] at h
    split at h
    · exact ⟨n, le_rfl, (Option.some.inj h).symm, Option.some.inj h ▸ ‹_›, fun j _ _ => by omega⟩
    · cases h
  | succ fuel ih =>
    by_cases he : (sqrtLoop x p e stream).exit (drawn p stream n, n) = true
    · rw [Loop.run_of_exit he] at h
      exact ⟨n, le_rfl, (Option.some.inj h).symm, Option.some.inj h ▸ he, fun j _ _ => by omega⟩
    · have he' := Bool.not_eq_true _ ▸ he
      have hbody : (sqrtLoop x p e stream).body (drawn p stream n, n) =
          some (drawn p stream (n + 1), n + 1) := rfl
      rw [Loop.run_succ he' hbody] at h
      obtain ⟨k, hk, hst, hexit, hbefore⟩ := ih h
      refine ⟨k, by omega, hst, hexit, fun j hj hjk => ?_⟩
      rcases hj.eq_or_lt with rfl | hlt
      · exact he'
      · exact hbefore j hlt hjk

section Draws

variable {p : ℕ} [hp : Fact p.Prime]

/-- Squares modulo a number. -/
lemma isSquare_intCast_iff (z : ℤ) : IsSquare (z : ZMod p) ↔ ∃ s : ℤ, s ^ 2 ≡ z [ZMOD p] := by
  constructor
  · rintro ⟨s, hs⟩
    obtain ⟨t, rfl⟩ := ZMod.intCast_surjective s
    refine ⟨t, (ZMod.intCast_eq_intCast_iff _ _ _).mp ?_⟩
    push_cast
    rw [hs, pow_two]
  · rintro ⟨s, hs⟩
    refine ⟨s, ?_⟩
    rw [← (ZMod.intCast_eq_intCast_iff _ _ _).mpr hs]
    push_cast
    rw [pow_two]

/-- The loop leaves when `r ^ 2 - 4 * x` is a square or zero. -/
lemma exit_sqrtLoop (h4 : p % 4 = 1) (x : ℤ) (stream : ℕ → ℕ) (st : ℤ × ℕ) :
    (sqrtLoop x p (((p : ℤ) - 1).tdiv 2) stream).exit st = true ↔
      ∃ s : ℤ, s ^ 2 ≡ st.1 ^ 2 - 4 * x [ZMOD p] := by
  have hexp : ((p : ℤ) - 1).tdiv 2 = ((p / 2 : ℕ) : ℤ) := by
    rw [Int.tdiv_eq_ediv_of_nonneg (by omega)]
    omega
  have hle := hp.out.two_le
  have hne : (p : ℤ) ≠ 0 := by omega
  have hminus : ((p : ℤ) - 1) = (-1) % p := by
    rw [← Int.add_emod_right, Int.emod_eq_of_lt (by omega) (by omega)]
    ring
  set d : ZMod p := ((st.1 * st.1 - 4 * x : ℤ) : ZMod p) with hd
  have hexit : (sqrtLoop x p (((p : ℤ) - 1).tdiv 2) stream).exit st = true ↔
      d ^ (p / 2) ≠ -1 := by
    rw [sqrtLoop, hexp]
    simp only [decide_eq_true_eq]
    rw [powmValue_of_nonneg hne, ne_eq, Option.some.injEq, hminus, hd, ← Int.cast_pow,
      ← ZMod.intCast_eq_intCast_iff']
    push_cast
    rfl
  have hneg : (1 : ZMod p) ≠ -1 := by
    intro h1
    exact two_ne_zero_of_ne (p := p) (by omega) (by linear_combination h1)
  rw [hexit, ← isSquare_intCast_iff, pow_two, ← hd]
  have hhalf : p / 2 ≠ 0 := by omega
  by_cases hzero : d = 0
  · rw [hzero, zero_pow hhalf]
    simp
  · rw [ZMod.euler_criterion p hzero]
    rcases ZMod.pow_div_two_eq_neg_one_or_one p hzero with h | h
    · rw [h]
      exact ⟨fun _ => rfl, fun _ => hneg⟩
    · rw [h]
      exact ⟨fun hne => absurd rfl hne, fun he => absurd he.symm hneg⟩

omit hp in
/-- What is computed modulo a number that is one modulo four. -/
lemma sqrt_of_mod_four_one (u a b : EcFieldElementFp) (h4 : p % 4 = 1) (stream : ℕ → ℕ)
    (fuel : ℕ) :
    u.sqrt ⟨p, a, b⟩ stream fuel =
      ((sqrtLoop u.x p (((p : ℤ) - 1).tdiv 2) stream).run fuel (drawn p stream 0, 0)).bind fun st =>
        (w st.1 u.x p (p / 4)).bind fun wOne =>
          (w st.1 u.x p (p / 4 + 1)).bind fun wTwo =>
            (powmValue (2 * st.1) ((p : ℤ) - 2) p).map fun y =>
              ⟨u.x * y * (wOne + wTwo) % p⟩ := by
  have hbit : ¬ p.testBit 1 = true := by
    rw [Nat.testBit_eq_decide_div_mod_eq]
    simp only [pow_one, decide_eq_true_eq]
    omega
  have hbit' : p.testBit 0 = true := by
    rw [Nat.testBit_zero]
    simp only [decide_eq_true_eq]
    omega
  have hn₁ : (((p : ℤ) - 1).tdiv 4).toNat = p / 4 := by
    rw [Int.tdiv_eq_ediv_of_nonneg (by omega)]
    omega
  have hn₂ : (((p : ℤ) + 3).tdiv 4).toNat = p / 4 + 1 := by
    rw [Int.tdiv_eq_ediv_of_nonneg (by omega)]
    omega
  simp only [sqrt]
  rw [if_neg hbit, if_pos hbit', hn₁, hn₂]
  simp only [Option.map_eq_bind]
  rfl

omit hp in
/-- The values that a result is computed from. -/
lemma exists_of_sqrt_eq (h4 : p % 4 = 1) {a b u z : EcFieldElementFp} {stream : ℕ → ℕ} {fuel : ℕ}
    (hz : u.sqrt ⟨p, a, b⟩ stream fuel = some z) :
    ∃ st wOne wTwo y,
      (sqrtLoop u.x p (((p : ℤ) - 1).tdiv 2) stream).run fuel (drawn p stream 0, 0) = some st ∧
      w st.1 u.x p (p / 4) = some wOne ∧ w st.1 u.x p (p / 4 + 1) = some wTwo ∧
      powmValue (2 * st.1) ((p : ℤ) - 2) p = some y ∧ z.x = u.x * y * (wOne + wTwo) % p := by
  rw [sqrt_of_mod_four_one u a b h4] at hz
  obtain ⟨st, hst, hz₁⟩ := Option.bind_eq_some_iff.mp hz
  obtain ⟨wOne, hOne, hz₂⟩ := Option.bind_eq_some_iff.mp hz₁
  obtain ⟨wTwo, hTwo, hz₃⟩ := Option.bind_eq_some_iff.mp hz₂
  obtain ⟨y, hy, hz₄⟩ := Option.map_eq_some_iff.mp hz₃
  exact ⟨st, wOne, wTwo, y, hst, hOne, hTwo, hy, (congrArg x hz₄).symm⟩

/-- **The square of a result** of `sqrt` modulo a prime that is one modulo four. -/
lemma four_mul_sqrt_sq (h4 : p % 4 = 1) {a b u z : EcFieldElementFp}
    (hx : (u.x : ZMod p) ≠ 0) (hsq : IsSquare (u.x : ZMod p)) {stream : ℕ → ℕ} {fuel : ℕ}
    (hz : u.sqrt ⟨p, a, b⟩ stream fuel = some z) :
    ∃ k, (∃ s : ℤ, s ^ 2 ≡ drawn p stream k ^ 2 - 4 * u.x [ZMOD p]) ∧
      (∀ j < k, ¬ ∃ s : ℤ, s ^ 2 ≡ drawn p stream j ^ 2 - 4 * u.x [ZMOD p]) ∧
      4 * (z.x : ZMod p) ^ 2 = (drawn p stream k : ZMod p) ^ 2 := by
  have h2 : p ≠ 2 := by omega
  have hle := hp.out.two_le
  obtain ⟨st, wOne, wTwo, y, hst, hOne, hTwo, hy, hzx⟩ := exists_of_sqrt_eq h4 hz
  obtain ⟨k, -, rfl, hexit, hbefore⟩ := run_sqrtLoop hst
  have hk := (exit_sqrtLoop h4 u.x stream _).mp hexit
  refine ⟨k, hk, fun j hj hs => ?_, ?_⟩
  · have := hbefore j (Nat.zero_le _) hj
    rw [(exit_sqrtLoop h4 u.x stream (drawn p stream j, j)).mpr hs] at this
    cases this
  set r := drawn p stream k
  have hd : IsSquare ((r : ZMod p) ^ 2 - 4 * (u.x : ZMod p)) := by
    have := (isSquare_intCast_iff (p := p) _).mpr hk
    push_cast at this
    exact this
  obtain ⟨c, hc, hw⟩ := exists_base h2 hx hsq hd
  have hc2 : c ^ 2 ≠ 0 := pow_ne_zero 2 hc
  obtain ⟨v₁, hv₁, hval₁⟩ := w_eq h2 hc2 hw (p / 4) (by omega)
  obtain ⟨v₂, hv₂, hval₂⟩ := w_eq h2 hc2 hw (p / 4 + 1) (by omega)
  obtain ⟨v, hv, hval⟩ := powmValue_sub_two (p := p) h2 (2 * r)
  rw [hv₁, Option.some.injEq] at hOne
  rw [hv₂, Option.some.injEq] at hTwo
  rw [hv, Option.some.injEq] at hy
  rw [hzx, ZMod.intCast_mod, ← hOne, ← hTwo, ← hy]
  push_cast
  rw [hval₁, hval₂, hval]
  push_cast
  exact lucas_root_sq h4 hx hc hw

end Draws

/-- **When the result of `sqrt` is a square root.** Modulo a prime that is one modulo four it is the
root of zero, or half of the first number drawn that gives a square or zero. -/
theorem sqrt_sq_iff {curve : EcCurveFp} (hp : curve.q.Prime) (hodd : curve.q % 2 = 1)
    {u z : EcFieldElementFp} (h0 : 0 ≤ u.x) (hlt : u.x < curve.q)
    (hsq : ∃ y : ℤ, y ^ 2 ≡ u.x [ZMOD curve.q]) {stream : ℕ → ℕ} {fuel : ℕ}
    (hz : u.sqrt curve stream fuel = some z) :
    z.x ^ 2 ≡ u.x [ZMOD curve.q] ↔
      curve.q % 4 = 3 ∨ u.x = 0 ∨ DrawsTwiceRoot curve.q u.x stream := by
  have : Fact curve.q.Prime := ⟨hp⟩
  rw [← isSquare_intCast_iff] at hsq
  rw [← ZMod.intCast_eq_intCast_iff]
  push_cast
  rcases (show curve.q % 4 = 3 ∨ curve.q % 4 = 1 by omega) with h3 | h4
  case inl =>
    rw [sqrt_of_mod_four u h3, Option.some.injEq] at hz
    refine iff_of_true ?_ (.inl h3)
    obtain ⟨y, hy⟩ := hsq
    rw [← hz, ZMod.intCast_mod, Int.cast_pow, hy, ← pow_two]
    rcases pow_square_of_mod_four h3 y with h | h
    · rw [h]
    · rw [h, neg_sq]
  case inr =>
    by_cases hx : u.x = 0
    · refine iff_of_true ?_ (.inr (.inl hx))
      obtain ⟨_, _, _, y, _, _, _, _, hzx⟩ := exists_of_sqrt_eq h4 (a := curve.a) (b := curve.b) hz
      rw [hzx, hx, ZMod.intCast_mod]
      push_cast
      ring
    have hx' : (u.x : ZMod curve.q) ≠ 0 := by
      rw [ne_eq, ZMod.intCast_zmod_eq_zero_iff_dvd]
      intro hdvd
      have := Int.le_of_dvd (by omega) hdvd
      omega
    have htwo : (2 : ZMod curve.q) ≠ 0 := two_ne_zero_of_ne (by omega)
    have hfour : (4 : ZMod curve.q) ≠ 0 := by
      have h22 : (4 : ZMod curve.q) = 2 * 2 := by ring
      rw [h22]
      exact mul_ne_zero htwo htwo
    obtain ⟨k, hk, hbefore, hval⟩ := four_mul_sqrt_sq h4 (a := curve.a) (b := curve.b) hx' hsq hz
    have hroot : (z.x : ZMod curve.q) ^ 2 = u.x ↔
        drawn curve.q stream k ^ 2 ≡ 4 * u.x [ZMOD curve.q] := by
      rw [← ZMod.intCast_eq_intCast_iff]
      push_cast
      rw [← hval]
      exact (mul_right_inj' hfour).symm
    rw [hroot]
    constructor
    · exact fun h => .inr (.inr ⟨k, hbefore, h⟩)
    · rintro (h3 | h | ⟨n, hn, heq⟩)
      · omega
      · exact absurd h hx
      · have hsquare : ∃ s : ℤ, s ^ 2 ≡ drawn curve.q stream n ^ 2 - 4 * u.x [ZMOD curve.q] :=
          ⟨0, by simpa using (heq.sub_right (4 * u.x)).symm⟩
        rcases lt_trichotomy k n with hkn | rfl | hnk
        · exact absurd hk (hn k hkn)
        · exact heq
        · exact absurd hsquare (hbefore n hnk)

/-- Two is a square modulo seven; its root is four. -/
theorem sqrt_sq_iff_two :
    (4 : ℤ) ^ 2 ≡ 2 [ZMOD 7] ↔ 7 % 4 = 3 ∨ (2 : ℤ) = 0 ∨ DrawsTwiceRoot 7 2 fun _ => 0 :=
  @sqrt_sq_iff ⟨7, ⟨0⟩, ⟨0⟩⟩ (by norm_num) (by decide) ⟨2⟩ ⟨4⟩ (by decide) (by decide)
    ⟨3, by decide⟩ (fun _ => 0) 0 (by decide)

/-- Four is a square modulo 13, but `sqrt` returns one for it, without drawing a number. -/
theorem not_sqrt_four :
    Nat.Prime 13 ∧ (2 : ℤ) ^ 2 ≡ 4 [ZMOD 13] ∧
      ∃ z, (⟨4⟩ : EcFieldElementFp).sqrt ⟨13, ⟨0⟩, ⟨0⟩⟩ (fun _ => 0) 0 = some z ∧
        ¬ z.x ^ 2 ≡ 4 [ZMOD 13] := by
  have h₁ : w 2 4 13 1 = some 12 := by rw [w]; decide
  have h₂ : w 2 4 13 2 = some 12 := by rw [w]; simp [h₁]
  have h₃ : w 2 4 13 3 = some 2 := by rw [w]; simp [h₁, h₂]
  have h₄ : w 2 4 13 4 = some 12 := by rw [w]; simp [h₂]
  have hrun : (sqrtLoop 4 13 (Int.tdiv 12 2) fun _ => 0).run 0 (2, 0) = some (2, 0) := by decide
  have hinv : powmValue 4 11 13 = some 10 := by decide
  refine ⟨by norm_num, by decide, ⟨1⟩, ?_, by decide⟩
  rw [sqrt_of_mod_four_one _ _ _ (by decide)]
  simp only [drawn]
  norm_num [hrun, h₃, h₄, hinv]

end EcFieldElementFp

end EiffelWeb
