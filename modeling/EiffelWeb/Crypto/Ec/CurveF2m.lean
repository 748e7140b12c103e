import EiffelWeb.Gf2

set_option relaxedAutoImplicit false
set_option autoImplicit false

/-!
# Curves over binary fields

A curve of class `EC_CURVE_F2M` has the degree `m` of its field and the exponents `k1`, `k2` and
`k3` of the field polynomial. The polynomial is a trinomial if `k2` is zero, otherwise a
pentanomial.

## Main definitions

* `EcCurveF2m` — a curve that `make` accepts.
* `EcCurveF2m.fieldPolynomial`
* `EcCurveF2m.exponents` — the exponents below `m`.

## Main results

* `EcCurveF2m.fieldPolynomial_eq` — the polynomial from its exponents.
* `EcCurveF2m.degree_fieldPolynomial`
-/

namespace EiffelWeb

open Polynomial

/-- `representation` of a field polynomial. -/
inductive F2mRepresentation where
  /-- A trinomial. -/
  | tpb
  /-- A pentanomial. -/
  | ppb
  deriving DecidableEq

/-- `EC_CURVE_F2M`, with the require clauses of `make`. -/
structure EcCurveF2m where
  /-- `m` -/
  m : ℕ
  /-- `k1` -/
  k1 : ℕ
  /-- `k2` -/
  k2 : ℕ
  /-- `k3` -/
  k3 : ℕ
  /-- `K1_greater_Than_zero` -/
  k1_pos : 0 < k1
  /-- `k2_and_k3_equal_zero` -/
  k3_eq_zero : k2 = 0 → k3 = 0
  /-- `k2_greater_than_k1` -/
  k1_lt : k2 ≠ 0 → k1 < k2
  /-- `k3_greater_than_k2` -/
  k2_lt : k3 ≠ 0 → k2 < k3

namespace EcCurveF2m

variable (curve : EcCurveF2m)

/-- `representation`. -/
def representation : F2mRepresentation := if curve.k2 = 0 then .tpb else .ppb

/-- The polynomial of the field. -/
noncomputable def fieldPolynomial : (ZMod 2)[X] :=
  match curve.representation with
  | .tpb => X ^ curve.m + X ^ curve.k1 + 1
  | .ppb => X ^ curve.m + X ^ curve.k1 + X ^ curve.k2 + X ^ curve.k3 + 1

/-- The exponents of the field polynomial below `m`, in the order in which they are dealt with. -/
def exponents : List ℕ :=
  match curve.representation with
  | .tpb => [0, curve.k1]
  | .ppb => [0, curve.k1, curve.k2, curve.k3]

lemma fieldPolynomial_eq :
    curve.fieldPolynomial =
      X ^ curve.m + (curve.exponents.map fun e => (X : (ZMod 2)[X]) ^ e).sum := by
  rw [fieldPolynomial, exponents]
  cases curve.representation
  · simp only [List.map_cons, List.map_nil, List.sum_cons, List.sum_nil, pow_zero]
    ring
  · simp only [List.map_cons, List.map_nil, List.sum_cons, List.sum_nil, pow_zero]
    ring

variable {curve}

/-- The terms below `m` have a smaller degree. -/
lemma degree_sum_lt {m : ℕ} {l : List ℕ} (hl : ∀ e ∈ l, e < m) :
    ((l.map fun e => (X : (ZMod 2)[X]) ^ e).sum).degree < m := by
  induction l with
  | nil => simp
  | cons e l ih =>
    rw [List.map_cons, List.sum_cons]
    refine (degree_add_le _ _).trans_lt (max_lt ?_ (ih fun d hd => hl d (by simp [hd])))
    rw [degree_X_pow]
    exact_mod_cast hl e (by simp)

lemma degree_fieldPolynomial (h : ∀ e ∈ curve.exponents, e < curve.m) :
    curve.fieldPolynomial.degree = curve.m := by
  rw [fieldPolynomial_eq, degree_add_eq_left_of_degree_lt, degree_X_pow]
  rw [degree_X_pow]
  exact degree_sum_lt h

lemma fieldPolynomial_ne_zero (h : ∀ e ∈ curve.exponents, e < curve.m) :
    curve.fieldPolynomial ≠ 0 := by
  rintro h0
  have hdeg := degree_fieldPolynomial h
  rw [h0, degree_zero] at hdeg
  exact absurd hdeg.symm (WithBot.natCast_ne_bot _)

/-- **The reduced polynomial** is known from its length and its class. -/
lemma eq_mod_of_dvd (h : ∀ e ∈ curve.exponents, e < curve.m) {v : ℕ} {p : (ZMod 2)[X]}
    (hv : v < 2 ^ curve.m) (hdvd : curve.fieldPolynomial ∣ Gf2.ofBits v - p) :
    Gf2.ofBits v = p % curve.fieldPolynomial := by
  have hdeg : (Gf2.ofBits v).degree < curve.fieldPolynomial.degree := by
    rw [degree_fieldPolynomial h]
    exact (Gf2.degree_ofBits_lt_iff v curve.m).mpr hv
  rw [← mod_eq_of_dvd_sub hdvd, (mod_eq_self_iff (fieldPolynomial_ne_zero h)).mpr hdeg]

variable (curve) in
/-- **The reduced polynomial** is the one of its length in its class. -/
lemma eq_mod_iff_dvd (h : ∀ e ∈ curve.exponents, e < curve.m) {v : ℕ} {p : (ZMod 2)[X]}
    (hv : v < 2 ^ curve.m) :
    Gf2.ofBits v = p % curve.fieldPolynomial ↔ curve.fieldPolynomial ∣ Gf2.ofBits v - p := by
  refine ⟨fun he => ?_, eq_mod_of_dvd h hv⟩
  rw [he, ← dvd_neg, neg_sub]
  exact ⟨p / curve.fieldPolynomial,
    sub_eq_of_eq_add (EuclideanDomain.div_add_mod p curve.fieldPolynomial).symm⟩

end EcCurveF2m

end EiffelWeb
