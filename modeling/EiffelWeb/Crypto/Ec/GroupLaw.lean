import Mathlib.AlgebraicGeometry.EllipticCurve.Affine.Point
import Mathlib.Algebra.Field.ZMod
import EiffelWeb.Crypto.Ec.PointFp

set_option relaxedAutoImplicit false
set_option autoImplicit false

/-!
# The points as a group

The operations of `EC_POINT_FP` against the group of the nonsingular points of a Weierstrass curve.
A field element of the code stands for a residue by its representative between zero and the modulus,
and a point of the code for a point of the curve by its coordinates and its flag.

The operations are those of the group, except that `copy` leaves the flag for infinity alone. Two
sums come out wrong for this reason: that of infinity and a finite point, whose result is still
flagged, and that of a point of order two with itself, whose result is not.

## Main definitions

* `EllipticCurveFp` — a curve modulo a prime greater than three with a discriminant.
* `EllipticCurveFp.Point` — its points, as the code holds them.
* `EllipticCurveFp.toPoint`, `EllipticCurveFp.ofPoint` — the points of the group.
* `EllipticCurveFp.pointEquiv` — the two are inverse to each other.
* `EllipticCurveFp.GroupLaw` — the operations on two points are those of the group.

## Main results

* `EllipticCurveFp.plusValue_ofPoint` — where the sum is right.
* `EllipticCurveFp.twiceValue_ofPoint`, `EllipticCurveFp.oppositeValue_ofPoint` — the double and the
  negative are right.
* `EllipticCurveFp.groupLaw_iff` — the pairs of points for which all operations are right.
-/

namespace EiffelWeb

open IntegerX WeierstrassCurve

/-- A curve `y ^ 2 = x ^ 3 + a * x + b` modulo a prime, with a discriminant different from zero. -/
structure EllipticCurveFp extends EcCurveFp where
  /-- The modulus is a prime. -/
  prime : q.Prime
  /-- The prime is greater than three. -/
  three_lt : 3 < q
  /-- The discriminant is not zero. -/
  discriminant : 4 * (a.x : ZMod q) ^ 3 + 27 * (b.x : ZMod q) ^ 2 ≠ 0

namespace EllipticCurveFp

variable (E : EllipticCurveFp)

instance : Fact E.q.Prime := ⟨E.prime⟩

/-- The residue field. -/
abbrev Field : Type := ZMod E.q

/-- The Weierstrass curve. -/
def weierstrass : Affine E.Field := ⟨0, 0, 0, (E.a.x : E.Field), (E.b.x : E.Field)⟩

/-! ## Field elements -/

/-- The representative of a residue. -/
def ofField (v : E.Field) : EcFieldElementFp := ⟨(v.val : ℤ)⟩

@[simp] lemma cast_ofField (v : E.Field) : ((E.ofField v).x : E.Field) = v := by
  simp [ofField]

/-- What a reduced number stands for. -/
lemma mk_emod (z : ℤ) : (⟨z % E.q⟩ : EcFieldElementFp) = E.ofField (z : E.Field) := by
  rw [ofField, ZMod.val_intCast]

lemma ofField_injective : Function.Injective E.ofField := fun u v h => by
  rw [← E.cast_ofField u, h, E.cast_ofField]

lemma ofField_x_eq_zero {v : E.Field} : (E.ofField v).x = 0 ↔ v = 0 := by
  rw [ofField, Nat.cast_eq_zero, ZMod.val_eq_zero]

lemma plusValue_eq (u v : EcFieldElementFp) :
    u.plusValue v E.toEcCurveFp = E.ofField (u.x + v.x) := by
  rw [EcFieldElementFp.plusValue, mk_emod, Int.cast_add]

lemma minusValue_eq (u v : EcFieldElementFp) :
    u.minusValue v E.toEcCurveFp = E.ofField (u.x - v.x) := by
  rw [EcFieldElementFp.minusValue, mk_emod, Int.cast_sub]

lemma productValue_eq (u v : EcFieldElementFp) :
    u.productValue v E.toEcCurveFp = E.ofField (u.x * v.x) := by
  rw [EcFieldElementFp.productValue, mk_emod, Int.cast_mul]

lemma oppositeValue_eq (u : EcFieldElementFp) :
    u.oppositeValue E.toEcCurveFp = E.ofField (-u.x) := by
  rw [EcFieldElementFp.oppositeValue, mk_emod, Int.cast_neg]

/-- A number that does not stand for zero has an inverse. -/
lemma quotientValue_eq (u : EcFieldElementFp) {v : EcFieldElementFp} (hv : (v.x : E.Field) ≠ 0) :
    u.quotientValue v E.toEcCurveFp = some (E.ofField (u.x / v.x)) := by
  have hcop : v.x.gcd E.q = 1 := by
    rw [Int.gcd_comm, ← Int.isCoprime_iff_gcd_eq_one]
    refine (Nat.prime_iff_prime_int.mp E.prime).coprime_iff_not_dvd.mpr ?_
    rwa [← ZMod.intCast_zmod_eq_zero_iff_dvd]
  obtain ⟨y, hy, -, -, hm⟩ := exists_inverseValue (by exact_mod_cast E.prime.one_lt) hcop
  have hinv : (y : E.Field) = (v.x : E.Field)⁻¹ := by
    rw [← ZMod.intCast_eq_intCast_iff, Int.cast_mul, Int.cast_one] at hm
    exact eq_inv_of_mul_eq_one_right hm
  rw [EcFieldElementFp.quotientValue, hy, Option.map_some, mk_emod, Int.cast_mul, hinv,
    div_eq_mul_inv]

/-- Two is not zero modulo the prime. -/
lemma two_ne_zero : (2 : E.Field) ≠ 0 := by
  intro h
  have hdvd : E.q ∣ 2 := (ZMod.natCast_eq_zero_iff 2 E.q).mp (by exact_mod_cast h)
  have := Nat.le_of_dvd two_pos hdvd
  have := E.three_lt
  omega

/-! ## Points -/

/-- A point of the curve as the code holds it: infinity with zero coordinates, which is the class
invariant, or reduced coordinates that satisfy the equation. -/
def IsPoint (P : EcPointFp) : Prop :=
  if P.infinity then P.x.x = 0 ∧ P.y.x = 0
  else (0 ≤ P.x.x ∧ P.x.x < E.q) ∧ (0 ≤ P.y.x ∧ P.y.x < E.q) ∧
    (P.y.x : E.Field) ^ 2 = (P.x.x : E.Field) ^ 3 + E.a.x * P.x.x + E.b.x

/-- The points of the curve. -/
abbrev Point : Type := { P : EcPointFp // E.IsPoint P }

/-- The equation of the curve. -/
lemma equation_iff (x y : E.Field) :
    E.weierstrass.Equation x y ↔ y ^ 2 = x ^ 3 + E.a.x * x + E.b.x := by
  rw [Affine.equation_iff]
  simp [weierstrass]

/-- The discriminant of the Weierstrass curve. -/
lemma Δ_ne_zero : E.weierstrass.Δ ≠ 0 := by
  have h16 : (16 : E.Field) ≠ 0 := by
    rw [show (16 : E.Field) = 2 ^ 4 by norm_num]
    exact pow_ne_zero 4 E.two_ne_zero
  have hΔ : E.weierstrass.Δ =
      -16 * (4 * (E.a.x : E.Field) ^ 3 + 27 * (E.b.x : E.Field) ^ 2) := by
    simp only [Δ, b₂, b₄, b₆, b₈, weierstrass]
    ring
  rw [hΔ]
  exact mul_ne_zero (neg_ne_zero.mpr h16) E.discriminant

/-- Every solution of the equation is a nonsingular point. -/
lemma nonsingular_iff (x y : E.Field) :
    E.weierstrass.Nonsingular x y ↔ y ^ 2 = x ^ 3 + E.a.x * x + E.b.x := by
  rw [← Affine.equation_iff_nonsingular_of_Δ_ne_zero E.Δ_ne_zero, equation_iff]

/-- The point of the group that a point of the code stands for. -/
def toPoint (P : E.Point) : E.weierstrass.Point :=
  if h : P.1.infinity then 0
  else .some (P.1.x.x : E.Field) (P.1.y.x : E.Field) (by
    have hP := P.2
    rw [IsPoint, if_neg h] at hP
    exact (E.nonsingular_iff _ _).mpr hP.2.2)

/-- The point of the code that stands for a point of the group. -/
def ofPoint : E.weierstrass.Point → EcPointFp
  | .zero => EcPointFp.setInfinity
  | .some x y _ => ⟨E.ofField x, E.ofField y, false⟩

@[simp] lemma ofPoint_zero : E.ofPoint 0 = EcPointFp.setInfinity := rfl

@[simp] lemma ofPoint_some {x y : E.Field} (h : E.weierstrass.Nonsingular x y) :
    E.ofPoint (.some x y h) = ⟨E.ofField x, E.ofField y, false⟩ := rfl

/-- A reduced number is the representative of its residue. -/
lemma ofField_cast {u : EcFieldElementFp} (h0 : 0 ≤ u.x) (hlt : u.x < E.q) :
    E.ofField (u.x : E.Field) = u := by
  rw [← mk_emod, Int.emod_eq_of_lt h0 hlt]

/-- A point of the code is given by the point of the group. -/
lemma ofPoint_toPoint (P : E.Point) : E.ofPoint (E.toPoint P) = P.1 := by
  obtain ⟨⟨x, y, f⟩, hP⟩ := P
  cases f with
  | true =>
    obtain ⟨hx, hy⟩ : x.x = 0 ∧ y.x = 0 := by simpa [IsPoint] using hP
    rw [toPoint, dif_pos rfl, ofPoint_zero, EcPointFp.setInfinity, EcPointFp.mk.injEq]
    exact ⟨EcFieldElementFp.ext hx.symm, EcFieldElementFp.ext hy.symm, rfl⟩
  | false =>
    rw [IsPoint, if_neg (by simp)] at hP
    rw [toPoint, dif_neg (by simp), ofPoint_some, E.ofField_cast hP.1.1 hP.1.2,
      E.ofField_cast hP.2.1.1 hP.2.1.2]

/-- The points of the group are points of the code. -/
lemma isPoint_ofPoint (A : E.weierstrass.Point) : E.IsPoint (E.ofPoint A) := by
  cases A with
  | zero => exact ⟨rfl, rfl⟩
  | some x y h =>
    have hlt : ∀ v : E.Field, 0 ≤ (E.ofField v).x ∧ (E.ofField v).x < E.q := fun v =>
      ⟨Int.natCast_nonneg _, Int.ofNat_lt.mpr v.val_lt⟩
    rw [ofPoint_some, IsPoint, if_neg (by simp)]
    refine ⟨hlt x, hlt y, ?_⟩
    rw [cast_ofField, cast_ofField]
    exact (E.nonsingular_iff x y).mp h

/-- The points of the code are the points of the group. -/
def pointEquiv : E.Point ≃ E.weierstrass.Point where
  toFun := E.toPoint
  invFun A := ⟨E.ofPoint A, E.isPoint_ofPoint A⟩
  left_inv P := Subtype.ext (E.ofPoint_toPoint P)
  right_inv A := by
    cases A with
    | zero => rfl
    | some x y h =>
      rw [toPoint, dif_neg (by simp)]
      simp only [ofPoint_some, cast_ofField]

/-! ## The operations -/

variable {E}

@[simp] lemma negY_eq (x y : E.Field) : E.weierstrass.negY x y = -y := by
  simp [weierstrass]

/-- The coordinates of a finite sum, from the slope of the line. -/
lemma ofPoint_add_some {x₁ y₁ x₂ y₂ : E.Field} (h₁ : E.weierstrass.Nonsingular x₁ y₁)
    (h₂ : E.weierstrass.Nonsingular x₂ y₂) (hxy : ¬(x₁ = x₂ ∧ y₁ = -y₂)) {γ : E.Field}
    (hγ : E.weierstrass.slope x₁ x₂ y₁ y₂ = γ) :
    E.ofPoint (.some x₁ y₁ h₁ + .some x₂ y₂ h₂) =
      ⟨E.ofField (γ * γ - x₁ - x₂), E.ofField (γ * (x₁ - (γ * γ - x₁ - x₂)) - y₁), false⟩ := by
  rw [Affine.Point.add_some (by rwa [negY_eq]), ofPoint_some, hγ, EcPointFp.mk.injEq]
  refine ⟨congrArg E.ofField ?_, congrArg E.ofField ?_, rfl⟩
  · simp only [Affine.addX, weierstrass]
    ring
  · simp only [Affine.addY, Affine.negAddY, Affine.addX, Affine.negY, weierstrass]
    ring

/-- The sum of a point and a point with the same first coordinate and the negative second one. -/
lemma ofPoint_add_eq_zero {x₁ y₁ x₂ y₂ : E.Field} (h₁ : E.weierstrass.Nonsingular x₁ y₁)
    (h₂ : E.weierstrass.Nonsingular x₂ y₂) (hx : x₁ = x₂) (hy : y₁ = -y₂) :
    E.ofPoint (.some x₁ y₁ h₁ + .some x₂ y₂ h₂) = EcPointFp.setInfinity := by
  rw [Affine.Point.add_of_Y_eq hx (by rwa [negY_eq]), ofPoint_zero]

/-- A residue that is its own negative. -/
lemma eq_neg_self_iff {y : E.Field} : y = -y ↔ y = 0 := by
  refine ⟨fun h => ?_, fun h => by rw [h, neg_zero]⟩
  have h2 : 2 * y = 0 := by linear_combination h
  exact (mul_eq_zero.mp h2).resolve_left E.two_ne_zero

/-- `opposite_value` is the negative. -/
lemma oppositeValue_ofPoint (A : E.weierstrass.Point) :
    (E.ofPoint A).oppositeValue E.toEcCurveFp = E.ofPoint (-A) := by
  cases A with
  | zero =>
    change EcPointFp.setInfinity.oppositeValue E.toEcCurveFp = EcPointFp.setInfinity
    simp [EcPointFp.oppositeValue, EcPointFp.setInfinity, EcFieldElementFp.oppositeValue]
  | some x y h =>
    rw [Affine.Point.neg_some, ofPoint_some, ofPoint_some, EcPointFp.oppositeValue,
      oppositeValue_eq, cast_ofField, negY_eq]

/-- `twice_value` is the double.

**Proof sketch.** A finite point with second coordinate zero is its own negative. Otherwise the
slope is that of the tangent. -/
lemma twiceValue_ofPoint (A : E.weierstrass.Point) :
    (E.ofPoint A).twiceValue E.toEcCurveFp = some (E.ofPoint (A + A)) := by
  cases A with
  | zero => rfl
  | some x y h =>
    rw [ofPoint_some, EcPointFp.twiceValue, if_neg (by simp)]
    by_cases hy : y = 0
    · rw [if_pos (E.ofField_x_eq_zero.mpr hy),
        ofPoint_add_eq_zero h h rfl (eq_neg_self_iff.mpr hy)]
    · have hne : y ≠ E.weierstrass.negY x y := by
        rw [negY_eq]
        exact fun h => hy (eq_neg_self_iff.mp h)
      have h2y : (((E.ofField y).productValue ⟨2⟩ E.toEcCurveFp).x : E.Field) ≠ 0 := by
        rw [productValue_eq, cast_ofField, cast_ofField]
        exact mul_ne_zero hy (by exact_mod_cast E.two_ne_zero)
      have hγ : E.weierstrass.slope x x y y = (x * x * 3 + E.a.x) / (y * 2) := by
        rw [Affine.slope_of_Y_ne rfl hne, negY_eq]
        congr 1
        · simp only [weierstrass]
          ring
        · ring
      rw [if_neg (fun h0 => hy (E.ofField_x_eq_zero.mp h0)),
        ofPoint_add_some h h (fun hxy => hy (eq_neg_self_iff.mp hxy.2)) hγ]
      simp only [E.quotientValue_eq _ h2y, Option.bind_eq_bind, Option.bind_some, Option.pure_def]
      simp only [productValue_eq, minusValue_eq, plusValue_eq, cast_ofField, Int.cast_ofNat,
        mul_two, sub_sub]

/-- `plus_value` of points with different first coordinates is the sum. -/
lemma plusValue_of_ne {x₁ y₁ x₂ y₂ : E.Field} (h₁ : E.weierstrass.Nonsingular x₁ y₁)
    (h₂ : E.weierstrass.Nonsingular x₂ y₂) (hx : x₁ ≠ x₂) :
    (E.ofPoint (.some x₁ y₁ h₁)).plusValue (E.ofPoint (.some x₂ y₂ h₂)) E.toEcCurveFp =
      some (E.ofPoint (.some x₁ y₁ h₁ + .some x₂ y₂ h₂)) := by
  have hd : (((E.ofField x₂).minusValue (E.ofField x₁) E.toEcCurveFp).x : E.Field) ≠ 0 := by
    rw [minusValue_eq, cast_ofField, cast_ofField, cast_ofField]
    exact sub_ne_zero.mpr hx.symm
  have hγ : E.weierstrass.slope x₁ x₂ y₁ y₂ = (y₂ - y₁) / (x₂ - x₁) := by
    rw [Affine.slope_of_X_ne hx, ← neg_sub y₂, ← neg_sub x₂, neg_div_neg_eq]
  rw [ofPoint_add_some h₁ h₂ (fun hxy => hx hxy.1) hγ, ofPoint_some, ofPoint_some,
    EcPointFp.plusValue, if_neg (by simp), if_neg (by simp),
    if_neg (fun h => hx (E.ofField_injective h))]
  simp only [E.quotientValue_eq _ hd, Option.bind_eq_bind, Option.bind_some, Option.pure_def]
  simp only [productValue_eq, minusValue_eq, cast_ofField]

/-- `plus_value` of two points that are negatives of each other and not equal. -/
lemma plusValue_of_y_ne {x y₁ y₂ : E.Field} (h₁ : E.weierstrass.Nonsingular x y₁)
    (h₂ : E.weierstrass.Nonsingular x y₂) (hy : y₁ ≠ y₂) :
    (E.ofPoint (.some x y₁ h₁)).plusValue (E.ofPoint (.some x y₂ h₂)) E.toEcCurveFp =
      some (E.ofPoint (.some x y₁ h₁ + .some x y₂ h₂)) := by
  have hneg : y₁ = -y₂ := by
    have h := Affine.Y_eq_of_X_eq h₁.1 h₂.1 rfl
    rw [negY_eq] at h
    exact h.resolve_left hy
  rw [ofPoint_add_eq_zero h₁ h₂ rfl hneg]
  exact EcPointFp.plusValue_of_y_ne rfl rfl rfl fun h => hy (E.ofField_injective h)

/-- `plus_value` of a finite point and itself: the double is taken over by `copy`, which is right
when the double is finite. -/
lemma plusValue_self_iff {x y : E.Field} (h : E.weierstrass.Nonsingular x y) :
    (E.ofPoint (.some x y h)).plusValue (E.ofPoint (.some x y h)) E.toEcCurveFp =
      some (E.ofPoint (.some x y h + .some x y h)) ↔ y ≠ 0 := by
  rw [EcPointFp.plusValue_self rfl, twiceValue_ofPoint, Option.map_some, Option.some.injEq]
  by_cases hy : y = 0
  · rw [ofPoint_add_eq_zero h h rfl (eq_neg_self_iff.mpr hy)]
    simp [EcPointFp.copy, EcPointFp.setInfinity, hy]
  · rw [ofPoint_add_some h h (fun hxy => hy (eq_neg_self_iff.mp hxy.2)) rfl]
    simp [EcPointFp.copy, hy]

/-- The condition under which `copy` does no harm in a sum: no finite point is added to infinity,
and no point of order two to itself. -/
def SumOk (P Q : EcPointFp) : Prop :=
  (P.infinity = true → Q.infinity = true) ∧ (P = Q → P.infinity = false → P.y.x ≠ 0)

/-- `plus_value` is the sum exactly under the condition.

**Proof sketch.** Both wrong sums differ from the right one in the flag: the flag of infinity stays
when a finite point is copied into it, and the flag of a finite point stays when its double is. -/
lemma plusValue_ofPoint (A B : E.weierstrass.Point) :
    (E.ofPoint A).plusValue (E.ofPoint B) E.toEcCurveFp = some (E.ofPoint (A + B)) ↔
      SumOk (E.ofPoint A) (E.ofPoint B) := by
  cases A with
  | zero =>
    rw [EcPointFp.plusValue_of_infinity_left rfl, ← Affine.Point.zero_def, zero_add]
    cases B with
    | zero => simp [SumOk, ← Affine.Point.zero_def, EcPointFp.copy, EcPointFp.setInfinity]
    | some x y h => simp [SumOk, EcPointFp.copy, EcPointFp.setInfinity]
  | some x₁ y₁ h₁ =>
    cases B with
    | zero =>
      rw [EcPointFp.plusValue_of_infinity_right rfl rfl, ← Affine.Point.zero_def, add_zero]
      simp [SumOk, EcPointFp.setInfinity]
    | some x₂ y₂ h₂ =>
      by_cases hx : x₁ = x₂
      · subst hx
        by_cases hy : y₁ = y₂
        · subst hy
          rw [plusValue_self_iff h₁]
          simp [SumOk, ofField_x_eq_zero]
        · refine iff_of_true (plusValue_of_y_ne h₁ h₂ hy) ⟨by simp, fun h => ?_⟩
          exact absurd (E.ofField_injective (EcPointFp.mk.inj h).2.1) hy
      · refine iff_of_true (plusValue_of_ne h₁ h₂ hx) ⟨by simp, fun h => ?_⟩
        exact absurd (E.ofField_injective (EcPointFp.mk.inj h).1) hx

/-- `minus_value` is the difference exactly under the condition for the negative. -/
lemma minusValue_ofPoint (A B : E.weierstrass.Point) :
    (E.ofPoint A).minusValue (E.ofPoint B) E.toEcCurveFp = some (E.ofPoint (A - B)) ↔
      (E.ofPoint B).infinity = false → SumOk (E.ofPoint A) (E.ofPoint (-B)) := by
  rw [EcPointFp.minusValue]
  cases B with
  | zero => simp [← Affine.Point.zero_def, EcPointFp.setInfinity]
  | some x y h =>
    rw [if_neg (by simp), oppositeValue_ofPoint, sub_eq_add_neg, plusValue_ofPoint]
    simp

/-! ## The group law -/

/-- A sum is right for a negative when it is right for the point. -/
lemma SumOk.neg {A B : E.weierstrass.Point} (h : SumOk (E.ofPoint A) (E.ofPoint B))
    (hB : (E.ofPoint B).infinity = false) : SumOk (E.ofPoint A) (E.ofPoint (-B)) := by
  cases B with
  | zero => cases hB
  | some x y hxy =>
    refine ⟨fun hA => by simpa using h.1 hA, fun hAB hA h0 => ?_⟩
    rw [Affine.Point.neg_some, ofPoint_some, negY_eq] at hAB
    rw [hAB, ofField_x_eq_zero, neg_eq_zero] at h0
    subst h0
    rw [neg_zero] at hAB
    exact h.2 hAB hA (by rw [hAB]; exact E.ofField_x_eq_zero.mpr rfl)

/-- The operations on two points are the sum, the double, the difference and the negative in the
group of the curve. -/
def GroupLaw (E : EllipticCurveFp) (P Q : E.Point) : Prop :=
  P.1.plusValue Q.1 E.toEcCurveFp = some (E.ofPoint (E.toPoint P + E.toPoint Q)) ∧
  P.1.twiceValue E.toEcCurveFp = some (E.ofPoint (E.toPoint P + E.toPoint P)) ∧
  P.1.minusValue Q.1 E.toEcCurveFp = some (E.ofPoint (E.toPoint P - E.toPoint Q)) ∧
  P.1.oppositeValue E.toEcCurveFp = E.ofPoint (-E.toPoint P)

/-- The sum of two points of the code. -/
lemma plusValue_iff (P Q : E.Point) :
    P.1.plusValue Q.1 E.toEcCurveFp = some (E.ofPoint (E.toPoint P + E.toPoint Q)) ↔
      SumOk P.1 Q.1 := by
  have h := plusValue_ofPoint (E.toPoint P) (E.toPoint Q)
  rwa [ofPoint_toPoint, ofPoint_toPoint] at h

/-- **The group law** holds for exactly those pairs of points that are not infinity and a finite
point, nor twice the same finite point with second coordinate zero. -/
theorem groupLaw_iff (P Q : E.Point) :
    E.GroupLaw P Q ↔ (P.1.infinity = true → Q.1.infinity = true) ∧
      (P = Q → P.1.infinity = false → P.1.y.x ≠ 0) := by
  have hsum : SumOk P.1 Q.1 ↔ (P.1.infinity = true → Q.1.infinity = true) ∧
      (P = Q → P.1.infinity = false → P.1.y.x ≠ 0) := by
    rw [SumOk, Subtype.ext_iff]
  rw [← hsum]
  refine ⟨fun h => (plusValue_iff P Q).mp h.1, fun h => ⟨(plusValue_iff P Q).mpr h, ?_, ?_, ?_⟩⟩
  · have := twiceValue_ofPoint (E.toPoint P)
    rwa [ofPoint_toPoint] at this
  · have := minusValue_ofPoint (E.toPoint P) (E.toPoint Q)
    rw [ofPoint_toPoint, ofPoint_toPoint] at this
    refine this.mpr fun hQ => ?_
    rw [← E.ofPoint_toPoint P, ← E.ofPoint_toPoint Q] at h
    rw [← E.ofPoint_toPoint Q] at hQ
    rw [← E.ofPoint_toPoint P]
    exact h.neg hQ
  · have := oppositeValue_ofPoint (E.toPoint P)
    rwa [ofPoint_toPoint] at this

/-- The curve `y ^ 2 = x ^ 3 + x` modulo five. -/
def sampleCurve : EllipticCurveFp where
  q := 5
  a := ⟨1⟩
  b := ⟨0⟩
  prime := Nat.prime_five
  three_lt := by decide
  discriminant := by decide

/-- Infinity on the curve. -/
def sampleInfinity : sampleCurve.Point := ⟨.setInfinity, by simp [IsPoint, EcPointFp.setInfinity]⟩

/-- The point of order two at the origin. -/
def sampleOrigin : sampleCurve.Point := ⟨⟨⟨0⟩, ⟨0⟩, false⟩, by
  rw [IsPoint, if_neg (by decide)]
  decide⟩

/-- Infinity plus a finite point stays flagged as infinity, and a point of order two plus itself
comes out as a finite point. -/
theorem not_groupLaw_sample : ¬ sampleCurve.GroupLaw sampleInfinity sampleOrigin ∧
    ¬ sampleCurve.GroupLaw sampleOrigin sampleOrigin := by
  refine ⟨fun h => ?_, fun h => ?_⟩
  · exact absurd (((plusValue_iff _ _).mp h.1).1 rfl) (by decide)
  · exact ((plusValue_iff _ _).mp h.1).2 rfl rfl rfl

end EllipticCurveFp

end EiffelWeb
