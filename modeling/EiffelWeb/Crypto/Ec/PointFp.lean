import EiffelWeb.Crypto.NumberTheory

set_option relaxedAutoImplicit false
set_option autoImplicit false

/-!
# Points of an elliptic curve over a prime field

The classes `EC_FIELD_ELEMENT_FP`, `EC_CURVE_FP` and `EC_POINT_FP`. A field element holds a number;
every operation takes the modulus from the curve and reduces its result. A point holds two field
elements and a flag for infinity.

The features that end in `_value` run the corresponding procedure on a deep copy of the point, so
only their results are of interest. `deep_twin` copies all fields. The redefined `copy` does not: it
copies the two field elements into the point and leaves the flag alone.

## Main definitions

* `EcFieldElementFp`, with `plusValue`, `minusValue`, `productValue`, `quotientValue` and
  `oppositeValue`
* `EcCurveFp`
* `EcPointFp`, with `copy`, `setInfinity`, `plusValue`, `twiceValue`, `minusValue` and
  `oppositeValue`

## Main results

* `EcPointFp.plusValue_of_infinity_left`, `EcPointFp.plusValue_self` — the sums that are made with
  `copy`.
-/

namespace EiffelWeb

open IntegerX

/-- `EC_FIELD_ELEMENT_FP`. -/
@[ext]
structure EcFieldElementFp where
  /-- `x`. -/
  x : ℤ
deriving DecidableEq

/-- `EC_CURVE_FP`. -/
structure EcCurveFp where
  /-- `q`, the modulus. -/
  q : ℕ
  /-- `a`. -/
  a : EcFieldElementFp
  /-- `b`. -/
  b : EcFieldElementFp

namespace EcFieldElementFp

/-- `plus_value (other, curve)`. -/
def plusValue (u other : EcFieldElementFp) (curve : EcCurveFp) : EcFieldElementFp :=
  ⟨(u.x + other.x) % curve.q⟩

/-- `minus_value (other, curve)`. -/
def minusValue (u other : EcFieldElementFp) (curve : EcCurveFp) : EcFieldElementFp :=
  ⟨(u.x - other.x) % curve.q⟩

/-- `product_value (other, curve)`. -/
def productValue (u other : EcFieldElementFp) (curve : EcCurveFp) : EcFieldElementFp :=
  ⟨u.x * other.x % curve.q⟩

/-- `quotient_value (other, curve)`. -/
def quotientValue (u other : EcFieldElementFp) (curve : EcCurveFp) : Option EcFieldElementFp :=
  (inverseValue other.x curve.q).map fun y => ⟨u.x * y % curve.q⟩

/-- `opposite_value (curve)`. -/
def oppositeValue (u : EcFieldElementFp) (curve : EcCurveFp) : EcFieldElementFp :=
  ⟨-u.x % curve.q⟩

end EcFieldElementFp

/-- `EC_POINT_FP`. -/
@[ext]
structure EcPointFp where
  /-- `x`. -/
  x : EcFieldElementFp
  /-- `y`. -/
  y : EcFieldElementFp
  /-- `infinity`. -/
  infinity : Bool
deriving DecidableEq

namespace EcPointFp

/-- `copy (other)`: the flag is not copied. -/
def copy (P other : EcPointFp) : EcPointFp := { P with x := other.x, y := other.y }

/-- What `set_infinity` makes of any point. -/
def setInfinity : EcPointFp := ⟨⟨0⟩, ⟨0⟩, true⟩

/-- `twice_value (curve)`. -/
def twiceValue (P : EcPointFp) (curve : EcCurveFp) : Option EcPointFp :=
  if P.infinity then some P
  else if P.y.x = 0 then some setInfinity
  else do
    let two : EcFieldElementFp := ⟨2⟩
    let three : EcFieldElementFp := ⟨3⟩
    let gamma ← (((P.x.productValue P.x curve).productValue three curve).plusValue
      curve.a curve).quotientValue (P.y.productValue two curve) curve
    let x3 := (gamma.productValue gamma curve).minusValue (P.x.productValue two curve) curve
    let y3 := (gamma.productValue (P.x.minusValue x3 curve) curve).minusValue P.y curve
    return { P with x := x3, y := y3 }

/-- `plus_value (other, curve)`. -/
def plusValue (P other : EcPointFp) (curve : EcCurveFp) : Option EcPointFp :=
  if P.infinity then some (P.copy other)
  else if other.infinity then some P
  else if P.x = other.x then
    if P.y = other.y then (P.twiceValue curve).map P.copy
    else some setInfinity
  else do
    let gamma ← (other.y.minusValue P.y curve).quotientValue (other.x.minusValue P.x curve) curve
    let x3 := ((gamma.productValue gamma curve).minusValue P.x curve).minusValue other.x curve
    let y3 := (gamma.productValue (P.x.minusValue x3 curve) curve).minusValue P.y curve
    return { P with x := x3, y := y3 }

section

variable {P Q : EcPointFp} {curve : EcCurveFp}

/-- A sum with infinity on the left is the right operand with the flag of infinity. -/
lemma plusValue_of_infinity_left (hP : P.infinity = true) :
    P.plusValue Q curve = some (P.copy Q) := by
  rw [plusValue, if_pos hP]

/-- A sum with infinity on the right. -/
lemma plusValue_of_infinity_right (hP : P.infinity = false) (hQ : Q.infinity = true) :
    P.plusValue Q curve = some P := by
  rw [plusValue, if_neg (by simp [hP]), if_pos hQ]

/-- The sum of a finite point with itself is the double with the flag of the point. -/
lemma plusValue_self (hP : P.infinity = false) :
    P.plusValue P curve = (P.twiceValue curve).map P.copy := by
  rw [plusValue, if_neg (by simp [hP]), if_neg (by simp [hP]), if_pos rfl, if_pos rfl]

/-- Two points with the same first coordinate. -/
lemma plusValue_of_y_ne (hP : P.infinity = false) (hQ : Q.infinity = false) (hx : P.x = Q.x)
    (hy : P.y ≠ Q.y) : P.plusValue Q curve = some setInfinity := by
  rw [plusValue, if_neg (by simp [hP]), if_neg (by simp [hQ]), if_pos hx, if_neg hy]

end

/-- `opposite_value (curve)`. -/
def oppositeValue (P : EcPointFp) (curve : EcCurveFp) : EcPointFp :=
  { P with y := P.y.oppositeValue curve }

/-- `minus_value (other, curve)`. -/
def minusValue (P other : EcPointFp) (curve : EcCurveFp) : Option EcPointFp :=
  if other.infinity then some P
  else P.plusValue (other.oppositeValue curve) curve

end EcPointFp

end EiffelWeb
