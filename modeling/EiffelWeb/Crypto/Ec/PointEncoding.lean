import Mathlib.Data.Int.Bitwise
import EiffelWeb.Crypto.IntegerX
import EiffelWeb.Crypto.Ec.SquareRoot

set_option relaxedAutoImplicit false
set_option autoImplicit false

/-!
# Points as bytes

The features of `EC_POINT_FP` that write a point as bytes and read it back. A compressed point is a
tag with the parity of the second coordinate and the first coordinate in as many bytes as the
modulus has; the reader computes the second coordinate as a square root. An uncompressed point has
both coordinates.

The arguments of `copy_data` are the other array, an index into it, an index into the array written,
and the number of items. The writer and the reader of uncompressed points pass them in another
order, so that they ask for more items than there are.

## Main definitions

* `EcPointFp.toByteArrayCompressed`, `EcPointFp.toByteArrayUncompressed`
* `EcPointFp.makeFromBytes`
* `EcCurveFp.FinitePoint` — the finite points with reduced coordinates.

## Main results

* `EcPointFp.makeFromBytes_toByteArrayCompressed` — the round trip of compressed points.
* `EcPointFp.toByteArrayUncompressed_eq_none` — the writer of uncompressed points fails.
* `EcPointFp.encoding_roundTrips` — the two round trips.
-/

namespace EiffelWeb

open Special IntegerX

namespace EcPointFp

/-! ## Writing -/

/-- `encoded_field_size (curve)`. -/
def encodedFieldSize (curve : EcCurveFp) : ℕ := bytes curve.q

/-- `ytilde_set (source)`. -/
def ytildeSet (source : ℤ) : Bool := source.testBit 0

/-- `compressed_PC_byte (source)`. -/
def compressedPCByte (source : ℤ) : Natural8 := if ytildeSet source then 0x03 else 0x02

/-- `to_byte_array_compressed (curve)`. -/
def toByteArrayCompressed (P : EcPointFp) (curve : EcCurveFp) : Option (List Natural8) := do
  let xArray := asFixedWidthByteArray P.x.x.natAbs (encodedFieldSize curve)
  let result ← copyDataWithin (List.replicate (xArray.length + 1) 0) xArray 0 1 xArray.length
  return result.set 0 (compressedPCByte P.y.x)

/-- `to_byte_array_uncompressed (curve)`. -/
def toByteArrayUncompressed (P : EcPointFp) (curve : EcCurveFp) : Option (List Natural8) := do
  let qLength := encodedFieldSize curve
  let xArray := asFixedWidthByteArray P.x.x.natAbs qLength
  let yArray := asFixedWidthByteArray P.y.x.natAbs qLength
  let p0 := List.replicate (xArray.length + yArray.length + 1) 0
  let p0 ← copyDataWithin p0 xArray 0 (xArray.length - 1) 1
  let p0 ← copyDataWithin p0 yArray 0 (yArray.length - 1) (xArray.length + 1)
  return p0.set 0 0x04

/-! ## Reading -/

/-- `decodeCompressedPoint (encoded, ytilde, curve)`, for the random numbers that `sqrt` draws. -/
def decodeCompressedPoint (encoded : List Natural8) (ytilde : ℕ) (curve : EcCurveFp)
    (stream : ℕ → ℕ) (fuel : ℕ) : Option EcPointFp := do
  let i ← copyDataWithin (List.replicate (encoded.length - 1) 0) encoded 1 0 (encoded.length - 1)
  let x : EcFieldElementFp := ⟨IntegerX.makeFromBytes i⟩
  let alpha := (x.productValue ((x.productValue x curve).plusValue curve.a curve) curve).plusValue
    curve.b curve
  let beta ← alpha.sqrt curve stream fuel
  let bit0 := if beta.x.testBit 0 then 1 else 0
  if bit0 = ytilde then return ⟨x, beta, false⟩
  else return ⟨x, ⟨curve.q - beta.x⟩, false⟩

/-- `decodeUncompressedPoint (encoded)`. Nothing is read from `encoded` but its size. -/
def decodeUncompressedPoint (encoded : List Natural8) : Option EcPointFp := do
  let xEnc : List Natural8 := List.replicate ((encoded.length - 1) / 2) 0
  let yEnc : List Natural8 := List.replicate ((encoded.length - 1) / 2) 0
  let encoded ← copyDataWithin encoded xEnc 1 0 xEnc.length
  let _ ← copyDataWithin encoded yEnc xEnc.length 0 yEnc.length
  return ⟨⟨IntegerX.makeFromBytes xEnc⟩, ⟨IntegerX.makeFromBytes yEnc⟩, false⟩

/-- `create P.make_from_bytes (encoded, curve)`; no tag but these three is admitted. -/
def makeFromBytes (encoded : List Natural8) (curve : EcCurveFp) (stream : ℕ → ℕ) (fuel : ℕ) :
    Option EcPointFp :=
  match encoded.head? with
  | some 0x02 => decodeCompressedPoint encoded 0 curve stream fuel
  | some 0x03 => decodeCompressedPoint encoded 1 curve stream fuel
  | some 0x04 => decodeUncompressedPoint encoded
  | _ => none

end EcPointFp

/-- A finite point of the curve with reduced coordinates. -/
structure EcCurveFp.FinitePoint (curve : EcCurveFp) (P : EcPointFp) : Prop where
  /-- The point is not infinity. -/
  finite : P.infinity = false
  /-- The first coordinate is reduced. -/
  x_reduced : 0 ≤ P.x.x ∧ P.x.x < curve.q
  /-- The second coordinate is reduced. -/
  y_reduced : 0 ≤ P.y.x ∧ P.y.x < curve.q
  /-- The coordinates satisfy the equation. -/
  equation : P.y.x ^ 2 ≡ P.x.x ^ 3 + curve.a.x * P.x.x + curve.b.x [ZMOD curve.q]

namespace EcPointFp

variable {curve : EcCurveFp} {P : EcPointFp}

/-! ## Compressed points -/

/-- What a number of bytes preceded by a tag is written as. -/
lemma toByteArrayCompressed_eq (P : EcPointFp) (curve : EcCurveFp) :
    P.toByteArrayCompressed curve = some (compressedPCByte P.y.x ::
      asFixedWidthByteArray P.x.x.natAbs (encodedFieldSize curve)) := by
  set a := asFixedWidthByteArray P.x.x.natAbs (encodedFieldSize curve) with ha
  have hcopy : copyDataWithin (List.replicate (a.length + 1) 0) a 0 1 a.length =
      some (0 :: a) := by
    rw [copyDataWithin, if_pos (by rw [List.length_replicate]; omega), copyData, slice_zero_length,
      write]
    simp [Nat.add_comm]
  simp only [toByteArrayCompressed, ← ha, hcopy]
  rfl

/-- The reader of compressed points on a tag and the bytes of a number. -/
lemma decodeCompressedPoint_cons (tag : Natural8) (a : List Natural8) (ytilde : ℕ)
    (hq : curve.q % 4 = 3) (stream : ℕ → ℕ) (fuel : ℕ) :
    decodeCompressedPoint (tag :: a) ytilde curve stream fuel =
      let x : ℤ := IntegerX.makeFromBytes a
      let beta : ℤ := ((x * ((x * x % curve.q + curve.a.x) % curve.q) % curve.q + curve.b.x) %
        curve.q) ^ (curve.q / 4 + 1) % curve.q
      if (if beta.testBit 0 then 1 else 0) = ytilde then some ⟨⟨x⟩, ⟨beta⟩, false⟩
      else some ⟨⟨x⟩, ⟨curve.q - beta⟩, false⟩ := by
  have hcopy : copyDataWithin (List.replicate a.length 0) (tag :: a) 1 0 a.length = some a := by
    have hlen : (slice (tag :: a) 1 a.length).length =
        (List.replicate a.length (0 : Natural8)).length := by simp [slice]
    rw [copyDataWithin, if_pos (by simp; omega), copyData, write_all hlen]
    simp [slice]
  simp only [decodeCompressedPoint, List.length_cons, Nat.add_sub_cancel, hcopy,
    EcFieldElementFp.sqrt_of_mod_four _ hq, EcFieldElementFp.productValue,
    EcFieldElementFp.plusValue, Option.bind_eq_bind, Option.bind_some]
  rfl

/-- The square root that the reader computes is the second coordinate or its negative. -/
lemma beta_eq (hq : curve.q % 4 = 3) (hprime : curve.q.Prime) (hP : curve.FinitePoint P) :
    ((P.x.x * ((P.x.x * P.x.x % curve.q + curve.a.x) % curve.q) % curve.q + curve.b.x) %
        curve.q) ^ (curve.q / 4 + 1) % curve.q = P.y.x ∨
      0 < P.y.x ∧
      ((P.x.x * ((P.x.x * P.x.x % curve.q + curve.a.x) % curve.q) % curve.q + curve.b.x) %
        curve.q) ^ (curve.q / 4 + 1) % curve.q = curve.q - P.y.x := by
  have : Fact curve.q.Prime := ⟨hprime⟩
  set z : ℤ := ((P.x.x * ((P.x.x * P.x.x % curve.q + curve.a.x) % curve.q) % curve.q +
    curve.b.x) % curve.q) ^ (curve.q / 4 + 1) with hz
  have hval : (z : ZMod curve.q) = ((P.y.x : ZMod curve.q) ^ 2) ^ (curve.q / 4 + 1) := by
    have heq := (ZMod.intCast_eq_intCast_iff _ _ _).mpr hP.equation
    push_cast at heq
    rw [hz, heq]
    push_cast [ZMod.intCast_mod]
    congr 1
    ring
  obtain ⟨hy0, hylt⟩ := hP.y_reduced
  have hreduced : P.y.x % curve.q = P.y.x := Int.emod_eq_of_lt hy0 hylt
  have hzval : ∀ v : ℤ, (z : ZMod curve.q) = (v : ZMod curve.q) → z % curve.q = v % curve.q :=
    fun v h => (ZMod.intCast_eq_intCast_iff _ _ _).mp h
  rcases pow_square_of_mod_four hq (P.y.x : ZMod curve.q) with h | h
  · left
    rw [hzval P.y.x (hval.trans h), hreduced]
  · by_cases hzero : P.y.x = 0
    · left
      rw [hzval P.y.x (by rw [hval, h, hzero]; simp), hreduced]
    · right
      refine ⟨by omega, ?_⟩
      have hneg : z % curve.q = (curve.q - P.y.x) % curve.q := by
        refine hzval _ ?_
        rw [hval, h]
        simp
      rw [hneg, Int.emod_eq_of_lt (by omega) (by omega)]

/-- The lowest bit of a number is its parity. -/
lemma testBit_zero_eq (z : ℤ) : z.testBit 0 = decide (z % 2 = 1) := by
  cases z with
  | ofNat n =>
    show n.testBit 0 = decide ((n : ℤ) % 2 = 1)
    rw [Nat.testBit_zero]
    exact decide_eq_decide.mpr (by omega)
  | negSucc n =>
    show (!n.testBit 0) = decide (Int.negSucc n % 2 = 1)
    rw [Nat.testBit_zero, ← decide_not]
    exact decide_eq_decide.mpr (by omega)

/-- **Round trip of compressed points** modulo a prime that is three modulo four.

**Proof sketch.** The first coordinate comes back since its bytes fit into those of the modulus. The
root that the reader computes is the second coordinate or its negative. Of the two, which differ in
parity because the modulus is odd, the reader takes the one that has the parity of the tag; if the
second coordinate is zero there is only one. -/
lemma makeFromBytes_toByteArrayCompressed (hq : curve.q % 4 = 3) (hprime : curve.q.Prime)
    (hP : curve.FinitePoint P) (stream : ℕ → ℕ) (fuel : ℕ) :
    (P.toByteArrayCompressed curve).bind (fun e => makeFromBytes e curve stream fuel) =
      some P := by
  obtain ⟨⟨⟨x⟩, ⟨y⟩, f⟩, rfl⟩ : ∃ Q, Q = P := ⟨P, rfl⟩
  obtain rfl : f = false := hP.finite
  obtain ⟨hx0, hxlt⟩ := hP.x_reduced
  obtain ⟨hy0, hylt⟩ := hP.y_reduced
  simp only at hx0 hxlt hy0 hylt
  have hbytes : bytes x.natAbs ≤ encodedFieldSize curve := bytes_mono (by omega)
  have hread : ((IntegerX.makeFromBytes
      (asFixedWidthByteArray x.natAbs (encodedFieldSize curve)) : ℕ) : ℤ) = x := by
    rw [makeFromBytes_asFixedWidthByteArray hbytes]
    omega
  have hbeta := beta_eq hq hprime hP
  simp only at hbeta
  rw [toByteArrayCompressed_eq, Option.bind_some, makeFromBytes, compressedPCByte, ytildeSet,
    testBit_zero_eq]
  by_cases hodd : y % 2 = 1
  · simp only [hodd, decide_true, if_true, List.head?_cons]
    show decodeCompressedPoint (0x03 :: _) 1 curve stream fuel = _
    rw [decodeCompressedPoint_cons _ _ _ hq]
    simp only [hread, testBit_zero_eq]
    rcases hbeta with h | ⟨-, h⟩
    · rw [h]
      simp [hodd]
    · rw [h]
      have heven : ¬ ((curve.q : ℤ) - y) % 2 = 1 := by omega
      simp [heven]
  · simp only [hodd, decide_false, Bool.false_eq_true, if_false, List.head?_cons]
    show decodeCompressedPoint (0x02 :: _) 0 curve stream fuel = _
    rw [decodeCompressedPoint_cons _ _ _ hq]
    simp only [hread, testBit_zero_eq]
    rcases hbeta with h | ⟨-, h⟩
    · rw [h]
      simp [hodd]
    · rw [h]
      have hodd' : ((curve.q : ℤ) - y) % 2 = 1 := by omega
      simp [hodd']

/-! ## Uncompressed points -/

/-- The writer of uncompressed points asks for one byte more than the second coordinate has. -/
lemma toByteArrayUncompressed_eq_none (hP : curve.FinitePoint P) :
    P.toByteArrayUncompressed curve = none := by
  have hfits (u : ℤ) (h0 : 0 ≤ u) (hlt : u < curve.q) :
      (asFixedWidthByteArray u.natAbs (encodedFieldSize curve)).length =
        encodedFieldSize curve := by
    obtain ⟨-, -, h⟩ := asFixedWidthByteArray_eq (bytes_mono (show u.natAbs ≤ curve.q by omega))
    exact h
  have hx := hfits P.x.x hP.x_reduced.1 hP.x_reduced.2
  have hy := hfits P.y.x hP.y_reduced.1 hP.y_reduced.2
  have hcopy (p0 : List Natural8) : copyDataWithin p0
      (asFixedWidthByteArray P.y.x.natAbs (encodedFieldSize curve)) 0
      (encodedFieldSize curve - 1) (encodedFieldSize curve + 1) = none := by
    rw [copyDataWithin, if_neg]
    omega
  simp only [toByteArrayUncompressed, hx, hy, hcopy]
  cases copyDataWithin (List.replicate (encodedFieldSize curve + encodedFieldSize curve + 1) 0)
      (asFixedWidthByteArray P.x.x.natAbs (encodedFieldSize curve)) 0
      (encodedFieldSize curve - 1) 1 with
  | none => rfl
  | some p0 => rfl

/-- The reader of uncompressed points asks for one byte more than the new array has. -/
lemma decodeUncompressedPoint_eq_none (encoded : List Natural8) :
    decodeUncompressedPoint encoded = none := by
  have hcopy : copyDataWithin encoded (List.replicate ((encoded.length - 1) / 2) 0) 1 0
      ((encoded.length - 1) / 2) = none := by
    rw [copyDataWithin, if_neg]
    rw [List.length_replicate]
    omega
  simp only [decodeUncompressedPoint, List.length_replicate, hcopy]
  rfl

/-- The point comes back from its uncompressed form. -/
def UncompressedRoundTrip (curve : EcCurveFp) (P : EcPointFp) (stream : ℕ → ℕ) (fuel : ℕ) : Prop :=
  (P.toByteArrayUncompressed curve).bind (fun e => makeFromBytes e curve stream fuel) = some P

/-- The point comes back from its compressed form. -/
def CompressedRoundTrip (curve : EcCurveFp) (P : EcPointFp) (stream : ℕ → ℕ) (fuel : ℕ) : Prop :=
  (P.toByteArrayCompressed curve).bind (fun e => makeFromBytes e curve stream fuel) = some P

/-- **Round trips of points.** No finite point of any curve comes back from its uncompressed form:
the writer fails, and the reader would fail on any bytes with the tag of this form. From its
compressed form every finite point comes back, modulo a prime that is three modulo four. -/
theorem encoding_roundTrips (curve : EcCurveFp) (hprime : curve.q.Prime) (P : EcPointFp)
    (hP : curve.FinitePoint P) (stream : ℕ → ℕ) (fuel : ℕ) :
    ¬ UncompressedRoundTrip curve P stream fuel ∧
      (∀ encoded, encoded.head? = some 0x04 → makeFromBytes encoded curve stream fuel = none) ∧
      (curve.q % 4 = 3 → CompressedRoundTrip curve P stream fuel) := by
  refine ⟨?_, ?_, fun hq => makeFromBytes_toByteArrayCompressed hq hprime hP stream fuel⟩
  · intro h
    rw [UncompressedRoundTrip, toByteArrayUncompressed_eq_none hP] at h
    cases h
  · intro encoded htag
    rw [makeFromBytes, htag]
    exact decodeUncompressedPoint_eq_none encoded

/-- The curve `y ^ 2 = x ^ 3 + x + 1` modulo seven. -/
def smallCurve : EcCurveFp := ⟨7, ⟨1⟩, ⟨1⟩⟩

/-- The point with the coordinates `2` and `2`. -/
def smallPoint : EcPointFp := ⟨⟨2⟩, ⟨2⟩, false⟩

lemma finitePoint_small : smallCurve.FinitePoint smallPoint :=
  ⟨by decide, by decide, by decide, by decide⟩

/-- A point modulo seven. -/
theorem encoding_roundTrips_seven : CompressedRoundTrip smallCurve smallPoint (fun _ => 0) 0 :=
  (encoding_roundTrips smallCurve (by decide) smallPoint finitePoint_small
    (fun _ => 0) 0).2.2 (by decide)

/-- The point modulo seven does not come back from its uncompressed form. -/
theorem not_uncompressedRoundTrip_seven :
    ¬ ∀ (curve : EcCurveFp) (P : EcPointFp) (stream : ℕ → ℕ) (fuel : ℕ), curve.q.Prime →
      3 < curve.q → curve.FinitePoint P →
      UncompressedRoundTrip curve P stream fuel ∧
        (curve.q % 4 = 3 → CompressedRoundTrip curve P stream fuel) := by
  intro h
  have hround := (h smallCurve smallPoint (fun _ => 0) 0 (by decide) (by decide)
    finitePoint_small).1
  rw [UncompressedRoundTrip, toByteArrayUncompressed_eq_none finitePoint_small] at hround
  cases hround

end EcPointFp

end EiffelWeb
