import Mathlib.Data.Nat.Dist
import EiffelWeb.Crypto.Limb.SquareBasecase

set_option relaxedAutoImplicit false
set_option autoImplicit false

/-!
# Karatsuba's square

The routines `kara_sqr_n` and `sqr_n` of `SPECIAL_ARITHMETIC`. The number is cut in two, and the
squares of the low part, of the high part and of their difference are made into the square. Parts of
less than 64 limbs are squared by `sqr_basecase`.

For an odd number of limbs the routine loses a carry: it writes the limb that takes the carry back
as it was. It also squares a high part of 64 limbs or more with the number of limbs of the low part,
which is one too many.

## Main definitions

* `SpecialArithmetic.CarriesKept` — no call of the recursion loses a carry or takes a limb too many.
* `SpecialArithmetic.Squares` — a routine squares a given number.

## Main results

* `SpecialArithmetic.karaSqrEven_run`, `SpecialArithmetic.karaSqrOdd_run` — one level.
* `SpecialArithmetic.karaSqrN_run` — the square.
* `SpecialArithmetic.writesSquare_iff` — when `sqr_n` writes the square.
-/

namespace EiffelWeb

open Limbs Arrays

namespace SpecialArithmetic

/-! ## The condition -/

/-- No call of `kara_sqr_n` in the recursion from the number `a` of `n` limbs loses a carry, and
none squares a high part with a limb too many. -/
def CarriesKept (n a : ℕ) : Prop :=
  if n < 64 then True
  else if n % 2 = 1 then
    n < 128 ∧ (a / (2 ^ 32) ^ (n - n / 2)) ^ 2 ≤
      2 * (a % (2 ^ 32) ^ (n - n / 2)) * (a / (2 ^ 32) ^ (n - n / 2)) % (2 ^ 32) ^ (n - 1)
  else
    CarriesKept (n / 2) (Nat.dist (a % (2 ^ 32) ^ (n / 2)) (a / (2 ^ 32) ^ (n / 2))) ∧
      CarriesKept (n / 2) (a % (2 ^ 32) ^ (n / 2)) ∧ CarriesKept (n / 2) (a / (2 ^ 32) ^ (n / 2))
termination_by n

lemma carriesKept_of_lt {n : ℕ} (hn : n < 64) (a : ℕ) : CarriesKept n a := by
  rw [CarriesKept, if_pos hn]
  trivial

lemma carriesKept_odd_iff {n : ℕ} (hn : 64 ≤ n) (hodd : n % 2 = 1) (a : ℕ) :
    CarriesKept n a ↔ n < 128 ∧ (a / (2 ^ 32) ^ (n - n / 2)) ^ 2 ≤
      2 * (a % (2 ^ 32) ^ (n - n / 2)) * (a / (2 ^ 32) ^ (n - n / 2)) % (2 ^ 32) ^ (n - 1) := by
  rw [CarriesKept, if_neg (not_lt.mpr hn), if_pos hodd]

lemma carriesKept_even_iff {n : ℕ} (hn : 64 ≤ n) (heven : n % 2 ≠ 1) (a : ℕ) :
    CarriesKept n a ↔
      CarriesKept (n / 2) (Nat.dist (a % (2 ^ 32) ^ (n / 2)) (a / (2 ^ 32) ^ (n / 2))) ∧
        CarriesKept (n / 2) (a % (2 ^ 32) ^ (n / 2)) ∧
        CarriesKept (n / 2) (a / (2 ^ 32) ^ (n / 2)) := by
  rw [CarriesKept, if_neg (not_lt.mpr hn), if_neg heven]

/-! ## The three squares -/

/-- A number in an array below `free` that is apart from what a square may change. -/
lemma number_writtenBelow {free target targetOffset n ws wsOffset w : ℕ} {h h' : LimbHeap}
    (hk : KeptBelow free (written target targetOffset n ws wsOffset w) h h') {d i k : ℕ}
    (hd : d < free) (hdt : Apart target targetOffset (2 * n) d i k)
    (hdw : Apart ws wsOffset w d i k) : h'.number d i k = h.number d i k := by
  refine LimbHeap.number_kept hk hd fun j hj hj' hw => ?_
  rcases hw with ⟨rfl, hw⟩ | ⟨rfl, hw⟩
  · have := hdt rfl
    omega
  · have := hdw rfl
    omega

/-- The routine squares the number `v` of `n` limbs with `w` limbs of workspace. It may create
arrays from `free` on. -/
def Squares (free : ℕ) (f : Square) (n w v : ℕ) : Prop :=
  ∀ (target targetOffset op1 op1Offset ws wsOffset : ℕ) (h : LimbHeap),
    target < free → op1 < free → ws < free →
    Operands h target targetOffset op1 op1Offset op1 op1Offset n ws wsOffset w →
    h.number op1 op1Offset n = v →
    ∃ h' : LimbHeap, f target targetOffset op1 op1Offset n ws wsOffset h = some h' ∧
      h'.number target targetOffset (2 * n) = v ^ 2 ∧
      KeptBelow free (written target targetOffset n ws wsOffset w) h h'

/-- More workspace does no harm. -/
lemma Squares.mono {free : ℕ} {f : Square} {n w w' v : ℕ} (hf : Squares free f n w v)
    (hw : w ≤ w') : Squares free f n w' v := by
  intro target targetOffset op1 op1Offset ws wsOffset h htf hof hwf hops hv
  obtain ⟨ht, ha, hb, hw', hta, htb, htw, hwa, hwb⟩ := hops
  obtain ⟨h', hrun, hval, hkept⟩ := hf target targetOffset op1 op1Offset ws wsOffset h htf hof hwf
    ⟨ht, ha, hb, by omega, hta, htb, htw.right le_rfl (by omega), hwa.left le_rfl (by omega),
      hwb.left le_rfl (by omega)⟩ hv
  refine ⟨h', hrun, hval, hkept.mono fun b _ k hk => ?_⟩
  simp only [written, region] at hk ⊢
  omega

section Parts

variable {part : Square} {free target targetOffset op1 op1Offset n2 n3 ws wsOffset w : ℕ}
  {h : LimbHeap}

/-- **The three squares**, after the difference `d` was written. -/
lemma sqrParts_run {d a₀ a₁ : ℕ} (hdiff : Squares free part n3 w d)
    (hlow : Squares free part n3 w a₀) (hhigh : Squares free part n2 w a₁) (hle : n2 ≤ n3)
    (hle' : n3 ≤ n2 + 1) (hpos : 1 ≤ n2) (htf : target < free) (hof : op1 < free) (hwf : ws < free)
    (hops : Operands h target targetOffset op1 op1Offset op1 op1Offset (n3 + n2) ws wsOffset
      (2 * n3 + w))
    (hd : h.number target targetOffset n3 = d) (h₀ : h.number op1 op1Offset n3 = a₀)
    (h₁ : h.number op1 (op1Offset + n3) n2 = a₁) :
    ∃ g₁ g₂ g₃ : LimbHeap,
      part ws wsOffset target targetOffset n3 ws (wsOffset + 2 * n3) h = some g₁ ∧
      part target targetOffset op1 op1Offset n3 ws (wsOffset + 2 * n3) g₁ = some g₂ ∧
      part target (targetOffset + 2 * n3) op1 (op1Offset + n3) n2 ws (wsOffset + 2 * n3) g₂ =
        some g₃ ∧
      g₃.number ws wsOffset (2 * n3) = d ^ 2 ∧
      g₃.number target targetOffset (2 * n3) = a₀ ^ 2 ∧
      g₃.number target (targetOffset + 2 * n3) (2 * n2) = a₁ ^ 2 ∧
      KeptBelow free (written target targetOffset (n3 + n2) ws wsOffset (2 * n3 + w)) h g₃ := by
  obtain ⟨ht, ha, -, hw, hta, -, htw, hwa, -⟩ := hops
  obtain ⟨g₁, hrun₁, hval₁, hkept₁⟩ := hdiff ws wsOffset target targetOffset ws
    (wsOffset + 2 * n3) h hwf htf hwf {
      target_le := by omega
      a_le := by omega
      b_le := by omega
      ws_le := by omega
      target_a := htw.symm.sub (by omega) (by omega) (by omega) (by omega)
      target_b := htw.symm.sub (by omega) (by omega) (by omega) (by omega)
      target_ws := .of_le (by omega)
      ws_a := htw.symm.sub (by omega) (by omega) (by omega) (by omega)
      ws_b := htw.symm.sub (by omega) (by omega) (by omega) (by omega) } hd
  -- the operand is not changed by the squares before
  have hkeep₁ {i n : ℕ} (hdw : Apart ws wsOffset (2 * n3 + w) op1 i n) :
      g₁.number op1 i n = h.number op1 i n :=
    number_writtenBelow hkept₁ hof (hdw.left (by omega) (by omega))
      (hdw.left (by omega) (by omega))
  obtain ⟨g₂, hrun₂, hval₂, hkept₂⟩ := hlow target targetOffset op1 op1Offset ws
    (wsOffset + 2 * n3) g₁ htf hof hwf {
      target_le := by rw [hkept₁.length target htf]; omega
      a_le := by rw [hkept₁.length op1 hof]; omega
      b_le := by rw [hkept₁.length op1 hof]; omega
      ws_le := by rw [hkept₁.length ws hwf]; omega
      target_a := hta.sub (by omega) (by omega) (by omega) (by omega)
      target_b := hta.sub (by omega) (by omega) (by omega) (by omega)
      target_ws := htw.sub (by omega) (by omega) (by omega) (by omega)
      ws_a := hwa.sub (by omega) (by omega) (by omega) (by omega)
      ws_b := hwa.sub (by omega) (by omega) (by omega) (by omega) }
    (by rw [hkeep₁ (hwa.right (by omega) (by omega)), h₀])
  have hkeep₂ {e i n : ℕ} (he : e < free) (hdt : Apart target targetOffset (2 * (n3 + n2)) e i n)
      (hdw : Apart ws (wsOffset + 2 * n3) w e i n) : g₂.number e i n = g₁.number e i n :=
    number_writtenBelow hkept₂ he (hdt.left (by omega) (by omega)) hdw
  have hlen₂ {e : ℕ} (he : e < free) : (g₂ e).length = (h e).length := by
    rw [hkept₂.length e he, hkept₁.length e he]
  obtain ⟨g₃, hrun₃, hval₃, hkept₃⟩ := hhigh target (targetOffset + 2 * n3) op1 (op1Offset + n3) ws
    (wsOffset + 2 * n3) g₂ htf hof hwf {
      target_le := by rw [hlen₂ htf]; omega
      a_le := by rw [hlen₂ hof]; omega
      b_le := by rw [hlen₂ hof]; omega
      ws_le := by rw [hlen₂ hwf]; omega
      target_a := hta.sub (by omega) (by omega) (by omega) (by omega)
      target_b := hta.sub (by omega) (by omega) (by omega) (by omega)
      target_ws := htw.sub (by omega) (by omega) (by omega) (by omega)
      ws_a := hwa.sub (by omega) (by omega) (by omega) (by omega)
      ws_b := hwa.sub (by omega) (by omega) (by omega) (by omega) }
    (by rw [hkeep₂ hof (hta.right (by omega) (by omega))
        (hwa.sub (by omega) (by omega) (by omega) (by omega)),
      hkeep₁ (hwa.right (by omega) (by omega)), h₁])
  have hapart : Apart ws (wsOffset + 2 * n3) w ws wsOffset (2 * n3) := (Apart.of_le le_rfl).symm
  refine ⟨g₁, g₂, g₃, hrun₁, hrun₂, hrun₃, ?_, ?_, hval₃, ?_⟩
  · rw [number_writtenBelow hkept₃ hwf (htw.sub (by omega) (by omega) (by omega) (by omega)) hapart,
      hkeep₂ hwf (htw.right (by omega) (by omega)) hapart, hval₁]
  · rw [number_writtenBelow hkept₃ htf (Apart.of_le le_rfl).symm
      (htw.symm.sub (by omega) (by omega) (by omega) (by omega)), hval₂]
  · refine ((hkept₁.mono ?_).trans (hkept₂.mono ?_)).trans (hkept₃.mono ?_) <;>
    · simp only [written, region]
      omega

end Parts

/-- The difference of two numbers. -/
lemma IsDifference.eq_dist {less : Bool} {u v d : ℕ} (h : IsDifference less u v d) :
    d = Nat.dist u v := by
  rw [Nat.dist]
  cases less
  · have hd : v + d = u := h
    omega
  · have hd : u + d = v := h
    omega

/-- The mixed products of a square from the three squares. -/
lemma mixed_squares (a₀ a₁ : ℕ) :
    (2 * a₀ * a₁ : ℕ) = (a₀ ^ 2 : ℕ) + (a₁ ^ 2 : ℕ) + -((Nat.dist a₀ a₁ ^ 2 : ℕ) : ℤ) := by
  rcases le_total a₀ a₁ with hle | hle
  · obtain ⟨d, rfl⟩ := Nat.exists_eq_add_of_le hle
    rw [Nat.dist_eq_sub_of_le hle, Nat.add_sub_cancel_left]
    push_cast
    ring
  · obtain ⟨d, rfl⟩ := Nat.exists_eq_add_of_le hle
    rw [Nat.dist_eq_sub_of_le_right hle, Nat.add_sub_cancel_left]
    push_cast
    ring

section Halves

variable {part : Square} {free target targetOffset op1 op1Offset n2 n3 ws wsOffset w v : ℕ}
  {f : (target targetOffset a aOffset n2 n3 : ℕ) → LimbHeap → Option (Bool × LimbHeap)}
  {h : LimbHeap}

/-- The two parts of a number. -/
lemma number_parts (h₁ : op1Offset + (n3 + n2) ≤ (h op1).length)
    (hv : h.number op1 op1Offset (n3 + n2) = v) :
    h.number op1 op1Offset n3 = v % (2 ^ 32) ^ n3 ∧
      h.number op1 (op1Offset + n3) n2 = v / (2 ^ 32) ^ n3 := by
  have hlt := h.number_lt (show op1Offset + n3 ≤ (h op1).length by omega)
  rw [h.number_add (by omega)] at hv
  constructor
  · rw [← hv, Nat.add_mul_mod_self_left, Nat.mod_eq_of_lt hlt]
  · rw [← hv, Nat.add_mul_div_left _ _ (by positivity), Nat.div_eq_of_lt hlt, Nat.zero_add]

/-- **The difference and the three squares.** The square of the number is made of them. -/
lemma sqrHalves_run (hdiff : Differs f n2 n3)
    (hd : Squares free part n3 w (Nat.dist (v % (2 ^ 32) ^ n3) (v / (2 ^ 32) ^ n3)))
    (hlow : Squares free part n3 w (v % (2 ^ 32) ^ n3))
    (hhigh : Squares free part n2 w (v / (2 ^ 32) ^ n3)) (hle : n2 ≤ n3) (hle' : n3 ≤ n2 + 1)
    (hpos : 1 ≤ n2) (htf : target < free) (hof : op1 < free) (hwf : ws < free)
    (hops : Operands h target targetOffset op1 op1Offset op1 op1Offset (n3 + n2) ws wsOffset
      (2 * n3 + w)) (hv : h.number op1 op1Offset (n3 + n2) = v) :
    ∃ (less : Bool) (g g₁ g₂ g₃ : LimbHeap),
      f target targetOffset op1 op1Offset n2 n3 h = some (less, g) ∧
      part ws wsOffset target targetOffset n3 ws (wsOffset + 2 * n3) g = some g₁ ∧
      part target targetOffset op1 op1Offset n3 ws (wsOffset + 2 * n3) g₁ = some g₂ ∧
      part target (targetOffset + 2 * n3) op1 (op1Offset + n3) n2 ws (wsOffset + 2 * n3) g₂ =
        some g₃ ∧
      g₃.number ws wsOffset (2 * n3) =
        Nat.dist (v % (2 ^ 32) ^ n3) (v / (2 ^ 32) ^ n3) ^ 2 ∧
      g₃.number target targetOffset (2 * n3) = (v % (2 ^ 32) ^ n3) ^ 2 ∧
      g₃.number target (targetOffset + 2 * n3) (2 * n2) = (v / (2 ^ 32) ^ n3) ^ 2 ∧
      v ^ 2 = g₃.number target targetOffset (2 * (n3 + n2)) +
        (2 ^ 32) ^ n3 * (2 * (v % (2 ^ 32) ^ n3) * (v / (2 ^ 32) ^ n3)) ∧
      2 * (v % (2 ^ 32) ^ n3) * (v / (2 ^ 32) ^ n3) < 2 * ((2 ^ 32) ^ n2 * (2 ^ 32) ^ n3) ∧
      KeptBelow free (written target targetOffset (n3 + n2) ws wsOffset (2 * n3 + w)) h g₃ := by
  obtain ⟨ht, ha, -, hw, hta, -, htw, hwa, -⟩ := hops
  obtain ⟨h₀, h₁⟩ := number_parts ha hv
  have hlt₀ := h.number_lt (show op1Offset + n3 ≤ (h op1).length by omega)
  have hlt₁ := h.number_lt (show op1Offset + n3 + n2 ≤ (h op1).length by omega)
  obtain ⟨less, g, hrun, hval, hfoot⟩ := hdiff target targetOffset op1 op1Offset h (by omega)
    (by omega) (hta.sub (by omega) (by omega) (by omega) (by omega))
  have hlen := hfoot.length
  have hkeep {i k : ℕ} (hi : op1Offset ≤ i) (hk : i + k ≤ op1Offset + (n3 + n2)) :
      g.number op1 i k = h.number op1 i k :=
    LimbHeap.number_apart hfoot (hta.sub (by omega) (by omega) hi hk)
  obtain ⟨g₁, g₂, g₃, hrun₁, hrun₂, hrun₃, hsq, hsq₀, hsq₁, hkept⟩ := sqrParts_run (h := g) hd hlow
    hhigh hle hle' hpos htf hof hwf (Operands.mk (by rwa [hlen]) (by rwa [hlen]) (by rwa [hlen])
      (by rwa [hlen]) hta hta htw hwa hwa)
    (by rw [← h₀, ← h₁]; exact hval.eq_dist) (by rw [hkeep le_rfl (by omega), h₀])
    (by rw [hkeep (by omega) (by omega), h₁])
  refine ⟨less, g, g₁, g₂, g₃, hrun, hrun₁, hrun₂, hrun₃, hsq, hsq₀, hsq₁, ?_, ?_, ?_⟩
  · have hlen₃ : (g₃ target).length = (h target).length := by rw [hkept.length target htf, hlen]
    have hsplit := Nat.mod_add_div v ((2 ^ 32) ^ n3)
    rw [Nat.mul_add 2, g₃.number_add (by omega), hsq₀, hsq₁]
    have hpow : (2 ^ 32) ^ (2 * n3) = (2 ^ 32) ^ n3 * (2 ^ 32) ^ n3 := by rw [Nat.two_mul, pow_add]
    rw [hpow]
    nth_rewrite 1 [← hsplit]
    ring
  · rw [← h₀, ← h₁, Nat.mul_assoc, Nat.mul_comm ((2 ^ 32) ^ n2)]
    exact Nat.mul_lt_mul_of_pos_left (Nat.mul_lt_mul'' hlt₀ hlt₁) two_pos
  · refine ((hfoot.keptBelow free).mono ?_).trans hkept
    simp only [written, region]
    omega

end Halves

/-! ## One level for an even number of limbs -/

/-- `kara_sqr_n` for an even number of limbs ends like `kara_mul_n`. -/
lemma karaSqrEven_eq (part : Square) (target targetOffset op1 op1Offset m ws wsOffset : ℕ)
    (h : LimbHeap) :
    karaSqrEven part target targetOffset op1 op1Offset (m + m) ws wsOffset h = (do
      let (_, h) ← absDifference target targetOffset op1 op1Offset m m h
      let h ← part ws wsOffset target targetOffset m ws (wsOffset + 2 * m) h
      let h ← part target targetOffset op1 op1Offset m ws (wsOffset + 2 * m) h
      let h ← part target (targetOffset + 2 * m) op1 (op1Offset + m) m ws (wsOffset + 2 * m) h
      let (w, h) ← middleEven false target targetOffset (m + m) ws wsOffset h
      addMiddleEven w target targetOffset (m + m) m ws wsOffset h) := by
  have hhalf : (m + m) / 2 = m := by omega
  simp only [karaSqrEven, hhalf, middleEven, signedN, addMiddleEven, Nat.two_mul,
    Option.bind_eq_bind, Option.bind_assoc, Bool.false_eq_true, if_false]
  rfl

/-- **One level for an even number of limbs.** -/
lemma karaSqrEven_run {part : Square} {free w m v : ℕ} (hm : 1 ≤ m)
    (hd : Squares free part m w (Nat.dist (v % (2 ^ 32) ^ m) (v / (2 ^ 32) ^ m)))
    (hlow : Squares free part m w (v % (2 ^ 32) ^ m))
    (hhigh : Squares free part m w (v / (2 ^ 32) ^ m)) :
    Squares free (karaSqrEven part) (m + m) (2 * m + w) v := by
  intro target targetOffset op1 op1Offset ws wsOffset h htf hof hwf hops hv
  obtain ⟨less, g, g₁, g₂, g₃, hrun, hrun₁, hrun₂, hrun₃, hsq, hsq₀, hsq₁, hsum, hlt, hkept⟩ :=
    sqrHalves_run (differs_absDifference m) hd hlow hhigh le_rfl (by omega) hm htf hof hwf hops hv
  obtain ⟨ht, ha, -, hw, hta, -, htw, hwa, -⟩ := hops
  have hlen {b : ℕ} (hb : b < free) := hkept.length b hb
  rw [Nat.two_mul m] at hsq hsq₀ hsq₁
  have hmixed := mixed_squares (v % (2 ^ 32) ^ m) (v / (2 ^ 32) ^ m)
  rw [← hsq, ← hsq₀, ← hsq₁] at hmixed
  obtain ⟨x, g₄, hrun₄, hx, hmid, hfoot₄⟩ := middleEven_run (h := g₃) false
    (show targetOffset + (m + m) + (m + m) ≤ (g₃ target).length by rw [hlen htf]; omega)
    (show wsOffset + (m + m) ≤ (g₃ ws).length by rw [hlen hwf]; omega)
    (htw.sub le_rfl (by omega) le_rfl (by omega)) hmixed
  have hlen₄ {b : ℕ} (hb : b < free) : (g₄ b).length = (h b).length := by
    rw [hfoot₄.length, hlen hb]
  have hsize : 2 * (m + m) = m + ((m + m) + (m - 1 + 1)) := by omega
  have hnum : g₄.number target targetOffset (2 * (m + m)) =
      g₃.number target targetOffset (2 * (m + m)) :=
    LimbHeap.number_apart hfoot₄ (htw.symm.left le_rfl (by omega))
  have hbound : v ^ 2 < (2 ^ 32) ^ (2 * (m + m)) := by
    rw [Nat.mul_comm 2, Nat.pow_mul, ← hv]
    exact Nat.pow_lt_pow_left (h.number_lt ha) two_ne_zero
  rw [hsum, ← hnum, hsize] at hbound
  have hroom : wsOffset + (m + m) ≤ (g₄ ws).length := by
    rw [hlen₄ hwf]
    omega
  have hapart : Apart target targetOffset (2 * (m + m)) ws wsOffset (m + m) :=
    htw.right le_rfl (by omega)
  rw [hsize] at hapart
  obtain ⟨g₅, hrun₅, hval, hfoot₅⟩ := addMiddleEven_run
    (by rw [hlen₄ htf, ← hsize]; exact ht) hroom hapart hx (by rw [hmid]; exact hbound)
  refine ⟨g₅, ?_, ?_, ?_⟩
  · rw [karaSqrEven_eq]
    simp only [hrun, hrun₁, hrun₂, hrun₃, hrun₄, Option.bind_eq_bind, Option.bind_some]
    exact hrun₅
  · rw [hsum, ← hnum, hsize, hval, hmid]
  · rw [← hsize] at hfoot₅
    refine (hkept.trans ((hfoot₄.keptBelow free).mono ?_)).trans
      ((hfoot₅.keptBelow free).mono ?_) <;>
    · simp only [written, region]
      omega

/-! ## One level for an odd number of limbs -/

/-- The carry `c` as `kara_sqr_n` treats it: the limb `i` is written back as it was, and the limb
behind it is increased if the limb `i` is zero. -/
def loseCarry (ws i : ℕ) (c : Natural32) (h : LimbHeap) : Option LimbHeap :=
  if c ≠ 0 then do
    let xlimb ← h.item ws i
    let h ← h.put ws i xlimb
    if xlimb = 0 then
      let y ← h.item ws (i + 1)
      h.put ws (i + 1) (y + 1)
    else return h
  else some h

/-- The mixed products of a square, for an odd number of limbs. -/
def sqrMiddleOdd (target targetOffset n ws wsOffset : ℕ) (h : LimbHeap) : Option LimbHeap := do
  let (_, h) ← subN ws wsOffset target targetOffset ws wsOffset (n + 1) h
  let (c, h) ← addN ws wsOffset target (targetOffset + (n + 1)) ws wsOffset (n - 1) h
  loseCarry ws (wsOffset + (n - 1)) c h

/-- `incr_u` by one is its loop. -/
lemma incrU_one {target i : ℕ} (h : LimbHeap) :
    incrU target i 1 h = incrLoop target ((h target).length - i) i h := by
  by_cases hi : i < (h target).length
  · obtain ⟨x, hx, -⟩ := LimbHeap.exists_limb hi
    obtain ⟨g, hput, -, hfoot⟩ := LimbHeap.run_put hi (x + 1)
    obtain ⟨n, hn⟩ : ∃ n, (h target).length - i = n + 1 := ⟨(h target).length - i - 1, by omega⟩
    have hrest : (h target).length - (i + 1) = n := by omega
    have hlt : x + 1 < 1 ↔ x + 1 = 0 := BitVec.lt_one_iff (by decide)
    rw [incrU, hn, incrLoop, hx]
    simp only [Option.bind_eq_bind, Option.bind_some, hput, hfoot.length, hrest, hlt]
    by_cases hzero : x + 1 = 0
    · rw [if_pos hzero, if_neg (not_not.mpr hzero)]
    · rw [if_neg hzero, if_pos hzero]
      rfl
  · have hnone : h.item target i = none := List.getElem?_eq_none (not_lt.mp hi)
    have hzero : (h target).length - i = 0 := by omega
    rw [incrU, hnone, hzero, incrLoop]
    rfl

/-- `kara_sqr_n` for an odd number of limbs ends like `kara_mul_n`, apart from the carry. -/
lemma karaSqrOdd_eq (part : Square) (target targetOffset op1 op1Offset m ws wsOffset : ℕ)
    (h : LimbHeap) :
    karaSqrOdd part target targetOffset op1 op1Offset (m + 1 + m) ws wsOffset h = (do
      let (_, h) ← absDifferenceOdd target targetOffset op1 op1Offset m (m + 1) h
      let h ← part ws wsOffset target targetOffset (m + 1) ws (wsOffset + 2 * (m + 1)) h
      let h ← part target targetOffset op1 op1Offset (m + 1) ws (wsOffset + 2 * (m + 1)) h
      let h ← part target (targetOffset + 2 * (m + 1)) op1 (op1Offset + (m + 1))
        (if m < 64 then m else m + 1) ws (wsOffset + 2 * (m + 1)) h
      let h ← sqrMiddleOdd target targetOffset (m + 1 + m) ws wsOffset h
      addMiddleOdd target targetOffset (m + 1 + m) (m + 1) ws wsOffset h) := by
  have hhalf : (m + 1 + m) / 2 = m := by omega
  have hrest : m + 1 + m - m = m + 1 := by omega
  have hn1 : m + 1 + m + 1 = 2 * (m + 1) := by omega
  have hnm1 : m + 1 + m - 1 = m + m := by omega
  have hlast : wsOffset + (m + 1 + m) = wsOffset + (m + m) + 1 := by omega
  simp only [karaSqrOdd, sqrMiddleOdd, loseCarry, addMiddleOdd, hhalf, hrest, hn1, hnm1, hlast,
    incrU_one, Option.bind_eq_bind, Option.bind_assoc]

section MiddleOdd

variable {target targetOffset ws wsOffset : ℕ} {h : LimbHeap}

/-- The carry is not added; the limb behind may be increased. -/
lemma loseCarry_run {i : ℕ} (hi : i + 2 ≤ (h ws).length) (c : Natural32) (hc : c.toNat ≤ 1) :
    ∃ (e k : ℕ) (h' : LimbHeap), loseCarry ws i c h = some h' ∧
      h'.number ws i 2 + (2 ^ 32) ^ 2 * k = h.number ws i 2 + 2 ^ 32 * (c.toNat * e) ∧
      SameOutside (region ws i 2) h h' := by
  by_cases hzero : c = 0
  · refine ⟨0, 0, h, ?_, ?_, .refl _ _⟩
    · rw [loseCarry, if_neg (not_not.mpr hzero)]
    · rw [Nat.mul_zero, Nat.mul_zero, Nat.mul_zero]
  · have hone : c.toNat = 1 := by
      have hne : c.toNat ≠ 0 := (BitVec.toNat_pos_of_ne_zero hzero).ne'
      omega
    obtain ⟨x, hx, hnum⟩ := number_succ h (a := ws) (i := i) (n := 1) (by omega)
    obtain ⟨g, hput, hfoot, hfirst, hrest⟩ := put_first (k := 1) hi x
    have hlen := hfoot.length ws
    have hsplit (f : LimbHeap) (hf : (f ws).length = (h ws).length) :
        f.number ws i 2 = f.number ws i 1 + 2 ^ 32 * f.number ws (i + 1) 1 := by
      have hadd := f.number_add (a := ws) (i := i) (m := 1) (n := 1) (by omega)
      rwa [pow_one] at hadd
    rw [loseCarry, if_pos hzero, hx, hone]
    simp only [Option.bind_eq_bind, Option.bind_some, hput]
    by_cases hover : x = 0
    · obtain ⟨y, hy, hnumy⟩ := LimbHeap.exists_limb (show i + 1 < (g ws).length by omega)
      obtain ⟨h', hput', hlimb, hfoot'⟩ := LimbHeap.run_put
        (show i + 1 < (g ws).length by omega) (y + 1)
      have hy' := y.isLt
      have hsucc : (y + 1).toNat = (y.toNat + 1) % 2 ^ 32 := BitVec.toNat_add y 1
      have hkeep : h'.number ws i 1 = g.number ws i 1 :=
        LimbHeap.number_apart hfoot' (Apart.of_le le_rfl).symm
      refine ⟨1, (y.toNat + 1) / 2 ^ 32, h', ?_, ?_, hfoot.join hfoot' (by omega) (by omega)⟩
      · rw [if_pos hover, hy, Option.bind_some, hput']
      · rw [hsplit h' (by rw [hfoot'.length, hlen]), hkeep, hfirst, hlimb, hnum, ← hrest, hnumy]
        omega
    · refine ⟨0, 0, g, ?_, ?_, hfoot.mono ?_⟩
      · rw [if_neg hover]
        rfl
      · rw [hsplit g hlen, hfirst, hrest, hnum]
        omega
      · simp only [region]
        omega

/-- **The mixed products of a square, for an odd number of limbs**, up to a multiple of the next
higher weight. They are right if there is no carry, which depends on the low limbs of the sum. -/
lemma sqrMiddleOdd_run {m M : ℕ} (ht : targetOffset + (2 * m + 2) + 2 * m ≤ (h target).length)
    (hw : wsOffset + (2 * m + 2) ≤ (h ws).length)
    (hd : Apart target targetOffset (2 * m + 2 + 2 * m) ws wsOffset (2 * m + 2))
    (hM : (M : ℤ) = h.number target targetOffset (2 * m + 2) +
      h.number target (targetOffset + (2 * m + 2)) (2 * m) +
        -(h.number ws wsOffset (2 * m + 2) : ℤ)) :
    ∃ (c e : ℕ) (k : ℤ) (h' : LimbHeap),
      sqrMiddleOdd target targetOffset (2 * m + 1) ws wsOffset h = some h' ∧ c ≤ 1 ∧
      (c = 0 ↔ h.number target (targetOffset + (2 * m + 2)) (2 * m) ≤ M % (2 ^ 32) ^ (2 * m)) ∧
      (h'.number ws wsOffset (2 * m + 2) : ℤ) = M +
        (2 ^ 32) ^ (2 * m) * (c * (2 ^ 32 * e - 1)) + (2 ^ 32) ^ (2 * m + 2) * k ∧
      SameOutside (region ws wsOffset (2 * m + 2)) h h' := by
  simp only [Apart] at hd
  obtain ⟨c₁, g₁, hrun₁, hc₁, hval₁, hfoot₁⟩ := signedN_run false
    (show targetOffset + (2 * m + 2) ≤ (h target).length by omega) hw (by simp only [Apart]; omega)
  simp only [signedN, Bool.false_eq_true, if_false] at hrun₁ hval₁
  have hlen₁ := hfoot₁.length
  have hahead : ReadsAhead (2 * m) ws wsOffset target (targetOffset + (2 * m + 2)) := fun he => by
    have := hd he
    omega
  obtain ⟨c₂, g₂, hrun₂, hc₂, hval₂, hfoot₂⟩ := addN_run
    (show wsOffset + 2 * m ≤ (g₁ ws).length by rw [hlen₁]; omega)
    (show targetOffset + (2 * m + 2) + 2 * m ≤ (g₁ target).length by rw [hlen₁]; omega)
    (show wsOffset + 2 * m ≤ (g₁ ws).length by rw [hlen₁]; omega) hahead (.refl _ _ _)
  have hlen₂ (d : ℕ) : (g₂ d).length = (h d).length := by rw [hfoot₂.length, hlen₁]
  obtain ⟨e, k, h', hrun₃, hval₃, hfoot₃⟩ := loseCarry_run
    (show wsOffset + 2 * m + 2 ≤ (g₂ ws).length by rw [hlen₂]; omega) c₂ hc₂
  have hhigh : g₁.number target (targetOffset + (2 * m + 2)) (2 * m) =
      h.number target (targetOffset + (2 * m + 2)) (2 * m) := by
    refine LimbHeap.number_eq hfoot₁ ?_
    simp only [region]
    omega
  have htwo : g₂.number ws (wsOffset + 2 * m) 2 = g₁.number ws (wsOffset + 2 * m) 2 :=
    LimbHeap.number_apart hfoot₂ (Apart.of_le le_rfl)
  have hlow : h'.number ws wsOffset (2 * m) = g₂.number ws wsOffset (2 * m) :=
    LimbHeap.number_apart hfoot₃ (Apart.of_le le_rfl).symm
  have hsplit₁ : g₁.number ws wsOffset (2 * m + 2) = g₁.number ws wsOffset (2 * m) +
      (2 ^ 32) ^ (2 * m) * g₁.number ws (wsOffset + 2 * m) 2 :=
    g₁.number_add (by rw [hlen₁]; omega)
  have hsplit₃ : h'.number ws wsOffset (2 * m + 2) = h'.number ws wsOffset (2 * m) +
      (2 ^ 32) ^ (2 * m) * h'.number ws (wsOffset + 2 * m) 2 :=
    h'.number_add (by rw [hfoot₃.length, hlen₂]; omega)
  rw [hhigh] at hval₂
  rw [htwo] at hval₃
  rw [hlow] at hsplit₃
  have hpow : (2 ^ 32 : ℤ) ^ (2 * m + 2) = (2 ^ 32) ^ (2 * m) * (2 ^ 32) ^ 2 := pow_add _ _ _
  have hz₁ : (g₁.number ws wsOffset (2 * m + 2) : ℤ) = g₁.number ws wsOffset (2 * m) +
      (2 ^ 32) ^ (2 * m) * g₁.number ws (wsOffset + 2 * m) 2 := by exact_mod_cast hsplit₁
  have hz₂ : (g₂.number ws wsOffset (2 * m) : ℤ) + (2 ^ 32) ^ (2 * m) * c₂.toNat =
      h.number target (targetOffset + (2 * m + 2)) (2 * m) + g₁.number ws wsOffset (2 * m) := by
    exact_mod_cast hval₂
  rw [hpow] at hval₁ ⊢
  have hlt₁ : g₁.number ws wsOffset (2 * m) < (2 ^ 32) ^ (2 * m) :=
    g₁.number_lt (by rw [hlen₁]; omega)
  -- the low limbs of the sum are those of `M`
  have hmod : g₂.number ws wsOffset (2 * m) = M % (2 ^ 32) ^ (2 * m) := by
    have hdiv : (M : ℤ) = (M % (2 ^ 32) ^ (2 * m) : ℕ) +
        (2 ^ 32) ^ (2 * m) * (M / (2 ^ 32) ^ (2 * m) : ℕ) := by
      exact_mod_cast (Nat.mod_add_div M ((2 ^ 32) ^ (2 * m))).symm
    refine eq_of_add_mul (q := (2 ^ 32) ^ (2 * m))
      (k := (M / (2 ^ 32) ^ (2 * m) : ℕ) + (2 ^ 32) ^ 2 * c₁.toNat - c₂.toNat -
        g₁.number ws (wsOffset + 2 * m) 2)
      (g₂.number_lt (by rw [hlen₂]; omega)) (Nat.mod_lt _ (by positivity)) ?_
    push_cast at hdiv ⊢
    linear_combination hz₂ - hz₁ + hval₁ - hM + hdiv
  refine ⟨c₂.toNat, e, c₁.toNat - k, h', ?_, hc₂, ⟨fun h0 => ?_, fun hle => ?_⟩, ?_, ?_⟩
  · simp only [sqrMiddleOdd, hrun₁, Option.bind_eq_bind, Option.bind_some]
    show (addN ws wsOffset target (targetOffset + (2 * m + 2)) ws wsOffset (2 * m) g₁).bind _ = _
    rw [hrun₂]
    exact hrun₃
  · rw [h0, Nat.mul_zero, Nat.add_zero] at hval₂
    omega
  · by_contra hne
    have hone : c₂.toNat = 1 := by omega
    rw [hone, Nat.mul_one] at hval₂
    omega
  · have hz₃ : (h'.number ws (wsOffset + 2 * m) 2 : ℤ) + (2 ^ 32) ^ 2 * k =
        g₁.number ws (wsOffset + 2 * m) 2 + 2 ^ 32 * (c₂.toNat * e) := by exact_mod_cast hval₃
    have hz₄ : (h'.number ws wsOffset (2 * m + 2) : ℤ) = g₂.number ws wsOffset (2 * m) +
        (2 ^ 32) ^ (2 * m) * h'.number ws (wsOffset + 2 * m) 2 := by exact_mod_cast hsplit₃
    linear_combination hz₄ + hz₂ - hz₁ + hval₁ - hM + (2 ^ 32 : ℤ) ^ (2 * m) * hz₃
  · refine ((hfoot₁.mono ?_).trans (hfoot₂.mono ?_)).trans (hfoot₃.mono ?_) <;>
    · simp only [region]
      omega

end MiddleOdd

section Odd

variable {part : Square} {free target targetOffset op1 op1Offset ws wsOffset m w v : ℕ}
  {h : LimbHeap}

/-- **The parts of one level for an odd number of limbs**, up to the last sum. -/
lemma karaSqrOdd_middle (hm : 2 ≤ m) (hm' : m < 64)
    (hd : Squares free part (m + 1) w
      (Nat.dist (v % (2 ^ 32) ^ (m + 1)) (v / (2 ^ 32) ^ (m + 1))))
    (hlow : Squares free part (m + 1) w (v % (2 ^ 32) ^ (m + 1)))
    (hhigh : Squares free part m w (v / (2 ^ 32) ^ (m + 1)))
    (htf : target < free) (hof : op1 < free) (hwf : ws < free)
    (hops : Operands h target targetOffset op1 op1Offset op1 op1Offset (m + 1 + m) ws wsOffset
      (2 * (m + 1) + w)) (hv : h.number op1 op1Offset (m + 1 + m) = v) :
    ∃ (c e M : ℕ) (k : ℤ) (g : LimbHeap),
      karaSqrOdd part target targetOffset op1 op1Offset (m + 1 + m) ws wsOffset h =
        addMiddleOdd target targetOffset (m + 1 + m) (m + 1) ws wsOffset g ∧ c ≤ 1 ∧
      (c = 0 ↔ (v / (2 ^ 32) ^ (m + 1)) ^ 2 ≤
        2 * (v % (2 ^ 32) ^ (m + 1)) * (v / (2 ^ 32) ^ (m + 1)) % (2 ^ 32) ^ (2 * m)) ∧
      (g.number ws wsOffset (m + 1 + m + 1) : ℤ) = M +
        (2 ^ 32) ^ (2 * m) * (c * (2 ^ 32 * e - 1)) + (2 ^ 32) ^ (2 * m + 2) * k ∧
      M < (2 ^ 32) ^ (2 * m + 2) ∧
      v ^ 2 = g.number target targetOffset (2 * (m + 1 + m)) + (2 ^ 32) ^ (m + 1) * M ∧
      KeptBelow free (written target targetOffset (m + 1 + m) ws wsOffset (2 * (m + 1) + w))
        h g := by
  obtain ⟨less, g₀, g₁, g₂, g₃, hrun, hrun₁, hrun₂, hrun₃, hsq, hsq₀, hsq₁, hsum, hlt, hkept⟩ :=
    sqrHalves_run (differs_absDifferenceOdd m) hd hlow hhigh (by omega) le_rfl (by omega) htf hof
      hwf hops hv
  obtain ⟨ht, ha, -, hw, hta, -, htw, hwa, -⟩ := hops
  have hlen {b : ℕ} (hb : b < free) := hkept.length b hb
  have hn1 : 2 * (m + 1) = 2 * m + 2 := by omega
  have hmixed := mixed_squares (v % (2 ^ 32) ^ (m + 1)) (v / (2 ^ 32) ^ (m + 1))
  rw [hn1] at hsq hsq₀ hsq₁
  rw [← hsq, ← hsq₀, ← hsq₁] at hmixed
  obtain ⟨c, e, k, g, hrun₄, hc, hzero, hmid, hfoot⟩ := sqrMiddleOdd_run (h := g₃) (m := m)
    (show targetOffset + (2 * m + 2) + 2 * m ≤ (g₃ target).length by rw [hlen htf]; omega)
    (show wsOffset + (2 * m + 2) ≤ (g₃ ws).length by rw [hlen hwf]; omega)
    (htw.sub le_rfl (by omega) le_rfl (by omega)) hmixed
  rw [hsq₁] at hzero
  have hnum : g.number target targetOffset (2 * (m + 1 + m)) =
      g₃.number target targetOffset (2 * (m + 1 + m)) :=
    LimbHeap.number_apart hfoot (htw.symm.left le_rfl (by omega))
  have hsize : m + 1 + m + 1 = 2 * m + 2 := by omega
  refine ⟨c, e, 2 * (v % (2 ^ 32) ^ (m + 1)) * (v / (2 ^ 32) ^ (m + 1)), k, g, ?_, hc, hzero,
    ?_, ?_, by rw [hnum, hsum], ?_⟩
  · have hodd : 2 * m + 1 = m + 1 + m := by omega
    rw [hodd] at hrun₄
    rw [karaSqrOdd_eq]
    simp only [hrun, hrun₁, hrun₂, if_pos hm', hrun₃, hrun₄, Option.bind_eq_bind, Option.bind_some]
  · rw [hsize]
    exact hmid
  · have hpow : (2 ^ 32) ^ (2 * m + 2) = 2 ^ 32 * ((2 ^ 32) ^ m * (2 ^ 32) ^ (m + 1)) := by
      rw [show 2 * m + 2 = 1 + (m + (m + 1)) by omega, pow_add, pow_add, pow_one]
    rw [hpow]
    omega
  · refine hkept.trans ((hfoot.keptBelow free).mono ?_)
    simp only [written, region]
    omega

/-- **One level for an odd number of limbs**, if no carry is lost. -/
lemma karaSqrOdd_run (hm : 2 ≤ m) (hm' : m < 64)
    (hd : Squares free part (m + 1) w
      (Nat.dist (v % (2 ^ 32) ^ (m + 1)) (v / (2 ^ 32) ^ (m + 1))))
    (hlow : Squares free part (m + 1) w (v % (2 ^ 32) ^ (m + 1)))
    (hhigh : Squares free part m w (v / (2 ^ 32) ^ (m + 1)))
    (hcarry : (v / (2 ^ 32) ^ (m + 1)) ^ 2 ≤
      2 * (v % (2 ^ 32) ^ (m + 1)) * (v / (2 ^ 32) ^ (m + 1)) % (2 ^ 32) ^ (2 * m)) :
    Squares free (karaSqrOdd part) (m + 1 + m) (2 * (m + 1) + w) v := by
  intro target targetOffset op1 op1Offset ws wsOffset h htf hof hwf hops hv
  obtain ⟨c, e, M, k, g, hrun, -, hzero, hmid, hlt, hsum, hkept⟩ := karaSqrOdd_middle hm hm' hd hlow
    hhigh htf hof hwf hops hv
  obtain ⟨ht, ha, -, hw, hta, -, htw, hwa, -⟩ := hops
  have hlen {b : ℕ} (hb : b < free) := hkept.length b hb
  have hsize : 2 * (m + 1 + m) = m + 1 + ((m + 1 + m + 1) + (m - 1)) := by omega
  have hroom : wsOffset + (m + 1 + m + 1) ≤ (g ws).length := by
    rw [hlen hwf]
    omega
  have hM : g.number ws wsOffset (m + 1 + m + 1) = M := by
    refine eq_of_add_mul (q := (2 ^ 32) ^ (2 * m + 2)) (k := k) ?_ hlt ?_
    · rw [show 2 * m + 2 = m + 1 + m + 1 by omega]
      exact g.number_lt hroom
    · rw [hmid, hzero.mpr hcarry]
      push_cast
      ring
  have hbound : v ^ 2 < (2 ^ 32) ^ (2 * (m + 1 + m)) := by
    rw [Nat.mul_comm 2, Nat.pow_mul, ← hv]
    exact Nat.pow_lt_pow_left (h.number_lt ha) two_ne_zero
  rw [hsum, hsize] at hbound
  have hapart : Apart target targetOffset (2 * (m + 1 + m)) ws wsOffset (m + 1 + m + 1) :=
    htw.right le_rfl (by omega)
  rw [hsize] at hapart
  obtain ⟨h', hrun', hval, hfoot⟩ := addMiddleOdd_run (h := g) (by rw [hlen htf, ← hsize]; exact ht)
    hroom hapart (by rw [hM]; exact hbound)
  refine ⟨h', by rw [hrun, hrun'], by rw [hsum, hsize, hval, hM], ?_⟩
  rw [← hsize] at hfoot
  refine hkept.trans ((hfoot.keptBelow free).mono ?_)
  simp only [written, region]
  omega

/-- What the loop of `incr_u` leaves if it returns: the number is increased by one, up to a multiple
of the next higher weight. -/
lemma incrLoop_mod {n i k : ℕ} {h h' : LimbHeap} (hk : i + k ≤ (h target).length)
    (hrun : incrLoop target n i h = some h') :
    (∃ q : ℕ, h'.number target i k + (2 ^ 32) ^ k * q = h.number target i k + 1) ∧
      SameOutside (region target i n) h h' := by
  induction n generalizing i k h with
  | zero => cases hrun
  | succ n ih =>
    rw [incrLoop] at hrun
    obtain ⟨x, hx, hrun⟩ := Option.bind_eq_some_iff.mp hrun
    have hi : i < (h target).length := (List.getElem?_eq_some_iff.mp hx).1
    obtain ⟨g, hput, hlimb, hfoot⟩ := LimbHeap.run_put hi (x + 1)
    rw [hput, Option.bind_some] at hrun
    have hsucc : (x + 1).toNat = (x.toNat + 1) % 2 ^ 32 := BitVec.toNat_add x 1
    have hx' := x.isLt
    have hsplit (f : LimbHeap) (hf : (f target).length = (h target).length) (j : ℕ) :
        f.number target i (j + 1) = f.number target i 1 + 2 ^ 32 * f.number target (i + 1) j := by
      rw [Nat.add_comm j 1, f.number_add (by omega), pow_one]
    have hrest (j : ℕ) : g.number target (i + 1) j = h.number target (i + 1) j :=
      LimbHeap.number_apart hfoot (Apart.of_le le_rfl)
    obtain ⟨y, hy, hnum⟩ := LimbHeap.exists_limb hi
    rw [hx, Option.some.injEq] at hy
    subst hy
    by_cases hzero : x + 1 = 0
    · rw [if_neg (not_not.mpr hzero)] at hrun
      have hmax : x.toNat + 1 = 2 ^ 32 := by
        rw [hzero, toNat_zero_limb] at hsucc
        omega
      cases k with
      | zero =>
        obtain ⟨-, hfoot'⟩ := ih (k := 0) (by rw [hfoot.length]; omega) hrun
        refine ⟨⟨1, by rw [LimbHeap.number_zero, LimbHeap.number_zero]; rfl⟩,
          hfoot.join hfoot' (by omega) (by omega)⟩
      | succ k =>
        obtain ⟨⟨q, hq⟩, hfoot'⟩ := ih (k := k) (by rw [hfoot.length]; omega) hrun
        have hkeep : h'.number target i 1 = g.number target i 1 :=
          LimbHeap.number_apart hfoot' (Apart.of_le le_rfl).symm
        refine ⟨⟨q, ?_⟩, hfoot.join hfoot' (by omega) (by omega)⟩
        rw [hrest] at hq
        rw [hsplit h' (by rw [hfoot'.length, hfoot.length]), hsplit h rfl, hkeep, hlimb, hzero,
          toNat_zero_limb, hnum, pow_succ' (2 ^ 32) k, Nat.mul_assoc, Nat.zero_add, ← Nat.mul_add,
          hq]
        omega
    · rw [if_pos hzero, Option.some.injEq] at hrun
      subst hrun
      refine ⟨?_, hfoot.mono fun b j hj => ⟨hj.1, hj.2.1, by have := hj.2.2; omega⟩⟩
      cases k with
      | zero => exact ⟨1, by rw [LimbHeap.number_zero, LimbHeap.number_zero]; rfl⟩
      | succ k =>
        have hne : (x + 1).toNat ≠ 0 := (BitVec.toNat_pos_of_ne_zero hzero).ne'
        refine ⟨0, ?_⟩
        rw [hsplit g (hfoot.length target), hsplit h rfl, hlimb, hnum, hrest]
        omega

/-- **What the last sum leaves** if it returns, up to a multiple of the next higher weight. -/
lemma addMiddleOdd_mod {n n3 r : ℕ} {h h' : LimbHeap}
    (ht : targetOffset + (n3 + ((n + 1) + r)) ≤ (h target).length)
    (hw : wsOffset + (n + 1) ≤ (h ws).length)
    (hd : Apart target targetOffset (n3 + ((n + 1) + r)) ws wsOffset (n + 1))
    (hrun : addMiddleOdd target targetOffset n n3 ws wsOffset h = some h') :
    ∃ q : ℤ, (h'.number target targetOffset (n3 + ((n + 1) + r)) : ℤ) =
      h.number target targetOffset (n3 + ((n + 1) + r)) +
        (2 ^ 32) ^ n3 * h.number ws wsOffset (n + 1) + (2 ^ 32) ^ (n3 + ((n + 1) + r)) * q := by
  have hahead : ReadsAhead (n + 1) target (targetOffset + n3) ws wsOffset := fun he => by
    have := hd he.symm
    omega
  obtain ⟨c, g, hadd, hc, hsum, hfoot⟩ := addN_run
    (show targetOffset + n3 + (n + 1) ≤ (h target).length by omega)
    (show targetOffset + n3 + (n + 1) ≤ (h target).length by omega) hw (.refl _ _ _) hahead
  have hlow : g.number target targetOffset n3 = h.number target targetOffset n3 :=
    LimbHeap.number_apart hfoot (Apart.of_le le_rfl).symm
  have hhigh : g.number target (targetOffset + n3 + (n + 1)) r =
      h.number target (targetOffset + n3 + (n + 1)) r :=
    LimbHeap.number_apart hfoot (Apart.of_le le_rfl)
  have hstart : targetOffset + (n + 1) + n3 = targetOffset + n3 + (n + 1) := by omega
  simp only [addMiddleOdd, hadd, Option.bind_eq_bind, Option.bind_some, hstart] at hrun
  have hsum' : (g.number target (targetOffset + n3) (n + 1) : ℤ) + (2 ^ 32) ^ (n + 1) * c.toNat =
      h.number target (targetOffset + n3) (n + 1) + h.number ws wsOffset (n + 1) := by
    exact_mod_cast hsum
  by_cases hzero : c = 0
  · rw [if_neg (not_not.mpr hzero)] at hrun
    obtain rfl : g = h' := Option.some.inj hrun
    refine ⟨0, ?_⟩
    rw [number_three g (by rw [hfoot.length]; exact ht), number_three h ht, hlow, hhigh]
    rw [hzero, toNat_zero_limb] at hsum'
    push_cast
    linear_combination (2 ^ 32 : ℤ) ^ n3 * hsum'
  · rw [if_pos hzero] at hrun
    have hone : c.toNat = 1 := by
      have hne : c.toNat ≠ 0 := (BitVec.toNat_pos_of_ne_zero hzero).ne'
      omega
    obtain ⟨⟨q, hq⟩, hfoot'⟩ := incrLoop_mod (k := r)
      (show targetOffset + n3 + (n + 1) + r ≤ (g target).length by rw [hfoot.length]; omega) hrun
    have hlow' : h'.number target targetOffset n3 = g.number target targetOffset n3 :=
      LimbHeap.number_apart hfoot' (Apart.of_le (by omega)).symm
    have hmid' : h'.number target (targetOffset + n3) (n + 1) =
        g.number target (targetOffset + n3) (n + 1) :=
      LimbHeap.number_apart hfoot' (Apart.of_le le_rfl).symm
    have hq' : (h'.number target (targetOffset + n3 + (n + 1)) r : ℤ) + (2 ^ 32) ^ r * q =
        h.number target (targetOffset + n3 + (n + 1)) r + 1 := by
      rw [← hhigh]
      exact_mod_cast hq
    refine ⟨-q, ?_⟩
    rw [number_three h' (by rw [hfoot'.length, hfoot.length]; exact ht), number_three h ht, hlow',
      hmid', hlow, pow_add, pow_add]
    rw [hone] at hsum'
    push_cast
    linear_combination (2 ^ 32 : ℤ) ^ n3 * hsum' +
      (2 ^ 32 : ℤ) ^ n3 * (2 ^ 32 : ℤ) ^ (n + 1) * hq'

/-- **A lost carry** is missed in the result. -/
lemma karaSqrOdd_wrong (hm : 2 ≤ m) (hm' : m < 64)
    (hd : Squares free part (m + 1) w
      (Nat.dist (v % (2 ^ 32) ^ (m + 1)) (v / (2 ^ 32) ^ (m + 1))))
    (hlow : Squares free part (m + 1) w (v % (2 ^ 32) ^ (m + 1)))
    (hhigh : Squares free part m w (v / (2 ^ 32) ^ (m + 1)))
    (hcarry : ¬ (v / (2 ^ 32) ^ (m + 1)) ^ 2 ≤
      2 * (v % (2 ^ 32) ^ (m + 1)) * (v / (2 ^ 32) ^ (m + 1)) % (2 ^ 32) ^ (2 * m))
    (htf : target < free) (hof : op1 < free) (hwf : ws < free)
    (hops : Operands h target targetOffset op1 op1Offset op1 op1Offset (m + 1 + m) ws wsOffset
      (2 * (m + 1) + w)) (hv : h.number op1 op1Offset (m + 1 + m) = v) {h' : LimbHeap}
    (hrun : karaSqrOdd part target targetOffset op1 op1Offset (m + 1 + m) ws wsOffset h = some h') :
    h'.number target targetOffset (2 * (m + 1 + m)) ≠ v ^ 2 := by
  obtain ⟨c, e, M, k, g, hrun', hc, hzero, hmid, -, hsum, hkept⟩ := karaSqrOdd_middle hm hm' hd hlow
    hhigh htf hof hwf hops hv
  obtain ⟨ht, ha, -, hw, hta, -, htw, hwa, -⟩ := hops
  have hone : c = 1 := by
    have hne : c ≠ 0 := fun h0 => hcarry (hzero.mp h0)
    omega
  have hsize : 2 * (m + 1 + m) = m + 1 + ((m + 1 + m + 1) + (m - 1)) := by omega
  have hapart : Apart target targetOffset (2 * (m + 1 + m)) ws wsOffset (m + 1 + m + 1) :=
    htw.right le_rfl (by omega)
  rw [hsize] at hapart
  rw [hrun'] at hrun
  obtain ⟨q, hq⟩ := addMiddleOdd_mod (h := g)
    (by rw [hkept.length target htf, ← hsize]; exact ht)
    (by rw [hkept.length ws hwf]; omega) hapart hrun
  intro hsquare
  rw [hsize] at hsquare hsum
  -- the missing carry, divided by its weight
  have hpow₁ : (2 ^ 32 : ℤ) ^ (2 * m + 2) = (2 ^ 32) ^ (2 * m) * (2 ^ 32 * 2 ^ 32) := by
    rw [pow_add, pow_two]
  have hpow₂ : (2 ^ 32 : ℤ) ^ (m + 1 + ((m + 1 + m + 1) + (m - 1))) =
      (2 ^ 32) ^ (m + 1) * (2 ^ 32) ^ (2 * m) * (2 ^ 32 * (2 ^ 32) ^ m) := by
    rw [← pow_succ', ← pow_add, ← pow_add]
    congr 1
    omega
  have hsum' : (v ^ 2 : ℤ) = g.number target targetOffset (m + 1 + ((m + 1 + m + 1) + (m - 1))) +
      (2 ^ 32) ^ (m + 1) * M := by exact_mod_cast hsum
  rw [hsquare, hmid, hone, hpow₁, hpow₂] at hq
  push_cast at hq
  have hfactor : (2 ^ 32 : ℤ) ^ (m + 1) * (2 ^ 32) ^ (2 * m) *
      (2 ^ 32 * (e + 2 ^ 32 * k + (2 ^ 32) ^ m * q) - 1) = 0 := by
    linear_combination hsum' - hq
  have hne : (2 ^ 32 : ℤ) ^ (m + 1) * (2 ^ 32) ^ (2 * m) ≠ 0 := by positivity
  have hunit := (mul_eq_zero.mp hfactor).resolve_left hne
  generalize (e + 2 ^ 32 * k + (2 ^ 32) ^ m * q : ℤ) = u at hunit
  omega

end Odd

/-! ## The recursion -/

section Recursion

variable {fresh depth n v : ℕ}

/-- A part is squared by `sqr_basecase` or by the recursion. -/
def sqrPart (fresh depth : ℕ) : Square :=
  fun target targetOffset op1 op1Offset n ws wsOffset h =>
    if n < 64 then sqrBasecase fresh target targetOffset op1 op1Offset n h
    else karaSqrN fresh depth target targetOffset op1 op1Offset n ws wsOffset h

lemma karaSqrN_odd (hodd : n % 2 = 1) :
    (karaSqrN fresh (depth + 1) · · · · n · · ·) =
      (karaSqrOdd (sqrPart fresh depth) · · · · n · · ·) := by
  funext target targetOffset op1 op1Offset ws wsOffset h
  exact if_pos (by omega)

lemma karaSqrN_even (heven : n % 2 ≠ 1) :
    (karaSqrN fresh (depth + 1) · · · · n · · ·) =
      (karaSqrEven (sqrPart fresh depth) · · · · n · · ·) := by
  funext target targetOffset op1 op1Offset ws wsOffset h
  exact if_neg (by omega)

/-- A part of less than 64 limbs. -/
lemma squares_basecase (hn : 1 ≤ n) (hn' : n < 64) (w : ℕ) :
    Squares fresh (sqrPart fresh depth) n w v := by
  intro target targetOffset op1 op1Offset ws wsOffset h htf hof hwf hops hv
  obtain ⟨ht, ha, -, -, hta, -, -, -, -⟩ := hops
  obtain ⟨h', hrun, hval, hkept⟩ := sqrBasecase_run hn hn' htf hof ht ha hta
  refine ⟨h', by rw [sqrPart, if_pos hn', hrun], by rw [hval, hv], hkept.mono ?_⟩
  intro b _ k hk
  exact Or.inl hk

/-- A routine squares what another one does. -/
lemma Squares.congr {f g : Square} {w : ℕ} (hf : Squares fresh f n w v)
    (heq : (f · · · · n · · ·) = (g · · · · n · · ·)) : Squares fresh g n w v := by
  intro target targetOffset op1 op1Offset ws wsOffset h
  have hrun : f target targetOffset op1 op1Offset n ws wsOffset h =
      g target targetOffset op1 op1Offset n ws wsOffset h :=
    congrFun (congrFun (congrFun (congrFun (congrFun (congrFun (congrFun heq target)
      targetOffset) op1) op1Offset) ws) wsOffset) h
  rw [← hrun]
  exact hf target targetOffset op1 op1Offset ws wsOffset h

/-- A part of at most 64 limbs. -/
lemma squares_of_le (hn : 1 ≤ n) (hn' : n ≤ 64) :
    Squares fresh (sqrPart fresh (depth + 1)) n 64 v := by
  rcases hn'.lt_or_eq with hlt | rfl
  · exact squares_basecase hn hlt 64
  · have hlevel := @karaSqrEven_run (sqrPart fresh depth) fresh 0 32 v (by decide)
      (squares_basecase (by decide) (by decide) 0) (squares_basecase (by decide) (by decide) 0)
      (squares_basecase (by decide) (by decide) 0)
    refine hlevel.congr ?_
    rw [← karaSqrN_even (by decide)]
    rfl

/-- **`kara_sqr_n`** squares if no carry is lost.

**Proof sketch.** Induction on the depth of the recursion. A level for an odd number of limbs has
parts of at most 64 limbs. -/
lemma karaSqrN_run (hn : 64 ≤ n) (hdepth : n ≤ depth) (hkept : CarriesKept n v) :
    Squares fresh (karaSqrN fresh depth) n (2 * n) v := by
  induction depth generalizing n v with
  | zero => omega
  | succ depth ih =>
    by_cases hodd : n % 2 = 1
    · obtain ⟨depth, rfl⟩ : ∃ d, depth = d + 1 := ⟨depth - 1, by omega⟩
      obtain ⟨m, rfl⟩ : ∃ m, n = m + 1 + m := ⟨n / 2, by omega⟩
      have hhalf : m + 1 + m - (m + 1 + m) / 2 = m + 1 := by omega
      have hlast : m + 1 + m - 1 = 2 * m := by omega
      rw [carriesKept_odd_iff hn hodd, hhalf, hlast] at hkept
      have hpart {n v : ℕ} (hn : 1 ≤ n) (hn' : n ≤ 64) :
          Squares fresh (sqrPart fresh (depth + 1)) n 64 v := squares_of_le hn hn'
      have hlevel := karaSqrOdd_run (show 2 ≤ m by omega) (by omega) (hpart (by omega) (by omega))
        (hpart (by omega) (by omega)) (hpart (by omega) (by omega)) hkept.2
      exact (hlevel.congr (karaSqrN_odd hodd).symm).mono (by omega)
    · obtain ⟨m, rfl⟩ : ∃ m, n = m + m := ⟨n / 2, by omega⟩
      have hhalf : (m + m) / 2 = m := by omega
      rw [carriesKept_even_iff hn hodd, hhalf] at hkept
      have hparts {u : ℕ} (hu : CarriesKept m u) :
          Squares fresh (sqrPart fresh depth) m (2 * m) u := by
        by_cases hsmall : m < 64
        · exact squares_basecase (by omega) hsmall _
        · refine (ih (by omega) (by omega) hu).congr ?_
          funext target targetOffset op1 op1Offset ws wsOffset h
          exact (if_neg hsmall).symm
      have hlevel := karaSqrEven_run (show 1 ≤ m by omega) (hparts hkept.1) (hparts hkept.2.1)
        (hparts hkept.2.2)
      exact (hlevel.congr (karaSqrN_even hodd).symm).mono (by omega)

end Recursion

/-! ## A limb too many -/

section Lengths

variable {free fresh : ℕ}

lemma keepsLengths_incrLoop {target n i : ℕ} (h : LimbHeap) :
    KeepsLengths free h id (incrLoop target n i h) := by
  induction n generalizing i h with
  | zero => exact .none
  | succ n ih =>
    refine (KeepsLengths.read h _).bind fun x => (keepsLengths_put h).bind fun g => ?_
    split
    · exact .some g
    · exact ih g

lemma keepsLengths_incrU {target i : ℕ} {y : Natural32} (h : LimbHeap) :
    KeepsLengths free h id (incrU target i y h) := by
  refine (KeepsLengths.read h _).bind fun x => (keepsLengths_put h).bind fun g => ?_
  split
  · exact keepsLengths_incrLoop g
  · exact .some g

lemma keepsLengths_absDifference {target targetOffset a aOffset n2 n3 : ℕ} (h : LimbHeap) :
    KeepsLengths free h Prod.snd (absDifference target targetOffset a aOffset n2 n3 h) := by
  refine (KeepsLengths.read h _).bind fun order => ?_
  split
  · exact (keepsLengths_zipLoop h).bind fun r => .pure r.2 rfl
  · exact (keepsLengths_zipLoop h).bind fun r => .pure r.2 rfl

lemma keepsLengths_absDifferenceOdd {target targetOffset a aOffset n2 n3 : ℕ} (h : LimbHeap) :
    KeepsLengths free h Prod.snd (absDifferenceOdd target targetOffset a aOffset n2 n3 h) := by
  refine (KeepsLengths.read h _).bind fun w => ?_
  split
  · exact (keepsLengths_zipLoop h).bind fun r => (keepsLengths_put r.2).bind fun g => .pure g rfl
  · exact (keepsLengths_absDifference h).bind fun r =>
      (keepsLengths_put r.2).bind fun g => .pure g rfl

lemma keepsLengths_addMiddleOdd {target targetOffset n n3 ws wsOffset : ℕ} (h : LimbHeap) :
    KeepsLengths free h id (addMiddleOdd target targetOffset n n3 ws wsOffset h) := by
  refine (keepsLengths_zipLoop h).bind fun r => ?_
  dsimp only
  split
  · exact keepsLengths_incrLoop r.2
  · exact .some r.2

lemma keepsLengths_sqrMiddleOdd {target targetOffset n ws wsOffset : ℕ} (h : LimbHeap) :
    KeepsLengths free h id (sqrMiddleOdd target targetOffset n ws wsOffset h) := by
  refine (keepsLengths_zipLoop h).bind fun r => (keepsLengths_zipLoop r.2).bind fun s => ?_
  dsimp only
  rw [loseCarry]
  split
  · refine (KeepsLengths.read s.2 _).bind fun x => (keepsLengths_put s.2).bind fun g => ?_
    split
    · exact (KeepsLengths.read g _).bind fun y => keepsLengths_put g
    · exact .some g
  · exact .some s.2

lemma keepsLengths_middleEven {target targetOffset n ws wsOffset : ℕ} (h : LimbHeap) :
    KeepsLengths free h Prod.snd (middleEven false target targetOffset n ws wsOffset h) :=
  (keepsLengths_zipLoop h).bind fun r => (keepsLengths_zipLoop r.2).bind fun s => .pure s.2 rfl

lemma keepsLengths_addMiddleEven {w : Natural32} {target targetOffset n n2 ws wsOffset : ℕ}
    (h : LimbHeap) :
    KeepsLengths free h id (addMiddleEven w target targetOffset n n2 ws wsOffset h) :=
  (keepsLengths_zipLoop h).bind fun r => keepsLengths_incrU r.2

lemma keepsLengths_sqrDiagonal {target op1 n targetOffset op1Offset : ℕ} (h : LimbHeap) :
    KeepsLengths free h id (sqrDiagonal target op1 n targetOffset op1Offset h) := by
  induction n generalizing targetOffset op1Offset h with
  | zero => exact .some h
  | succ n ih =>
    exact (KeepsLengths.read h _).bind fun x => (keepsLengths_put h).bind fun g =>
      (keepsLengths_put g).bind fun g => ih g

lemma keepsLengths_sqrLoop {tp op1 op1Offset n k i : ℕ} (h : LimbHeap) :
    KeepsLengths free h id (sqrLoop tp op1 op1Offset n k i h) := by
  induction k generalizing i h with
  | zero => exact .some h
  | succ k ih =>
    exact (KeepsLengths.read h _).bind fun x => (keepsLengths_zipLoop h).bind fun r =>
      (keepsLengths_put r.2).bind fun g => ih g

lemma keepsLengths_lshift {target targetOffset op1 op1Offset n count : ℕ} (h : LimbHeap) :
    KeepsLengths free h Prod.snd
      (SpecialLogic.lshift target targetOffset op1 op1Offset n count h) := by
  have hloop (i up rp : ℕ) (highLimb : Natural32) (h : LimbHeap) :
      KeepsLengths free h id (SpecialLogic.lshiftLoop target op1 count i up rp highLimb h) := by
    induction i generalizing up rp highLimb h with
    | zero => exact keepsLengths_put h
    | succ i ih =>
      exact (KeepsLengths.read h _).bind fun x => (keepsLengths_put h).bind fun g => ih _ _ _ g
  exact (KeepsLengths.read h _).bind fun x => (hloop _ _ _ _ h).bind fun g => .pure g rfl

/-- The array that `sqr_basecase` creates is not one of those below. -/
lemma keepsLengths_sqrBasecase {target targetOffset op1 op1Offset n : ℕ} (h : LimbHeap) :
    KeepsLengths fresh h id (sqrBasecase fresh target targetOffset op1 op1Offset n h) := by
  refine (KeepsLengths.read h _).bind fun x => (keepsLengths_put h).bind fun g =>
    (keepsLengths_put g).bind fun g => ?_
  split
  · refine KeepsLengths.trans (g := Function.update g fresh (List.replicate 128 0))
      (fun b hb => by rw [Function.update_of_ne hb.ne]; rfl) ?_
    generalize (Function.update g fresh (List.replicate 128 0) : LimbHeap) = e
    exact (KeepsLengths.read e _).bind fun vl => (keepsLengths_zipLoop e).bind fun r =>
      (keepsLengths_put r.2).bind fun g => (keepsLengths_sqrLoop g).bind fun g =>
      (keepsLengths_sqrDiagonal g).bind fun g => (keepsLengths_lshift g).bind fun r =>
      (keepsLengths_zipLoop r.2).bind fun s => (KeepsLengths.read s.2 _).bind fun x =>
      keepsLengths_put s.2
  · exact .some g

/-- **`kara_sqr_n`** leaves the lengths of the arrays alone, whatever it computes. -/
lemma keepsLengths_karaSqrN {depth target targetOffset op1 op1Offset n ws wsOffset : ℕ}
    (h : LimbHeap) : KeepsLengths fresh h id
      (karaSqrN fresh depth target targetOffset op1 op1Offset n ws wsOffset h) := by
  induction depth generalizing target targetOffset op1 op1Offset n ws wsOffset h with
  | zero => exact .none
  | succ depth ih =>
    have hpart {target targetOffset op1 op1Offset n ws wsOffset : ℕ} (h : LimbHeap) :
        KeepsLengths fresh h id
          (sqrPart fresh depth target targetOffset op1 op1Offset n ws wsOffset h) := by
      rw [sqrPart]
      split
      · exact keepsLengths_sqrBasecase h
      · exact ih h
    by_cases hodd : n % 2 = 1
    · obtain ⟨m, rfl⟩ : ∃ m, n = m + 1 + m := ⟨n / 2, by omega⟩
      have hrun : karaSqrN fresh (depth + 1) target targetOffset op1 op1Offset (m + 1 + m) ws
          wsOffset h = karaSqrOdd (sqrPart fresh depth) target targetOffset op1 op1Offset
            (m + 1 + m) ws wsOffset h := if_pos (by omega)
      rw [hrun, karaSqrOdd_eq]
      exact (keepsLengths_absDifferenceOdd h).bind fun r => (hpart r.2).bind fun g =>
        (hpart g).bind fun g => (hpart g).bind fun g => (keepsLengths_sqrMiddleOdd g).bind fun g =>
          keepsLengths_addMiddleOdd g
    · obtain ⟨m, rfl⟩ : ∃ m, n = m + m := ⟨n / 2, by omega⟩
      have hrun : karaSqrN fresh (depth + 1) target targetOffset op1 op1Offset (m + m) ws wsOffset
          h = karaSqrEven (sqrPart fresh depth) target targetOffset op1 op1Offset (m + m) ws
            wsOffset h := if_neg (by omega)
      rw [hrun, karaSqrEven_eq]
      exact (keepsLengths_absDifference h).bind fun r => (hpart r.2).bind fun g =>
        (hpart g).bind fun g => (hpart g).bind fun g => (keepsLengths_middleEven g).bind fun r =>
          keepsLengths_addMiddleEven r.2

end Lengths

section TooLong

variable {fresh target targetOffset op1 op1Offset ws wsOffset : ℕ} {h : LimbHeap}

/-- A loop that returns reads the second operand inside its array. -/
lemma zipLoop_reads {f : Natural32 → Natural32 → Natural32 → Natural32 × Natural32}
    {a b n i j k : ℕ} {c : Natural32} {r : Natural32 × LimbHeap}
    (hrun : zipLoop f target a b n i j k c h = some r) : n = 0 ∨ k + n ≤ (h b).length := by
  induction n generalizing i j k c h with
  | zero => exact Or.inl rfl
  | succ n ih =>
    obtain ⟨x, -, hrun⟩ := Option.bind_eq_some_iff.mp hrun
    obtain ⟨y, hy, hrun⟩ := Option.bind_eq_some_iff.mp hrun
    obtain ⟨g, hput, hrun⟩ := Option.bind_eq_some_iff.mp hrun
    have hk : k < (h b).length := (List.getElem?_eq_some_iff.mp hy).1
    have hlen : (g b).length = (h b).length :=
      keepsLengths_put h g hput b (Nat.lt_succ_self b)
    have := ih hrun
    omega

/-- The difference is not computed if the high part is not inside the array. -/
lemma absDifference_none {n2 n3 : ℕ} (hpos : 1 ≤ n2) (h₁ : (h op1).length < op1Offset + n3 + n2) :
    absDifference target targetOffset op1 op1Offset n2 n3 h = none := by
  obtain ⟨k, rfl⟩ : ∃ k, n2 = k + 1 := ⟨n2 - 1, by omega⟩
  have hnone : h.item op1 (op1Offset + n3 + k) = none := List.getElem?_eq_none (by omega)
  rw [absDifference, SpecialComparison.cmp, hnone]
  cases h.item op1 (op1Offset + k) <;> rfl

lemma absDifferenceOdd_none {n2 n3 : ℕ} (hpos : 1 ≤ n2)
    (h₁ : (h op1).length < op1Offset + n3 + n2) :
    absDifferenceOdd target targetOffset op1 op1Offset n2 n3 h = none := by
  rw [absDifferenceOdd]
  cases h.item op1 (op1Offset + n2) with
  | none => rfl
  | some w =>
    simp only [Option.bind_eq_bind, Option.bind_some, absDifference_none hpos h₁, Option.bind_none]
    split
    · cases hsub : subN target targetOffset op1 op1Offset op1 (op1Offset + n3) n2 h with
      | none => rfl
      | some r =>
        have := zipLoop_reads hsub
        omega
    · rfl

/-- **`kara_sqr_n`** reads its operand to the end. -/
lemma karaSqrN_none {depth n : ℕ} (hn : 2 ≤ n) (h₁ : (h op1).length < op1Offset + n) :
    karaSqrN fresh depth target targetOffset op1 op1Offset n ws wsOffset h = none := by
  cases depth with
  | zero => rfl
  | succ depth =>
    by_cases hodd : n % 2 = 1
    · obtain ⟨m, rfl⟩ : ∃ m, n = m + 1 + m := ⟨n / 2, by omega⟩
      have hrun : karaSqrN fresh (depth + 1) target targetOffset op1 op1Offset (m + 1 + m) ws
          wsOffset h = karaSqrOdd (sqrPart fresh depth) target targetOffset op1 op1Offset
            (m + 1 + m) ws wsOffset h := if_pos (by omega)
      rw [hrun, karaSqrOdd_eq, absDifferenceOdd_none (by omega) (by omega)]
      rfl
    · obtain ⟨m, rfl⟩ : ∃ m, n = m + m := ⟨n / 2, by omega⟩
      have hrun : karaSqrN fresh (depth + 1) target targetOffset op1 op1Offset (m + m) ws wsOffset
          h = karaSqrEven (sqrPart fresh depth) target targetOffset op1 op1Offset (m + m) ws
            wsOffset h := if_neg (by omega)
      rw [hrun, karaSqrEven_eq, absDifference_none (by omega) (by omega)]
      rfl

/-- **A high part of 64 limbs or more** is squared with a limb that the operand does not have. -/
lemma karaSqrN_odd_none {depth m : ℕ} (hm : 64 ≤ m) (hof : op1 < fresh)
    (h₁ : (h op1).length = op1Offset + (m + 1 + m)) :
    karaSqrN fresh depth target targetOffset op1 op1Offset (m + 1 + m) ws wsOffset h = none := by
  cases depth with
  | zero => rfl
  | succ depth =>
    have hstart : karaSqrN fresh (depth + 1) target targetOffset op1 op1Offset (m + 1 + m) ws
        wsOffset h = karaSqrOdd (sqrPart fresh depth) target targetOffset op1 op1Offset
          (m + 1 + m) ws wsOffset h := if_pos (by omega)
    have hlarge : ¬ m + 1 < 64 := by omega
    have hpart (target targetOffset op1 op1Offset ws wsOffset : ℕ) (h : LimbHeap) :
        sqrPart fresh depth target targetOffset op1 op1Offset (m + 1) ws wsOffset h =
          karaSqrN fresh depth target targetOffset op1 op1Offset (m + 1) ws wsOffset h :=
      if_neg hlarge
    by_contra hsome
    obtain ⟨h', hrun⟩ := Option.ne_none_iff_exists'.mp hsome
    rw [hstart, karaSqrOdd_eq, if_neg (show ¬ m < 64 by omega)] at hrun
    simp only [hpart] at hrun
    obtain ⟨r, hdiff, hrun⟩ := Option.bind_eq_some_iff.mp hrun
    obtain ⟨g₁, hsq, hrun⟩ := Option.bind_eq_some_iff.mp hrun
    obtain ⟨g₂, hlow, hrun⟩ := Option.bind_eq_some_iff.mp hrun
    obtain ⟨g₃, hhigh, -⟩ := Option.bind_eq_some_iff.mp hrun
    have hlen : (g₂ op1).length = (h op1).length :=
      ((keepsLengths_karaSqrN g₁ g₂ hlow op1 hof).trans
        (keepsLengths_karaSqrN r.2 g₁ hsq op1 hof)).trans
          (keepsLengths_absDifferenceOdd h r hdiff op1 hof)
    rw [karaSqrN_none (by omega) (by rw [hlen]; omega)] at hhigh
    cases hhigh

end TooLong

/-! ## The routine -/

section SqrN

variable {fresh target targetOffset op1 op1Offset n : ℕ} {h : LimbHeap}

/-- `sqr_n` returns and leaves the limbs of the product of the number with itself. -/
def WritesSquare (fresh target targetOffset op1 op1Offset n : ℕ) (h : LimbHeap) : Prop :=
  ∃ h' : LimbHeap, sqrN fresh target targetOffset op1 op1Offset n h = some h' ∧
    h'.segment target targetOffset (2 * n) =
      ofNat 32 (2 * n) (h.number op1 op1Offset n * h.number op1 op1Offset n)

/-- The arguments of `kara_sqr_n` when `sqr_n` calls it. -/
lemma operands_sqrN (htf : target < fresh) (hof : op1 < fresh)
    (ht : targetOffset + 2 * n ≤ (h target).length) (h₁ : op1Offset + n ≤ (h op1).length)
    (hd : Apart target targetOffset (2 * n) op1 op1Offset n) {w : ℕ} (hw : w ≤ 2 * n + 2 * 32) :
    Operands (Function.update h fresh (List.replicate (2 * n + 2 * 32) (0 : Natural32)) : LimbHeap)
        target targetOffset op1 op1Offset op1 op1Offset n fresh 0 w ∧
      LimbHeap.number (Function.update h fresh (List.replicate (2 * n + 2 * 32) 0)) op1 op1Offset
        n = h.number op1 op1Offset n := by
  have hapart {a i k j l : ℕ} (ha : a < fresh) : Apart fresh i k a j l := fun he => by omega
  refine ⟨⟨?_, ?_, ?_, ?_, hd, hd, (hapart htf).symm, hapart hof, hapart hof⟩, ?_⟩
  · rw [Function.update_of_ne htf.ne]
    exact ht
  · rw [Function.update_of_ne hof.ne]
    exact h₁
  · rw [Function.update_of_ne hof.ne]
    exact h₁
  · rw [Function.update_self, List.length_replicate, Nat.zero_add]
    exact hw
  · rw [LimbHeap.number, LimbHeap.number, Arrays.segment, Arrays.segment,
      Function.update_of_ne hof.ne]

/-- **`sqr_n`** squares if no carry is lost. -/
lemma sqrN_run (hn : 1 ≤ n) (htf : target < fresh) (hof : op1 < fresh)
    (ht : targetOffset + 2 * n ≤ (h target).length) (h₁ : op1Offset + n ≤ (h op1).length)
    (hd : Apart target targetOffset (2 * n) op1 op1Offset n)
    (hkept : CarriesKept n (h.number op1 op1Offset n)) :
    ∃ h' : LimbHeap, sqrN fresh target targetOffset op1 op1Offset n h = some h' ∧
      h'.number target targetOffset (2 * n) = h.number op1 op1Offset n ^ 2 ∧
      KeptBelow fresh (region target targetOffset (2 * n)) h h' := by
  by_cases hsmall : n < 64
  · obtain ⟨h', hrun, hval, hkeep⟩ := sqrBasecase_run hn hsmall
      (htf.trans (Nat.lt_succ_self fresh)) (hof.trans (Nat.lt_succ_self _)) ht h₁ hd
    exact ⟨h', by rw [sqrN, if_pos hsmall, hrun], hval, hkeep.lower (Nat.le_succ _)⟩
  · obtain ⟨hops, hnum⟩ := operands_sqrN htf hof ht h₁ hd (show 2 * n ≤ 2 * n + 2 * 32 by omega)
    obtain ⟨h', hrun, hval, hkeep⟩ := karaSqrN_run (not_lt.mp hsmall) le_rfl
      hkept target targetOffset op1 op1Offset fresh 0 _ (htf.trans (Nat.lt_succ_self fresh))
      (hof.trans (Nat.lt_succ_self _)) (Nat.lt_succ_self _) hops hnum
    refine ⟨h', by rw [sqrN, if_neg hsmall]; exact hrun, hval, ?_⟩
    refine (keptBelow_update le_rfl _ h _).trans ((hkeep.lower (Nat.le_succ _)).mono ?_)
    intro b hb k hk
    rcases hk with hk | hk
    · exact hk
    · exact absurd hk.1 hb.ne

/-- For an odd number of limbs, `sqr_n` squares only if no carry is lost. -/
lemma sqrN_ne (hn : 1 ≤ n) (htf : target < fresh) (hof : op1 < fresh)
    (ht : targetOffset + 2 * n ≤ (h target).length) (h₁ : op1Offset + n ≤ (h op1).length)
    (hd : Apart target targetOffset (2 * n) op1 op1Offset n) (hodd : n % 2 = 1)
    (hlong : n < 128 ∨ (h op1).length = op1Offset + n)
    (hlost : ¬ CarriesKept n (h.number op1 op1Offset n)) {h' : LimbHeap}
    (hrun : sqrN fresh target targetOffset op1 op1Offset n h = some h') :
    h'.number target targetOffset (2 * n) ≠ h.number op1 op1Offset n ^ 2 := by
  have hlarge : ¬ n < 64 := fun hlt => hlost (carriesKept_of_lt hlt _)
  obtain ⟨m, rfl⟩ : ∃ m, n = m + 1 + m := ⟨n / 2, by omega⟩
  obtain ⟨hops, hnum⟩ := operands_sqrN htf hof ht h₁ hd
    (show 2 * (m + 1) + 64 ≤ 2 * (m + 1 + m) + 2 * 32 by omega)
  rw [sqrN, if_neg hlarge] at hrun
  by_cases hsize : m < 64
  · have hhalf : m + 1 + m - (m + 1 + m) / 2 = m + 1 := by omega
    have hlast : m + 1 + m - 1 = 2 * m := by omega
    rw [carriesKept_odd_iff (not_lt.mp hlarge) hodd, hhalf, hlast, not_and] at hlost
    obtain ⟨depth, hdepth⟩ : ∃ depth, m + 1 + m = depth + 2 := ⟨m + 1 + m - 2, by omega⟩
    have hlevel : karaSqrN (fresh + 1) (m + 1 + m) target targetOffset op1 op1Offset (m + 1 + m)
        fresh 0 (Function.update h fresh (List.replicate (2 * (m + 1 + m) + 2 * 32) 0)) =
          karaSqrOdd (sqrPart (fresh + 1) (depth + 1)) target targetOffset op1 op1Offset (m + 1 + m)
            fresh 0 (Function.update h fresh (List.replicate (2 * (m + 1 + m) + 2 * 32) 0)) := by
      nth_rewrite 1 [hdepth]
      exact if_pos (by omega)
    rw [hlevel] at hrun
    exact karaSqrOdd_wrong (by omega) hsize (squares_of_le (by omega) (by omega))
      (squares_of_le (by omega) (by omega)) (squares_of_le (by omega) (by omega))
      (hlost (by omega)) (htf.trans (Nat.lt_succ_self _)) (hof.trans (Nat.lt_succ_self _))
      (Nat.lt_succ_self _) hops hnum hrun
  · have hexact : (h op1).length = op1Offset + (m + 1 + m) := by omega
    rw [karaSqrN_odd_none (not_lt.mp hsize) (hof.trans (Nat.lt_succ_self _))
      (by rw [Function.update_of_ne hof.ne]; exact hexact)] at hrun
    cases hrun

/-- The square has room in the limbs of the target. -/
lemma number_sq_lt (h₁ : op1Offset + n ≤ (h op1).length) :
    h.number op1 op1Offset n * h.number op1 op1Offset n < (2 ^ 32) ^ (2 * n) := by
  rw [Nat.two_mul, pow_add]
  exact Nat.mul_lt_mul'' (h.number_lt h₁) (h.number_lt h₁)

/-- For an odd number of limbs, `sqr_n` writes the square only if no carry is lost. -/
lemma WritesSquare.carriesKept (hsquare : WritesSquare fresh target targetOffset op1 op1Offset n h)
    (hn : 1 ≤ n) (htf : target < fresh) (hof : op1 < fresh)
    (ht : targetOffset + 2 * n ≤ (h target).length) (h₁ : op1Offset + n ≤ (h op1).length)
    (hd : Apart target targetOffset (2 * n) op1 op1Offset n) (hodd : n % 2 = 1)
    (hlong : n < 128 ∨ (h op1).length = op1Offset + n) :
    CarriesKept n (h.number op1 op1Offset n) := by
  obtain ⟨h', hrun, hseg⟩ := hsquare
  by_contra hlost
  refine sqrN_ne hn htf hof ht h₁ hd hodd hlong hlost hrun ?_
  rw [Nat.pow_two, ← value_ofNat_of_lt (number_sq_lt h₁), ← hseg]
  rfl

/-- **`sqr_n`** writes the square of a number if no call in the recursion loses a carry or squares a
high part with a limb too many. For an odd number of limbs this is the only case in which it does;
from 129 limbs on it reads behind the number, which is taken to end its array there.

**Proof sketch.** By induction over the levels of the recursion, as for `kara_mul_n`. Where a carry
is lost the result differs from the square by an odd multiple of the weight of the carry. -/
theorem writesSquare_iff (fresh target targetOffset op1 op1Offset n : ℕ) (h : LimbHeap)
    (hn : 1 ≤ n) (htf : target < fresh) (hof : op1 < fresh)
    (ht : targetOffset + 2 * n ≤ (h target).length) (h₁ : op1Offset + n ≤ (h op1).length)
    (hd : Apart target targetOffset (2 * n) op1 op1Offset n) :
    (CarriesKept n (h.number op1 op1Offset n) →
      WritesSquare fresh target targetOffset op1 op1Offset n h) ∧
    (n % 2 = 1 → n < 128 ∨ (h op1).length = op1Offset + n →
      (WritesSquare fresh target targetOffset op1 op1Offset n h ↔
        CarriesKept n (h.number op1 op1Offset n))) := by
  have hwrites (hkept : CarriesKept n (h.number op1 op1Offset n)) :
      WritesSquare fresh target targetOffset op1 op1Offset n h := by
    obtain ⟨h', hrun, hval, hkeep⟩ := sqrN_run hn htf hof ht h₁ hd hkept
    have hlen : (h'.segment target targetOffset (2 * n)).length = 2 * n :=
      length_segment (by rw [hkeep.length target htf]; exact ht)
    refine ⟨h', hrun, value_injective (by rw [hlen, length_ofNat]) ?_⟩
    rw [value_ofNat_of_lt (number_sq_lt h₁), ← Nat.pow_two, ← hval]
    rfl
  exact ⟨hwrites, fun hodd hlong =>
    ⟨fun hsquare => hsquare.carriesKept hn htf hof ht h₁ hd hodd hlong, hwrites⟩⟩

/-- The square of the number 5 in 65 limbs. -/
theorem writesSquare_five :
    WritesSquare 2 0 0 1 0 65
      (fun a => if a = 0 then List.replicate 130 0 else 5 :: List.replicate 64 0) := by
  refine (writesSquare_iff 2 0 0 1 0 65 _ (by decide) (by decide) (by decide)
    (by decide +kernel) (by decide +kernel) (fun he => absurd he (by decide))).1 ?_
  rw [carriesKept_odd_iff (by decide) (by decide)]
  decide +kernel

/-- The square of `2 ^ 2048`, whose low part is zero, is not written. -/
theorem not_writesSquare_two_pow :
    ¬ ∀ (fresh target targetOffset op1 op1Offset n : ℕ) (h : LimbHeap), 1 ≤ n → target < fresh →
      op1 < fresh → targetOffset + 2 * n ≤ (h target).length → op1Offset + n ≤ (h op1).length →
      Apart target targetOffset (2 * n) op1 op1Offset n →
      WritesSquare fresh target targetOffset op1 op1Offset n h := by
  intro hall
  have hsquare := hall 2 0 0 1 0 65
    (fun a => if a = 0 then List.replicate 130 0 else List.replicate 64 0 ++ [1]) (by decide)
    (by decide) (by decide) (by decide +kernel) (by decide +kernel)
    (fun he => absurd he (by decide))
  have hkept := hsquare.carriesKept (by decide) (by decide) (by decide) (by decide +kernel)
    (by decide +kernel) (fun he => absurd he (by decide)) (by decide) (Or.inl (by decide))
  rw [carriesKept_odd_iff (by decide) (by decide)] at hkept
  revert hkept
  decide +kernel

end SqrN

end SpecialArithmetic

end EiffelWeb
