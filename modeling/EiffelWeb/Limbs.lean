import Mathlib.Data.Nat.Notation
import Mathlib.Tactic.Common
import Mathlib.Tactic.Linarith
import Mathlib.Tactic.Ring

set_option relaxedAutoImplicit false
set_option autoImplicit false

/-!
# Numbers as lists of limbs

A natural number is held as a list of machine words, the least significant first. A list of `n`
words has a value below the `n`-th power of the base, and every such value has exactly one list.

The routines of long arithmetic go through one or two lists from the low end and hand a carry on
from word to word. `zipCarry` is such a pass with an arbitrary step; what the step does to a pair of
words, the pass does to the two numbers.

## Main definitions

* `Limbs.value` — the number a list stands for.
* `Limbs.ofNat` — the list of a given length for a number, reduced to that length.
* `Limbs.zipCarry` — a pass over two lists with a carry.
* `Limbs.diagonal`, `Limbs.offDiagonal` — the two parts of a square.

## Main results

* `Limbs.value_ofNat`, `Limbs.ofNat_value` — the two are inverse to each other.
* `Limbs.value_append`, `Limbs.ofNat_add` — lists one behind the other.
* `Limbs.testBit_value` — the bits of a number.
* `Limbs.value_zipWith_xor` — the exclusive disjunction of two numbers.
* `Limbs.eq_ofNat_of_value` — a list is known from its value and the carry.
* `Limbs.value_zipCarry`, `Limbs.value_zipBorrow` — what a pass computes.
* `Limbs.zipCarry_eq`, `Limbs.zipBorrow_eq` — the list and the carry of a pass.
* `Limbs.value_sq` — a square from the squares of the words and the products of different words.
-/

namespace Limbs

variable {w : ℕ}

/-- The number that a list of words stands for, the least significant word first. -/
def value : List (BitVec w) → ℕ
  | [] => 0
  | d :: a => d.toNat + 2 ^ w * value a

/-- The `n` low words of a number. -/
def ofNat (w : ℕ) : ℕ → ℕ → List (BitVec w)
  | 0, _ => []
  | n + 1, v => BitVec.ofNat w v :: ofNat w n (v / 2 ^ w)

@[simp] lemma value_nil : value ([] : List (BitVec w)) = 0 := rfl

@[simp] lemma value_cons (d : BitVec w) (a : List (BitVec w)) :
    value (d :: a) = d.toNat + 2 ^ w * value a := rfl

@[simp] lemma length_ofNat (n v : ℕ) : (ofNat w n v).length = n := by
  induction n generalizing v with
  | zero => rfl
  | succ n ih => rw [ofNat, List.length_cons, ih]

lemma value_lt (a : List (BitVec w)) : value a < (2 ^ w) ^ a.length := by
  induction a with
  | nil => simp
  | cons d a ih =>
    have hd := d.isLt
    rw [value_cons, List.length_cons, pow_succ']
    calc d.toNat + 2 ^ w * value a < 2 ^ w + 2 ^ w * value a := Nat.add_lt_add_right hd _
      _ = 2 ^ w * (value a + 1) := by ring
      _ ≤ 2 ^ w * (2 ^ w) ^ a.length := Nat.mul_le_mul_left _ ih

lemma value_append (a b : List (BitVec w)) :
    value (a ++ b) = value a + (2 ^ w) ^ a.length * value b := by
  induction a with
  | nil => simp
  | cons d a ih =>
    rw [List.cons_append, value_cons, value_cons, ih, List.length_cons]
    ring

@[simp] lemma value_singleton (d : BitVec w) : value [d] = d.toNat := by simp

@[simp] lemma value_replicate_zero (n : ℕ) : value (List.replicate n (0 : BitVec w)) = 0 := by
  induction n with
  | zero => rfl
  | succ n ih =>
    rw [List.replicate_succ, value_cons, ih]
    simp

/-- The words of a number stand for it, reduced to their length. -/
lemma value_ofNat (n v : ℕ) : value (ofNat w n v) = v % (2 ^ w) ^ n := by
  induction n generalizing v with
  | zero => simp [ofNat, Nat.mod_one]
  | succ n ih =>
    rw [ofNat, value_cons, ih, BitVec.toNat_ofNat, pow_succ', Nat.mod_mul]

lemma value_ofNat_of_lt {n v : ℕ} (h : v < (2 ^ w) ^ n) : value (ofNat w n v) = v := by
  rw [value_ofNat, Nat.mod_eq_of_lt h]

/-- A word that is not zero is its weight at least. -/
lemma pow_le_mul_toNat {x : BitVec w} (hx : x ≠ 0) (n : ℕ) :
    (2 ^ w) ^ n ≤ (2 ^ w) ^ n * x.toNat :=
  Nat.le_mul_of_pos_right _ (BitVec.toNat_pos_of_ne_zero hx)

/-- A list is the words of the number it stands for. -/
lemma ofNat_value (a : List (BitVec w)) : ofNat w a.length (value a) = a := by
  induction a with
  | nil => rfl
  | cons d a ih =>
    have hdiv : value (d :: a) / 2 ^ w = value a := by
      rw [value_cons, Nat.add_mul_div_left _ _ (Nat.two_pow_pos w), Nat.div_eq_of_lt d.isLt,
        Nat.zero_add]
    have hmod : BitVec.ofNat w (value (d :: a)) = d := by
      apply BitVec.eq_of_toNat_eq
      rw [BitVec.toNat_ofNat, value_cons, Nat.add_mul_mod_self_left, Nat.mod_eq_of_lt d.isLt]
    rw [List.length_cons, ofNat, hdiv, hmod, ih]

/-- Lists of the same length are known from their values. -/
lemma value_injective {a b : List (BitVec w)} (hlen : a.length = b.length)
    (h : value a = value b) : a = b := by
  rw [← ofNat_value a, ← ofNat_value b, hlen, h]

/-- A bit of a number is a bit of one of its words. -/
lemma testBit_value (hw : 0 < w) (a : List (BitVec w)) (i : ℕ) :
    (value a).testBit i = (a.getD (i / w) 0).getLsbD (i % w) := by
  induction a generalizing i with
  | nil => simp
  | cons d a ih =>
    rw [value_cons, Nat.add_comm, Nat.testBit_two_pow_mul_add _ d.isLt]
    by_cases hi : i < w
    · rw [if_pos hi, Nat.div_eq_of_lt hi, Nat.mod_eq_of_lt hi]
      rfl
    · have hdiv : i / w = (i - w) / w + 1 := Nat.div_eq_sub_div hw (not_lt.mp hi)
      have hmod : (i - w) % w = i % w := (Nat.mod_eq_sub_mod (not_lt.mp hi)).symm
      rw [if_neg hi, ih, hdiv, hmod, List.getD_cons_succ]

/-- The exclusive disjunction of two numbers in two parts each. -/
lemma xor_add_mul {u v p : ℕ} (hu : u < 2 ^ p) (hv : v < 2 ^ p) (a b : ℕ) :
    (u + 2 ^ p * a) ^^^ (v + 2 ^ p * b) = (u ^^^ v) + 2 ^ p * (a ^^^ b) := by
  apply Nat.eq_of_testBit_eq
  intro i
  rw [Nat.testBit_xor, Nat.add_comm u, Nat.add_comm v, Nat.add_comm (u ^^^ v),
    Nat.testBit_two_pow_mul_add _ hu, Nat.testBit_two_pow_mul_add _ hv,
    Nat.testBit_two_pow_mul_add _ (Nat.xor_lt_two_pow hu hv)]
  split
  · rw [Nat.testBit_xor]
  · rw [Nat.testBit_xor]

/-- Word by word, the exclusive disjunction is that of the numbers. -/
lemma value_zipWith_xor {a b : List (BitVec w)} (h : a.length = b.length) :
    value (List.zipWith (· ^^^ ·) a b) = value a ^^^ value b := by
  induction a generalizing b with
  | nil =>
    obtain rfl : b = [] := List.length_eq_zero_iff.mp h.symm
    rw [List.zipWith_nil_left, value_nil, Nat.xor_self]
  | cons u a ih =>
    obtain ⟨v, b, rfl⟩ : ∃ v b', b = v :: b' := List.exists_cons_of_length_eq_add_one h.symm
    rw [List.zipWith_cons_cons, value_cons, value_cons, value_cons, ih (by simpa using h),
      xor_add_mul u.isLt v.isLt, BitVec.toNat_xor]

/-- The low words of a number, and those of the rest of it. -/
lemma ofNat_add (m n v : ℕ) :
    ofNat w (m + n) v = ofNat w m v ++ ofNat w n (v / (2 ^ w) ^ m) := by
  induction m generalizing v with
  | zero => simp [ofNat]
  | succ m ih =>
    rw [Nat.succ_add, ofNat, ofNat, ih, List.cons_append, Nat.div_div_eq_div_mul, pow_succ']

/-- A list is known from its value and a carry of the next higher weight. -/
lemma eq_ofNat_of_value {a : List (BitVec w)} {v c : ℕ}
    (h : value a + (2 ^ w) ^ a.length * c = v) :
    a = ofNat w a.length v ∧ c = v / (2 ^ w) ^ a.length := by
  have hlt := value_lt a
  have hpos : 0 < (2 ^ w) ^ a.length := Nat.pow_pos (Nat.two_pow_pos w)
  constructor
  · refine value_injective (by rw [length_ofNat]) ?_
    rw [value_ofNat, ← h, Nat.add_mul_mod_self_left, Nat.mod_eq_of_lt hlt]
  · rw [← h, Nat.add_mul_div_left _ _ hpos, Nat.div_eq_of_lt hlt, Nat.zero_add]

/-- Nothing changes if a multiple of the next higher weight is added. -/
lemma ofNat_add_mul (n v k : ℕ) : ofNat w n (v + (2 ^ w) ^ n * k) = ofNat w n v := by
  refine value_injective (by rw [length_ofNat, length_ofNat]) ?_
  rw [value_ofNat, value_ofNat, Nat.add_mul_mod_self_left]

@[simp] lemma ofNat_zero_right (n : ℕ) : ofNat w n 0 = List.replicate n 0 := by
  refine value_injective (by rw [length_ofNat, List.length_replicate]) ?_
  rw [value_ofNat, value_replicate_zero, Nat.zero_mod]

/-! ## Passes with a carry -/

section Pass

variable {α σ : Type*}

/-- A pass over two lists: each pair of items and the carry give an item and the next carry. -/
def zipCarry (f : σ → α → α → α × σ) : σ → List α → List α → List α × σ
  | c, u :: a, v :: b =>
    ((f c u v).1 :: (zipCarry f (f c u v).2 a b).1, (zipCarry f (f c u v).2 a b).2)
  | c, _, _ => ([], c)

lemma length_zipCarry (f : σ → α → α → α × σ) (c : σ) {a b : List α} (h : a.length = b.length) :
    (zipCarry f c a b).1.length = a.length := by
  induction a generalizing b c with
  | nil => rfl
  | cons u a ih =>
    obtain ⟨v, b, rfl⟩ : ∃ v b', b = v :: b' := List.exists_cons_of_length_eq_add_one h.symm
    rw [zipCarry, List.length_cons, List.length_cons, ih _ (by simpa using h)]

/-- The sum of a function of two words, each pair with its weight. -/
def weigh (g : BitVec w → BitVec w → ℕ) : List (BitVec w) → List (BitVec w) → ℕ
  | u :: a, v :: b => g u v + 2 ^ w * weigh g a b
  | _, _ => 0

lemma weigh_add {a b : List (BitVec w)} (h : a.length = b.length) :
    weigh (fun u v => u.toNat + v.toNat) a b = value a + value b := by
  induction a generalizing b with
  | nil =>
    obtain rfl : b = [] := List.length_eq_zero_iff.mp h.symm
    rfl
  | cons u a ih =>
    obtain ⟨v, b, rfl⟩ : ∃ v b', b = v :: b' := List.exists_cons_of_length_eq_add_one h.symm
    rw [weigh, ih (by simpa using h), value_cons, value_cons]
    ring

/-- A multiple of the second list on top of the first one. -/
lemma weigh_add_mul (m : ℕ) {a b : List (BitVec w)} (h : a.length = b.length) :
    weigh (fun u v => u.toNat + v.toNat * m) a b = value a + value b * m := by
  induction a generalizing b with
  | nil =>
    obtain rfl : b = [] := List.length_eq_zero_iff.mp h.symm
    simp [weigh]
  | cons u a ih =>
    obtain ⟨v, b, rfl⟩ : ∃ v b', b = v :: b' := List.exists_cons_of_length_eq_add_one h.symm
    rw [weigh, ih (by simpa using h), value_cons, value_cons]
    ring

/-- A multiple of the first list. -/
lemma weigh_mul (m : ℕ) {a b : List (BitVec w)} (h : a.length = b.length) :
    weigh (fun u _ => u.toNat * m) a b = value a * m := by
  induction a generalizing b with
  | nil => simp [weigh]
  | cons u a ih =>
    obtain ⟨v, b, rfl⟩ : ∃ v b', b = v :: b' := List.exists_cons_of_length_eq_add_one h.symm
    rw [weigh, ih (by simpa using h), value_cons]
    ring

variable {f : BitVec w → BitVec w → BitVec w → BitVec w × BitVec w}

/-- **A pass with a carry** computes on numbers what its step computes on words, for carries that
satisfy `P`.

**Proof sketch.** Induction on the lists. The step accounts for the first pair and hands on a carry
of the weight of the second pair, where the induction hypothesis takes it over. -/
lemma value_zipCarry {g : BitVec w → BitVec w → ℕ} {P : BitVec w → Prop}
    (hf : ∀ c u v, P c → P (f c u v).2 ∧
      (f c u v).1.toNat + 2 ^ w * (f c u v).2.toNat = g u v + c.toNat)
    {a b : List (BitVec w)} (h : a.length = b.length) {c : BitVec w} (hc : P c) :
    P (zipCarry f c a b).2 ∧
      value (zipCarry f c a b).1 + (2 ^ w) ^ a.length * (zipCarry f c a b).2.toNat =
        weigh g a b + c.toNat := by
  induction a generalizing b c with
  | nil => exact ⟨hc, by simp [zipCarry, weigh]⟩
  | cons u a ih =>
    obtain ⟨v, b, rfl⟩ : ∃ v b', b = v :: b' := List.exists_cons_of_length_eq_add_one h.symm
    obtain ⟨hP, hstep⟩ := hf c u v hc
    obtain ⟨hP', hrest⟩ := ih (b := b) (by simpa using h) hP
    refine ⟨hP', ?_⟩
    rw [zipCarry, value_cons, weigh, List.length_cons, pow_succ']
    calc (f c u v).1.toNat + 2 ^ w * value (zipCarry f (f c u v).2 a b).1 +
          2 ^ w * (2 ^ w) ^ a.length * (zipCarry f (f c u v).2 a b).2.toNat
        = (f c u v).1.toNat + 2 ^ w * (value (zipCarry f (f c u v).2 a b).1 +
          (2 ^ w) ^ a.length * (zipCarry f (f c u v).2 a b).2.toNat) := by ring
      _ = ((f c u v).1.toNat + 2 ^ w * (f c u v).2.toNat) + 2 ^ w * weigh g a b := by
        rw [hrest]
        ring
      _ = g u v + 2 ^ w * weigh g a b + c.toNat := by
        rw [hstep]
        ring

/-- The list and the carry of a pass with a carry. -/
lemma zipCarry_eq {g : BitVec w → BitVec w → ℕ} {P : BitVec w → Prop}
    (hf : ∀ c u v, P c → P (f c u v).2 ∧
      (f c u v).1.toNat + 2 ^ w * (f c u v).2.toNat = g u v + c.toNat)
    {a b : List (BitVec w)} (h : a.length = b.length) {c : BitVec w} (hc : P c) :
    zipCarry f c a b = (ofNat w a.length (weigh g a b + c.toNat),
      BitVec.ofNat w ((weigh g a b + c.toNat) / (2 ^ w) ^ a.length)) := by
  obtain ⟨-, hv⟩ := value_zipCarry hf h hc
  rw [← length_zipCarry f c h] at hv
  obtain ⟨hout, hcarry⟩ := eq_ofNat_of_value hv
  rw [length_zipCarry f c h] at hout hcarry
  rw [← hcarry, BitVec.ofNat_toNat, BitVec.setWidth_eq, ← hout]

/-- **A pass with a borrow**: what the second words, weighed by `g`, take away from the first
ones. -/
lemma value_zipBorrow {g : BitVec w → BitVec w → ℕ} {P : BitVec w → Prop}
    (hf : ∀ c u v, P c → P (f c u v).2 ∧
      (f c u v).1.toNat + g u v + c.toNat = u.toNat + 2 ^ w * (f c u v).2.toNat)
    {a b : List (BitVec w)} (h : a.length = b.length) {c : BitVec w} (hc : P c) :
    P (zipCarry f c a b).2 ∧
      value (zipCarry f c a b).1 + weigh g a b + c.toNat =
        value a + (2 ^ w) ^ a.length * (zipCarry f c a b).2.toNat := by
  induction a generalizing b c with
  | nil => exact ⟨hc, by simp [zipCarry, weigh]⟩
  | cons u a ih =>
    obtain ⟨v, b, rfl⟩ : ∃ v b', b = v :: b' := List.exists_cons_of_length_eq_add_one h.symm
    obtain ⟨hP, hstep⟩ := hf c u v hc
    obtain ⟨hP', hrest⟩ := ih (b := b) (by simpa using h) hP
    refine ⟨hP', ?_⟩
    rw [zipCarry, value_cons, value_cons, weigh, List.length_cons, pow_succ']
    calc (f c u v).1.toNat + 2 ^ w * value (zipCarry f (f c u v).2 a b).1 +
          (g u v + 2 ^ w * weigh g a b) + c.toNat
        = ((f c u v).1.toNat + g u v + c.toNat) +
          2 ^ w * (value (zipCarry f (f c u v).2 a b).1 + weigh g a b) := by ring
      _ = u.toNat + 2 ^ w * (value (zipCarry f (f c u v).2 a b).1 + weigh g a b +
          (f c u v).2.toNat) := by
        rw [hstep]
        ring
      _ = u.toNat + 2 ^ w * value a + 2 ^ w * (2 ^ w) ^ a.length *
          (zipCarry f (f c u v).2 a b).2.toNat := by
        rw [hrest]
        ring

/-- The list and the borrow of a pass whose borrow is zero or one. -/
lemma zipBorrow_eq {g : BitVec w → BitVec w → ℕ}
    (hf : ∀ c u v, c.toNat ≤ 1 → (f c u v).2.toNat ≤ 1 ∧
      (f c u v).1.toNat + g u v + c.toNat = u.toNat + 2 ^ w * (f c u v).2.toNat)
    {a b : List (BitVec w)} (h : a.length = b.length) {c : BitVec w} (hc : c.toNat ≤ 1) :
    zipCarry f c a b =
      (ofNat w a.length (value a + (2 ^ w) ^ a.length - (weigh g a b + c.toNat)),
        BitVec.ofNat w (if value a < weigh g a b + c.toNat then 1 else 0)) := by
  obtain ⟨hle, hv⟩ := value_zipBorrow (P := fun c => c.toNat ≤ 1) hf h hc
  have hlt := value_lt (zipCarry f c a b).1
  rw [length_zipCarry f c h] at hlt
  have hlta := value_lt a
  set out := (zipCarry f c a b).1 with hout
  set borrow := (zipCarry f c a b).2 with hborrow
  have hlen : out.length = a.length := length_zipCarry f c h
  have hpair : zipCarry f c a b = (out, borrow) := rfl
  rw [hpair]
  rcases Nat.le_one_iff_eq_zero_or_eq_one.mp hle with h₀ | h₁
  · rw [h₀, Nat.mul_zero, Nat.add_zero] at hv
    have hval : value a + (2 ^ w) ^ a.length - (weigh g a b + c.toNat) =
        value out + (2 ^ w) ^ a.length * 1 := by omega
    rw [if_neg (by omega), hval, ofNat_add_mul, ← hlen, ofNat_value]
    exact congrArg (Prod.mk out) (BitVec.eq_of_toNat_eq (by rw [h₀]; simp))
  · rw [h₁, Nat.mul_one] at hv
    have hval : value a + (2 ^ w) ^ a.length - (weigh g a b + c.toNat) = value out := by omega
    rw [if_pos (by omega), hval, ← hlen, ofNat_value]
    refine congrArg (Prod.mk out) (BitVec.eq_of_toNat_eq ?_)
    rw [h₁, BitVec.toNat_ofNat]
    have := borrow.isLt
    exact (Nat.mod_eq_of_lt (by omega)).symm

lemma weigh_right {a b : List (BitVec w)} (h : a.length = b.length) :
    weigh (fun _ v => v.toNat) a b = value b := by
  induction a generalizing b with
  | nil =>
    obtain rfl : b = [] := List.length_eq_zero_iff.mp h.symm
    rfl
  | cons u a ih =>
    obtain ⟨v, b, rfl⟩ : ∃ v b', b = v :: b' := List.exists_cons_of_length_eq_add_one h.symm
    rw [weigh, ih (by simpa using h), value_cons]

end Pass

/-! ## Squares -/

/-- The squares of the words, each at its place in the square of the number. -/
def diagonal : List (BitVec w) → ℕ
  | [] => 0
  | d :: a => d.toNat ^ 2 + (2 ^ w) ^ 2 * diagonal a

/-- The products of two different words, in the square of the number without the lowest place. -/
def offDiagonal : List (BitVec w) → ℕ
  | [] => 0
  | d :: a => d.toNat * value a + (2 ^ w) ^ 2 * offDiagonal a

@[simp] lemma diagonal_nil : diagonal ([] : List (BitVec w)) = 0 := rfl

@[simp] lemma diagonal_cons (d : BitVec w) (a : List (BitVec w)) :
    diagonal (d :: a) = d.toNat ^ 2 + (2 ^ w) ^ 2 * diagonal a := rfl

@[simp] lemma offDiagonal_nil : offDiagonal ([] : List (BitVec w)) = 0 := rfl

@[simp] lemma offDiagonal_cons (d : BitVec w) (a : List (BitVec w)) :
    offDiagonal (d :: a) = d.toNat * value a + (2 ^ w) ^ 2 * offDiagonal a := rfl

/-- **A square** from the squares of the words and the products of different words. -/
lemma value_sq (a : List (BitVec w)) :
    value a ^ 2 = diagonal a + 2 ^ w * (2 * offDiagonal a) := by
  induction a with
  | nil => rfl
  | cons d a ih =>
    calc value (d :: a) ^ 2
        = d.toNat ^ 2 + 2 ^ w * (2 * (d.toNat * value a)) + (2 ^ w) ^ 2 * value a ^ 2 := by
          rw [value_cons]
          ring
      _ = diagonal (d :: a) + 2 ^ w * (2 * offDiagonal (d :: a)) := by
          rw [ih, diagonal_cons, offDiagonal_cons]
          ring

end Limbs
