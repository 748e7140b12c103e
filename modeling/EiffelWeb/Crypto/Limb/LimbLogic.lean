import Mathlib.Data.Nat.Bitwise
import EiffelWeb.Crypto.Limb.IntegerXObject
import EiffelWeb.Crypto.Limb.SpecialProduct

set_option relaxedAutoImplicit false
set_option autoImplicit false

/-!
# Logical operations limb by limb

The routines of `INTEGER_X_LOGIC` combine the limbs of two arrays from the high end down, with an
operation on limbs that acts on each bit. Where one array is longer, its high limbs are copied
before. A search from the high end finds the number of limbs that the result needs.

## Main definitions

* `SpecialLogic.ActsOnBits` — an operation on limbs that combines the bits with the same index.
* `SpecialLogic.limbwise` — the loop over the limbs of two arrays.
* `SpecialLogic.combine` — the loop after a copy of the high limbs.
* `SpecialLogic.scan` — the search for the highest limb that is not zero.

## Main results

* `SpecialLogic.limbwise_run`, `SpecialLogic.limbwise_behind`, `SpecialLogic.combine_run`,
  `SpecialLogic.scan_eq`
-/

namespace EiffelWeb

open Limbs Arrays

namespace SpecialLogic

/-- The loop over the limbs below index `i + 1`, from the high end down. -/
def limbwise (f : Natural32 → Natural32 → Natural32) (rp p q : ℕ) : ℕ → LimbHeap → Option LimbHeap
  | 0, h => some h
  | i + 1, h => do
    let x ← h.item p i
    let y ← h.item q i
    let h ← h.put rp i (f x y)
    limbwise f rp p q i h

/-- The high limbs of the longer array, which is the one with `n` limbs if `first` holds, are
copied, and the other limbs are combined. -/
def combine (f : Natural32 → Natural32 → Natural32) (rp p n q k : ℕ) (first : Prop)
    [Decidable first] (h : LimbHeap) : Option LimbHeap :=
  if first then (h.copyData rp p k k (n - k)).bind (limbwise f rp p q k)
  else (h.copyData rp q n n (k - n)).bind (limbwise f rp p q n)

/-- The search for a limb that is not zero, over the limbs below index `i + 1`, from the high end
down. The number of limbs up to it is returned. -/
def scan (f : Natural32 → Natural32 → Natural32) (p q : ℕ) : ℕ → LimbHeap → Option ℕ
  | 0, _ => some 0
  | i + 1, h =>
    (h.item p i).bind fun x =>
      (h.item q i).bind fun y => if f x y ≠ 0 then some (i + 1) else scan f p q i h

/-- The operation `f` on limbs combines the bits with the same index by `b`. -/
structure ActsOnBits (f : Natural32 → Natural32 → Natural32) (b : Bool → Bool → Bool) : Prop where
  /-- Two bits that are not set make one that is not set. -/
  zero : b false false = false
  /-- The bits of the result. -/
  bit : ∀ x y : Natural32, ∀ i < 32, (f x y).getLsbD i = b (x.getLsbD i) (y.getLsbD i)

section Operations

lemma actsOnBits_xor : ActsOnBits (· ^^^ ·) (· ^^ ·) :=
  ⟨rfl, fun _ _ _ _ => BitVec.getLsbD_xor⟩

lemma actsOnBits_or : ActsOnBits (· ||| ·) (· || ·) := ⟨rfl, fun _ _ _ _ => BitVec.getLsbD_or⟩

lemma actsOnBits_and : ActsOnBits (· &&& ·) (· && ·) := ⟨rfl, fun _ _ _ _ => BitVec.getLsbD_and⟩

lemma actsOnBits_andNot : ActsOnBits (fun x y => x &&& ~~~y) (fun x y => x && !y) :=
  ⟨rfl, fun x y i hi => by simp [hi]⟩

lemma actsOnBits_notAnd : ActsOnBits (fun x y => ~~~x &&& y) (fun x y => !x && y) :=
  ⟨rfl, fun x y i hi => by simp [hi]⟩

end Operations

section Run

variable {f : Natural32 → Natural32 → Natural32} {b : Bool → Bool → Bool} (hf : ActsOnBits f b)
  {rp p q : ℕ} {h : LimbHeap}

include hf

lemma ActsOnBits.toNat (x y : Natural32) : (f x y).toNat = Nat.bitwise b x.toNat y.toNat := by
  apply Nat.eq_of_testBit_eq
  intro i
  rw [Nat.testBit_bitwise hf.zero]
  show (f x y).getLsbD i = b (x.getLsbD i) (y.getLsbD i)
  by_cases hi : i < 32
  · exact hf.bit x y i hi
  · rw [BitVec.getLsbD_of_ge _ _ (by omega), BitVec.getLsbD_of_ge x _ (by omega),
      BitVec.getLsbD_of_ge y _ (by omega), hf.zero]

/-- Numbers in two parts are combined part by part. -/
lemma ActsOnBits.bitwise_add_mul {u v n : ℕ} (hu : u < (2 ^ 32) ^ n) (hv : v < (2 ^ 32) ^ n)
    (u' v' : ℕ) : Nat.bitwise b (u + (2 ^ 32) ^ n * u') (v + (2 ^ 32) ^ n * v') =
      Nat.bitwise b u v + (2 ^ 32) ^ n * Nat.bitwise b u' v' := by
  rw [← Nat.pow_mul] at *
  have huv : Nat.bitwise b u v < 2 ^ (32 * n) := Nat.bitwise_lt_two_pow hu hv
  apply Nat.eq_of_testBit_eq
  intro i
  rw [Nat.testBit_bitwise hf.zero, Nat.add_comm u, Nat.add_comm v,
    Nat.add_comm (Nat.bitwise b u v), Nat.testBit_two_pow_mul_add _ hu,
    Nat.testBit_two_pow_mul_add _ hv, Nat.testBit_two_pow_mul_add _ huv]
  split
  · rw [Nat.testBit_bitwise hf.zero]
  · rw [Nat.testBit_bitwise hf.zero]

/-- **The loop over the limbs** of two arrays combines the numbers. The result may be written to
either of them.

**Proof sketch.** Induction on the number of limbs. What is written lies above the limbs that are
still to be read. -/
lemma limbwise_run (n : ℕ) (hr : n ≤ (h rp).length) (hp : n ≤ (h p).length)
    (hq : n ≤ (h q).length) :
    ∃ h', limbwise f rp p q n h = some h' ∧
      h'.number rp 0 n = Nat.bitwise b (h.number p 0 n) (h.number q 0 n) ∧
      SameOutside (region rp 0 n) h h' := by
  induction n generalizing h with
  | zero =>
    refine ⟨h, rfl, ?_, .refl _ h⟩
    rw [LimbHeap.number_zero, LimbHeap.number_zero, LimbHeap.number_zero, Nat.bitwise_zero]
  | succ n ih =>
    obtain ⟨x, hx, hnum⟩ := h.exists_last (a := p) (i := 0) (n := n) (by omega)
    obtain ⟨y, hy, hnum'⟩ := h.exists_last (a := q) (i := 0) (n := n) (by omega)
    rw [Nat.zero_add] at hx hy
    obtain ⟨g, hput, htop, hfoot⟩ := LimbHeap.run_put (h := h) (a := rp) (i := n) (by omega) (f x y)
    obtain ⟨h', hloop, hlow, hfoot'⟩ := ih (h := g) (by rw [hfoot.length]; omega)
      (by rw [hfoot.length]; omega) (by rw [hfoot.length]; omega)
    rw [LimbHeap.number_apart hfoot (Apart.of_le (by omega)).symm,
      LimbHeap.number_apart hfoot (Apart.of_le (by omega)).symm] at hlow
    refine ⟨h', ?_, ?_, hfoot.join hfoot' (by omega) (by omega)⟩
    · simp only [limbwise, hx, hy, hput, Option.bind_eq_bind, Option.bind_some, hloop]
    · have hltp : h.number p 0 n < (2 ^ 32) ^ n := h.number_lt (by omega)
      have hltq : h.number q 0 n < (2 ^ 32) ^ n := h.number_lt (by omega)
      rw [h'.number_add (by rw [hfoot'.length, hfoot.length]; omega), hlow, Nat.zero_add,
        LimbHeap.number_apart hfoot' (Apart.of_le (by omega)), htop, hf.toNat, hnum, hnum',
        hf.bitwise_add_mul hltp hltq]

/-- The loop over the low limbs, behind the high ones that were written before. -/
lemma limbwise_behind {k d w : ℕ} {g : LimbHeap} (hr : k + d ≤ (h rp).length)
    (hp : k ≤ (h p).length) (hq : k ≤ (h q).length) (hw : g.number rp k d = w)
    (hfoot : SameOutside (region rp k d) h g) :
    ∃ h', limbwise f rp p q k g = some h' ∧
      h'.number rp 0 (k + d) =
        Nat.bitwise b (h.number p 0 k) (h.number q 0 k) + (2 ^ 32) ^ k * w ∧
      SameOutside (region rp 0 (k + d)) h h' := by
  obtain ⟨h', hloop, hlow, hfoot'⟩ := limbwise_run hf k (h := g) (p := p) (q := q)
    (show k ≤ (g rp).length by rw [hfoot.length]; omega) (by rw [hfoot.length]; omega)
    (by rw [hfoot.length]; omega)
  rw [LimbHeap.number_apart hfoot (Apart.of_le (by omega)).symm,
    LimbHeap.number_apart hfoot (Apart.of_le (by omega)).symm] at hlow
  refine ⟨h', hloop, ?_, hfoot.join hfoot' (by omega) (by omega)⟩
  rw [h'.number_add (by rw [hfoot'.length, hfoot.length]; omega), hlow, Nat.zero_add,
    LimbHeap.number_apart hfoot' (Apart.of_le (by omega)), hw]

/-- The high limbs of the first operand are kept, against bits that are not set. -/
lemma ActsOnBits.bitwise_left (hleft : b true false = true) {k d : ℕ}
    (hp : k + d ≤ (h p).length) (hq : k ≤ (h q).length) :
    Nat.bitwise b (h.number p 0 k) (h.number q 0 k) + (2 ^ 32) ^ k * h.number p k d =
      Nat.bitwise b (h.number p 0 (k + d)) (h.number q 0 k) := by
  have hltp : h.number p 0 k < (2 ^ 32) ^ k := h.number_lt (by omega)
  have hltq : h.number q 0 k < (2 ^ 32) ^ k := h.number_lt (by omega)
  have hsplit := hf.bitwise_add_mul hltp hltq (h.number p k d) 0
  rw [Nat.mul_zero, Nat.add_zero, Nat.bitwise_zero_right, if_pos hleft] at hsplit
  rw [h.number_add (by omega), Nat.zero_add, hsplit]

/-- The high limbs of the second operand. -/
lemma ActsOnBits.bitwise_right (hright : b false true = true) {k d : ℕ}
    (hp : k ≤ (h p).length) (hq : k + d ≤ (h q).length) :
    Nat.bitwise b (h.number p 0 k) (h.number q 0 k) + (2 ^ 32) ^ k * h.number q k d =
      Nat.bitwise b (h.number p 0 k) (h.number q 0 (k + d)) := by
  have hltp : h.number p 0 k < (2 ^ 32) ^ k := h.number_lt (by omega)
  have hltq : h.number q 0 k < (2 ^ 32) ^ k := h.number_lt (by omega)
  have hsplit := hf.bitwise_add_mul hltp hltq 0 (h.number q k d)
  rw [Nat.mul_zero, Nat.add_zero, Nat.bitwise_zero_left, if_pos hright] at hsplit
  rw [h.number_add (by omega), Nat.zero_add, hsplit]

/-- **The loop after a copy of the high limbs** combines numbers with different numbers of limbs,
for an operation that keeps a bit against one that is not set. -/
lemma combine_run {n k : ℕ} {first : Prop} [Decidable first] (hfirst : first → k ≤ n)
    (hsecond : ¬ first → n ≤ k) (hleft : b true false = true) (hright : b false true = true)
    (hr : max n k ≤ (h rp).length) (hp : n ≤ (h p).length) (hq : k ≤ (h q).length) :
    ∃ h', combine f rp p n q k first h = some h' ∧
      h'.number rp 0 (max n k) = Nat.bitwise b (h.number p 0 n) (h.number q 0 k) ∧
      SameOutside (region rp 0 (max n k)) h h' := by
  by_cases hc : first
  · obtain ⟨d, rfl⟩ := Nat.exists_eq_add_of_le (hfirst hc)
    rw [Nat.max_eq_left (Nat.le_add_right k d)] at hr ⊢
    obtain ⟨g, hcopy, hhigh, hfoot⟩ := LimbHeap.run_copyData (h := h) (t := rp) (a := p) (i := k)
      (j := k) (n := d) (by omega) (by omega)
    obtain ⟨h', hloop, hval, hfoot'⟩ := limbwise_behind hf (p := p) hr (by omega) hq hhigh
      hfoot
    refine ⟨h', ?_, hval.trans (hf.bitwise_left hleft hp hq), hfoot'⟩
    rw [combine, if_pos hc, Nat.add_sub_cancel_left, hcopy, Option.bind_some, hloop]
  · obtain ⟨d, rfl⟩ := Nat.exists_eq_add_of_le (hsecond hc)
    rw [Nat.max_eq_right (Nat.le_add_right n d)] at hr ⊢
    obtain ⟨g, hcopy, hhigh, hfoot⟩ := LimbHeap.run_copyData (h := h) (t := rp) (a := q) (i := n)
      (j := n) (n := d) (by omega) (by omega)
    obtain ⟨h', hloop, hval, hfoot'⟩ := limbwise_behind hf (q := q) hr hp (by omega) hhigh
      hfoot
    refine ⟨h', ?_, hval.trans (hf.bitwise_right hright hp hq), hfoot'⟩
    rw [combine, if_neg hc, Nat.add_sub_cancel_left, hcopy, Option.bind_some, hloop]

/-- The high limbs of the first operand have no effect, if a bit of it is not kept against one that
is not set. -/
lemma ActsOnBits.bitwise_mod_left (hleft : b true false = false) (u : ℕ) {v n : ℕ}
    (hv : v < (2 ^ 32) ^ n) : Nat.bitwise b (u % (2 ^ 32) ^ n) v = Nat.bitwise b u v := by
  have hlt : u % (2 ^ 32) ^ n < (2 ^ 32) ^ n := Nat.mod_lt _ (by positivity)
  have hsplit := hf.bitwise_add_mul hlt hv (u / (2 ^ 32) ^ n) 0
  rw [Nat.mod_add_div, Nat.mul_zero, Nat.add_zero, Nat.bitwise_zero_right, hleft,
    if_neg Bool.false_ne_true, Nat.mul_zero, Nat.add_zero] at hsplit
  exact hsplit.symm

/-- The high limbs of the second operand. -/
lemma ActsOnBits.bitwise_mod_right (hright : b false true = false) {u : ℕ} (v : ℕ) {n : ℕ}
    (hu : u < (2 ^ 32) ^ n) : Nat.bitwise b u (v % (2 ^ 32) ^ n) = Nat.bitwise b u v := by
  have hlt : v % (2 ^ 32) ^ n < (2 ^ 32) ^ n := Nat.mod_lt _ (by positivity)
  have hsplit := hf.bitwise_add_mul hu hlt 0 (v / (2 ^ 32) ^ n)
  rw [Nat.mod_add_div, Nat.mul_zero, Nat.add_zero, Nat.bitwise_zero_left, hright,
    if_neg Bool.false_ne_true, Nat.mul_zero, Nat.add_zero] at hsplit
  exact hsplit.symm

/-- The limbs above those of the shorter operand have no effect. -/
lemma ActsOnBits.bitwise_mod_min (hleft : b true false = false) (hright : b false true = false)
    {u v n k : ℕ} (hu : u < (2 ^ 32) ^ n) (hv : v < (2 ^ 32) ^ k) :
    Nat.bitwise b (u % (2 ^ 32) ^ min n k) (v % (2 ^ 32) ^ min n k) = Nat.bitwise b u v := by
  rcases Nat.le_total n k with hle | hle
  · rw [Nat.min_eq_left hle, Nat.mod_eq_of_lt hu, hf.bitwise_mod_right hright v hu]
  · rw [Nat.min_eq_right hle, Nat.mod_eq_of_lt hv, hf.bitwise_mod_left hleft u hv]

/-- **The search** finds the number of limbs that the combined number needs. -/
lemma scan_eq (n : ℕ) (hp : n ≤ (h p).length) (hq : n ≤ (h q).length) :
    ∃ r, scan f p q n h = some r ∧ r ≤ n ∧
      Nat.bitwise b (h.number p 0 n) (h.number q 0 n) =
        Nat.bitwise b (h.number p 0 r) (h.number q 0 r) ∧
      (r ≠ 0 → (2 ^ 32) ^ (r - 1) ≤ Nat.bitwise b (h.number p 0 n) (h.number q 0 n)) := by
  induction n with
  | zero => exact ⟨0, rfl, le_rfl, rfl, fun hr => absurd rfl hr⟩
  | succ n ih =>
    obtain ⟨x, hx, hnum⟩ := h.exists_last (a := p) (i := 0) (n := n) (by omega)
    obtain ⟨y, hy, hnum'⟩ := h.exists_last (a := q) (i := 0) (n := n) (by omega)
    rw [Nat.zero_add] at hx hy
    have hltp : h.number p 0 n < (2 ^ 32) ^ n := h.number_lt (by omega)
    have hltq : h.number q 0 n < (2 ^ 32) ^ n := h.number_lt (by omega)
    have hsplit := hf.bitwise_add_mul hltp hltq x.toNat y.toNat
    rw [← hnum, ← hnum', ← hf.toNat] at hsplit
    rw [scan, hx, hy, Option.bind_some, Option.bind_some]
    by_cases hzero : f x y = 0
    · obtain ⟨r, hr, hle, hval, hlow⟩ := ih (by omega) (by omega)
      rw [hzero, SpecialArithmetic.toNat_zero_limb, Nat.mul_zero, Nat.add_zero] at hsplit
      rw [if_neg (not_not.mpr hzero), hsplit]
      exact ⟨r, hr, by omega, hval, hlow⟩
    · rw [if_pos hzero]
      refine ⟨n + 1, rfl, le_rfl, rfl, fun _ => ?_⟩
      rw [hsplit, Nat.add_sub_cancel]
      exact (pow_le_mul_toNat hzero n).trans (Nat.le_add_left _ _)

end Run

end SpecialLogic

end EiffelWeb
