import Mathlib.Data.List.TakeWhile
import Mathlib.Data.Nat.Digits.Lemmas
import Mathlib.Tactic.Common
import EiffelWeb.Crypto.ArrayFacilities

set_option relaxedAutoImplicit false
set_option autoImplicit false

/-!
# Bytes of large integers

The class `INTEGER_X`, as far as the ciphers and the digests use it: the conversion between a number
and its bytes, the most significant first. The arithmetic is exact, so the values are the integers
themselves. A conversion to bytes has no leading zero byte, but for the number zero, which takes one
byte.

## Main definitions

* `IntegerX.makeFromBytes`, `IntegerX.bytes`, `IntegerX.asBytes`
* `IntegerX.toFixedWidthByteArray`, `IntegerX.asFixedWidthByteArray`
* `IntegerX.strip` — bytes without the leading zero bytes.

## Main results

* `IntegerX.asBytes_makeFromBytes` — the way through a number strips the leading zero bytes.
* `IntegerX.asFixedWidthByteArray_makeFromBytes` — a fixed width brings them back.
* `IntegerX.makeFromBytes_asFixedWidthByteArray` — a number is read back from a fixed width.
* `IntegerX.makeFromBytes_xor` — exclusive disjunction byte by byte.
-/

namespace EiffelWeb

open Special

namespace IntegerX

/-- `make_from_bytes (bytes_array, first, last)`, of the bytes between the indexes. -/
def makeFromBytes (a : List Natural8) : ℕ := a.foldl (fun n b => n * 256 + b.toNat) 0

/-- What `output` writes for the absolute value of a number: no byte for zero. -/
def output (n : ℕ) : List Natural8 := (Nat.digits 256 n).reverse.map (BitVec.ofNat 8)

/-- `bytes`: the number of bytes, one for zero. -/
def bytes (n : ℕ) : ℕ := max 1 (Nat.digits 256 n).length

/-- `as_bytes`. -/
def asBytes (n : ℕ) : List Natural8 := write (List.replicate (bytes n) 0) 0 (output n)

/-- `to_fixed_width_byte_array (target, first, last)`: the array written. -/
def toFixedWidthByteArray (n : ℕ) (target : List Natural8) (first last : ℕ) : List Natural8 :=
  let target := fillWith target 0 first (last - first + 1)
  write target (first + (last - first + 1 - bytes n)) (output n)

@[simp] lemma length_output (n : ℕ) : (output n).length = (Nat.digits 256 n).length := by
  simp [output]

/-- A number that fits. -/
lemma bytes_le {n k : ℕ} (hk : 0 < k) (h : n < 256 ^ k) : bytes n ≤ k := by
  rw [bytes, max_le_iff]
  exact ⟨hk, (Nat.digits_length_le_iff (by decide) n).mpr h⟩

/-- The conversion to a fixed width keeps the array's length. -/
lemma length_toFixedWidthByteArray {n k : ℕ} {target : List Natural8} (hlen : target.length = k)
    (hk : 0 < k) (h : n < 256 ^ k) : (toFixedWidthByteArray n target 0 (k - 1)).length = k := by
  have hbytes := bytes_le hk h
  have hdigits : (Nat.digits 256 n).length ≤ bytes n := le_max_right _ _
  have hfill : (fillWith target 0 0 (k - 1 - 0 + 1)).length = k := by
    rw [fillWith, length_write (by rw [List.length_replicate]; omega), hlen]
  simp only [toFixedWidthByteArray]
  rw [length_write (by rw [length_output, hfill]; omega), hfill]

/-- `as_fixed_width_byte_array (byte_size)`. -/
def asFixedWidthByteArray (n byteSize : ℕ) : List Natural8 :=
  toFixedWidthByteArray n (List.replicate byteSize 0) 0 (byteSize - 1)

/-! ## Leading zero bytes -/

/-- Bytes without the leading zero bytes. -/
def strip (a : List Natural8) : List Natural8 := a.dropWhile (· = 0)

lemma replicate_append_strip (a : List Natural8) :
    List.replicate (a.length - (strip a).length) 0 ++ strip a = a := by
  have hsplit : a.takeWhile (· = 0) ++ strip a = a := List.takeWhile_append_dropWhile
  have hzeros : a.takeWhile (· = 0) = List.replicate (a.takeWhile (· = 0)).length 0 := by
    refine List.eq_replicate_iff.mpr ⟨rfl, fun b hb => ?_⟩
    simpa using List.mem_takeWhile_imp hb
  have hlen : a.length - (strip a).length = (a.takeWhile (· = 0)).length := by
    have h := congrArg List.length hsplit
    rw [List.length_append] at h
    omega
  rw [hlen, ← hzeros, hsplit]

lemma length_strip_le (a : List Natural8) : (strip a).length ≤ a.length :=
  List.length_dropWhile_le _ _

/-- The first byte that is left is not zero. -/
lemma head_strip_ne_zero {a : List Natural8} (h : strip a ≠ []) : (strip a).head h ≠ 0 := by
  have hhead : ¬ (decide ((strip a).head h = 0)) = true :=
    Bool.eq_false_iff.mp (List.head_dropWhile_not (fun b : Natural8 => decide (b = 0)) h)
  simpa only [decide_eq_true_eq] using hhead

/-- Nothing is left of zero bytes only. -/
lemma strip_eq_nil {a : List Natural8} : strip a = [] ↔ ∀ b ∈ a, b = 0 := by
  rw [strip, List.dropWhile_eq_nil_iff]
  simp

/-- Nothing is stripped from bytes with another byte in front. -/
lemma strip_of_head_ne_zero {b : Natural8} (h : b ≠ 0) (a : List Natural8) :
    strip (b :: a) = b :: a := by
  rw [strip, List.dropWhile_cons_of_neg (by simpa using h)]

/-! ## The way through a number -/

lemma makeFromBytes_concat (a : List Natural8) (b : Natural8) :
    makeFromBytes (a ++ [b]) = makeFromBytes a * 256 + b.toNat :=
  List.foldl_concat _ _ _ _

lemma makeFromBytes_replicate_append (n : ℕ) (a : List Natural8) :
    makeFromBytes (List.replicate n 0 ++ a) = makeFromBytes a := by
  induction n with
  | zero => rfl
  | succ n ih =>
    rw [List.replicate_succ, List.cons_append, ← ih]
    rfl

lemma makeFromBytes_strip (a : List Natural8) : makeFromBytes (strip a) = makeFromBytes a := by
  conv_rhs => rw [← replicate_append_strip a]
  rw [makeFromBytes_replicate_append]

lemma makeFromBytes_eq_ofDigits (a : List Natural8) :
    makeFromBytes a = Nat.ofDigits 256 (a.reverse.map BitVec.toNat) := by
  induction a using List.reverseRecOn with
  | nil => rfl
  | append_singleton a b ih =>
    rw [makeFromBytes_concat, List.reverse_append, List.reverse_singleton, List.singleton_append,
      List.map_cons, Nat.ofDigits_cons, ← ih]
    omega

/-- **`output` writes the bytes without the leading zero bytes.** -/
lemma output_makeFromBytes (a : List Natural8) : output (makeFromBytes a) = strip a := by
  have hdigits : Nat.digits 256 (makeFromBytes a) = (strip a).reverse.map BitVec.toNat := by
    rw [← makeFromBytes_strip, makeFromBytes_eq_ofDigits]
    refine Nat.digits_ofDigits 256 (by decide) _ ?_ ?_
    · intro n hn
      obtain ⟨b, -, rfl⟩ := List.mem_map.mp hn
      exact b.isLt
    · intro h
      have hne : strip a ≠ [] := fun hnil => h (by rw [hnil]; rfl)
      rw [List.getLast_map, List.getLast_reverse]
      intro hzero
      exact head_strip_ne_zero hne (BitVec.eq_of_toNat_eq hzero)
  rw [output, hdigits, ← List.map_reverse, List.reverse_reverse, List.map_map]
  have hid : (BitVec.ofNat 8 ∘ BitVec.toNat : Natural8 → Natural8) = id := by
    funext b
    simp
  rw [hid, List.map_id]

lemma bytes_makeFromBytes (a : List Natural8) :
    bytes (makeFromBytes a) = max 1 (strip a).length := by
  rw [bytes, ← length_output, output_makeFromBytes]

/-- **The way through a number strips the leading zero bytes**, and leaves one of zero. -/
lemma asBytes_makeFromBytes (a : List Natural8) :
    asBytes (makeFromBytes a) = if strip a = [] then [0] else strip a := by
  rw [asBytes, output_makeFromBytes, bytes_makeFromBytes]
  split_ifs with h
  · rw [h]
    rfl
  · have hpos := List.length_pos_iff.mpr h
    rw [write_all]
    rw [List.length_replicate]
    omega

/-- **A fixed width brings the leading zero bytes back.** -/
lemma asFixedWidthByteArray_makeFromBytes {a : List Natural8} (ha : a ≠ []) :
    asFixedWidthByteArray (makeFromBytes a) a.length = a := by
  have hpos := List.length_pos_iff.mpr ha
  have hle := length_strip_le a
  simp only [asFixedWidthByteArray, toFixedWidthByteArray, output_makeFromBytes,
    bytes_makeFromBytes, fillWith]
  have hzeros : write (List.replicate a.length (0 : Natural8)) 0
      (List.replicate (a.length - 1 - 0 + 1) 0) = List.replicate a.length 0 := by
    rw [write_all]
    · congr 1
      omega
    · rw [List.length_replicate, List.length_replicate]
      omega
  rw [hzeros]
  by_cases h : strip a = []
  · rw [h, write_nil]
    have hsplit := replicate_append_strip a
    rwa [h, List.append_nil, List.length_nil, Nat.sub_zero] at hsplit
  · have hstrip := List.length_pos_iff.mpr h
    have hoff : 0 + (a.length - 1 - 0 + 1 - max 1 (strip a).length) =
        a.length - (strip a).length := by
      omega
    rw [hoff, write, List.take_replicate, List.drop_replicate, Nat.min_eq_left (by omega)]
    have hend : a.length - (a.length - (strip a).length + (strip a).length) = 0 := by omega
    rw [hend, List.replicate_zero, List.append_nil, replicate_append_strip]

/-- The bytes that `output` writes are those of the number. -/
lemma makeFromBytes_output (n : ℕ) : makeFromBytes (output n) = n := by
  have hbyte : ∀ d ∈ Nat.digits 256 n, (BitVec.ofNat 8 d).toNat = d := by
    intro d hd
    rw [BitVec.toNat_ofNat]
    exact Nat.mod_eq_of_lt (Nat.digits_lt_base (by decide) hd)
  rw [makeFromBytes_eq_ofDigits, output, ← List.map_reverse, List.reverse_reverse, List.map_map]
  have hid : (Nat.digits 256 n).map (BitVec.toNat ∘ BitVec.ofNat 8) = Nat.digits 256 n := by
    conv_rhs => rw [← List.map_id (Nat.digits 256 n)]
    exact List.map_congr_left hbyte
  rw [hid, Nat.ofDigits_digits]

/-- The form of a fixed width. -/
lemma asFixedWidthByteArray_eq {n w : ℕ} (h : bytes n ≤ w) :
    ∃ k, asFixedWidthByteArray n w = List.replicate k 0 ++ output n ∧
      (asFixedWidthByteArray n w).length = w := by
  have hone : 1 ≤ bytes n := le_max_left _ _
  have hzeros : fillWith (List.replicate w (0 : Natural8)) 0 0 (w - 1 - 0 + 1) =
      List.replicate w 0 := by
    have hw : w - 1 - 0 + 1 = w := by omega
    rw [fillWith, hw, write_all rfl]
  have hlen : (output n).length ≤ bytes n := by
    rw [length_output]
    exact le_max_right _ _
  simp only [asFixedWidthByteArray, toFixedWidthByteArray]
  rw [hzeros]
  by_cases hn : n = 0
  · subst hn
    have hnil : output 0 = [] := rfl
    exact ⟨w, by rw [hnil, write_nil, List.append_nil],
      by rw [hnil, write_nil, List.length_replicate]⟩
  · have hpos : 0 < (Nat.digits 256 n).length := by
      rw [List.length_pos_iff, Nat.digits_ne_nil_iff_ne_zero]
      exact hn
    have heq : (output n).length = bytes n := by
      rw [length_output, bytes]
      omega
    refine ⟨w - bytes n, ?_, ?_⟩
    · rw [write, List.take_replicate, List.drop_replicate, Nat.min_eq_left (by omega), heq]
      have hoff : 0 + (w - 1 - 0 + 1 - bytes n) = w - bytes n := by omega
      have hend : w - (0 + (w - 1 - 0 + 1 - bytes n) + bytes n) = 0 := by omega
      rw [hend, hoff, List.replicate_zero, List.append_nil]
    · rw [length_write (by rw [List.length_replicate]; omega), List.length_replicate]

/-- **A number is read back from a fixed width** that has room for its bytes. -/
lemma makeFromBytes_asFixedWidthByteArray {n w : ℕ} (h : bytes n ≤ w) :
    makeFromBytes (asFixedWidthByteArray n w) = n := by
  obtain ⟨k, hk, -⟩ := asFixedWidthByteArray_eq h
  rw [hk, makeFromBytes_replicate_append, makeFromBytes_output]

/-- The number of bytes grows with the number. -/
lemma bytes_mono {m n : ℕ} (h : m ≤ n) : bytes m ≤ bytes n :=
  max_le_max le_rfl (Nat.le_length_digits_le 256 m n h)

/-- **Exclusive disjunction byte by byte.** -/
lemma makeFromBytes_xor {a b : List Natural8} (h : a.length = b.length) :
    makeFromBytes (List.zipWith (· ^^^ ·) a b) = makeFromBytes a ^^^ makeFromBytes b := by
  have hstep (m n : ℕ) (x y : Natural8) :
      (m * 256 + x.toNat) ^^^ (n * 256 + y.toNat) = (m ^^^ n) * 256 + (x ^^^ y).toNat := by
    have hbit (m : ℕ) (x : Natural8) (i : ℕ) : (m * 256 + x.toNat).testBit i =
        if i < 8 then x.toNat.testBit i else m.testBit (i - 8) := by
      rw [Nat.mul_comm]
      exact Nat.testBit_two_pow_mul_add m x.isLt i
    apply Nat.eq_of_testBit_eq
    intro i
    rw [Nat.testBit_xor, hbit, hbit, hbit, BitVec.toNat_xor, Nat.testBit_xor, Nat.testBit_xor]
    split_ifs <;> rfl
  induction a using List.reverseRecOn generalizing b with
  | nil =>
    obtain rfl : b = [] := List.length_eq_zero_iff.mp h.symm
    rfl
  | append_singleton a x ih =>
    obtain ⟨b, y, rfl⟩ : ∃ b' y, b = b' ++ [y] := by
      have hne : b ≠ [] := by
        rintro rfl
        simp at h
      exact ⟨b.dropLast, b.getLast hne, (List.dropLast_append_getLast hne).symm⟩
    have hlen : a.length = b.length := by simpa using h
    rw [List.zipWith_append hlen]
    show makeFromBytes (_ ++ [x ^^^ y]) = _
    rw [makeFromBytes_concat, makeFromBytes_concat, makeFromBytes_concat, ih hlen, hstep]

end IntegerX

end EiffelWeb
