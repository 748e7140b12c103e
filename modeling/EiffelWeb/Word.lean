import Mathlib.Data.Nat.Notation
import Mathlib.Tactic.Common
import Mathlib.Tactic.IntervalCases

set_option relaxedAutoImplicit false
set_option autoImplicit false

/-!
# Words of four bytes

A 32-bit word as four bytes, the most significant first, and what the operations of bit twiddling
code do to the bytes. Such code cuts a word by shifts and masks and puts it together by shifts and
disjunctions; with these lemmas its effect on the bytes is a matter of rewriting.

## Main definitions

* `Word.ofBytes` — the word of four bytes.
* `Word.bytes` — the bytes of a word.

## Main results

* `Word.exists_ofBytes` — every word is one of four bytes.
* `Word.ofBytes_of_shifts` — a word put together by shifts and disjunctions.
* `Word.bytes_ofBytes`, `Word.ofBytes_xor`, `Word.ofBytes_and`, `Word.ofBytes_or`
-/

namespace Word

/-- The word of four bytes, the most significant first. -/
def ofBytes (b₀ b₁ b₂ b₃ : BitVec 8) : BitVec 32 := b₀ ++ b₁ ++ b₂ ++ b₃

/-- The bytes of a word, the most significant first. -/
def bytes (w : BitVec 32) : List (BitVec 8) :=
  [(w >>> 24).setWidth 8, (w >>> 16).setWidth 8, (w >>> 8).setWidth 8, w.setWidth 8]

@[simp] lemma length_bytes (w : BitVec 32) : (bytes w).length = 4 := rfl

variable (b₀ b₁ b₂ b₃ c₀ c₁ c₂ c₃ : BitVec 8)

/-- The bits of a word, byte by byte. -/
lemma getLsbD_ofBytes (i : ℕ) :
    (ofBytes b₀ b₁ b₂ b₃).getLsbD i =
      if i < 8 then b₃.getLsbD i else if i < 16 then b₂.getLsbD (i - 8)
      else if i < 24 then b₁.getLsbD (i - 16) else b₀.getLsbD (i - 24) := by
  simp only [ofBytes, BitVec.getLsbD_append]
  grind

/-- A property of the 256 bytes. -/
lemma forall_byte {P : BitVec 8 → Prop} (h : ∀ n : Fin 256, P (BitVec.ofFin n)) (b : BitVec 8) :
    P b :=
  h b.toFin

/-- A byte is the sum of its bits. -/
lemma byte_eq_foldl (b : BitVec 8) :
    b = (List.range 8).foldl (fun r i => if b.getLsbD i then r ^^^ BitVec.twoPow 8 i else r) 0 :=
  forall_byte (P := fun b => b = (List.range 8).foldl
    (fun r i => if b.getLsbD i then r ^^^ BitVec.twoPow 8 i else r) 0) (by decide +kernel) b

/-- **Induction over the bits of a byte**: a property that holds of single bits and of exclusive
disjunctions holds of every byte. -/
lemma xor_induction {P : BitVec 8 → Prop} (zero : P 0)
    (xor : ∀ a b, P a → P b → P (a ^^^ b)) (bit : ∀ i < 8, P (BitVec.twoPow 8 i)) (b : BitVec 8) :
    P b := by
  have hfold : ∀ (l : List ℕ) (r : BitVec 8), (∀ i ∈ l, i < 8) → P r →
      P (l.foldl (fun r i => if b.getLsbD i then r ^^^ BitVec.twoPow 8 i else r) r) := by
    intro l
    induction l with
    | nil => exact fun r _ hr => hr
    | cons i l ih =>
      intro r hl hr
      refine ih _ (fun j hj => hl j (List.mem_cons_of_mem i hj)) ?_
      show P (if b.getLsbD i then r ^^^ BitVec.twoPow 8 i else r)
      split
      · exact xor r _ hr (bit i (hl i List.mem_cons_self))
      · exact hr
  rw [byte_eq_foldl b]
  exact hfold _ 0 (fun i hi => List.mem_range.mp hi) zero

/-! ## Cutting a word -/

@[simp] lemma byte0_ofBytes : (ofBytes b₀ b₁ b₂ b₃ >>> 24).setWidth 8 = b₀ := by
  apply BitVec.eq_of_getLsbD_eq
  intro i hi
  simp only [BitVec.getLsbD_setWidth, BitVec.getLsbD_ushiftRight, getLsbD_ofBytes]
  grind

@[simp] lemma byte1_ofBytes : (ofBytes b₀ b₁ b₂ b₃ >>> 16).setWidth 8 = b₁ := by
  apply BitVec.eq_of_getLsbD_eq
  intro i hi
  simp only [BitVec.getLsbD_setWidth, BitVec.getLsbD_ushiftRight, getLsbD_ofBytes]
  grind

@[simp] lemma byte2_ofBytes : (ofBytes b₀ b₁ b₂ b₃ >>> 8).setWidth 8 = b₂ := by
  apply BitVec.eq_of_getLsbD_eq
  intro i hi
  simp only [BitVec.getLsbD_setWidth, BitVec.getLsbD_ushiftRight, getLsbD_ofBytes]
  grind

@[simp] lemma byte3_ofBytes : (ofBytes b₀ b₁ b₂ b₃).setWidth 8 = b₃ := by
  apply BitVec.eq_of_getLsbD_eq
  intro i hi
  simp only [BitVec.getLsbD_setWidth, getLsbD_ofBytes]
  grind

/-- A mask of eight bits keeps a byte. -/
@[simp] lemma setWidth_and_mask (w : BitVec 32) : (w &&& 0xff).setWidth 8 = w.setWidth 8 := by
  apply BitVec.eq_of_getLsbD_eq
  intro i hi
  simp only [BitVec.getLsbD_setWidth, BitVec.getLsbD_and]
  interval_cases i <;> simp

/-- A mask of eight bits is a byte again. -/
lemma and_mask (w : BitVec 32) : w &&& 0xff = (w.setWidth 8).setWidth 32 := by
  apply BitVec.eq_of_getLsbD_eq
  intro i hi
  simp only [BitVec.getLsbD_setWidth, BitVec.getLsbD_and]
  interval_cases i <;> simp

lemma toNat_and_mask (w : BitVec 32) : (w &&& 0xff).toNat = (w.setWidth 8).toNat := by
  rw [← setWidth_and_mask, BitVec.toNat_setWidth, Nat.mod_eq_of_lt]
  rw [BitVec.toNat_and]
  exact lt_of_le_of_lt Nat.and_le_right (by decide)

@[simp] lemma bytes_ofBytes : bytes (ofBytes b₀ b₁ b₂ b₃) = [b₀, b₁, b₂, b₃] := by
  simp [bytes]

/-! ## Putting a word together -/

/-- A word put together by shifts and disjunctions. -/
lemma ofBytes_of_shifts :
    b₀.setWidth 32 <<< 24 ||| b₁.setWidth 32 <<< 16 ||| b₂.setWidth 32 <<< 8 ||| b₃.setWidth 32 =
      ofBytes b₀ b₁ b₂ b₃ := by
  apply BitVec.eq_of_getLsbD_eq
  intro i hi
  simp only [BitVec.getLsbD_or, BitVec.getLsbD_shiftLeft, BitVec.getLsbD_setWidth, getLsbD_ofBytes]
  grind

/-- The number of a word. -/
lemma toNat_ofBytes : (ofBytes b₀ b₁ b₂ b₃).toNat =
    ((b₀.toNat * 256 + b₁.toNat) * 256 + b₂.toNat) * 256 + b₃.toNat := by
  have happend {m : ℕ} (x : BitVec m) (y : BitVec 8) :
      (x ++ y).toNat = x.toNat * 256 + y.toNat := by
    rw [BitVec.toNat_append, ← Nat.shiftLeft_add_eq_or_of_lt y.isLt, Nat.shiftLeft_eq]
  rw [ofBytes, happend, happend, happend]

/-- Every word is one of four bytes. -/
lemma exists_ofBytes (w : BitVec 32) : ∃ b₀ b₁ b₂ b₃, w = ofBytes b₀ b₁ b₂ b₃ := by
  refine ⟨(w >>> 24).setWidth 8, (w >>> 16).setWidth 8, (w >>> 8).setWidth 8, w.setWidth 8, ?_⟩
  apply BitVec.eq_of_getLsbD_eq
  intro i hi
  simp only [BitVec.getLsbD_setWidth, BitVec.getLsbD_ushiftRight, getLsbD_ofBytes]
  grind

/-! ## Bitwise operations -/

lemma ofBytes_xor : ofBytes b₀ b₁ b₂ b₃ ^^^ ofBytes c₀ c₁ c₂ c₃ =
    ofBytes (b₀ ^^^ c₀) (b₁ ^^^ c₁) (b₂ ^^^ c₂) (b₃ ^^^ c₃) := by
  apply BitVec.eq_of_getLsbD_eq
  intro i hi
  simp only [BitVec.getLsbD_xor, getLsbD_ofBytes]
  split_ifs <;> rfl

lemma ofBytes_and : ofBytes b₀ b₁ b₂ b₃ &&& ofBytes c₀ c₁ c₂ c₃ =
    ofBytes (b₀ &&& c₀) (b₁ &&& c₁) (b₂ &&& c₂) (b₃ &&& c₃) := by
  apply BitVec.eq_of_getLsbD_eq
  intro i hi
  simp only [BitVec.getLsbD_and, getLsbD_ofBytes]
  split_ifs <;> rfl

lemma ofBytes_or : ofBytes b₀ b₁ b₂ b₃ ||| ofBytes c₀ c₁ c₂ c₃ =
    ofBytes (b₀ ||| c₀) (b₁ ||| c₁) (b₂ ||| c₂) (b₃ ||| c₃) := by
  apply BitVec.eq_of_getLsbD_eq
  intro i hi
  simp only [BitVec.getLsbD_or, getLsbD_ofBytes]
  split_ifs <;> rfl

end Word
