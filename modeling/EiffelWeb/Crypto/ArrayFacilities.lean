import Mathlib.Data.List.Basic
import Mathlib.Tactic.Common
import EiffelWeb.Special
import EiffelWeb.Word

set_option relaxedAutoImplicit false
set_option autoImplicit false

/-!
# Array and rotation facilities

The classes `ARRAY_FACILITIES` and `ROTATE_FACILITIES`, from which the ciphers and the digests
inherit. Narrowing conversions such as `to_natural_8` truncate.

## Main definitions

* `Natural8`, `Natural32`, `Natural64`
* `arrayXor` — the exclusive disjunction of two arrays, one of which may be the destination.
* `fromNatural32Be`, `asNatural32Be`, `fromNatural32Le`, `asNatural32Le`
* `rotateRight32`, `rotateLeft32`

## Main results

* `arrayXor_eq` — what `arrayXor` writes.
* `fromNatural32Be_eq`, `fromNatural32Le_eq` — a word is written as four bytes.
* `bytes_asNatural32Be` — the bytes of a word that was read.
-/

namespace EiffelWeb

/-- `NATURAL_8`. -/
abbrev Natural8 := BitVec 8

/-- `NATURAL_32`. -/
abbrev Natural32 := BitVec 32

/-- `NATURAL_64`. -/
abbrev Natural64 := BitVec 64

open Special

/-! ## Exclusive disjunction -/

/-- An argument of `array_xor` that is read: an array of its own, or the destination itself. -/
inductive XorSource where
  /-- Another array than the destination. -/
  | other (a : List Natural8)
  /-- The destination. -/
  | destination

/-- The items that are read, when the destination has the items `d`. -/
def XorSource.items (s : XorSource) (d : List Natural8) : List Natural8 :=
  match s with
  | other a => a
  | destination => d

/-- `array_xor (source_1, source_1_offset, source_2, source_2_offset, destination,
destination_offset, count)`: the counter runs down from `count` to one. -/
def arrayXor (source1 : XorSource) (source1Offset : ℕ) (source2 : XorSource) (source2Offset : ℕ)
    (destination : List Natural8) (destinationOffset : ℕ) : (count : ℕ) → List Natural8
  | 0 => destination
  | counter + 1 =>
    arrayXor source1 source1Offset source2 source2Offset
      (destination.set (destinationOffset + counter)
        (item (source1.items destination) (source1Offset + counter) ^^^
          item (source2.items destination) (source2Offset + counter)))
      destinationOffset counter

/-- A source that is the destination is read at the indexes that are written. -/
def XorSource.Aligned (s : XorSource) (offset destinationOffset : ℕ) : Prop :=
  s = destination → offset = destinationOffset

lemma XorSource.aligned_other (a : List Natural8) (offset destinationOffset : ℕ) :
    (other a).Aligned offset destinationOffset :=
  fun h => nomatch h

lemma XorSource.aligned_destination (offset : ℕ) : destination.Aligned offset offset := fun _ => rfl

/-- Writing an index changes no item that is read later. -/
lemma XorSource.slice_items_set {s : XorSource} {offset doff : ℕ} (hs : s.Aligned offset doff)
    (d : List Natural8) (n : ℕ) (x : Natural8) :
    slice (s.items (d.set (doff + n) x)) offset n = slice (s.items d) offset n := by
  cases s with
  | other a => rfl
  | destination =>
    rw [hs rfl]
    exact slice_set le_rfl x

lemma XorSource.length_items_set (s : XorSource) (d : List Natural8) (i : ℕ) (x : Natural8) :
    (s.items (d.set i x)).length = (s.items d).length := by
  cases s with
  | other a => rfl
  | destination => exact List.length_set

/-- **What `array_xor` writes.** -/
lemma arrayXor_eq {s₁ s₂ : XorSource} {o₁ o₂ doff : ℕ} (h₁ : s₁.Aligned o₁ doff)
    (h₂ : s₂.Aligned o₂ doff) {d : List Natural8} {n : ℕ} (hd : doff + n ≤ d.length)
    (hl₁ : o₁ + n ≤ (s₁.items d).length) (hl₂ : o₂ + n ≤ (s₂.items d).length) :
    arrayXor s₁ o₁ s₂ o₂ d doff n =
      write d doff
        (List.zipWith (· ^^^ ·) (slice (s₁.items d) o₁ n) (slice (s₂.items d) o₂ n)) := by
  induction n generalizing d with
  | zero => simp [arrayXor, slice]
  | succ n ih =>
    have hlen₁ : (slice (s₁.items d) o₁ n).length = n := length_slice (by omega)
    have hlen₂ : (slice (s₂.items d) o₂ n).length = n := length_slice (by omega)
    set x := item (s₁.items d) (o₁ + n) ^^^ item (s₂.items d) (o₂ + n) with hx
    set u := List.zipWith (· ^^^ ·) (slice (s₁.items d) o₁ n) (slice (s₂.items d) o₂ n) with hu
    have hlenu : u.length = n := by
      rw [hu, List.length_zipWith, hlen₁, hlen₂, Nat.min_self]
    have hstep : arrayXor s₁ o₁ s₂ o₂ (d.set (doff + n) x) doff n =
        write (d.set (doff + n) x) doff u := by
      rw [ih (by rw [List.length_set]; omega) (by rw [s₁.length_items_set]; omega)
        (by rw [s₂.length_items_set]; omega), XorSource.slice_items_set h₁,
        XorSource.slice_items_set h₂]
    have hlast : List.zipWith (· ^^^ ·) (slice (s₁.items d) o₁ (n + 1))
        (slice (s₂.items d) o₂ (n + 1)) = u ++ [x] := by
      rw [slice_succ (by omega), slice_succ (by omega),
        List.zipWith_append (by rw [hlen₁, hlen₂])]
      rfl
    rw [arrayXor, hstep, hlast]
    have hset := write_set (a := d) (u := u) (i := doff) x (by omega)
    rwa [hlenu] at hset

/-! ## Words as bytes -/

/-- `from_natural_32_be (source, target, offset)`. -/
def fromNatural32Be (source : Natural32) (target : List Natural8) (offset : ℕ) : List Natural8 :=
  let target := target.set offset ((source >>> 24).setWidth 8)
  let target := target.set (offset + 1) ((source >>> 16).setWidth 8)
  let target := target.set (offset + 2) ((source >>> 8).setWidth 8)
  target.set (offset + 3) (source.setWidth 8)

/-- `as_natural_32_be (source, offset)`. -/
def asNatural32Be (source : List Natural8) (offset : ℕ) : Natural32 :=
  (item source offset).setWidth 32 <<< 24 ||| (item source (offset + 1)).setWidth 32 <<< 16 |||
    (item source (offset + 2)).setWidth 32 <<< 8 ||| (item source (offset + 3)).setWidth 32

/-- `from_natural_32_le (source, target, offset)`. -/
def fromNatural32Le (source : Natural32) (target : List Natural8) (offset : ℕ) : List Natural8 :=
  let target := target.set offset (source.setWidth 8)
  let target := target.set (offset + 1) ((source >>> 8).setWidth 8)
  let target := target.set (offset + 2) ((source >>> 16).setWidth 8)
  target.set (offset + 3) ((source >>> 24).setWidth 8)

/-- `as_natural_32_le (source, offset)`. -/
def asNatural32Le (source : List Natural8) (offset : ℕ) : Natural32 :=
  (item source offset).setWidth 32 ||| (item source (offset + 1)).setWidth 32 <<< 8 |||
    (item source (offset + 2)).setWidth 32 <<< 16 ||| (item source (offset + 3)).setWidth 32 <<< 24

/-- Four items written one after the other. -/
lemma set_four {α : Type*} {target : List α} {offset : ℕ} (h : offset + 4 ≤ target.length)
    (x₀ x₁ x₂ x₃ : α) :
    (((target.set offset x₀).set (offset + 1) x₁).set (offset + 2) x₂).set (offset + 3) x₃ =
      write target offset [x₀, x₁, x₂, x₃] := by
  rw [set_eq_write x₀ (by omega), set_write (u := [x₀]) (j := offset + 1) x₁ rfl (by omega),
    set_write (u := [x₀] ++ [x₁]) (j := offset + 2) x₂ rfl (by omega),
    set_write (u := [x₀] ++ [x₁] ++ [x₂]) (j := offset + 3) x₃ rfl (by omega)]
  rfl

/-- A word is written as its bytes, the most significant first. -/
lemma fromNatural32Be_eq (source : Natural32) {target : List Natural8} {offset : ℕ}
    (h : offset + 4 ≤ target.length) :
    fromNatural32Be source target offset = write target offset (Word.bytes source) :=
  set_four h _ _ _ _

/-- A word is written as its bytes, the least significant first. -/
lemma fromNatural32Le_eq (source : Natural32) {target : List Natural8} {offset : ℕ}
    (h : offset + 4 ≤ target.length) :
    fromNatural32Le source target offset = write target offset (Word.bytes source).reverse :=
  set_four h _ _ _ _

/-- A word written behind a list. -/
lemma fromNatural32Be_write (source : Natural32) {a u : List Natural8} {i offset : ℕ}
    (ho : offset = i + u.length) (h : offset + 4 ≤ a.length) :
    fromNatural32Be source (write a i u) offset = write a i (u ++ Word.bytes source) := by
  rw [fromNatural32Be_eq _ (by rw [length_write (by omega)]; exact h), write_write ho (by omega)]

lemma asNatural32Be_eq (source : List Natural8) (offset : ℕ) :
    asNatural32Be source offset = Word.ofBytes (item source offset) (item source (offset + 1))
      (item source (offset + 2)) (item source (offset + 3)) :=
  Word.ofBytes_of_shifts _ _ _ _

/-- The bytes of a word that was read. -/
lemma bytes_asNatural32Be {source : List Natural8} {offset : ℕ} (h : offset + 4 ≤ source.length) :
    Word.bytes (asNatural32Be source offset) = slice source offset 4 := by
  rw [asNatural32Be_eq, Word.bytes_ofBytes, slice_succ (by omega), slice_succ (by omega),
    slice_succ (by omega), slice_succ (by omega)]
  simp [slice]

/-- A word is read from its bytes. -/
lemma asNatural32Be_of_slice {source : List Natural8} {offset : ℕ} {w : Natural32}
    (h : slice source offset 4 = Word.bytes w) : asNatural32Be source offset = w := by
  obtain ⟨b₀, b₁, b₂, b₃, rfl⟩ := Word.exists_ofBytes w
  rw [Word.bytes_ofBytes] at h
  have hitem : ∀ j, j < 4 → item source (offset + j) = item [b₀, b₁, b₂, b₃] j := fun j hj => by
    rw [← h, item_slice hj]
  have h₀ := hitem 0 (by omega)
  rw [asNatural32Be_eq, hitem 1 (by omega), hitem 2 (by omega), hitem 3 (by omega)]
  rw [Nat.add_zero] at h₀
  rw [h₀]
  rfl

/-! ## Rotation -/

/-- `rotate_right_32 (in, count)`. -/
def rotateRight32 (x : Natural32) (count : ℕ) : Natural32 := x >>> count ||| x <<< (32 - count)

/-- `rotate_left_32 (in, count)`. -/
def rotateLeft32 (x : Natural32) (count : ℕ) : Natural32 := x <<< count ||| x >>> (32 - count)

end EiffelWeb
