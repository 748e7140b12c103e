import EiffelWeb.Crypto.Limb.SpecialLogic

set_option relaxedAutoImplicit false
set_option autoImplicit false

/-!
# Exclusive disjunctions of limb arrays

The routines `bit_xor` and `bit_xor_lshift` of `SPECIAL_LOGIC`, for a target that is the first
operand. The second operand is shifted to the left while it is read: a limb of the shifted number is
made of two limbs one behind the other (`extract_limb`), and one more limb takes the bits shifted
out of the highest one.

## Main definitions

* `SpecialLogic.extractLimb`
* `SpecialLogic.bitXorLshift`, `SpecialLogic.bitXor`

## Main results

* `SpecialLogic.bitXorLshift_run` — the exclusive disjunction with the shifted number, reduced to
  the limbs of the first operand.
* `SpecialLogic.bitXor_run`
-/

namespace EiffelWeb

open Limbs Arrays

namespace SpecialLogic

/-- `extract_limb (count, xh, xl)`. -/
def extractLimb (count : ℕ) (xh xl : Natural32) : Natural32 :=
  if count = 0 then xh else xh <<< count ||| xl >>> (32 - count)

/-- A limb of `op2` shifted by `shift_bits`, with a limb of `op1`; the carry is the last limb read
from `op2`. -/
def xorLshiftStep (shiftBits : ℕ) (op2LimbHigh u v : Natural32) : Natural32 × Natural32 :=
  (extractLimb shiftBits u op2LimbHigh ^^^ v, u)

/-- A limb of `op2` shifted by `shift_bits`. -/
def lshiftStep (shiftBits : ℕ) (op2LimbHigh u _ : Natural32) : Natural32 × Natural32 :=
  (extractLimb shiftBits u op2LimbHigh, u)

/-- `bit_xor_lshift (target, target_offset, op1, op1_offset, op1_count, op2, op2_offset, op2_count,
op2_lshift)`. -/
def bitXorLshift (target targetOffset op1 op1Offset op1Count op2 op2Offset op2Count op2Lshift : ℕ)
    (h : LimbHeap) : Option LimbHeap := do
  let shiftLimbs := op2Lshift / 32
  let shiftBits := op2Lshift % 32
  let h ← h.copyData target op1 op1Offset targetOffset shiftLimbs
  let cursor := min op2Count (op1Count - shiftLimbs)
  let (op2LimbHigh, h) ← zipLoop (xorLshiftStep shiftBits) target op2 op1 cursor
    (targetOffset + shiftLimbs) op2Offset (op1Offset + shiftLimbs) 0 h
  if op2Count ≤ cursor then
    let op2Limb := extractLimb shiftBits 0 op2LimbHigh
    if op1Count - shiftLimbs ≤ cursor then
      h.put target (targetOffset + shiftLimbs + cursor) op2Limb
    else
      let x ← h.item op1 (op1Offset + shiftLimbs + cursor)
      let h ← h.put target (targetOffset + shiftLimbs + cursor) (op2Limb ^^^ x)
      h.copyData target op1 (op1Offset + shiftLimbs + (cursor + 1))
        (targetOffset + shiftLimbs + (cursor + 1)) (op1Count - (cursor + 1) - shiftLimbs)
  else
    let (op2LimbHigh, h) ← zipLoop (lshiftStep shiftBits) target op2 op2 (op2Count - cursor)
      (targetOffset + shiftLimbs + cursor) (op2Offset + cursor) (op2Offset + cursor) op2LimbHigh h
    h.put target (targetOffset + shiftLimbs + op2Count) (extractLimb shiftBits 0 op2LimbHigh)

/-- `bit_xor (target, target_offset, op1, op1_offset, op1_count, op2, op2_offset, op2_count)`. -/
def bitXor (target targetOffset op1 op1Offset op1Count op2 op2Offset op2Count : ℕ) (h : LimbHeap) :
    Option LimbHeap := do
  let cursor := min op1Count op2Count
  let (_, h) ← zipLoop (fun _ u v => (u ^^^ v, ())) target op1 op2 cursor targetOffset op1Offset
    op2Offset () h
  if op2Count < op1Count then
    h.copyData target op1 (op1Offset + cursor) (targetOffset + cursor) (op1Count - cursor)
  else if op1Count < op2Count then
    h.copyData target op2 (op2Offset + cursor) (targetOffset + cursor) (op2Count - cursor)
  else some h

/-! ## Shifted limbs -/

section Shifted

variable {r : ℕ}

/-- A limb of a shifted number, and what it hands on to the next one. -/
lemma extractLimb_spec (hr : r < 32) (u c : Natural32) :
    (extractLimb r u c).toNat + 2 ^ 32 * (extractLimb r 0 u).toNat =
      u.toNat * 2 ^ r + (extractLimb r 0 c).toNat := by
  rw [extractLimb, extractLimb, extractLimb]
  by_cases h0 : r = 0
  · subst h0
    simp
  · have hlow := ushiftRight_lt hr.le c
    have hzero (x : Natural32) : (0 : Natural32) <<< r ||| x = x := by
      rw [show (0 : Natural32) <<< r = 0#32 from BitVec.zero_shiftLeft r, BitVec.zero_or]
    rw [if_neg h0, if_neg h0, if_neg h0, toNat_or_parts (dvd_shiftLeft hr.le u) hlow, hzero, hzero,
      ← shift_parts hr.le u]
    omega

@[simp] lemma extractLimb_zero (r : ℕ) : extractLimb r 0 0 = 0 := by
  rw [extractLimb]
  split <;> simp

lemma length_lshift (c : Natural32) (a : List Natural32) :
    (zipCarry (lshiftStep r) c a a).1.length = a.length :=
  length_zipCarry _ _ rfl

/-- **The shifted number.** The limbs, and the one that takes the bits shifted out.

**Proof sketch.** Induction on the limbs, as for a pass with a carry; the carry here is a limb whose
high bits are still to be handed on. -/
lemma value_lshift (hr : r < 32) (c : Natural32) (a : List Natural32) :
    value (zipCarry (lshiftStep r) c a a).1 +
      (2 ^ 32) ^ a.length * (extractLimb r 0 (zipCarry (lshiftStep r) c a a).2).toNat =
        value a * 2 ^ r + (extractLimb r 0 c).toNat := by
  induction a generalizing c with
  | nil => simp [zipCarry]
  | cons u a ih =>
    have hstep := extractLimb_spec hr u c
    have hpow : (2 ^ 32) ^ (a.length + 1) = 2 ^ 32 * (2 ^ 32) ^ a.length := pow_succ' _ _
    rw [zipCarry, value_cons, value_cons, List.length_cons, hpow]
    dsimp only [lshiftStep]
    calc (extractLimb r u c).toNat + 2 ^ 32 * value (zipCarry (lshiftStep r) u a a).1 +
          2 ^ 32 * (2 ^ 32) ^ a.length *
            (extractLimb r 0 (zipCarry (lshiftStep r) u a a).2).toNat
        = (extractLimb r u c).toNat + 2 ^ 32 * (value (zipCarry (lshiftStep r) u a a).1 +
          (2 ^ 32) ^ a.length *
            (extractLimb r 0 (zipCarry (lshiftStep r) u a a).2).toNat) := by ring
      _ = ((extractLimb r u c).toNat + 2 ^ 32 * (extractLimb r 0 u).toNat) +
          2 ^ 32 * value a * 2 ^ r := by
        rw [ih]
        ring
      _ = (u.toNat + 2 ^ 32 * value a) * 2 ^ r + (extractLimb r 0 c).toNat := by
        rw [hstep]
        ring

/-- The limbs of the shifted number are combined with those of the other one. -/
lemma zipCarry_xorLshift (c : Natural32) {a b : List Natural32} (h : a.length = b.length) :
    zipCarry (xorLshiftStep r) c a b =
      (List.zipWith (· ^^^ ·) (zipCarry (lshiftStep r) c a a).1 b,
        (zipCarry (lshiftStep r) c a a).2) := by
  induction a generalizing b c with
  | nil =>
    obtain rfl : b = [] := List.length_eq_zero_iff.mp h.symm
    rfl
  | cons u a ih =>
    obtain ⟨v, b, rfl⟩ : ∃ v b', b = v :: b' := List.exists_cons_of_length_eq_add_one h.symm
    have hrest := ih u (b := b) (by simpa using h)
    rw [zipCarry, zipCarry]
    dsimp only [xorLshiftStep, lshiftStep]
    rw [hrest]
    rfl

/-- The exclusive disjunction with a shifted number, in three parts. -/
lemma xor_three {k n x₀ x₁ y : ℕ} (hx₀ : x₀ < (2 ^ 32) ^ k) (hx₁ : x₁ < (2 ^ 32) ^ n)
    (hy : y < (2 ^ 32) ^ n) (x₂ q : ℕ) :
    (x₀ + (2 ^ 32) ^ k * (x₁ + (2 ^ 32) ^ n * x₂)) ^^^ ((2 ^ 32) ^ k * (y + (2 ^ 32) ^ n * q)) =
      x₀ + (2 ^ 32) ^ k * ((y ^^^ x₁) + (2 ^ 32) ^ n * (q ^^^ x₂)) := by
  rw [← Nat.pow_mul] at *
  have hzero := xor_add_mul hx₀ (Nat.two_pow_pos (32 * k)) (x₁ + (2 ^ 32) ^ n * x₂)
    (y + (2 ^ 32) ^ n * q)
  rw [Nat.zero_add, Nat.xor_zero] at hzero
  rw [← Nat.pow_mul] at *
  rw [hzero, xor_add_mul hx₁ hy, Nat.xor_comm x₁, Nat.xor_comm x₂]

/-- The low limbs of it. -/
lemma xor_low {k n x₀ x₁ y : ℕ} (hx₀ : x₀ < (2 ^ 32) ^ k) (hx₁ : x₁ < (2 ^ 32) ^ n)
    (hy : y < (2 ^ 32) ^ n) (q : ℕ) :
    ((x₀ + (2 ^ 32) ^ k * x₁) ^^^ ((2 ^ 32) ^ k * (y + (2 ^ 32) ^ n * q))) % (2 ^ 32) ^ (k + n) =
      x₀ + (2 ^ 32) ^ k * (y ^^^ x₁) := by
  have hthree := xor_three hx₀ hx₁ hy 0 q
  have hxor : y ^^^ x₁ < (2 ^ 32) ^ n := by
    rw [← Nat.pow_mul] at hx₁ hy ⊢
    exact Nat.xor_lt_two_pow hy hx₁
  have hlt : x₀ + (2 ^ 32) ^ k * (y ^^^ x₁) < (2 ^ 32) ^ (k + n) := by
    rw [pow_add]
    calc x₀ + (2 ^ 32) ^ k * (y ^^^ x₁) < (2 ^ 32) ^ k + (2 ^ 32) ^ k * (y ^^^ x₁) :=
          Nat.add_lt_add_right hx₀ _
      _ = (2 ^ 32) ^ k * ((y ^^^ x₁) + 1) := by ring
      _ ≤ (2 ^ 32) ^ k * (2 ^ 32) ^ n := Nat.mul_le_mul_left _ hxor
  rw [Nat.mul_zero, Nat.add_zero, Nat.xor_zero] at hthree
  rw [hthree, Nat.mul_add, ← Nat.add_assoc, ← Nat.mul_assoc, ← pow_add, Nat.add_mul_mod_self_left,
    Nat.mod_eq_of_lt hlt]

/-- A shift by whole limbs and by bits. -/
lemma shiftLeft_eq_limbs (v s : ℕ) : v <<< s = (2 ^ 32) ^ (s / 32) * (v * 2 ^ (s % 32)) := by
  rw [Nat.shiftLeft_eq, ← Nat.pow_mul, Nat.mul_left_comm, ← pow_add, Nat.div_add_mod]

end Shifted

/-! ## The routines -/

section Run

variable {target op2 : ℕ} {h : LimbHeap}

/-- A loop that reads and writes the same items of an array. -/
lemma zipLoop_inPlace {σ : Type*} (f : σ → Natural32 → Natural32 → Natural32 × σ) (c : σ)
    (hne : op2 ≠ target) {n i j : ℕ} (ht : i + n ≤ (h target).length)
    (h₂ : j + n ≤ (h op2).length) :
    ∃ g : LimbHeap, zipLoop f target op2 target n i j i c h =
        some ((zipCarry f c (h.segment op2 j n) (h.segment target i n)).2, g) ∧
      g.number target i n = value (zipCarry f c (h.segment op2 j n) (h.segment target i n)).1 ∧
      SameOutside (region target i n) h g := by
  have hlen : (zipCarry f c (h.segment op2 j n) (h.segment target i n)).1.length = n := by
    rw [length_zipCarry f c (by rw [length_segment h₂, length_segment ht]), length_segment h₂]
  have hstored : i + (zipCarry f c (h.segment op2 j n) (h.segment target i n)).1.length ≤
      (h target).length := by rwa [hlen]
  have hread := segment_store_self hstored
  have hfoot := sameOutside_store hstored
  rw [hlen] at hread hfoot
  exact ⟨_, zipLoop_eq f c ht h₂ ht (ReadsAhead.of_ne hne) (ReadsAhead.refl n target i),
    congrArg value hread, hfoot⟩

/-- The first loop of `bit_xor_lshift`: the exclusive disjunction with the shifted limbs `y`. -/
lemma xorLshiftLoop_run {r : ℕ} (hr : r < 32) (hne : op2 ≠ target) {n i j : ℕ}
    (ht : i + n ≤ (h target).length) (h₂ : j + n ≤ (h op2).length) :
    ∃ (y : ℕ) (c : Natural32) (g : LimbHeap),
      zipLoop (xorLshiftStep r) target op2 target n i j i 0 h = some (c, g) ∧
      y < (2 ^ 32) ^ n ∧
      y + (2 ^ 32) ^ n * (extractLimb r 0 c).toNat = h.number op2 j n * 2 ^ r ∧
      g.number target i n = y ^^^ h.number target i n ∧
      SameOutside (region target i n) h g := by
  have hlen : (h.segment op2 j n).length = (h.segment target i n).length := by
    rw [length_segment h₂, length_segment ht]
  have hshift := value_lshift hr 0 (h.segment op2 j n)
  have hlt := value_lt (zipCarry (lshiftStep r) 0 (h.segment op2 j n) (h.segment op2 j n)).1
  rw [length_lshift, length_segment h₂] at hlt
  rw [length_segment h₂, extractLimb_zero, SpecialArithmetic.toNat_zero_limb,
    Nat.add_zero] at hshift
  obtain ⟨g, hloop, hnum, hfoot⟩ := zipLoop_inPlace (xorLshiftStep r) 0 hne ht h₂
  rw [zipCarry_xorLshift 0 hlen] at hloop hnum
  rw [value_zipWith_xor (by rw [length_lshift, hlen])] at hnum
  exact ⟨_, _, g, hloop, hlt, hshift, hnum, hfoot⟩

/-- The second loop of `bit_xor_lshift` writes behind the limbs of the first operand. -/
lemma lshiftLoop_footprint {r : ℕ} (c : Natural32) (hne : op2 ≠ target) {n i j : ℕ}
    (ht : i + n ≤ (h target).length) (h₂ : j + n ≤ (h op2).length) :
    ∃ (c' : Natural32) (g : LimbHeap),
      zipLoop (lshiftStep r) target op2 op2 n i j j c h = some (c', g) ∧
      SameOutside (region target i n) h g := by
  have hlen : (zipCarry (lshiftStep r) c (h.segment op2 j n) (h.segment op2 j n)).1.length = n := by
    rw [length_lshift, length_segment h₂]
  have hfoot := sameOutside_store (h := h) (a := target) (i := i)
    (u := (zipCarry (lshiftStep r) c (h.segment op2 j n) (h.segment op2 j n)).1) (by rwa [hlen])
  rw [hlen] at hfoot
  exact ⟨_, _, zipLoop_eq (lshiftStep r) c ht h₂ h₂ (ReadsAhead.of_ne hne) (ReadsAhead.of_ne hne),
    hfoot⟩

/-- Copying a part of an array onto itself. -/
lemma copyData_self {t i n : ℕ} (hn : i + n ≤ (h t).length) : h.copyData t t i i n = some h := by
  rw [copyData_eq hn hn, store_segment hn]

/-- **`bit_xor_lshift`** on an array: the exclusive disjunction with the shifted number, reduced to
the limbs of the first operand. The limb that takes the bits shifted out is written behind the
shifted limbs.

**Proof sketch.** The first loop leaves the limbs below the shift alone and combines the next ones.
If it stops at the end of `op2`, the limbs above the shifted number stay as they are; otherwise what
is written after it lies behind the first operand. -/
lemma bitXorLshift_run (hne : op2 ≠ target) {i j c₁ c₂ s w : ℕ} (hs : s / 32 ≤ c₁) (hw₁ : c₁ ≤ w)
    (hw₂ : s / 32 + c₂ + 1 ≤ w) (ht : i + w ≤ (h target).length)
    (h₂ : j + c₂ ≤ (h op2).length) :
    ∃ h' : LimbHeap, bitXorLshift target i target i c₁ op2 j c₂ s h = some h' ∧
      h'.number target i c₁ =
        (h.number target i c₁ ^^^ h.number op2 j c₂ <<< s) % (2 ^ 32) ^ c₁ ∧
      SameOutside (region target i w) h h' := by
  have hr : s % 32 < 32 := Nat.mod_lt s (by decide)
  have hcopy : h.copyData target target i i (s / 32) = some h := copyData_self (by omega)
  rw [shiftLeft_eq_limbs]
  set k := s / 32
  set r := s % 32
  have hlow : h.number target i k < (2 ^ 32) ^ k := h.number_lt (by omega)
  rcases le_or_gt c₂ (c₁ - k) with hle | hgt
  · obtain ⟨y, c, g, hloop, hy, hshift, hnum, hfoot⟩ :=
      xorLshiftLoop_run hr hne (show i + k + c₂ ≤ (h target).length by omega) h₂
    have hmid : h.number target (i + k) c₂ < (2 ^ 32) ^ c₂ := h.number_lt (by omega)
    have hkeep : g.number target i k = h.number target i k :=
      LimbHeap.number_apart hfoot (Apart.of_le le_rfl).symm
    rcases hle.eq_or_lt with heq | hlt
    · -- the shifted number ends where the first operand does
      obtain ⟨h', hput, -, hfoot'⟩ := LimbHeap.run_put (h := g) (a := target) (i := i + k + c₂)
        (by rw [hfoot.length]; omega) (extractLimb r 0 c)
      refine ⟨h', ?_, ?_, hfoot.join hfoot' (by omega) (by omega)⟩
      · simp only [bitXorLshift, Option.bind_eq_bind]
        rw [hcopy, Option.bind_some, Nat.min_eq_left hle, hloop, Option.bind_some, if_pos le_rfl,
          if_pos heq.ge, hput]
      · have hc₁ : c₁ = k + c₂ := by omega
        rw [LimbHeap.number_apart hfoot' (Apart.of_le (by omega)).symm, hc₁,
          g.number_add (by rw [hfoot.length]; omega), h.number_add (by omega), hkeep, hnum,
          ← hshift, xor_low hlow hmid hy]
    · -- limbs of the first operand remain above the shifted number
      obtain ⟨rest, hc₁⟩ : ∃ rest, c₁ = k + (c₂ + (1 + rest)) :=
        ⟨c₁ - (c₂ + 1) - k, by omega⟩
      have hrest : c₁ - (c₂ + 1) - k = rest := by omega
      obtain ⟨x, hx, hsplit⟩ := SpecialArithmetic.number_succ h (a := target) (i := i + k + c₂)
        (n := rest) (by omega)
      have hx' : g.item target (i + k + c₂) = some x := by
        rw [hfoot.item target (i + k + c₂) (by simp [region]), hx]
      obtain ⟨h', hput, htop, hfoot'⟩ := LimbHeap.run_put (h := g) (a := target) (i := i + k + c₂)
        (by rw [hfoot.length]; omega) (extractLimb r 0 c ^^^ x)
      have hcopy' :
          h'.copyData target target (i + k + (c₂ + 1)) (i + k + (c₂ + 1)) rest = some h' :=
        copyData_self (by rw [hfoot'.length, hfoot.length]; omega)
      have hnum' : h'.number target i c₁ =
          h.number target i c₁ ^^^ (2 ^ 32) ^ k * (h.number op2 j c₂ * 2 ^ r) := by
        have hparts : h'.number target i k = h.number target i k ∧
            h'.number target (i + k) c₂ = y ^^^ h.number target (i + k) c₂ ∧
            h'.number target (i + k + c₂ + 1) rest = h.number target (i + k + c₂ + 1) rest := by
          refine ⟨?_, ?_, ?_⟩
          · rw [LimbHeap.number_apart hfoot' (Apart.of_le (by omega)).symm, hkeep]
          · rw [LimbHeap.number_apart hfoot' (Apart.of_le (by omega)).symm, hnum]
          · rw [LimbHeap.number_apart hfoot' (Apart.of_le (by omega)),
              LimbHeap.number_apart hfoot (Apart.of_le (by omega))]
        have hlimb := xor_add_mul (extractLimb r 0 c).isLt x.isLt 0
          (h.number target (i + k + c₂ + 1) rest)
        rw [Nat.mul_zero, Nat.add_zero, Nat.zero_xor] at hlimb
        have hsplit' : h.number target (i + k + c₂) (1 + rest) =
            x.toNat + 2 ^ 32 * h.number target (i + k + c₂ + 1) rest := by
          rw [Nat.add_comm 1, hsplit]
        have hlen (m : ℕ) (hm : m ≤ c₁) : i + m ≤ (h' target).length := by
          rw [hfoot'.length, hfoot.length]
          omega
        rw [hc₁, h'.number_add (hlen _ (by omega)), h.number_add (by omega),
          h'.number_add (by rw [Nat.add_assoc]; exact hlen _ (by omega)), h.number_add (by omega),
          h'.number_add (by rw [Nat.add_assoc, Nat.add_assoc]; exact hlen _ (by omega)), pow_one,
          hparts.1, hparts.2.1, hparts.2.2, htop, hsplit', ← hshift, xor_three hlow hmid hy, hlimb,
          BitVec.toNat_xor]
      refine ⟨h', ?_, ?_, hfoot.join hfoot' (by omega) (by omega)⟩
      · simp only [bitXorLshift, Option.bind_eq_bind]
        rw [hcopy, Option.bind_some, Nat.min_eq_left hle, hloop, Option.bind_some, if_pos le_rfl,
          if_neg (by omega), hx', Option.bind_some, hput, Option.bind_some, hrest, hcopy']
      · rw [← hnum', Nat.mod_eq_of_lt (h'.number_lt (by rw [hfoot'.length, hfoot.length]; omega))]
  · -- the rest of the shifted number lies behind the first operand
    obtain ⟨n, rest, rfl, rfl⟩ : ∃ n rest, c₁ = k + n ∧ c₂ = n + rest :=
      ⟨c₁ - k, c₂ - (c₁ - k), by omega, by omega⟩
    have hn : k + n - k = n := by omega
    have hrest : n + rest - n = rest := by omega
    obtain ⟨y, c, g, hloop, hy, hshift, hnum, hfoot⟩ :=
      xorLshiftLoop_run hr hne (h := h) (n := n) (i := i + k) (j := j) (by omega) (by omega)
    have hmid : h.number target (i + k) n < (2 ^ 32) ^ n := h.number_lt (by omega)
    have hkeep : g.number target i k = h.number target i k :=
      LimbHeap.number_apart hfoot (Apart.of_le le_rfl).symm
    obtain ⟨c', g', hloop', hfoot'⟩ := lshiftLoop_footprint (h := g) (r := r) c hne (n := rest)
      (i := i + k + n) (j := j + n) (by rw [hfoot.length]; omega) (by rw [hfoot.length]; omega)
    obtain ⟨h', hput, -, hfoot''⟩ := LimbHeap.run_put (h := g') (a := target)
      (i := i + k + (n + rest)) (by rw [hfoot'.length, hfoot.length]; omega) (extractLimb r 0 c')
    have hloops : SameOutside (region target i w) h g' := hfoot.join hfoot' (by omega) (by omega)
    refine ⟨h', ?_, ?_, hloops.join hfoot'' (by omega) (by omega)⟩
    · simp only [bitXorLshift, Option.bind_eq_bind]
      rw [hcopy, Option.bind_some, hn, Nat.min_eq_right (by omega), hloop, Option.bind_some,
        if_neg (by omega), hrest, hloop', Option.bind_some, hput]
    · have hq : (h.number op2 j n + (2 ^ 32) ^ n * h.number op2 (j + n) rest) * 2 ^ r =
          y + (2 ^ 32) ^ n *
            ((extractLimb r 0 c).toNat + h.number op2 (j + n) rest * 2 ^ r) := by
        rw [Nat.add_mul, ← hshift]
        ring
      rw [LimbHeap.number_apart hfoot'' (Apart.of_le (by omega)).symm,
        LimbHeap.number_apart hfoot' (Apart.of_le (by omega)).symm,
        g.number_add (by rw [hfoot.length]; omega), h.number_add (a := target) (by omega),
        h.number_add (a := op2) (by omega), hkeep, hnum, hq, xor_low hlow hmid hy]

/-- A pass without a carry. -/
lemma zipCarry_xor (a b : List Natural32) :
    (zipCarry (fun (_ : Unit) u v => (u ^^^ v, ())) () a b).1 = List.zipWith (· ^^^ ·) a b := by
  induction a generalizing b with
  | nil => rfl
  | cons u a ih =>
    cases b with
    | nil => rfl
    | cons v b => rw [zipCarry, ih, List.zipWith_cons_cons]

/-- The loop of `bit_xor`. -/
lemma bitXorLoop_run (hne : op2 ≠ target) {i j n : ℕ} (ht : i + n ≤ (h target).length)
    (h₂ : j + n ≤ (h op2).length) :
    ∃ g : LimbHeap,
      zipLoop (fun (_ : Unit) u v => (u ^^^ v, ())) target target op2 n i i j () h = some ((), g) ∧
      g.number target i n = h.number target i n ^^^ h.number op2 j n ∧
      SameOutside (region target i n) h g := by
  have hseg₁ : (h.segment target i n).length = n := length_segment ht
  have hseg₂ : (h.segment op2 j n).length = n := length_segment h₂
  have hlen : (List.zipWith (· ^^^ ·) (h.segment target i n) (h.segment op2 j n)).length = n := by
    rw [List.length_zipWith, hseg₁, hseg₂, Nat.min_self]
  have hstored : i + (List.zipWith (· ^^^ ·) (h.segment target i n)
      (h.segment op2 j n)).length ≤ (h target).length := by rwa [hlen]
  have hread := segment_store_self hstored
  have hfoot := sameOutside_store hstored
  rw [hlen] at hread hfoot
  have hloop := zipLoop_eq (fun (_ : Unit) u v => (u ^^^ v, ())) () ht ht h₂
    (ReadsAhead.refl n target i) (ReadsAhead.of_ne hne)
  rw [zipCarry_xor] at hloop
  refine ⟨_, hloop, ?_, hfoot⟩
  rw [LimbHeap.number, hread, value_zipWith_xor (by rw [hseg₁, hseg₂])]
  rfl

/-- **`bit_xor`** on an array. -/
lemma bitXor_run (hne : op2 ≠ target) {i j c₁ c₂ : ℕ} (ht : i + max c₁ c₂ ≤ (h target).length)
    (h₂ : j + c₂ ≤ (h op2).length) :
    ∃ h' : LimbHeap, bitXor target i target i c₁ op2 j c₂ h = some h' ∧
      h'.number target i (max c₁ c₂) = h.number target i c₁ ^^^ h.number op2 j c₂ ∧
      SameOutside (region target i (max c₁ c₂)) h h' := by
  obtain ⟨g, hloop, hnum, hfoot⟩ := bitXorLoop_run (h := h) hne (i := i) (j := j)
    (n := min c₁ c₂) (by omega) (by omega)
  have hlow {a k n : ℕ} (hn : k + n ≤ (h a).length) : h.number a k n < 2 ^ (32 * n) := by
    rw [Nat.pow_mul]
    exact h.number_lt hn
  rcases lt_trichotomy c₁ c₂ with hlt | rfl | hgt
  · -- the rest is copied from the second operand
    obtain ⟨rest, rfl⟩ := Nat.exists_eq_add_of_lt hlt
    rw [Nat.min_eq_left hlt.le] at hloop hnum hfoot
    rw [Nat.max_eq_right hlt.le] at ht ⊢
    obtain ⟨h', hcopy, hrest, hfoot'⟩ := LimbHeap.run_copyData (h := g) (t := target) (a := op2)
      (i := j + c₁) (j := i + c₁) (n := rest + 1) (by rw [hfoot.length]; omega)
      (by rw [hfoot.length]; omega)
    have hxor := xor_add_mul (hlow (a := target) (k := i) (n := c₁) (by omega))
      (hlow (a := op2) (k := j) (n := c₁) (by omega)) 0 (h.number op2 (j + c₁) (rest + 1))
    simp only [Nat.mul_zero, Nat.add_zero, Nat.zero_xor, Nat.pow_mul] at hxor
    refine ⟨h', ?_, ?_, hfoot.join hfoot' (by omega) (by omega)⟩
    · have hcount : c₁ + rest + 1 - c₁ = rest + 1 := by omega
      simp only [bitXor, Option.bind_eq_bind]
      rw [Nat.min_eq_left hlt.le, hloop, Option.bind_some, if_neg hlt.not_gt, if_pos hlt, hcount,
        hcopy]
    · rw [Nat.add_assoc, h'.number_add (by rw [hfoot'.length, hfoot.length]; omega),
        h.number_add (a := op2) (by omega), LimbHeap.number_apart hfoot' (Apart.of_le le_rfl).symm,
        hnum, hrest, LimbHeap.number_apart hfoot fun he => absurd he.symm hne, hxor]
  · rw [Nat.min_self] at hloop hnum hfoot
    rw [Nat.max_self]
    refine ⟨g, ?_, hnum, hfoot⟩
    simp only [bitXor, Option.bind_eq_bind]
    rw [Nat.min_self, hloop, Option.bind_some, if_neg (lt_irrefl _), if_neg (lt_irrefl _)]
  · -- the rest of the first operand stays
    obtain ⟨rest, rfl⟩ := Nat.exists_eq_add_of_lt hgt
    rw [Nat.min_eq_right hgt.le] at hloop hnum hfoot
    rw [Nat.max_eq_left hgt.le] at ht ⊢
    have hxor := xor_add_mul (hlow (a := target) (k := i) (n := c₂) (by omega))
      (hlow (a := op2) (k := j) (n := c₂) (by omega)) (h.number target (i + c₂) (rest + 1)) 0
    simp only [Nat.mul_zero, Nat.add_zero, Nat.xor_zero, Nat.pow_mul] at hxor
    refine ⟨g, ?_, ?_, hfoot.mono fun b m hm => ⟨hm.1, hm.2.1, by have := hm.2.2; omega⟩⟩
    · simp only [bitXor, Option.bind_eq_bind]
      rw [Nat.min_eq_right hgt.le, hloop, Option.bind_some, if_pos hgt,
        copyData_self (by rw [hfoot.length]; omega)]
    · rw [Nat.add_assoc, g.number_add (by rw [hfoot.length]; omega), h.number_add (by omega), hnum,
        LimbHeap.number_apart hfoot (Apart.of_le le_rfl), hxor]

end Run

end SpecialLogic

end EiffelWeb
