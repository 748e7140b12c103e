import EiffelWeb.Crypto.Limb.SpecialLogic

set_option relaxedAutoImplicit false
set_option autoImplicit false

/-!
# The schoolbook square

The routines `sqr_diagonal` and `sqr_basecase` of `SPECIAL_ARITHMETIC`, for less than 64 limbs. The
products of two different limbs are collected in an array of their own, which is doubled and added
to the squares of the limbs.

## Main results

* `SpecialArithmetic.sqrDiagonal_run` — the squares of the limbs.
* `SpecialArithmetic.sqrLoop_run` — the products of different limbs.
* `SpecialArithmetic.sqrBasecase_run` — the square.
-/

namespace EiffelWeb

open Limbs Arrays

namespace SpecialArithmetic

section Diagonal

variable {target targetOffset op1 op1Offset n : ℕ} {h : LimbHeap}

/-- The square of a limb is written to two limbs. -/
lemma putSquare_run (ht : targetOffset + 2 ≤ (h target).length) (ul : Natural32) :
    ∃ h' : LimbHeap,
      ((h.put target (targetOffset + 1) (umulPpmm ul ul).1).bind fun g =>
        g.put target targetOffset (umulPpmm ul ul).2) = some h' ∧
      h'.number target targetOffset 2 = ul.toNat ^ 2 ∧
      SameOutside (region target targetOffset 2) h h' := by
  obtain ⟨g, hput, hhigh, hfoot⟩ := LimbHeap.run_put (h := h) (a := target)
    (i := targetOffset + 1) (by omega) (umulPpmm ul ul).1
  obtain ⟨h', hput', hlow, hfoot'⟩ := LimbHeap.run_put (h := g) (a := target) (i := targetOffset)
    (by rw [hfoot.length]; omega) (umulPpmm ul ul).2
  refine ⟨h', by rw [hput, Option.bind_some, hput'], ?_, hfoot.join hfoot' (by omega) (by omega)⟩
  have hspec := umulPpmm_spec ul ul
  have hkeep : h'.number target (targetOffset + 1) 1 = g.number target (targetOffset + 1) 1 :=
    LimbHeap.number_apart hfoot' (Apart.of_le le_rfl)
  rw [h'.number_add (m := 1) (n := 1) (by rw [hfoot'.length, hfoot.length]; omega), hlow, hkeep,
    hhigh, pow_one, hspec, Nat.pow_two]

/-- **`sqr_diagonal`**: the squares of the limbs.

**Proof sketch.** Induction on the number of limbs; the first limb is squared first. -/
lemma sqrDiagonal_run (ht : targetOffset + 2 * n ≤ (h target).length)
    (h₁ : op1Offset + n ≤ (h op1).length)
    (hd : Apart target targetOffset (2 * n) op1 op1Offset n) :
    ∃ h' : LimbHeap, sqrDiagonal target op1 n targetOffset op1Offset h = some h' ∧
      h'.number target targetOffset (2 * n) = diagonal (h.segment op1 op1Offset n) ∧
      SameOutside (region target targetOffset (2 * n)) h h' := by
  induction n generalizing h targetOffset op1Offset with
  | zero =>
    refine ⟨h, rfl, ?_, .refl _ _⟩
    rw [Nat.mul_zero, LimbHeap.number_zero, segment_zero, diagonal_nil]
  | succ n ih =>
    obtain ⟨x, hx, hseg⟩ := exists_item h₁
    obtain ⟨g, hput, hsq, hfoot⟩ := putSquare_run
      (show targetOffset + 2 ≤ (h target).length by omega) x
    have hsegment : g.segment op1 (op1Offset + 1) n = h.segment op1 (op1Offset + 1) n :=
      hfoot.segment_apart (hd.sub le_rfl (by omega) (by omega) (by omega))
    obtain ⟨h', hrun, hval, hfoot'⟩ := ih
      (show targetOffset + 2 + 2 * n ≤ (g target).length by rw [hfoot.length]; omega)
      (show op1Offset + 1 + n ≤ (g op1).length by rw [hfoot.length]; omega)
      (hd.sub (by omega) (by omega) (by omega) (by omega))
    rw [hsegment] at hval
    have hkeep : h'.number target targetOffset 2 = g.number target targetOffset 2 :=
      LimbHeap.number_apart hfoot' (Apart.of_le le_rfl).symm
    have hsize : 2 * (n + 1) = 2 + 2 * n := by omega
    refine ⟨h', ?_, ?_, hfoot.join hfoot' (by omega) (by omega)⟩
    · rw [sqrDiagonal, hx]
      simp only [Option.bind_eq_bind, Option.bind_some]
      rw [← Option.bind_assoc, hput, Option.bind_some]
      exact hrun
    · rw [hsize, h'.number_add (by rw [hfoot'.length, hfoot.length]; omega), hkeep, hsq, hval, hseg,
        diagonal_cons]

end Diagonal

section Basecase

variable {tp op1 op1Offset : ℕ} {h : LimbHeap}

/-- **The products of different limbs.** Before row `j` the rows above are there, in `2 * j + k`
limbs.

**Proof sketch.** Induction on the number `k` of rows that are left. -/
lemma sqrLoop_run (hne : op1 ≠ tp) (k : ℕ) {j : ℕ} (htp : 2 * (j + k) ≤ (h tp).length)
    (h₁ : op1Offset + (j + 1 + k) ≤ (h op1).length) :
    ∃ h' : LimbHeap, sqrLoop tp op1 op1Offset (j + 1 + k) k (j + 1) h = some h' ∧
      h'.number tp 0 (2 * (j + k)) = h.number tp 0 (2 * j + k) +
        (2 ^ 32) ^ (2 * j) * offDiagonal (h.segment op1 (op1Offset + j) (k + 1)) ∧
      SameOutside (region tp 0 (2 * (j + k))) h h' := by
  induction k generalizing h j with
  | zero =>
    obtain ⟨x, -, hseg⟩ := exists_item (h := h) (a := op1) (i := op1Offset + j) (n := 0) (by omega)
    refine ⟨h, rfl, ?_, .refl _ _⟩
    rw [hseg, segment_zero, offDiagonal_cons, value_nil, offDiagonal_nil, Nat.mul_zero,
      Nat.mul_zero, Nat.add_zero, Nat.mul_zero, Nat.add_zero, Nat.add_zero]
  | succ k ih =>
    obtain ⟨x, hx, hseg⟩ := exists_item (h := h) (a := op1) (i := op1Offset + j) (n := k + 1)
      (by omega)
    obtain ⟨cy, g₁, hrow, hsum, hfoot₁⟩ := addmul1_run
      (show 2 * j + (k + 1) ≤ (h tp).length by omega)
      (show op1Offset + (j + 1) + (k + 1) ≤ (h op1).length by omega) (.of_ne hne) x
    obtain ⟨g₂, hput, htop, hfoot₂⟩ := LimbHeap.run_put (h := g₁) (a := tp)
      (i := 2 * j + (k + 1)) (by rw [hfoot₁.length]; omega) cy
    have hlen₂ (b : ℕ) : (g₂ b).length = (h b).length := by rw [hfoot₂.length, hfoot₁.length]
    have hsegment : g₂.segment op1 (op1Offset + (j + 1)) (k + 1) =
        h.segment op1 (op1Offset + (j + 1)) (k + 1) := by
      rw [hfoot₂.segment_apart fun he => absurd he.symm hne,
        hfoot₁.segment_apart fun he => absurd he.symm hne]
    have hlow : g₂.number tp 0 (2 * j) = h.number tp 0 (2 * j) := by
      rw [LimbHeap.number_apart hfoot₂ (Apart.of_le (by omega)).symm,
        LimbHeap.number_apart hfoot₁ (Apart.of_le (by omega)).symm]
    have hmid : g₂.number tp (2 * j) (k + 1) = g₁.number tp (2 * j) (k + 1) :=
      LimbHeap.number_apart hfoot₂ (Apart.of_le (by omega)).symm
    obtain ⟨h', hrun, hval, hfoot'⟩ := ih (h := g₂) (j := j + 1) (by rw [hlen₂]; omega)
      (by rw [hlen₂]; omega)
    have hsize : j + 1 + 1 + k = j + 1 + (k + 1) := by omega
    have hlast : 2 * (j + 1 + k) = 2 * (j + (k + 1)) := by omega
    rw [hsize] at hrun
    rw [hlast, hsegment] at hval
    rw [hlast] at hfoot'
    refine ⟨h', ?_, ?_, ?_⟩
    · have hread : op1Offset + (j + 1) - 1 = op1Offset + j := by omega
      have hstart : 2 * (j + 1) - 2 = 2 * j := by omega
      have hcount : j + 1 + (k + 1) - (j + 1) = k + 1 := by omega
      have hend : j + 1 + (k + 1) + (j + 1) - 2 = 2 * j + (k + 1) := by omega
      rw [sqrLoop, hread, hstart, hcount, hend, hx]
      simp only [Option.bind_eq_bind, Option.bind_some, hrow, hput]
      exact hrun
    · have hbefore : h.number tp 0 (2 * j + (k + 1)) =
          h.number tp 0 (2 * j) + (2 ^ 32) ^ (2 * j) * h.number tp (2 * j) (k + 1) := by
        rw [h.number_add (by omega), Nat.zero_add]
      have hafter : g₂.number tp 0 (2 * (j + 1) + k) = h.number tp 0 (2 * j) +
          (2 ^ 32) ^ (2 * j) * (h.number tp (2 * j) (k + 1) +
            h.number op1 (op1Offset + (j + 1)) (k + 1) * x.toNat) := by
        have hsplit : 2 * (j + 1) + k = 2 * j + (k + 1 + 1) := by omega
        rw [hsplit, g₂.number_add (by rw [hlen₂]; omega), Nat.zero_add,
          g₂.number_add (m := k + 1) (n := 1) (by rw [hlen₂]; omega), hlow, hmid, htop, hsum]
      have hpow : (2 ^ 32) ^ (2 * (j + 1)) = (2 ^ 32) ^ (2 * j) * (2 ^ 32) ^ 2 := by
        rw [← pow_add]
        congr 1
      have hrest : h.number op1 (op1Offset + (j + 1)) (k + 1) =
          value (h.segment op1 (op1Offset + (j + 1)) (k + 1)) := rfl
      rw [hval, hafter, hbefore, hseg, offDiagonal_cons, Nat.add_assoc op1Offset j 1, hpow, hrest]
      ring
    · refine ((hfoot₁.mono ?_).trans (hfoot₂.mono ?_)).trans hfoot' <;>
      · simp only [region]
        omega

/-- The products of different limbs, doubled, and the bit that is shifted out. -/
lemma offDiagonal_run (hne : op1 ≠ tp) {n : ℕ} (hn : 2 ≤ n) (htp : 2 * n - 2 ≤ (h tp).length)
    (h₁ : op1Offset + n ≤ (h op1).length) :
    ∃ (vl cy : Natural32) (g₁ g₂ g₃ : LimbHeap), h.item op1 op1Offset = some vl ∧
      mul1 tp 0 op1 (op1Offset + 1) (n - 1) vl h = some (cy, g₁) ∧
      g₁.put tp (n - 1) cy = some g₂ ∧
      sqrLoop tp op1 op1Offset n (n - 2) 2 g₂ = some g₃ ∧
      g₃.number tp 0 (2 * n - 2) = offDiagonal (h.segment op1 op1Offset n) ∧
      SameOutside (region tp 0 (2 * n - 2)) h g₃ := by
  obtain ⟨k, rfl⟩ : ∃ k, n = k + 2 := ⟨n - 2, by omega⟩
  obtain ⟨x, hx, hseg⟩ := exists_item (h := h) (a := op1) (i := op1Offset) (n := k + 1) h₁
  obtain ⟨cy, g₁, hmul, hprod, hfoot₁⟩ := mul1_run
    (show 0 + (k + 1) ≤ (h tp).length by omega)
    (show op1Offset + 1 + (k + 1) ≤ (h op1).length by omega) (.of_ne hne) x
  obtain ⟨g₂, hput, htop, hfoot₂⟩ := LimbHeap.run_put (h := g₁) (a := tp) (i := k + 1)
    (by rw [hfoot₁.length]; omega) cy
  have hlen₂ (b : ℕ) : (g₂ b).length = (h b).length := by rw [hfoot₂.length, hfoot₁.length]
  obtain ⟨g₃, hloop, hval, hfoot₃⟩ := sqrLoop_run hne k
    (show 2 * (1 + k) ≤ (g₂ tp).length by rw [hlen₂]; omega)
    (show op1Offset + (1 + 1 + k) ≤ (g₂ op1).length by rw [hlen₂]; omega)
  have hsegment : g₂.segment op1 (op1Offset + 1) (k + 1) =
      h.segment op1 (op1Offset + 1) (k + 1) := by
    rw [hfoot₂.segment_apart fun he => absurd he.symm hne,
      hfoot₁.segment_apart fun he => absurd he.symm hne]
  have hrow : g₂.number tp 0 (2 * 1 + k) =
      x.toNat * value (h.segment op1 (op1Offset + 1) (k + 1)) := by
    have hsplit : 2 * 1 + k = k + 1 + 1 := by omega
    have hkeep : g₂.number tp 0 (k + 1) = g₁.number tp 0 (k + 1) :=
      LimbHeap.number_apart hfoot₂ (Apart.of_le (by omega)).symm
    rw [hsplit, g₂.number_add (by rw [hlen₂]; omega), Nat.zero_add, htop, hkeep, hprod,
      Nat.mul_comm]
    rfl
  have hsize : 1 + 1 + k = k + 2 := by omega
  have hlimbs : 2 * (1 + k) = 2 * (k + 2) - 2 := by omega
  rw [hsize] at hloop
  rw [hlimbs, hsegment, hrow] at hval
  rw [hlimbs] at hfoot₃
  refine ⟨x, cy, g₁, g₂, g₃, hx, hmul, hput, hloop, ?_, ?_⟩
  · rw [hval, hseg, offDiagonal_cons]
  · refine ((hfoot₁.mono ?_).trans (hfoot₂.mono ?_)).trans hfoot₃ <;>
    · simp only [region]
      omega

end Basecase

/-- **`sqr_basecase`**: the square.

**Proof sketch.** The doubled products of different limbs are added to the squares of the limbs from
the second limb on. The bit shifted out and the carry go to the highest limb, where there is room
for them, since the square has no more limbs. -/
lemma sqrBasecase_run {fresh target targetOffset op1 op1Offset n : ℕ} {h : LimbHeap}
    (hn : 1 ≤ n) (hn' : n < 64) (htf : target < fresh) (hof : op1 < fresh)
    (ht : targetOffset + 2 * n ≤ (h target).length) (h₁ : op1Offset + n ≤ (h op1).length)
    (hd : Apart target targetOffset (2 * n) op1 op1Offset n) :
    ∃ h' : LimbHeap, sqrBasecase fresh target targetOffset op1 op1Offset n h = some h' ∧
      h'.number target targetOffset (2 * n) = h.number op1 op1Offset n ^ 2 ∧
      KeptBelow fresh (region target targetOffset (2 * n)) h h' := by
  obtain ⟨k, rfl⟩ : ∃ k, n = k + 1 := ⟨n - 1, by omega⟩
  obtain ⟨x, hx, hseg⟩ := exists_item h₁
  obtain ⟨g, hput, hsq, hfoot⟩ := putSquare_run
    (show targetOffset + 2 ≤ (h target).length by omega) x
  by_cases hk : k = 0
  · subst hk
    refine ⟨g, ?_, ?_, hfoot.keptBelow fresh⟩
    · rw [sqrBasecase, hx]
      simp only [Option.bind_eq_bind, Option.bind_some]
      rw [← Option.bind_assoc, hput, Option.bind_some]
      rfl
    · rw [hsq, LimbHeap.number, hseg, segment_zero, value_singleton]
  · -- the array for the products of different limbs
    have hne : op1 ≠ fresh := hof.ne
    have hne' : target ≠ fresh := htf.ne
    have hkept := (hfoot.keptBelow fresh).trans (keptBelow_update le_rfl
      (region target targetOffset 2) g (List.replicate 128 (0 : Natural32)))
    set e : LimbHeap := Function.update g fresh (List.replicate 128 0) with he
    have hlen : (e fresh).length = 128 := by
      rw [he, Function.update_self, List.length_replicate]
    have hsegment : e.segment op1 op1Offset (k + 1) = h.segment op1 op1Offset (k + 1) :=
      hkept.segment_apart hof (hd.left le_rfl (by omega))
    obtain ⟨vl, cy₁, g₁, g₂, g₃, hvl, hmul, hput₂, hloop, hoff, hfoot₃⟩ := offDiagonal_run
      hne (by omega) (show 2 * (k + 1) - 2 ≤ (e fresh).length by rw [hlen]; omega)
      (show op1Offset + (k + 1) ≤ (e op1).length by rw [hkept.length op1 hof]; exact h₁)
    rw [Nat.add_sub_cancel] at hmul hput₂
    have hlen₃ (b : ℕ) (hb : b < fresh) : (g₃ b).length = (h b).length := by
      rw [hfoot₃.length, hkept.length b hb]
    -- the squares of the limbs
    obtain ⟨g₄, hdiag, hsquares, hfoot₄⟩ := sqrDiagonal_run
      (show targetOffset + 2 + 2 * k ≤ (g₃ target).length by rw [hlen₃ target htf]; omega)
      (show op1Offset + 1 + k ≤ (g₃ op1).length by rw [hlen₃ op1 hof]; omega)
      (hd.sub (by omega) (by omega) (by omega) (by omega))
    have hrest : g₃.segment op1 (op1Offset + 1) k = h.segment op1 (op1Offset + 1) k := by
      rw [hfoot₃.segment_apart fun he => absurd he.symm hne,
        hkept.segment_apart hof (hd.sub le_rfl (by omega) (by omega) (by omega))]
    have hfirst : g₄.number target targetOffset 2 = x.toNat ^ 2 := by
      rw [LimbHeap.number_apart hfoot₄ (Apart.of_le le_rfl).symm,
        LimbHeap.number_apart hfoot₃ fun he => absurd he.symm hne', ← hsq, he, LimbHeap.number,
        LimbHeap.number, Arrays.segment, Arrays.segment, Function.update_of_ne hne']
    have hdiagonal : g₄.number target targetOffset (2 + 2 * k) =
        diagonal (h.segment op1 op1Offset (k + 1)) := by
      rw [g₄.number_add (by rw [hfoot₄.length, hlen₃ target htf]; omega), hfirst, hsquares, hrest,
        hseg, diagonal_cons]
    have hoff' : g₄.number fresh 0 (2 * k) = offDiagonal (h.segment op1 op1Offset (k + 1)) := by
      rw [LimbHeap.number_apart hfoot₄ fun he => absurd he hne', ← hsegment, ← hoff]
      congr 1
    -- the doubled products
    obtain ⟨cy, g₅, hshift, hdouble, hcy, hfoot₅⟩ := SpecialLogic.lshift_run
      (show 1 ≤ 32 by decide) (show 1 ≤ 2 * k by omega)
      (show 0 + 2 * k ≤ (g₄ fresh).length by rw [hfoot₄.length, hfoot₃.length, hlen]; omega)
      (show 0 + 2 * k ≤ (g₄ fresh).length by rw [hfoot₄.length, hfoot₃.length, hlen]; omega)
      fun _ => Or.inl le_rfl
    have hlen₅ (b : ℕ) : (g₅ b).length = (g₃ b).length := by rw [hfoot₅.length, hfoot₄.length]
    rw [hoff', pow_one, Nat.mul_comm _ 2] at hdouble
    have hsize : 2 + 2 * k = 1 + (2 * k + 1) := by omega
    have htarget : g₅.number target targetOffset (1 + (2 * k + 1)) =
        diagonal (h.segment op1 op1Offset (k + 1)) := by
      rw [LimbHeap.number_apart hfoot₅ fun he => absurd he.symm hne', ← hsize, hdiagonal]
    have hsum : g₅.number target targetOffset (1 + (2 * k + 1)) + (2 ^ 32) ^ 1 *
        (g₅.number fresh 0 (2 * k) + (2 ^ 32) ^ (2 * k) * cy.toNat) =
          h.number op1 op1Offset (k + 1) ^ 2 := by
      rw [htarget, hdouble, pow_one, LimbHeap.number, value_sq]
    have hlt : h.number op1 op1Offset (k + 1) ^ 2 < (2 ^ 32) ^ (1 + (2 * k + 1)) := by
      have hpow : 1 + (2 * k + 1) = (k + 1) * 2 := by omega
      rw [hpow, Nat.pow_mul]
      exact Nat.pow_lt_pow_left (h.number_lt h₁) two_ne_zero
    obtain ⟨c, g₆, hadd, hc, hfit, hlen₆, hafter⟩ := addInto_run
      (show targetOffset + (1 + (2 * k + 1)) ≤ (g₅ target).length by
        rw [hlen₅, hlen₃ target htf]; omega)
      (show 0 + 2 * k ≤ (g₅ fresh).length by rw [hlen₅, hfoot₃.length, hlen]; omega)
      (fun he => absurd he hne') (w := cy.toNat) (by rw [hsum]; exact hlt)
    obtain ⟨y, hy, hynum⟩ := LimbHeap.exists_limb (h := g₆) (a := target)
      (i := targetOffset + 1 + 2 * k) (by rw [hlen₆, hlen₅, hlen₃ target htf]; omega)
    obtain ⟨h', hput', htop, hfoot'⟩ := LimbHeap.run_put (h := g₆) (a := target)
      (i := targetOffset + 1 + 2 * k) (by rw [hlen₆, hlen₅, hlen₃ target htf]; omega)
      (y + (cy + c))
    rw [hynum, pow_one] at hfit
    have hlimb : (y + (cy + c)).toNat = y.toNat + (cy.toNat + c.toNat) := by
      rw [BitVec.toNat_add, BitVec.toNat_add]
      omega
    obtain ⟨hval, hfoot₆⟩ := hafter h' hfoot' (by rw [htop, hlimb, hynum])
    have hcount : 2 * (k + 1) = 1 + (2 * k + 1) := by omega
    refine ⟨h', ?_, by rw [hcount, hval, hsum], ?_⟩
    · have hlimbs : 2 * (k + 1) - 2 = 2 * k := by omega
      have hlast : targetOffset + 2 * (k + 1) - 1 = targetOffset + 1 + 2 * k := by omega
      rw [sqrBasecase, hx]
      simp only [Option.bind_eq_bind, Option.bind_some]
      rw [← Option.bind_assoc, hput, Option.bind_some, if_pos (by omega)]
      simp only [← he, hvl, hmul, hput₂, hloop, hlimbs, hlast, Nat.add_sub_cancel, hdiag, hshift,
        hadd, hy, Option.bind_some]
      exact hput'
    · have hkept₃ : KeptBelow fresh (region target targetOffset (2 * (k + 1))) e g₃ :=
        (hfoot₃.keptBelow fresh).mono fun b hb i hi => absurd hi.1 hb.ne
      have hkept₅ : KeptBelow fresh (region target targetOffset (2 * (k + 1))) g₄ g₅ :=
        (hfoot₅.keptBelow fresh).mono fun b hb i hi => absurd hi.1 hb.ne
      have hkept₆ := hfoot₆.keptBelow fresh
      rw [← hcount] at hkept₆
      refine ((((hkept.mono ?_).trans hkept₃).trans ((hfoot₄.keptBelow fresh).mono ?_)).trans
        hkept₅).trans hkept₆ <;>
      · simp only [region]
        omega

end SpecialArithmetic

end EiffelWeb
