import Mathlib.Data.Fintype.Basic
import Mathlib.Data.List.GetD
import Mathlib.Tactic.Common
import Mathlib.Tactic.FinCases
import Mathlib.Tactic.IntervalCases
import EiffelWeb.Crypto.Aes.Key
import EiffelWeb.Crypto.Aes.Fips197

set_option relaxedAutoImplicit false
set_option autoImplicit false

/-!
# AES keys conform to the standard

The classes `AES_KEY` and `AES_ENGINE` against FIPS 197. A word of the code stands for four bytes of
the standard (`toWord`) and four columns for a state (`toState`); every operation of the engine is
the operation of the standard under these maps. The key schedule is filled from left to right, so
the words written so far are the ones that the standard has expanded so far.

## Main definitions

* `toWord`, `Columns.toState`
* `Filled` — the first words of a schedule that is being filled.

## Main results

* `keySchedule_eq_keyExpansion` — the key schedule.
* `AesKey.conforms` — the key schedule and the encryption are those of the standard.
-/

namespace EiffelWeb

open Special Word AesCommon AesEngine

/-! ## Bytes -/

/-- The box of the code is the box of the standard. -/
lemma lookup_s_eq_sBox (b : Natural8) : lookup s b = Fips197.sBox b := by
  have hall : ∀ n < 256, Fips197.affine (BitVec.ofNat 8 (Fips197.inverseNat n)) = item s n := by
    decide +kernel
  rw [lookup, ← hall b.toNat b.isLt, ← Fips197.toNat_inverse, BitVec.ofNat_toNat,
    BitVec.setWidth_eq, Fips197.sBox]

/-- The product of the code is the product of the standard, for the factors of the mix. -/
lemma multiplyAndReduce_eq_mul (b : Natural8) :
    multiplyAndReduce b 2 = Fips197.mul 2 b ∧ multiplyAndReduce b 3 = Fips197.mul 3 b := by
  induction b using xor_induction with
  | zero => decide +kernel
  | xor a b ha hb =>
    rw [multiplyAndReduce_xor, multiplyAndReduce_xor, Fips197.mul_xor, Fips197.mul_xor, ha.1, ha.2,
      hb.1, hb.2]
    exact ⟨rfl, rfl⟩
  | bit i hi => interval_cases i <;> decide +kernel

/-! ## Words -/

/-- The word of the standard that a word of the code stands for. -/
def toWord (x : Natural32) : Fips197.Word :=
  ![(x >>> 24).setWidth 8, (x >>> 16).setWidth 8, (x >>> 8).setWidth 8, x.setWidth 8]

lemma toWord_ofBytes (b₀ b₁ b₂ b₃ : Natural8) :
    toWord (ofBytes b₀ b₁ b₂ b₃) = ![b₀, b₁, b₂, b₃] := by
  simp [toWord]

lemma toWord_zero : toWord default = 0 := by
  funext r
  fin_cases r <;> rfl

lemma toWord_xor (x y : Natural32) :
    toWord (x ^^^ y) = Fips197.addWord (toWord x) (toWord y) := by
  obtain ⟨a₀, a₁, a₂, a₃, rfl⟩ := exists_ofBytes x
  obtain ⟨b₀, b₁, b₂, b₃, rfl⟩ := exists_ofBytes y
  rw [ofBytes_xor, toWord_ofBytes, toWord_ofBytes, toWord_ofBytes]
  funext r
  fin_cases r <;> rfl

lemma toWord_subBytes (x : Natural32) : toWord (subBytes x) = Fips197.subWord (toWord x) := by
  obtain ⟨b₀, b₁, b₂, b₃, rfl⟩ := exists_ofBytes x
  rw [subBytes, substitute_ofBytes, toWord_ofBytes, toWord_ofBytes, lookup_s_eq_sBox,
    lookup_s_eq_sBox, lookup_s_eq_sBox, lookup_s_eq_sBox]
  funext r
  fin_cases r <;> rfl

/-- A shift that keeps the sign, masked to a byte. -/
lemma sshiftRight_and_mask (x : Natural32) {n : ℕ} (h : n + 8 ≤ 32) :
    x.sshiftRight n &&& 0xff = x >>> n &&& 0xff := by
  rw [and_mask, and_mask]
  congr 1
  apply BitVec.eq_of_getLsbD_eq
  intro i hi
  simp only [BitVec.getLsbD_setWidth, BitVec.getLsbD_sshiftRight, BitVec.getLsbD_ushiftRight]
  grind

/-- `sub_word` adds up the bytes where `sub_bytes` forms a disjunction. -/
lemma subWord_eq_subBytes (x : Natural32) : subWord x = subBytes x := by
  have hsum (a b c d : Natural8) :
      (((a.setWidth 32 : Natural32) <<< 8 + b.setWidth 32) <<< 8 + c.setWidth 32) <<< 8 +
        d.setWidth 32 = ofBytes a b c d := by
    apply BitVec.eq_of_toNat_eq
    rw [toNat_ofBytes]
    have ha := a.isLt
    have hb := b.isLt
    have hc := c.isLt
    have hd := d.isLt
    simp only [BitVec.toNat_add, BitVec.toNat_shiftLeft, BitVec.toNat_setWidth, Nat.shiftLeft_eq]
    omega
  obtain ⟨b₀, b₁, b₂, b₃, rfl⟩ := exists_ofBytes x
  rw [subBytes, substitute_ofBytes]
  simp only [subWord]
  rw [hsum, sshiftRight_and_mask _ (by omega), sshiftRight_and_mask _ (by omega),
    sshiftRight_and_mask _ (by omega)]
  simp only [toNat_and_mask, byte0_ofBytes, byte1_ofBytes, byte2_ofBytes, byte3_ofBytes]
  rfl

lemma toWord_subWord (x : Natural32) : toWord (subWord x) = Fips197.subWord (toWord x) := by
  rw [subWord_eq_subBytes, toWord_subBytes]

lemma toWord_rotWord (x : Natural32) : toWord (rotWord x) = Fips197.rotWord (toWord x) := by
  obtain ⟨b₀, b₁, b₂, b₃, rfl⟩ := exists_ofBytes x
  have hrot : rotWord (ofBytes b₀ b₁ b₂ b₃) = ofBytes b₁ b₂ b₃ b₀ := by
    apply BitVec.eq_of_getLsbD_eq
    intro i hi
    simp only [rotWord, BitVec.getLsbD_or, BitVec.getLsbD_ushiftRight, BitVec.getLsbD_shiftLeft,
      getLsbD_ofBytes]
    grind
  rw [hrot, toWord_ofBytes, toWord_ofBytes]
  funext r
  fin_cases r <;> rfl

lemma toWord_roundConstant {j : ℕ} (h₁ : 1 ≤ j) (h₂ : j ≤ 10) :
    toWord (item roundConstant j) = Fips197.rcon j := by
  funext r
  interval_cases j <;> fin_cases r <;> decide +kernel

/-- A word of a schedule is read. -/
lemma toWord_item (ks : List Natural32) (j : ℕ) :
    toWord (item ks j) = (ks.map toWord).getD j 0 := by
  rw [item, ← toWord_zero, List.getD_map]

/-! ## The key schedule -/

/-- The first words of the schedule `ks` stand for the words `w`. -/
structure Filled (ks : List Natural32) (w : List Fips197.Word) : Prop where
  words : (ks.take w.length).map toWord = w
  fits : w.length ≤ ks.length

namespace Filled

variable {ks : List Natural32} {w : List Fips197.Word}

/-- A word that was written is read. -/
lemma toWord_item (h : Filled ks w) {j : ℕ} (hj : j < w.length) :
    toWord (item ks j) = w.getD j 0 := by
  rw [← item_take ks hj, EiffelWeb.toWord_item, h.words]

/-- Writing the next word. -/
lemma set (h : Filled ks w) {x : Natural32} {v : Fips197.Word} (hv : toWord x = v)
    (hlt : w.length < ks.length) : Filled (ks.set w.length x) (w ++ [v]) where
  words := by
    rw [List.length_append, List.length_singleton, take_set_self hlt, List.map_append, h.words,
      List.map_singleton, hv]
  fits := by
    rw [List.length_append, List.length_singleton, List.length_set]
    exact hlt

end Filled

/-- A word of the key. -/
lemma toWord_keyWord (key : List Natural8) (t : ℕ) :
    toWord (keyWord key t) = fun r : Fin 4 => key.getD (4 * t + r) 0 := by
  simp only [keyWord]
  rw [ofBytes_of_shifts, toWord_ofBytes]
  funext r
  fin_cases r <;> rfl

/-- The first loop writes the words of the key. -/
lemma filled_key (key : List Natural8) {ks : List Natural32} {n : ℕ} (h : n ≤ ks.length) :
    Filled ((List.range n).foldl (fun ks t => ks.set t (keyWord key t)) ks)
      (Fips197.expandWords n key 0) := by
  induction n with
  | zero => exact ⟨rfl, Nat.zero_le _⟩
  | succ n ih =>
    have hlen : (Fips197.expandWords n key 0).length = n := Fips197.length_expandWords n key 0
    have hset := (ih (by omega)).set (toWord_keyWord key n)
      (by rw [hlen, length_foldl_set fun ks t => List.length_set]; exact h)
    rw [hlen] at hset
    rw [List.range_succ, List.foldl_concat]
    simpa only [Fips197.expandWords, List.range_succ, List.map_append, List.map_singleton]
      using hset

section

variable {nk : ℕ} (key : List Natural8) {ks : List Natural32}

/-- One iteration of the second loop writes the next word. -/
lemma scheduleStep_filled (hnk : nk = 4 ∨ nk = 6 ∨ nk = 8) {n : ℕ} (hn : nk + n < 4 * (nk + 7))
    (hlen : ks.length = 4 * (nk + 7)) (h : Filled ks (Fips197.expandWords nk key n)) :
    Filled (scheduleStep nk ks (nk + n)) (Fips197.expandWords nk key (n + 1)) := by
  have hw : (Fips197.expandWords nk key n).length = nk + n := Fips197.length_expandWords nk key n
  have hprevious : toWord (item ks (nk + n - 1)) =
      (Fips197.expandWords nk key n).getD (nk + n - 1) 0 :=
    h.toWord_item (by omega)
  have hearlier : toWord (item ks n) = (Fips197.expandWords nk key n).getD n 0 :=
    h.toWord_item (by omega)
  have hrcon : toWord (item roundConstant ((nk + n) / nk)) = Fips197.rcon ((nk + n) / nk) := by
    apply toWord_roundConstant
    · exact (Nat.one_le_div_iff (by omega)).mpr (by omega)
    · rcases hnk with rfl | rfl | rfl <;> omega
  have hsix : (nk = 8 ∧ (nk + n) % nk = 4) ↔ (6 < nk ∧ (nk + n) % nk = 4) := by
    omega
  have hset := h.set (x := item ks n ^^^
    if (nk + n) % nk = 0 then
      subWord (rotWord (item ks (nk + n - 1))) ^^^ item roundConstant ((nk + n) / nk)
    else if nk = 8 ∧ (nk + n) % nk = 4 then subWord (item ks (nk + n - 1))
    else item ks (nk + n - 1)) rfl (by omega)
  rw [toWord_xor, hearlier, hw] at hset
  rw [scheduleStep, Nat.add_sub_cancel_left, Fips197.expandWords, Fips197.temp, ← hprevious]
  simp only [← hsix]
  convert hset using 4
  split_ifs
  · rw [toWord_xor, toWord_subWord, toWord_rotWord, hrcon]
  · rw [toWord_subWord]
  · rfl

/-- The second loop writes the rest. -/
lemma filled_schedule (hnk : nk = 4 ∨ nk = 6 ∨ nk = 8) (hlen : ks.length = 4 * (nk + 7))
    (h : Filled ks (Fips197.expandWords nk key 0)) {n : ℕ} (hn : nk + n ≤ 4 * (nk + 7)) :
    Filled ((List.range' nk n).foldl (scheduleStep nk) ks) (Fips197.expandWords nk key n) := by
  induction n with
  | zero => exact h
  | succ n ih =>
    rw [List.range'_1_concat, List.foldl_concat]
    refine scheduleStep_filled key hnk (by omega) ?_ (ih (by omega))
    rw [length_foldl_set (length_scheduleStep nk), hlen]

end

/-- **The key schedule is the key expansion.** -/
lemma keySchedule_eq_keyExpansion {key : List Natural8}
    (h : key.length = 16 ∨ key.length = 24 ∨ key.length = 32) :
    (expandKeyToSchedule key).map toWord = Fips197.keyExpansion key := by
  obtain ⟨nk, hnk, hkey⟩ : ∃ nk, (nk = 4 ∨ nk = 6 ∨ nk = 8) ∧ key.length = 4 * nk :=
    ⟨key.length / 4, by omega, by omega⟩
  have hdiv : key.length / 4 = nk := by omega
  have hshift : key.length >>> 2 = nk := by
    rw [Nat.shiftRight_eq_div_pow]
    omega
  have hfilled : Filled (expandKeyToSchedule key)
      (Fips197.expandWords nk key (4 * (nk + 7) - nk)) := by
    rw [expandKeyToSchedule, copyKeyToMadeSchedule, rounds, hshift, hdiv]
    refine filled_schedule key hnk ?_ (filled_key key ?_) (by omega)
    · rw [length_foldl_set fun ks t => List.length_set, List.length_replicate]
    · rw [List.length_replicate]
      omega
  have hwords := hfilled.words
  rw [Fips197.length_expandWords, List.take_of_length_le] at hwords
  · rw [hwords, Fips197.keyExpansion, Fips197.nr, hdiv]
  · rw [length_expandKeyToSchedule, rounds, hshift]
    omega

/-! ## The state -/

namespace Columns

/-- The state of the standard that four columns stand for. -/
def toState (c : Columns) : Fips197.State := fun r j =>
  ![toWord c.column0, toWord c.column1, toWord c.column2, toWord c.column3] j r

/-- An operation on each column. -/
lemma toState_map {f : Natural32 → Natural32} {g : Fips197.Word → Fips197.Word}
    (h : ∀ x, toWord (f x) = g (toWord x)) (c : Columns) :
    (c.map f).toState = fun r j => g (fun r => c.toState r j) r := by
  funext r j
  fin_cases j <;> exact congrFun (h _) r

lemma toState_subColumns (c : Columns) : c.subColumns.toState = Fips197.subBytes c.toState := by
  rw [subColumns, toState_map toWord_subBytes]
  rfl

/-- `MixColumns` on one column, taken from a state with that column everywhere. -/
def mixWord (w : Fips197.Word) : Fips197.Word := fun r => Fips197.mixColumns (fun i _ => w i) r r

lemma toWord_mixColumn (x : Natural32) : toWord (mixColumn x) = mixWord (toWord x) := by
  obtain ⟨b₀, b₁, b₂, b₃, rfl⟩ := exists_ofBytes x
  rw [mixColumn_ofBytes, toWord_ofBytes, toWord_ofBytes]
  simp only [combine, multiplyAndReduce_one, (multiplyAndReduce_eq_mul _).1,
    (multiplyAndReduce_eq_mul _).2]
  funext r
  fin_cases r
  · rfl
  · show _ = Fips197.mul 2 b₁ ^^^ Fips197.mul 3 b₂ ^^^ b₃ ^^^ b₀
    simp only [Fin.mk_one, Matrix.cons_val_one, Matrix.cons_val_zero]
    ac_rfl
  · show _ = Fips197.mul 2 b₂ ^^^ Fips197.mul 3 b₃ ^^^ b₀ ^^^ b₁
    show b₀ ^^^ b₁ ^^^ Fips197.mul 2 b₂ ^^^ Fips197.mul 3 b₃ = _
    ac_rfl
  · show Fips197.mul 3 b₀ ^^^ b₁ ^^^ b₂ ^^^ Fips197.mul 2 b₃ =
      Fips197.mul 2 b₃ ^^^ Fips197.mul 3 b₀ ^^^ b₁ ^^^ b₂
    ac_rfl

lemma toState_mixColumns (c : Columns) : c.mixColumns.toState = Fips197.mixColumns c.toState := by
  rw [mixColumns, toState_map toWord_mixColumn]
  rfl

lemma toState_shiftRows (c : Columns) : c.shiftRows.toState = Fips197.shiftRows c.toState := by
  obtain ⟨x₀, x₁, x₂, x₃⟩ := c
  obtain ⟨a₀, a₁, a₂, a₃, rfl⟩ := exists_ofBytes x₀
  obtain ⟨b₀, b₁, b₂, b₃, rfl⟩ := exists_ofBytes x₁
  obtain ⟨c₀, c₁, c₂, c₃, rfl⟩ := exists_ofBytes x₂
  obtain ⟨d₀, d₁, d₂, d₃, rfl⟩ := exists_ofBytes x₃
  unfold toState
  simp only [shiftRows, gather_ofBytes, toWord_ofBytes]
  funext r j
  fin_cases r <;> fin_cases j <;> rfl

lemma toState_addRoundKey (ks : List Natural32) (round : ℕ) (c : Columns) :
    (c.addRoundKey ks (4 * round)).toState =
      Fips197.addRoundKey (ks.map toWord) round c.toState := by
  have hindex (j : ℕ) : ((4 * (round : ℤ)) + j).toNat = 4 * round + j := by omega
  funext r j
  rw [Fips197.addRoundKey, ← toWord_item]
  fin_cases j
  · exact congrFun (toWord_xor _ _) r
  all_goals
    simp only [addRoundKey]
    rw [← hindex]
    exact congrFun (toWord_xor _ _) r

/-- The rounds of the loop are those of the standard. -/
lemma toState_encryptedRounds (ks : List Natural32) (c : Columns) (n : ℕ) :
    (encryptedRounds ks c n).toState = Fips197.rounds (ks.map toWord) c.toState n := by
  induction n with
  | zero => exact toState_addRoundKey ks 0 c
  | succ n ih =>
    rw [encryptedRounds, Fips197.rounds, ← ih, ← toState_subColumns, ← toState_shiftRows,
      ← toState_mixColumns, ← toState_addRoundKey, Nat.cast_succ]

/-- The state of a block that is read. -/
lemma toState_unpack (a : List Natural8) (offset : ℕ) :
    (unpack a offset).toState = Fips197.stateOf (slice a offset 16) := by
  unfold toState
  simp only [unpack, asNatural32Be_eq, toWord_ofBytes]
  funext r j
  have hread (i : ℕ) (hi : i < 16) : (slice a offset 16).getD i 0 = item a (offset + i) :=
    item_slice hi
  rw [Fips197.stateOf, hread _ (by omega)]
  fin_cases j <;> fin_cases r <;> rfl

/-- The block of a state that is written. -/
lemma bytes_eq_blockOf (c : Columns) : c.bytes = Fips197.blockOf c.toState := rfl

end Columns

/-! ## Conformance -/

namespace AesKey

/-- **AES keys conform to FIPS 197**: the key schedule is the key expansion of the key, and
`encrypt` writes the output of the cipher. -/
theorem conforms (k : AesKey) :
    k.keySchedule.map toWord = Fips197.keyExpansion k.key ∧
      ∀ (input out : List Natural8) (inOffset outOffset : ℕ), inOffset + 15 < input.length →
        outOffset + 15 < out.length →
        ∃ k', k.encrypt input inOffset out outOffset = some (k', write out outOffset
          (Fips197.cipher (Fips197.keyExpansion k.key) (Fips197.nr k.key)
            (slice input inOffset 16))) ∧ k'.key = k.key := by
  have hschedule : k.keySchedule.map toWord = Fips197.keyExpansion k.key := by
    rw [k.keySchedule_eq, keySchedule_eq_keyExpansion k.valid_lengths]
  refine ⟨hschedule, fun input out inOffset outOffset hin hout => ?_⟩
  have hwork := encryptWork_eq k.length_keySchedule (Columns.unpack input inOffset)
  set c := ((encryptedRounds k.keySchedule (Columns.unpack input inOffset)
    (k.key.length / 4 + 5)).subColumns.shiftRows.addRoundKey k.keySchedule
      (4 * (((k.key.length / 4 + 5 : ℕ) : ℤ) + 1))) with hc
  have hround : 4 * (((k.key.length / 4 + 5 : ℕ) : ℤ) + 1) = 4 * ((Fips197.nr k.key : ℕ) : ℤ) := by
    rw [Fips197.nr]
    omega
  have hbytes : c.bytes = Fips197.cipher (Fips197.keyExpansion k.key) (Fips197.nr k.key)
      (slice input inOffset 16) := by
    rw [hc, hround, Columns.bytes_eq_blockOf, Columns.toState_addRoundKey,
      Columns.toState_shiftRows, Columns.toState_subColumns, Columns.toState_encryptedRounds,
      Columns.toState_unpack, hschedule]
    rfl
  refine ⟨{ k with columns := c }, Option.bind_eq_some_iff.mpr ⟨c, hwork, ?_⟩, rfl⟩
  rw [c.pack_eq (by omega), hbytes]

/-- A 192-bit key and the block at the offset `1` of an array. -/
theorem conforms_offset :
    let k := make (List.replicate 24 0xa5) (by decide)
    let input := (List.range 17).map (BitVec.ofNat 8)
    ∃ k', k.encrypt input 1 (List.replicate 16 0) 0 = some (k', write (List.replicate 16 0) 0
      (Fips197.cipher (Fips197.keyExpansion k.key) (Fips197.nr k.key) (slice input 1 16))) ∧
        k'.key = k.key :=
  (conforms _).2 _ _ 1 0 (by decide) (by decide)

end AesKey

end EiffelWeb
