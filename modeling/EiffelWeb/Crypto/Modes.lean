import Mathlib.Data.List.Basic
import Mathlib.Tactic.Common
import EiffelWeb.Mealy
import EiffelWeb.Crypto.IntegerX
import EiffelWeb.Crypto.Aes.Key

set_option relaxedAutoImplicit false
set_option autoImplicit false

/-!
# Modes of operation

The classes `CBC_ENCRYPTION`, `CBC_DECRYPTION` and so on for `CFB`, `OFB` and `CTR`: each carries a
state from block to block, and encrypts or decrypts one block at a call, from an array into another
one. Each call is stated as what it writes and what it leaves as the state, as functions of the
block that was read; with these the objects of both sides are seen to keep equal states.

## Main definitions

* `BlockTarget` — a block cipher that the modes apply.
* `cbcEncryptBlock`, `cbcDecryptBlock`, `cfbEncryptBlock`, `cfbDecryptBlock`, `ofbBlock`, `ctrBlock`
* `Passage`, `passed` — a message through an encryption object and a decryption object.

## Main results

* `cbcEncryptBlock_eq`, `cbcDecryptBlock_eq`, and so on — what a call does.
* `modes_round_trip` — messages come back in every mode.
* `AesKey.encrypt_eq_encryptBlock`, `AesKey.undoes` — AES keys as targets.
-/

namespace EiffelWeb

open Special

/-! ## Targets -/

/-- A block cipher: `CBC_TARGET`, `CFB_TARGET`, `OFB_TARGET` and `CTR_TARGET`, by its effect on
blocks. -/
structure BlockTarget where
  /-- `block_size`. -/
  blockSize : ℕ
  blockSize_pos : 0 < blockSize
  /-- The block that `encrypt_block` writes for a block. -/
  encrypt : List Natural8 → List Natural8
  length_encrypt (b : List Natural8) : b.length = blockSize → (encrypt b).length = blockSize
  /-- The block that `decrypt_block` writes for a block. -/
  decrypt : List Natural8 → List Natural8
  length_decrypt (b : List Natural8) : b.length = blockSize → (decrypt b).length = blockSize

namespace BlockTarget

variable (t : BlockTarget)

/-- `encrypt_block (in, in_offset, out_array, out_offset)`. -/
def encryptBlock (input : List Natural8) (inOffset : ℕ) (outArray : List Natural8)
    (outOffset : ℕ) : List Natural8 :=
  write outArray outOffset (t.encrypt (slice input inOffset t.blockSize))

/-- `decrypt_block (in, in_offset, out_array, out_offset)`. -/
def decryptBlock (input : List Natural8) (inOffset : ℕ) (outArray : List Natural8)
    (outOffset : ℕ) : List Natural8 :=
  write outArray outOffset (t.decrypt (slice input inOffset t.blockSize))

/-- `decrypt_block` undoes `encrypt_block`. -/
def Undoes : Prop := ∀ b : List Natural8, b.length = t.blockSize → t.decrypt (t.encrypt b) = b

end BlockTarget

/-! ## Exclusive disjunction of blocks -/

/-- The exclusive disjunction of two blocks. -/
def xorBlock (a b : List Natural8) : List Natural8 := List.zipWith (· ^^^ ·) a b

lemma length_xorBlock {a b : List Natural8} {n : ℕ} (ha : a.length = n) (hb : b.length = n) :
    (xorBlock a b).length = n := by
  rw [xorBlock, List.length_zipWith, ha, hb, Nat.min_self]

lemma xorBlock_xorBlock {a b : List Natural8} (h : a.length = b.length) :
    xorBlock a (xorBlock a b) = b := by
  induction a generalizing b with
  | nil => exact (List.length_eq_zero_iff.mp h.symm).symm
  | cons x a ih =>
    obtain ⟨y, b, rfl⟩ : ∃ y b', b = y :: b' := List.exists_cons_of_length_eq_add_one h.symm
    have hxy : x ^^^ (x ^^^ y) = y := by
      rw [← BitVec.xor_assoc, BitVec.xor_self, BitVec.zero_xor]
    have ih' := ih (Nat.succ.inj h)
    simp only [xorBlock, List.zipWith_cons_cons] at ih' ⊢
    rw [hxy, ih']

/-! ## The modes -/

section

variable (t : BlockTarget)

/-- `CBC_ENCRYPTION.make (target_a, iv, iv_offset)` and `CBC_DECRYPTION.make`: the array `last`. -/
def cbcMake (iv : List Natural8) (ivOffset : ℕ) : List Natural8 :=
  copyData (List.replicate iv.length 0) iv ivOffset 0 iv.length

/-- `CBC_ENCRYPTION.encrypt_block`: the array `last` and the array written. -/
def cbcEncryptBlock (last input : List Natural8) (inOffset : ℕ) (outArray : List Natural8)
    (outOffset : ℕ) : List Natural8 × List Natural8 :=
  let last := arrayXor .destination 0 (.other input) inOffset last 0 t.blockSize
  let outArray := t.encryptBlock last 0 outArray outOffset
  let last := copyData last outArray outOffset 0 t.blockSize
  (last, outArray)

/-- `CBC_DECRYPTION.decrypt_block`. -/
def cbcDecryptBlock (last input : List Natural8) (inOffset : ℕ) (outArray : List Natural8)
    (outOffset : ℕ) : List Natural8 × List Natural8 :=
  let outArray := t.decryptBlock input inOffset outArray outOffset
  let outArray := arrayXor (.other last) 0 .destination outOffset outArray outOffset t.blockSize
  let last := copyData last input inOffset 0 t.blockSize
  (last, outArray)

/-- `make (target_a, iv, iv_offset, …)` of the `CFB` and the `OFB` classes: the array `last`. -/
def lastMake (iv : List Natural8) (ivOffset : ℕ) : List Natural8 :=
  copyData (List.replicate t.blockSize 0) iv ivOffset 0 t.blockSize

/-- `CFB_ENCRYPTION.encrypt_block`, with `select_block_size`. -/
def cfbEncryptBlock (selectBlockSize : ℕ) (last input : List Natural8) (inOffset : ℕ)
    (outArray : List Natural8) (outOffset : ℕ) : List Natural8 × List Natural8 :=
  let outArray := t.encryptBlock last 0 outArray outOffset
  let outArray := arrayXor .destination outOffset (.other input) inOffset outArray outOffset
    selectBlockSize
  let last := overlappingMove last selectBlockSize 0 (t.blockSize - selectBlockSize)
  let last := copyData last outArray outOffset (t.blockSize - selectBlockSize) selectBlockSize
  (last, outArray)

/-- `CFB_DECRYPTION.decrypt_block`, with `select_block_size`. -/
def cfbDecryptBlock (selectBlockSize : ℕ) (last input : List Natural8) (inOffset : ℕ)
    (outArray : List Natural8) (outOffset : ℕ) : List Natural8 × List Natural8 :=
  let outArray := t.encryptBlock last 0 outArray outOffset
  let last := overlappingMove last selectBlockSize 0 (t.blockSize - selectBlockSize)
  let last := copyData last input inOffset (t.blockSize - selectBlockSize) selectBlockSize
  let outArray := arrayXor .destination outOffset (.other input) inOffset outArray outOffset
    selectBlockSize
  (last, outArray)

/-- `OFB_ENCRYPTION.encrypt_block`, and `OFB_DECRYPTION.decrypt_block` with the same body. -/
def ofbBlock (last input : List Natural8) (inOffset : ℕ) (outArray : List Natural8)
    (outOffset : ℕ) : List Natural8 × List Natural8 :=
  let outArray := t.encryptBlock last 0 outArray outOffset
  let last := copyData last outArray outOffset 0 t.blockSize
  let outArray := arrayXor (.other last) 0 (.other input) inOffset outArray outOffset t.blockSize
  (last, outArray)

/-- The state of the `CTR` classes: `counter_array` and `counter`. -/
structure CtrState where
  /-- `counter_array`. -/
  counterArray : List Natural8
  /-- `counter`. -/
  counter : ℤ

/-- `CTR_ENCRYPTION.make (target_a, iv)` and `CTR_DECRYPTION.make`. -/
def ctrMake (iv : ℤ) : CtrState := ⟨List.replicate t.blockSize 0, iv⟩

/-- `CTR_ENCRYPTION.encrypt_block`, and `CTR_DECRYPTION.decrypt_block` with the same body. -/
def ctrBlock (st : CtrState) (input : List Natural8) (inOffset : ℕ) (outArray : List Natural8)
    (outOffset : ℕ) : CtrState × List Natural8 :=
  let counterArray := IntegerX.toFixedWidthByteArray st.counter.natAbs st.counterArray 0
    (t.blockSize - 1)
  let outArray := t.encryptBlock counterArray 0 outArray outOffset
  let outArray := arrayXor .destination outOffset (.other input) inOffset outArray outOffset
    t.blockSize
  (⟨counterArray, (st.counter + 1) % 2 ^ (8 * t.blockSize)⟩, outArray)

end

/-! ## What a call does -/

section

variable {t : BlockTarget}

/-- A block that fills the array `last`. -/
lemma copyData_last {last other : List Natural8} {i n : ℕ} (hlast : last.length = n)
    (hi : i + n ≤ other.length) : copyData last other i 0 n = slice other i n := by
  rw [copyData, write_all]
  rw [length_slice hi, hlast]

lemma slice_last {last : List Natural8} {n : ℕ} (hlast : last.length = n) :
    slice last 0 n = last := by
  rw [← hlast, slice_zero_length]

section

variable {last input outArray : List Natural8} {inOffset outOffset : ℕ}
  (hlast : last.length = t.blockSize) (hin : inOffset + t.blockSize ≤ input.length)
  (hout : outOffset + t.blockSize ≤ outArray.length)

include hin hout

/-- The keystream is written, and the block that is read is added to it. -/
lemma arrayXor_encryptBlock {a : List Natural8} (ha : a.length = t.blockSize) :
    arrayXor .destination outOffset (.other input) inOffset
        (t.encryptBlock a 0 outArray outOffset) outOffset t.blockSize =
      write outArray outOffset (xorBlock (t.encrypt a) (slice input inOffset t.blockSize)) := by
  have hlen := t.length_encrypt a ha
  have hlenw : (write outArray outOffset (t.encrypt a)).length = outArray.length :=
    length_write (by omega)
  have hread : slice (write outArray outOffset (t.encrypt a)) outOffset t.blockSize =
      t.encrypt a := by
    have h := slice_write (a := outArray) (u := t.encrypt a) (i := outOffset) (by omega)
    rwa [hlen] at h
  rw [BlockTarget.encryptBlock, slice_last ha,
    arrayXor_eq (XorSource.aligned_destination _) (XorSource.aligned_other _ _ _)
    (by omega) (by simp only [XorSource.items]; omega) hin]
  simp only [XorSource.items]
  rw [hread, write_write_same]
  · rfl
  · rw [List.length_zipWith, hlen, length_slice hin, Nat.min_self]
  · omega

include hlast

/-- `CBC_ENCRYPTION.encrypt_block`: the encrypted sum is written and kept. -/
lemma cbcEncryptBlock_eq :
    cbcEncryptBlock t last input inOffset outArray outOffset =
      (t.encrypt (xorBlock last (slice input inOffset t.blockSize)),
        write outArray outOffset
          (t.encrypt (xorBlock last (slice input inOffset t.blockSize)))) := by
  have hblock : (slice input inOffset t.blockSize).length = t.blockSize := length_slice hin
  have hxor := length_xorBlock hlast hblock
  have hlen := t.length_encrypt _ hxor
  have hsum : arrayXor .destination 0 (.other input) inOffset last 0 t.blockSize =
      xorBlock last (slice input inOffset t.blockSize) := by
    rw [arrayXor_eq (XorSource.aligned_destination _) (XorSource.aligned_other _ _ _) (by omega)
      (by simp only [XorSource.items]; omega) hin]
    simp only [XorSource.items]
    rw [slice_last hlast]
    exact write_all (hxor.trans hlast.symm)
  simp only [cbcEncryptBlock, hsum, BlockTarget.encryptBlock, slice_last hxor]
  rw [copyData_last hxor (by rw [length_write (by omega)]; exact hout)]
  have hread := slice_write (a := outArray)
    (u := t.encrypt (xorBlock last (slice input inOffset t.blockSize))) (i := outOffset) (by omega)
  rw [hlen] at hread
  rw [hread]

/-- `CBC_DECRYPTION.decrypt_block`: the block before is added, and the block read is kept. -/
lemma cbcDecryptBlock_eq :
    cbcDecryptBlock t last input inOffset outArray outOffset =
      (slice input inOffset t.blockSize,
        write outArray outOffset
          (xorBlock last (t.decrypt (slice input inOffset t.blockSize)))) := by
  have hblock : (slice input inOffset t.blockSize).length = t.blockSize := length_slice hin
  have hlen := t.length_decrypt _ hblock
  have hlenw : (write outArray outOffset (t.decrypt (slice input inOffset t.blockSize))).length =
      outArray.length := length_write (by omega)
  have hread := slice_write (a := outArray) (u := t.decrypt (slice input inOffset t.blockSize))
    (i := outOffset) (by omega)
  rw [hlen] at hread
  simp only [cbcDecryptBlock, BlockTarget.decryptBlock]
  rw [copyData_last hlast hin,
    arrayXor_eq (XorSource.aligned_other _ _ _) (XorSource.aligned_destination _)
    (by omega) (by simp only [XorSource.items]; omega) (by simp only [XorSource.items]; omega)]
  simp only [XorSource.items]
  rw [slice_last hlast, hread, write_write_same]
  · rfl
  · rw [List.length_zipWith, hlen, hlast, Nat.min_self]
  · omega

omit hin hout in
/-- A segment of a whole block shifts everything out of `last`. -/
lemma copyData_overlappingMove {other : List Natural8} {i : ℕ}
    (hi : i + t.blockSize ≤ other.length) :
    copyData (overlappingMove last t.blockSize 0 (t.blockSize - t.blockSize)) other i
      (t.blockSize - t.blockSize) t.blockSize = slice other i t.blockSize := by
  have hmove : overlappingMove last t.blockSize 0 (t.blockSize - t.blockSize) = last := by
    simp [overlappingMove, slice]
  rw [hmove, Nat.sub_self, copyData_last hlast hi]

/-- `CFB_ENCRYPTION.encrypt_block` with segments of a whole block. -/
lemma cfbEncryptBlock_eq :
    cfbEncryptBlock t t.blockSize last input inOffset outArray outOffset =
      (xorBlock (t.encrypt last) (slice input inOffset t.blockSize),
        write outArray outOffset
          (xorBlock (t.encrypt last) (slice input inOffset t.blockSize))) := by
  have hlen := length_xorBlock (t.length_encrypt last hlast) (length_slice hin)
  have hread := slice_write (a := outArray)
    (u := xorBlock (t.encrypt last) (slice input inOffset t.blockSize)) (i := outOffset) (by omega)
  rw [hlen] at hread
  simp only [cfbEncryptBlock]
  rw [arrayXor_encryptBlock hin hout hlast, copyData_overlappingMove hlast, hread]
  rw [length_write (by omega)]
  exact hout

/-- `CFB_DECRYPTION.decrypt_block` with segments of a whole block. -/
lemma cfbDecryptBlock_eq :
    cfbDecryptBlock t t.blockSize last input inOffset outArray outOffset =
      (slice input inOffset t.blockSize,
        write outArray outOffset
          (xorBlock (t.encrypt last) (slice input inOffset t.blockSize))) := by
  simp only [cfbDecryptBlock]
  rw [arrayXor_encryptBlock hin hout hlast, copyData_overlappingMove hlast hin]

/-- `OFB_ENCRYPTION.encrypt_block` and `OFB_DECRYPTION.decrypt_block`. -/
lemma ofbBlock_eq :
    ofbBlock t last input inOffset outArray outOffset =
      (t.encrypt last,
        write outArray outOffset
          (xorBlock (t.encrypt last) (slice input inOffset t.blockSize))) := by
  have hlen := t.length_encrypt last hlast
  have hlenw : (write outArray outOffset (t.encrypt last)).length = outArray.length :=
    length_write (by omega)
  have hread := slice_write (a := outArray) (u := t.encrypt last) (i := outOffset) (by omega)
  rw [hlen] at hread
  simp only [ofbBlock, BlockTarget.encryptBlock]
  rw [slice_last hlast, copyData_last hlast (by omega), hread,
    arrayXor_eq (XorSource.aligned_other _ _ _)
    (XorSource.aligned_other _ _ _) (by omega) (by simp only [XorSource.items]; omega) hin]
  simp only [XorSource.items]
  rw [slice_last hlen, write_write_same]
  · rfl
  · rw [List.length_zipWith, hlen, length_slice hin, Nat.min_self]
  · omega

end

/-- The invariant of the `CTR` classes. -/
structure CtrState.Valid (t : BlockTarget) (st : CtrState) : Prop where
  length_counterArray : st.counterArray.length = t.blockSize
  nonneg : 0 ≤ st.counter
  lt_max : st.counter < 2 ^ (8 * t.blockSize)

/-- The array of the counter has the size of a block. -/
lemma CtrState.Valid.length_toFixedWidth {st : CtrState} (h : st.Valid t) :
    (IntegerX.toFixedWidthByteArray st.counter.natAbs st.counterArray 0 (t.blockSize - 1)).length =
      t.blockSize := by
  refine IntegerX.length_toFixedWidthByteArray h.length_counterArray t.blockSize_pos ?_
  have hpow : (256 : ℕ) ^ t.blockSize = 2 ^ (8 * t.blockSize) := by
    rw [Nat.pow_mul]
  have hlt := h.lt_max
  have hnat : (2 : ℤ) ^ (8 * t.blockSize) = ((2 ^ (8 * t.blockSize) : ℕ) : ℤ) := by
    norm_cast
  have hnonneg := h.nonneg
  rw [hpow]
  omega

/-- The state behind a block, which does not depend on the block. -/
def CtrState.next (t : BlockTarget) (st : CtrState) : CtrState where
  counterArray := IntegerX.toFixedWidthByteArray st.counter.natAbs st.counterArray 0
    (t.blockSize - 1)
  counter := (st.counter + 1) % 2 ^ (8 * t.blockSize)

lemma CtrState.Valid.next {st : CtrState} (h : st.Valid t) : (st.next t).Valid t where
  length_counterArray := h.length_toFixedWidth
  nonneg := Int.emod_nonneg _ (by positivity)
  lt_max := Int.emod_lt_of_pos _ (by positivity)

/-- `CTR_ENCRYPTION.encrypt_block` and `CTR_DECRYPTION.decrypt_block`. -/
lemma ctrBlock_eq {st : CtrState} (h : st.Valid t) {input outArray : List Natural8}
    {inOffset outOffset : ℕ} (hin : inOffset + t.blockSize ≤ input.length)
    (hout : outOffset + t.blockSize ≤ outArray.length) :
    ctrBlock t st input inOffset outArray outOffset =
      (st.next t, write outArray outOffset
        (xorBlock (t.encrypt (st.next t).counterArray) (slice input inOffset t.blockSize))) := by
  simp only [ctrBlock]
  rw [arrayXor_encryptBlock hin hout h.length_toFixedWidth]
  rfl

end

/-! ## Messages -/

/-- The way of one block: from an array into a second one by encryption, and into a third one by
decryption, with the conditions of the require clauses. -/
structure Passage (n : ℕ) where
  /-- The array with the block. -/
  input : List Natural8
  /-- The index of the block. -/
  inOffset : ℕ
  /-- The array for the encrypted block. -/
  outArray : List Natural8
  /-- The index for the encrypted block. -/
  outOffset : ℕ
  /-- The array for the decrypted block. -/
  back : List Natural8
  /-- The index for the decrypted block. -/
  backOffset : ℕ
  valid_in : inOffset + n ≤ input.length
  valid_out : outOffset + n ≤ outArray.length
  valid_back : backOffset + n ≤ back.length

/-- The block that goes the way. -/
def Passage.block {n : ℕ} (p : Passage n) : List Natural8 := slice p.input p.inOffset n

/-- The third array with the block in it. -/
def Passage.returned {n : ℕ} (p : Passage n) : List Natural8 := write p.back p.backOffset p.block

/-- The arrays that the decryption object writes, when the blocks go through the encryption object
one after the other and then through the decryption object. -/
def passed {n : ℕ} {σ τ : Type*}
    (encryptBlock : σ → List Natural8 → ℕ → List Natural8 → ℕ → σ × List Natural8)
    (decryptBlock : τ → List Natural8 → ℕ → List Natural8 → ℕ → τ × List Natural8)
    (s : σ) (t : τ) (l : List (Passage n)) : List (List Natural8) :=
  let encrypted := Mealy.run
    (fun s (p : Passage n) => encryptBlock s p.input p.inOffset p.outArray p.outOffset) s l
  Mealy.run (fun t (q : List Natural8 × Passage n) =>
    decryptBlock t q.1 q.2.outOffset q.2.back q.2.backOffset) t (encrypted.zip l)

section

variable {t : BlockTarget} (p : Passage t.blockSize)

lemma Passage.slice_input : slice p.input p.inOffset t.blockSize = p.block := rfl

lemma Passage.length_block : p.block.length = t.blockSize := length_slice p.valid_in

/-- An encrypted block is read. -/
lemma Passage.slice_encrypted {u : List Natural8} (hu : u.length = t.blockSize) :
    slice (write p.outArray p.outOffset u) p.outOffset t.blockSize = u := by
  have h := slice_write (a := p.outArray) (u := u) (i := p.outOffset)
    (by have := p.valid_out; omega)
  rwa [hu] at h

lemma Passage.valid_encrypted {u : List Natural8} (hu : u.length = t.blockSize) :
    p.outOffset + t.blockSize ≤ (write p.outArray p.outOffset u).length := by
  have h := p.valid_out
  rw [length_write (by omega)]
  exact h

end

section

variable {t : BlockTarget} (l : List (Passage t.blockSize))

lemma length_cbcMake (iv : List Natural8) : (cbcMake iv 0).length = iv.length := by
  rw [cbcMake, copyData_last (List.length_replicate ..) (by omega), slice_zero_length]

lemma length_lastMake {iv : List Natural8} (hiv : iv.length = t.blockSize) :
    (lastMake t iv 0).length = t.blockSize := by
  rw [lastMake, copyData_last (List.length_replicate ..) (by omega), slice_last hiv, hiv]

/-- Cipher block chaining: both objects keep the last encrypted block. -/
lemma cbc_passed (ht : t.Undoes) {last : List Natural8} (hlast : last.length = t.blockSize) :
    passed (cbcEncryptBlock t) (cbcDecryptBlock t) last last l = l.map Passage.returned := by
  refine Mealy.run_zip_run (fun a b => a = b ∧ a.length = t.blockSize) ?_ ⟨rfl, hlast⟩ l
  rintro a _ p ⟨rfl, ha⟩
  have hxor := length_xorBlock ha p.length_block
  have hlen := t.length_encrypt _ hxor
  dsimp only
  rw [cbcEncryptBlock_eq ha p.valid_in p.valid_out, p.slice_input]
  dsimp only
  rw [cbcDecryptBlock_eq ha (p.valid_encrypted hlen) p.valid_back, p.slice_encrypted hlen]
  refine ⟨?_, rfl, hlen⟩
  rw [ht _ hxor, xorBlock_xorBlock (ha.trans p.length_block.symm)]
  rfl

/-- Cipher feedback: both objects keep the last encrypted block. -/
lemma cfb_passed {last : List Natural8} (hlast : last.length = t.blockSize) :
    passed (cfbEncryptBlock t t.blockSize) (cfbDecryptBlock t t.blockSize) last last l =
      l.map Passage.returned := by
  refine Mealy.run_zip_run (fun a b => a = b ∧ a.length = t.blockSize) ?_ ⟨rfl, hlast⟩ l
  rintro a _ p ⟨rfl, ha⟩
  have hkey := t.length_encrypt a ha
  have hlen := length_xorBlock hkey p.length_block
  dsimp only
  rw [cfbEncryptBlock_eq ha p.valid_in p.valid_out, p.slice_input]
  dsimp only
  rw [cfbDecryptBlock_eq ha (p.valid_encrypted hlen) p.valid_back, p.slice_encrypted hlen]
  refine ⟨?_, rfl, hlen⟩
  rw [xorBlock_xorBlock (hkey.trans p.length_block.symm)]
  rfl

/-- Output feedback: both objects keep the last block of the keystream. -/
lemma ofb_passed {last : List Natural8} (hlast : last.length = t.blockSize) :
    passed (ofbBlock t) (ofbBlock t) last last l = l.map Passage.returned := by
  refine Mealy.run_zip_run (fun a b => a = b ∧ a.length = t.blockSize) ?_ ⟨rfl, hlast⟩ l
  rintro a _ p ⟨rfl, ha⟩
  have hkey := t.length_encrypt a ha
  have hlen := length_xorBlock hkey p.length_block
  dsimp only
  rw [ofbBlock_eq ha p.valid_in p.valid_out, p.slice_input]
  dsimp only
  rw [ofbBlock_eq ha (p.valid_encrypted hlen) p.valid_back, p.slice_encrypted hlen]
  refine ⟨?_, rfl, hkey⟩
  rw [xorBlock_xorBlock (hkey.trans p.length_block.symm)]
  rfl

/-- Counter mode: both objects keep the counter. -/
lemma ctr_passed {st : CtrState} (hst : st.Valid t) :
    passed (ctrBlock t) (ctrBlock t) st st l = l.map Passage.returned := by
  refine Mealy.run_zip_run (fun a b => a = b ∧ a.Valid t) ?_ ⟨rfl, hst⟩ l
  rintro a _ p ⟨rfl, ha⟩
  have hkey := t.length_encrypt _ ha.next.length_counterArray
  have hlen := length_xorBlock hkey p.length_block
  dsimp only
  rw [ctrBlock_eq ha p.valid_in p.valid_out, p.slice_input]
  dsimp only
  rw [ctrBlock_eq ha (p.valid_encrypted hlen) p.valid_back, p.slice_encrypted hlen]
  refine ⟨?_, rfl, ha.next⟩
  rw [xorBlock_xorBlock (hkey.trans p.length_block.symm)]
  rfl

end

/-- **Messages come back in every mode**: for a target whose `decrypt_block` undoes `encrypt_block`,
an initialisation vector of one block and any sequence of blocks, the decryption object writes the
blocks that the encryption object was given. -/
theorem modes_round_trip (t : BlockTarget) (ht : t.Undoes) (l : List (Passage t.blockSize)) :
    (∀ iv : List Natural8, iv.length = t.blockSize →
      passed (cbcEncryptBlock t) (cbcDecryptBlock t) (cbcMake iv 0) (cbcMake iv 0) l =
        l.map Passage.returned) ∧
    (∀ iv : List Natural8, iv.length = t.blockSize →
      passed (cfbEncryptBlock t t.blockSize) (cfbDecryptBlock t t.blockSize) (lastMake t iv 0)
        (lastMake t iv 0) l = l.map Passage.returned) ∧
    (∀ iv : List Natural8, iv.length = t.blockSize →
      passed (ofbBlock t) (ofbBlock t) (lastMake t iv 0) (lastMake t iv 0) l =
        l.map Passage.returned) ∧
    (∀ iv : ℤ, 0 ≤ iv → iv < 2 ^ (8 * t.blockSize) →
      passed (ctrBlock t) (ctrBlock t) (ctrMake t iv) (ctrMake t iv) l =
        l.map Passage.returned) := by
  refine ⟨fun iv hiv => ?_, fun iv hiv => ?_, fun iv hiv => ?_, fun iv h₀ h₁ => ?_⟩
  · exact cbc_passed l ht ((length_cbcMake iv).trans hiv)
  · exact cfb_passed l (length_lastMake hiv)
  · exact ofb_passed l (length_lastMake hiv)
  · exact ctr_passed l ⟨List.length_replicate .., h₀, h₁⟩

/-! ## AES keys as targets -/

namespace AesKey

variable (k : AesKey)

/-- The columns that `encrypt_work` leaves. -/
def encryptedColumns (c : Columns) : Columns :=
  (encryptedRounds k.keySchedule c (k.key.length / 4 + 5)).subColumns.shiftRows.addRoundKey
    k.keySchedule (4 * ((k.key.length / 4 + 5 : ℕ) + 1))

/-- The columns that `decrypt_work` leaves. -/
def decryptedColumns (c : Columns) : Columns :=
  (decryptWork k.keySchedule (k.keySchedule.length - 1) c).getD c

lemma encryptWork_eq_some (c : Columns) :
    encryptWork k.keySchedule (k.keySchedule.length - 1) c = some (k.encryptedColumns c) :=
  encryptWork_eq k.length_keySchedule c

/-- The loop of the decryption returns from every state. -/
lemma decryptWork_eq_some (c : Columns) :
    decryptWork k.keySchedule (k.keySchedule.length - 1) c = some (k.decryptedColumns c) := by
  have hlen := k.length_keySchedule
  obtain ⟨st, hrun, -⟩ := Loop.run_of_variant (l := decryptLoop k.keySchedule)
    (fun st => ∃ j : ℕ, st.1 = 4 * j) (fun st => st.1.toNat)
    (by
      rintro ⟨i, d⟩ ⟨j, hj⟩ hexit
      have hne : i ≠ 0 := by simpa [decryptLoop] using hexit
      simp only at hj
      exact ⟨_, rfl, ⟨j - 1, by simp only; omega⟩, by simp only; omega⟩)
    (n := k.keySchedule.length)
    (s := ((k.keySchedule.length : ℤ) - 1 - 3 - 4, c.addRoundKey k.keySchedule
      ((k.keySchedule.length : ℤ) - 1 - 3)))
    ⟨k.key.length / 4 + 5, by simp only; omega⟩ (by simp only; omega)
  have hwork : ∃ d, decryptWork k.keySchedule (k.keySchedule.length - 1) c = some d :=
    ⟨_, Option.bind_eq_some_iff.mpr ⟨st, hrun, rfl⟩⟩
  obtain ⟨d, hd⟩ := hwork
  rw [decryptedColumns, hd, Option.getD_some]

/-- An AES key as the target of a mode. -/
def target : BlockTarget where
  blockSize := 16
  blockSize_pos := by decide
  encrypt b := (k.encryptedColumns (Columns.unpack b 0)).bytes
  length_encrypt _ _ := Columns.length_bytes _
  decrypt b := (k.decryptedColumns (Columns.unpack b 0)).bytes
  length_decrypt _ _ := Columns.length_bytes _

/-- A block is unpacked alone. -/
lemma unpack_slice {input : List Natural8} {inOffset : ℕ} (h : inOffset + 16 ≤ input.length) :
    Columns.unpack (slice input inOffset 16) 0 = Columns.unpack input inOffset := by
  apply Columns.unpack_of_slice
  rw [slice_last (length_slice h), Columns.bytes_unpack h]

section

variable {input outArray : List Natural8} {inOffset outOffset : ℕ}
  (hin : inOffset + 16 ≤ input.length) (hout : outOffset + 16 ≤ outArray.length)

include hin hout

/-- `encrypt` is the target's `encrypt_block`. -/
lemma encrypt_eq_encryptBlock : ∃ k', k.encrypt input inOffset outArray outOffset =
    some (k', k.target.encryptBlock input inOffset outArray outOffset) ∧ k'.key = k.key := by
  refine ⟨{ k with columns := k.encryptedColumns (Columns.unpack input inOffset) },
    Option.bind_eq_some_iff.mpr ⟨_, k.encryptWork_eq_some _, ?_⟩, rfl⟩
  rw [Columns.pack_eq _ hout, ← unpack_slice hin]
  rfl

/-- `decrypt` is the target's `decrypt_block`. -/
lemma decrypt_eq_decryptBlock : ∃ k', k.decrypt input inOffset outArray outOffset =
    some (k', k.target.decryptBlock input inOffset outArray outOffset) ∧ k'.key = k.key := by
  refine ⟨{ k with columns := k.decryptedColumns (Columns.unpack input inOffset) },
    Option.bind_eq_some_iff.mpr ⟨_, k.decryptWork_eq_some _, ?_⟩, rfl⟩
  rw [Columns.pack_eq _ hout, ← unpack_slice hin]
  rfl

end

/-- The target of an AES key undoes its encryption. -/
lemma undoes : k.target.Undoes := by
  intro b hb
  have hb' : b.length = 16 := hb
  have hwork := decryptWork_encryptWork k.length_keySchedule (Columns.unpack b 0)
  rw [k.encryptWork_eq_some, Option.bind_some, k.decryptWork_eq_some, Option.some.injEq] at hwork
  have hunpack : Columns.unpack (k.encryptedColumns (Columns.unpack b 0)).bytes 0 =
      k.encryptedColumns (Columns.unpack b 0) := by
    apply Columns.unpack_of_slice
    exact slice_last (Columns.length_bytes _)
  show (k.decryptedColumns
    (Columns.unpack (k.encryptedColumns (Columns.unpack b 0)).bytes 0)).bytes =
    b
  rw [hunpack, hwork, Columns.bytes_unpack (by omega), slice_last hb']

end AesKey

/-- The way of a block of sixteen bytes in the middle of its arrays. -/
def samplePassage (b : Natural8) : Passage 16 where
  input := List.replicate 18 b
  inOffset := 2
  outArray := List.replicate 17 0
  outOffset := 1
  back := List.replicate 16 0
  backOffset := 0
  valid_in := by rw [List.length_replicate]
  valid_out := by decide
  valid_back := by decide

/-- An AES key with 192 bits, two equal blocks, and the greatest counter. -/
theorem modes_round_trip_aes :
    let t := (AesKey.make (List.replicate 24 7) (by decide)).target
    let l : List (Passage t.blockSize) := [samplePassage 5, samplePassage 5]
    passed (cbcEncryptBlock t) (cbcDecryptBlock t) (cbcMake (List.replicate 16 9) 0)
        (cbcMake (List.replicate 16 9) 0) l = l.map Passage.returned ∧
      passed (ctrBlock t) (ctrBlock t) (ctrMake t (2 ^ 128 - 1)) (ctrMake t (2 ^ 128 - 1)) l =
        l.map Passage.returned :=
  have h := modes_round_trip (AesKey.make (List.replicate 24 7) (by decide)).target
    (AesKey.undoes _) [samplePassage 5, samplePassage 5]
  ⟨h.1 _ rfl, h.2.2.2 _ (by decide) (by decide)⟩

end EiffelWeb
