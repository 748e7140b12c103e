import Mathlib.Data.List.Basic
import Mathlib.Tactic.Common
import EiffelWeb.Loop
import EiffelWeb.Crypto.Aes.Engine

set_option relaxedAutoImplicit false
set_option autoImplicit false

/-!
# AES keys

The class `AES_KEY`: the key schedule, and the encryption and the decryption of a block. The loops
of `encrypt_work` and `decrypt_work` walk the schedule in opposite directions. Decryption is
followed through the states of the encryption: before each of its rounds it has the state that the
encryption had, with the bytes substituted and the rows shifted.

The fields `two_table` to `fourteen_table` are filled by `make_tables` and never read; they are left
out.

## Main definitions

* `AesKey` — a key with its schedule and the state of the engine.
* `AesKey.encrypt`, `AesKey.decrypt`
* `encryptedRounds` — the state after a number of rounds of the encryption.

## Main results

* `encryptWork_eq`, `decryptWork_encryptWork` — the loops.
* `AesKey.decrypt_encrypt` — decryption gives the block back.
-/

namespace EiffelWeb

open Special Word AesCommon AesEngine

/-! ## The key schedule -/

/-- `round_constant`. -/
def roundConstant : List Natural32 :=
  [0x00000000, 0x01000000, 0x02000000, 0x04000000, 0x08000000, 0x10000000, 0x20000000, 0x40000000,
    0x80000000, 0x1b000000, 0x36000000]

/-- `sub_word (x_a)`: the local `x` is an `INTEGER_32`, whose shifts keep the sign. -/
def subWord (xA : Natural32) : Natural32 :=
  let x := xA
  let result := (item s (x.sshiftRight 24 &&& 0xff).toNat).setWidth 32
  let result := result <<< 8
  let result := result + (item s (x.sshiftRight 16 &&& 0xff).toNat).setWidth 32
  let result := result <<< 8
  let result := result + (item s (x.sshiftRight 8 &&& 0xff).toNat).setWidth 32
  let result := result <<< 8
  result + (item s (x &&& 0xff).toNat).setWidth 32

/-- `rot_word (x)`. -/
def rotWord (x : Natural32) : Natural32 := x >>> 24 ||| x <<< 8

/-- The word that the first loop of `copy_key_to_made_schedule` writes at the index `t`. -/
def keyWord (key : List Natural8) (t : ℕ) : Natural32 :=
  let sub1 := (item key (4 * t)).setWidth 32 <<< 24
  let sub2 := (item key (4 * t + 1)).setWidth 32 <<< 16
  let sub3 := (item key (4 * t + 2)).setWidth 32 <<< 8
  let sub4 := (item key (4 * t + 3)).setWidth 32
  sub1 ||| sub2 ||| sub3 ||| sub4

/-- One iteration of the second loop of `copy_key_to_made_schedule`. -/
def scheduleStep (keyWordCount : ℕ) (keySchedule : List Natural32) (i : ℕ) : List Natural32 :=
  let temp := item keySchedule (i - 1)
  let temp :=
    if i % keyWordCount = 0 then
      subWord (rotWord temp) ^^^ item roundConstant (i / keyWordCount)
    else if keyWordCount = 8 ∧ i % keyWordCount = 4 then subWord temp
    else temp
  keySchedule.set i (item keySchedule (i - keyWordCount) ^^^ temp)

/-- `copy_key_to_made_schedule (key_a, schedule_count, key_word_count)`. -/
def copyKeyToMadeSchedule (key : List Natural8) (scheduleCount keyWordCount : ℕ) :
    List Natural32 :=
  let keySchedule := List.replicate scheduleCount 0
  let keySchedule := (List.range (key.length / 4)).foldl (fun ks t => ks.set t (keyWord key t))
    keySchedule
  let i := key.length >>> 2
  (List.range' i (scheduleCount - i)).foldl (scheduleStep keyWordCount) keySchedule

/-- `rounds`. -/
def rounds (key : List Natural8) : ℕ := key.length >>> 2 + 6

/-- `copy_key_to_schedule (key_a)`, which is all that `expand_key_to_schedule` calls. -/
def expandKeyToSchedule (key : List Natural8) : List Natural32 :=
  copyKeyToMadeSchedule key (4 * (rounds key + 1)) (key.length / 4)

lemma length_scheduleStep (nk : ℕ) (ks : List Natural32) (i : ℕ) :
    (scheduleStep nk ks i).length = ks.length :=
  List.length_set

lemma length_expandKeyToSchedule (key : List Natural8) :
    (expandKeyToSchedule key).length = 4 * (rounds key + 1) := by
  rw [expandKeyToSchedule, copyKeyToMadeSchedule, length_foldl_set (length_scheduleStep _),
    length_foldl_set fun ks t => List.length_set, List.length_replicate]

/-! ## The engine's loops -/

/-- The loop of `encrypt_work`, over the index and the columns. -/
def encryptLoop (keySchedule : List Natural32) (maxIndex : ℤ) : Loop (ℤ × Columns) where
  exit st := decide (maxIndex - 4 ≤ st.1)
  body st :=
    let c := st.2.subColumns
    let c := c.shiftRows
    let c := c.mixColumns
    some (st.1 + 4, c.addRoundKey keySchedule st.1)

/-- `encrypt_work (max_index)`. -/
def encryptWork (keySchedule : List Natural32) (maxIndex : ℤ) (c : Columns) : Option Columns := do
  let c := c.addRoundKey keySchedule 0
  let (index, c) ← (encryptLoop keySchedule maxIndex).run keySchedule.length (4, c)
  let c := c.subColumns
  let c := c.shiftRows
  some (c.addRoundKey keySchedule index)

/-- The loop of `decrypt_work`, over the index and the columns. -/
def decryptLoop (keySchedule : List Natural32) : Loop (ℤ × Columns) where
  exit st := decide (st.1 = 0)
  body st :=
    let c := st.2.invShiftRows
    let c := c.invSubColumns
    let c := c.addRoundKey keySchedule st.1
    some (st.1 - 4, c.invMixColumns)

/-- `decrypt_work (max_index)`. -/
def decryptWork (keySchedule : List Natural32) (maxIndex : ℤ) (c : Columns) : Option Columns := do
  let index := maxIndex - 3
  let c := c.addRoundKey keySchedule index
  let (index, c) ← (decryptLoop keySchedule).run keySchedule.length (index - 4, c)
  let c := c.invShiftRows
  let c := c.invSubColumns
  some (c.addRoundKey keySchedule index)

/-- The state after the first `n` rounds of the encryption, from the state `c` before them. -/
def encryptedRounds (keySchedule : List Natural32) (c : Columns) : ℕ → Columns
  | 0 => c.addRoundKey keySchedule 0
  | n + 1 => (encryptedRounds keySchedule c n).subColumns.shiftRows.mixColumns.addRoundKey
      keySchedule (4 * (n + 1))

/-- The loop of the decryption undoes the rounds of the encryption. -/
lemma decryptLoop_run (keySchedule : List Natural32) (c : Columns) {k fuel : ℕ} (hfuel : k ≤ fuel) :
    (decryptLoop keySchedule).run fuel
        (4 * (k : ℤ), (encryptedRounds keySchedule c k).subColumns.shiftRows) =
      some (0, (encryptedRounds keySchedule c 0).subColumns.shiftRows) := by
  induction k generalizing fuel with
  | zero => exact Loop.run_of_exit rfl fuel
  | succ k ih =>
    obtain ⟨fuel, rfl⟩ : ∃ m, fuel = m + 1 := ⟨fuel - 1, by omega⟩
    have hexit : (decryptLoop keySchedule).exit (4 * ((k + 1 : ℕ) : ℤ),
        (encryptedRounds keySchedule c (k + 1)).subColumns.shiftRows) = false := by
      simp only [decryptLoop, decide_eq_false_iff_not]
      omega
    have hbody : (decryptLoop keySchedule).body (4 * ((k + 1 : ℕ) : ℤ),
        (encryptedRounds keySchedule c (k + 1)).subColumns.shiftRows) =
          some (4 * (k : ℤ), (encryptedRounds keySchedule c k).subColumns.shiftRows) := by
      simp only [decryptLoop, Columns.invShiftRows_shiftRows, Columns.invSubColumns_subColumns]
      rw [encryptedRounds, Nat.cast_succ, Columns.addRoundKey_addRoundKey,
        Columns.invMixColumns_mixColumns]
      congr 2
      omega
    rw [Loop.run_succ hexit hbody, ih (by omega)]

section

variable {keySchedule : List Natural32} {n : ℕ} (hlen : keySchedule.length = 4 * (n + 2))

include hlen

/-- The loop of the encryption makes `n` rounds, where the schedule has keys for `n + 2`. -/
lemma encryptLoop_run (c : Columns) {k fuel : ℕ} (hk : k ≤ n) (hfuel : n - k ≤ fuel) :
    (encryptLoop keySchedule (keySchedule.length - 1)).run fuel
        (4 * ((k : ℤ) + 1), encryptedRounds keySchedule c k) =
      some (4 * ((n : ℤ) + 1), encryptedRounds keySchedule c n) := by
  induction fuel generalizing k with
  | zero =>
    obtain rfl : k = n := by omega
    exact Loop.run_of_exit (by simp only [encryptLoop, decide_eq_true_eq]; omega) 0
  | succ fuel ih =>
    rcases Nat.lt_or_ge k n with hlt | hge
    · have hexit : (encryptLoop keySchedule (keySchedule.length - 1)).exit
          (4 * ((k : ℤ) + 1), encryptedRounds keySchedule c k) = false := by
        simp only [encryptLoop, decide_eq_false_iff_not]
        omega
      have hbody : (encryptLoop keySchedule (keySchedule.length - 1)).body
          (4 * ((k : ℤ) + 1), encryptedRounds keySchedule c k) =
            some (4 * (((k + 1 : ℕ) : ℤ) + 1), encryptedRounds keySchedule c (k + 1)) := by
        simp only [encryptLoop, encryptedRounds, Option.some.injEq, Prod.mk.injEq, and_true]
        omega
      rw [Loop.run_succ hexit hbody]
      exact ih (by omega) (by omega)
    · obtain rfl : k = n := by omega
      exact Loop.run_of_exit (by simp only [encryptLoop, decide_eq_true_eq]; omega) _

/-- **The encryption of a state.** -/
lemma encryptWork_eq (c : Columns) :
    encryptWork keySchedule (keySchedule.length - 1) c =
      some ((encryptedRounds keySchedule c n).subColumns.shiftRows.addRoundKey keySchedule
        (4 * (n + 1))) := by
  have hrun := encryptLoop_run hlen c (Nat.zero_le n) (show n - 0 ≤ keySchedule.length by omega)
  rw [encryptWork]
  exact Option.bind_eq_some_iff.mpr ⟨_, hrun, rfl⟩

/-- **Decrypting an encrypted state.** -/
lemma decryptWork_encryptWork (c : Columns) :
    (encryptWork keySchedule (keySchedule.length - 1) c).bind
      (decryptWork keySchedule (keySchedule.length - 1)) = some c := by
  have hindex : (keySchedule.length : ℤ) - 1 - 3 = 4 * (n + 1) := by
    omega
  rw [encryptWork_eq hlen, Option.bind_some, decryptWork, hindex,
    Columns.addRoundKey_addRoundKey]
  have hrun := decryptLoop_run keySchedule c (show n ≤ keySchedule.length by omega)
  have hstart : (4 * ((n : ℤ) + 1) - 4) = 4 * n := by omega
  rw [hstart]
  refine Option.bind_eq_some_iff.mpr ⟨_, hrun, ?_⟩
  simp only [Columns.invShiftRows_shiftRows, Columns.invSubColumns_subColumns]
  rw [encryptedRounds, Columns.addRoundKey_addRoundKey]

end

/-! ## Keys -/

/-- `AES_KEY`: the key, its schedule, and the state of the engine. -/
structure AesKey where
  /-- `key`. -/
  key : List Natural8
  /-- The precondition of `make`. -/
  valid_lengths : key.length = 16 ∨ key.length = 24 ∨ key.length = 32
  /-- `key_schedule`. -/
  keySchedule : List Natural32
  keySchedule_eq : keySchedule = expandKeyToSchedule key
  /-- `column_0` to `column_3`. -/
  columns : Columns

namespace AesKey

/-- `make (key_a)`. -/
def make (key : List Natural8)
    (h : key.length = 16 ∨ key.length = 24 ∨ key.length = 32) : AesKey :=
  ⟨key, h, expandKeyToSchedule key, rfl, ⟨0, 0, 0, 0⟩⟩

/-- `encrypt (in, in_offset, out_array, out_offset)`: the key object and the array written. -/
def encrypt (k : AesKey) (input : List Natural8) (inOffset : ℕ) (outArray : List Natural8)
    (outOffset : ℕ) : Option (AesKey × List Natural8) := do
  let c := Columns.unpack input inOffset
  let c ← encryptWork k.keySchedule (k.keySchedule.length - 1) c
  some ({ k with columns := c }, c.pack outArray outOffset)

/-- `decrypt (in, in_offset, out_array, out_offset)`: the key object and the array written. -/
def decrypt (k : AesKey) (input : List Natural8) (inOffset : ℕ) (outArray : List Natural8)
    (outOffset : ℕ) : Option (AesKey × List Natural8) := do
  let c := Columns.unpack input inOffset
  let c ← decryptWork k.keySchedule (k.keySchedule.length - 1) c
  some ({ k with columns := c }, c.pack outArray outOffset)

/-- The schedule has a key for every round and one more. -/
lemma length_keySchedule (k : AesKey) : k.keySchedule.length = 4 * (k.key.length / 4 + 5 + 2) := by
  rw [k.keySchedule_eq, length_expandKeyToSchedule, rounds, Nat.shiftRight_eq_div_pow]

/-- **Decryption undoes encryption**, also by another object with the same key: the sixteen bytes of
the block come back, and nothing else of the array is written. -/
theorem decrypt_encrypt (k k₂ : AesKey) (hkey : k₂.key = k.key) {input out out' : List Natural8}
    {inOffset outOffset outOffset' : ℕ} (hin : inOffset + 15 < input.length)
    (hout : outOffset + 15 < out.length) (hout' : outOffset' + 15 < out'.length) :
    ∃ k' a k₂' a', k.encrypt input inOffset out outOffset = some (k', a) ∧ k'.key = k.key ∧
      k₂.decrypt a outOffset out' outOffset' = some (k₂', a') ∧ k₂'.key = k.key ∧
      a' = write out' outOffset' (slice input inOffset 16) := by
  have hks : k₂.keySchedule = k.keySchedule := by
    rw [k₂.keySchedule_eq, k.keySchedule_eq, hkey]
  have hwork := decryptWork_encryptWork k.length_keySchedule (Columns.unpack input inOffset)
  obtain ⟨c, henc, hdec⟩ := Option.bind_eq_some_iff.mp hwork
  refine ⟨{ k with columns := c }, c.pack out outOffset,
    { k₂ with columns := Columns.unpack input inOffset },
    (Columns.unpack input inOffset).pack out' outOffset', ?_, rfl, ?_, hkey, ?_⟩
  · rw [encrypt]
    exact Option.bind_eq_some_iff.mpr ⟨c, henc, rfl⟩
  · have hunpack : Columns.unpack (c.pack out outOffset) outOffset = c := by
      apply Columns.unpack_of_slice
      rw [c.pack_eq (by omega)]
      exact slice_write (by rw [Columns.length_bytes]; omega)
    rw [← hks] at hdec
    rw [decrypt, hunpack]
    exact Option.bind_eq_some_iff.mpr ⟨_, hdec, rfl⟩
  · rw [Columns.pack_eq _ (by omega), Columns.bytes_unpack (by omega)]

/-- A 256-bit key and the block at the offset `2` of an array. -/
theorem decrypt_encrypt_offset :
    let k := make (List.replicate 32 0x5a) (by decide)
    let input := (List.range 18).map (BitVec.ofNat 8)
    ∃ k' a k₂' a', k.encrypt input 2 (List.replicate 17 0) 1 = some (k', a) ∧ k'.key = k.key ∧
      k.decrypt a 1 (List.replicate 16 0) 0 = some (k₂', a') ∧ k₂'.key = k.key ∧
      a' = write (List.replicate 16 0) 0 (slice input 2 16) :=
  decrypt_encrypt _ _ rfl (by decide) (by decide) (by decide)

end AesKey

end EiffelWeb
