import Mathlib.Data.List.Basic
import Mathlib.Tactic.Common
import EiffelWeb.Crypto.IntegerX
import EiffelWeb.Crypto.Digest.Sha256Conformance

set_option relaxedAutoImplicit false
set_option autoImplicit false

/-!
# HMAC with SHA-256

The class `HMAC_SHA256`. A key is a number, also when it is given as a string: `make_ascii_key`
makes a number of the bytes. The number is made into a block of 64 bytes, from which `ipad` and
`opad` come; the message goes to a digest object that was fed `ipad`.

## Main definitions

* `HmacSha256`, `HmacSha256.make`, `HmacSha256.makeAsciiKey`
* `HmacSha256.finish`, `HmacSha256.reset`

## Main results

* `HmacSha256.make_ipad`, `HmacSha256.make_opad` — the pads, from the block of the key.
* `HmacSha256.hmac_finish` — the result, from the block of the key.
-/

namespace EiffelWeb

open Special

/-- `HMAC_SHA256`. -/
structure HmacSha256 where
  /-- `message_hash`. -/
  messageHash : ShaState Sha256.Chain
  /-- `ipad`. -/
  ipad : List Natural8
  /-- `opad`. -/
  opad : List Natural8
  /-- `hmac`. -/
  hmac : ℕ
  /-- `finished`. -/
  finished : Bool

namespace HmacSha256

/-- The array `result_bytes` of `pad_key (key_a)`. -/
def padKeyBytes (key : ℕ) : List Natural8 :=
  let keyBytes := IntegerX.asBytes key
  copyData (List.replicate 64 0) keyBytes 0 0 keyBytes.length

/-- `pad_key (key_a)`. -/
def padKey (key : ℕ) : ℕ := IntegerX.makeFromBytes (padKeyBytes key)

/-- The array `result_bytes` of `reduce_key (key_a)`: `sink_special` feeds the bytes from the last
one to the first. -/
def reduceKeyBytes (key : ℕ) : List Natural8 :=
  let keyBytes := IntegerX.asBytes key
  let hash := Sha256.functions.sink Sha256.make (.special keyBytes 0 (keyBytes.length - 1))
  (Sha256.doFinal hash (List.replicate 64 0) 0).2

/-- `reduce_key (key_a)`. -/
def reduceKey (key : ℕ) : ℕ := IntegerX.makeFromBytes (reduceKeyBytes key)

/-- The local `reduced_key` of `make (key_a)`. -/
def reducedKey (key : ℕ) : ℕ :=
  if IntegerX.bytes key ≤ 64 then padKey key else reduceKey key

/-- The number of the hexadecimal string of 64 equal bytes. -/
def hexPad (b : Natural8) : ℕ := IntegerX.makeFromBytes (List.replicate 64 b)

/-- A call of a feeding routine: `byte_sink` passes the bytes to `message_hash`. -/
def sink (m : HmacSha256) (s : Sink) : HmacSha256 :=
  { m with messageHash := Sha256.functions.sink m.messageHash s }

/-- `feed_inner_mix`. -/
def feedInnerMix (m : HmacSha256) : HmacSha256 := m.sink (.specialLsb m.ipad 0 63)

/-- `make (key_a)`, where only the absolute value of the number is used. -/
def make (key : ℕ) : HmacSha256 :=
  let reducedKey := reducedKey key
  let ipad := IntegerX.asFixedWidthByteArray (reducedKey ^^^ hexPad 0x36) 64
  let opad := IntegerX.asFixedWidthByteArray (reducedKey ^^^ hexPad 0x5c) 64
  feedInnerMix ⟨Sha256.make, ipad, opad, 0, false⟩

/-- `make_ascii_key (key_a)`, with the bytes of the string. -/
def makeAsciiKey (key : List Natural8) : HmacSha256 := make (IntegerX.makeFromBytes key)

/-- `finish`. -/
def finish (m : HmacSha256) : HmacSha256 :=
  let r := Sha256.doFinal m.messageHash (List.replicate 32 0) 0
  let hashInner := r.2
  let hmacHash := Sha256.functions.sink Sha256.make (.specialLsb m.opad 0 63)
  let hmacHash := Sha256.functions.sink hmacHash (.specialLsb hashInner 0 31)
  let hashOuter := (Sha256.doFinal hmacHash (List.replicate 32 0) 0).2
  { m with messageHash := r.1, hmac := IntegerX.makeFromBytes hashOuter, finished := true }

/-- `reset`. -/
def reset (m : HmacSha256) : HmacSha256 :=
  { m with messageHash := Sha256.reset m.messageHash, finished := false }

/-! ## The block of the key -/

/-- The block of 64 bytes that stands for a key. -/
def keyBlock (key : ℕ) : List Natural8 :=
  if IntegerX.bytes key ≤ 64 then padKeyBytes key else reduceKeyBytes key

lemma length_asBytes (key : ℕ) : (IntegerX.asBytes key).length = IntegerX.bytes key := by
  have hle : (IntegerX.output key).length ≤ IntegerX.bytes key := by
    rw [IntegerX.length_output]
    exact le_max_right _ _
  rw [IntegerX.asBytes, length_write (by rw [List.length_replicate]; omega), List.length_replicate]

lemma length_keyBlock (key : ℕ) : (keyBlock key).length = 64 := by
  rw [keyBlock]
  split_ifs with h
  · rw [padKeyBytes, copyData, slice_zero_length, length_write, List.length_replicate]
    rw [List.length_replicate, length_asBytes]
    omega
  · rw [reduceKeyBytes, ShaFunctions.sink, Sha256.doFinal_feed _ (by decide), length_write,
      List.length_replicate]
    rw [List.length_replicate, Fips180.length_digest]
    decide

/-- Exclusive disjunction with the bytes of a hexadecimal string. -/
lemma asFixedWidthByteArray_xor (key : ℕ) (b : Natural8) :
    IntegerX.asFixedWidthByteArray (reducedKey key ^^^ hexPad b) 64 =
      (keyBlock key).map (· ^^^ b) := by
  have hreduced : reducedKey key = IntegerX.makeFromBytes (keyBlock key) := by
    rw [reducedKey, keyBlock]
    split_ifs <;> rfl
  have hlen := length_keyBlock key
  have hmap : List.zipWith (· ^^^ ·) (keyBlock key) (List.replicate 64 b) =
      (keyBlock key).map (· ^^^ b) := by
    rw [← hlen]
    generalize keyBlock key = l
    induction l with
    | nil => rfl
    | cons x l ih =>
      rw [List.length_cons, List.replicate_succ, List.zipWith_cons_cons, ih, List.map_cons]
  rw [hreduced, hexPad, ← IntegerX.makeFromBytes_xor (by rw [hlen, List.length_replicate]), hmap]
  have hfixed := IntegerX.asFixedWidthByteArray_makeFromBytes (a := (keyBlock key).map (· ^^^ b))
    (List.ne_nil_of_length_pos (by rw [List.length_map, hlen]; decide))
  rwa [List.length_map, hlen] at hfixed

lemma make_ipad (key : ℕ) : (make key).ipad = (keyBlock key).map (· ^^^ 0x36) :=
  asFixedWidthByteArray_xor key 0x36

lemma make_opad (key : ℕ) : (make key).opad = (keyBlock key).map (· ^^^ 0x5c) :=
  asFixedWidthByteArray_xor key 0x5c

/-! ## The result -/

/-- Feeding a whole array. -/
lemma bytes_specialLsb {a : List Natural8} {n : ℕ} (h : a.length = n + 1) :
    (Sink.specialLsb a 0 n).bytes = a := by
  simp only [Sink.bytes]
  rw [map_item_range' (by omega), Nat.sub_zero, ← h, slice_zero_length]

/-- Feeding a whole array from its end. -/
lemma bytes_special {a : List Natural8} (h : a ≠ []) :
    (Sink.special a 0 (a.length - 1)).bytes = a.reverse := by
  have hpos := List.length_pos_iff.mpr h
  have hlen : a.length - 1 + 1 - 0 = a.length := by omega
  simp only [Sink.bytes]
  rw [List.map_reverse, hlen, map_item_range' (by omega), slice_zero_length]

/-- The digest of a message, written to an array of its size. -/
lemma doFinal_digest (l : List Natural8) :
    (Sha256.doFinal (Sha256.functions.feed Sha256.make l) (List.replicate 32 0) 0).2 =
      Fips180.digest l := by
  rw [Sha256.doFinal_feed l (by decide), write_all]
  rw [Fips180.length_digest, List.length_replicate]

/-- The digest of the key that `reduce_key` pads: of its bytes without leading zero bytes, from the
last one to the first. -/
lemma reduceKeyBytes_eq (key : ℕ) : reduceKeyBytes key =
    Fips180.digest (IntegerX.asBytes key).reverse ++ List.replicate 32 0 := by
  have hne : IntegerX.asBytes key ≠ [] :=
    List.ne_nil_of_length_pos (by rw [length_asBytes, IntegerX.bytes]; omega)
  rw [reduceKeyBytes, ShaFunctions.sink, bytes_special hne, Sha256.doFinal_feed _ (by decide)]
  generalize IntegerX.asBytes key = a
  rw [write, List.take_zero, List.nil_append, Fips180.length_digest, List.drop_replicate]

/-- The key that `pad_key` pads. -/
lemma padKeyBytes_eq (key : ℕ) : padKeyBytes key =
    IntegerX.asBytes key ++ List.replicate (64 - IntegerX.bytes key) 0 := by
  rw [padKeyBytes, copyData, slice_zero_length, write, List.take_zero, List.nil_append,
    List.drop_replicate, length_asBytes, Nat.zero_add]

/-- What `message_hash` is fed before the message. -/
lemma make_messageHash (key : ℕ) : (make key).messageHash =
    Sha256.functions.feed Sha256.make ((keyBlock key).map (· ^^^ 0x36)) := by
  have hlen : ((keyBlock key).map (· ^^^ (0x36 : Natural8))).length = 63 + 1 := by
    rw [List.length_map, length_keyBlock]
  have hpad := make_ipad key
  have hfeed : (make key).messageHash =
      Sha256.functions.feed Sha256.make (Sink.specialLsb (make key).ipad 0 63).bytes := rfl
  rw [hfeed, hpad, bytes_specialLsb hlen]

/-- The state of the object after the routines `l` have fed a message. -/
lemma foldl_sink (m : HmacSha256) (l : List Sink) :
    l.foldl sink m = { m with
      messageHash := Sha256.functions.feed m.messageHash (l.flatMap Sink.bytes) } := by
  induction l generalizing m with
  | nil => rfl
  | cons s l ih =>
    rw [List.foldl_cons, ih, List.flatMap_cons]
    simp only [sink, ShaFunctions.sink, ShaFunctions.feed, List.foldl_append]

/-- What `finish` computes from the digest of the inner message. -/
lemma hmac_finish_eq (m : HmacSha256) (hopad : m.opad.length = 64) :
    m.finish.hmac = IntegerX.makeFromBytes (Fips180.digest (m.opad ++
      (Sha256.doFinal m.messageHash (List.replicate 32 0) 0).2)) := by
  have hinner : (Sha256.doFinal m.messageHash (List.replicate 32 0) 0).2.length = 31 + 1 := by
    simp only [Sha256.doFinal]
    rw [Sha256.writeChain_eq _ (by decide), length_write (Nat.le_refl _), List.length_replicate]
  simp only [finish, ShaFunctions.sink]
  rw [bytes_specialLsb (n := 63) hopad, bytes_specialLsb hinner]
  have happend (a b : List Natural8) :
      Sha256.functions.feed (Sha256.functions.feed Sha256.make a) b =
        Sha256.functions.feed Sha256.make (a ++ b) := List.foldl_append.symm
  rw [happend, doFinal_digest]

/-- **The result**, from the block of the key. -/
lemma hmac_finish (key : ℕ) (l : List Sink) :
    (l.foldl sink (make key)).finish.hmac = IntegerX.makeFromBytes (Fips180.digest
      ((keyBlock key).map (· ^^^ 0x5c) ++ Fips180.digest
        ((keyBlock key).map (· ^^^ 0x36) ++ l.flatMap Sink.bytes))) := by
  have happend (a b : List Natural8) :
      Sha256.functions.feed (Sha256.functions.feed Sha256.make a) b =
        Sha256.functions.feed Sha256.make (a ++ b) := List.foldl_append.symm
  have hopad : (l.foldl sink (make key)).opad = (keyBlock key).map (· ^^^ 0x5c) := by
    rw [foldl_sink, make_opad]
  rw [hmac_finish_eq _ (by rw [hopad, List.length_map, length_keyBlock]), hopad, foldl_sink]
  simp only
  rw [make_messageHash, happend, doFinal_digest]

end HmacSha256

end EiffelWeb
