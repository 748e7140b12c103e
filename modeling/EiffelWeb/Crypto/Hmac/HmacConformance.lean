import Mathlib.Data.List.Basic
import Mathlib.Tactic.Common
import EiffelWeb.Crypto.Hmac.HmacSha256

set_option relaxedAutoImplicit false
set_option autoImplicit false

/-!
# HMAC with SHA-256 and the standard

The class `HMAC_SHA256` against RFC 2104. The class computes the standard's function of a block of
64 bytes, so everything depends on the block that it makes of a key. On the way through a number the
key loses its leading zero bytes, and `reduce_key` hashes its bytes from the last one to the first.
The block is right for keys of at most 64 bytes that do not begin with a zero byte; of the longer
keys it is right for those that are the same from both ends, like the repeated bytes of the tests.

## Main definitions

* `Rfc2104.keyBlock`, `Rfc2104.hmac` — the standard.
* `HmacSha256.KeyAgrees` — the keys whose block is right.

## Main results

* `HmacSha256.keyBlock_eq_iff` — exactly these keys have the right block.
* `HmacSha256.keyAgrees_of_reverse_eq` — longer keys that are the same from both ends.
* `HmacSha256.hmac_eq_iff` — the result is right for exactly these keys, but for collisions of the
  digest.
-/

/-! ## The standard -/

namespace Rfc2104

/-- The block of a key: padded with zero bytes to 64, and hashed before when it is longer. -/
def keyBlock (k : List Fips180.Byte) : List Fips180.Byte :=
  if k.length ≤ 64 then k ++ List.replicate (64 - k.length) 0
  else Fips180.digest k ++ List.replicate 32 0

/-- The message of the outer digest, for a block of the key. -/
def outerMessage (block m : List Fips180.Byte) : List Fips180.Byte :=
  block.map (· ^^^ 0x5c) ++ Fips180.digest (block.map (· ^^^ 0x36) ++ m)

/-- The number of a list of bytes, the most significant first. -/
def value (l : List Fips180.Byte) : ℕ := Nat.ofDigits 256 (l.reverse.map BitVec.toNat)

/-- The value of `HMAC`. -/
def hmac (k m : List Fips180.Byte) : ℕ := value (Fips180.digest (outerMessage (keyBlock k) m))

end Rfc2104

namespace EiffelWeb

open Special

namespace HmacSha256

/-! ## Blocks of keys -/

/-- The block of a key with at most 64 bytes behind the leading zero bytes. -/
lemma keyBlock_of_le {k : List Natural8} (h : (IntegerX.strip k).length ≤ 64) :
    keyBlock (IntegerX.makeFromBytes k) =
      IntegerX.strip k ++ List.replicate (64 - (IntegerX.strip k).length) 0 := by
  have hbytes := IntegerX.bytes_makeFromBytes k
  rw [keyBlock, if_pos (by omega), padKeyBytes_eq, IntegerX.asBytes_makeFromBytes, hbytes]
  split_ifs with hnil
  · rw [hnil]
    rfl
  · have hpos := List.length_pos_iff.mpr hnil
    rw [Nat.max_eq_right hpos]

/-- The block of a key with more bytes. -/
lemma keyBlock_of_lt {k : List Natural8} (h : 64 < (IntegerX.strip k).length) :
    keyBlock (IntegerX.makeFromBytes k) =
      Fips180.digest (IntegerX.strip k).reverse ++ List.replicate 32 0 := by
  have hbytes := IntegerX.bytes_makeFromBytes k
  have hne : IntegerX.strip k ≠ [] := List.ne_nil_of_length_pos (by omega)
  rw [keyBlock, if_neg (by omega), reduceKeyBytes_eq, IntegerX.asBytes_makeFromBytes, if_neg hne]

/-- The keys whose block is right. A key of at most 64 bytes does not begin with a zero byte, or has
no other bytes. A longer key has the digest of its bytes in the other order, without leading zero
bytes; when at most 64 bytes are left of it, these are the digest. -/
def KeyAgrees (k : List Natural8) : Prop :=
  if k.length ≤ 64 then k.head? ≠ some 0 ∨ ∀ b ∈ k, b = 0
  else if (IntegerX.strip k).length ≤ 64 then
    IntegerX.strip k ++ List.replicate (64 - (IntegerX.strip k).length) 0 =
      Fips180.digest k ++ List.replicate 32 0
  else Fips180.digest (IntegerX.strip k).reverse = Fips180.digest k

/-- Keys of at most 64 bytes. -/
lemma padded_strip_eq_iff {k : List Natural8} (h : k.length ≤ 64) :
    IntegerX.strip k ++ List.replicate (64 - (IntegerX.strip k).length) 0 =
      k ++ List.replicate (64 - k.length) 0 ↔ k.head? ≠ some 0 ∨ ∀ b ∈ k, b = 0 := by
  constructor
  · intro heq
    by_cases hnil : IntegerX.strip k = []
    · exact Or.inr (IntegerX.strip_eq_nil.mp hnil)
    · left
      intro hhead
      obtain ⟨k', rfl⟩ : ∃ k', k = 0 :: k' := ⟨k.tail, List.eq_cons_of_mem_head? hhead⟩
      have hfirst := congrArg List.head? heq
      rw [List.head?_append_of_ne_nil _ hnil, List.head?_eq_some_head hnil] at hfirst
      exact IntegerX.head_strip_ne_zero hnil (Option.some.inj hfirst)
  · rintro (hhead | hzeros)
    · cases k with
      | nil => rfl
      | cons b k' =>
        have hb : b ≠ 0 := fun hb => hhead (by rw [hb]; rfl)
        rw [IntegerX.strip_of_head_ne_zero hb]
    · rw [IntegerX.strip_eq_nil.mpr hzeros, List.eq_replicate_iff.mpr ⟨rfl, hzeros⟩,
        List.length_replicate, List.replicate_append_replicate]
      simp only [List.nil_append, List.length_nil]
      congr 1
      omega

/-- **Exactly these keys have the right block.** -/
lemma keyBlock_eq_iff (k : List Natural8) :
    keyBlock (IntegerX.makeFromBytes k) = Rfc2104.keyBlock k ↔ KeyAgrees k := by
  have hle := IntegerX.length_strip_le k
  rw [KeyAgrees, Rfc2104.keyBlock]
  split_ifs with h₁ h₂
  · rw [keyBlock_of_le (by omega), padded_strip_eq_iff h₁]
  · rw [keyBlock_of_le h₂]
  · rw [keyBlock_of_lt (by omega), List.append_left_inj]

/-- A longer key that is the same from both ends has the right block. -/
lemma keyAgrees_of_reverse_eq {k : List Natural8} (hlen : 64 < k.length) (hhead : k.head? ≠ some 0)
    (hrev : k.reverse = k) : KeyAgrees k := by
  cases k with
  | nil => exact absurd hlen (by decide)
  | cons b k' =>
    have hb : b ≠ 0 := fun hb => hhead (by rw [hb]; rfl)
    rw [KeyAgrees, if_neg (by omega), IntegerX.strip_of_head_ne_zero hb, if_neg (by omega), hrev]

/-! ## Results -/

lemma value_eq (l : List Natural8) : Rfc2104.value l = IntegerX.makeFromBytes l :=
  (IntegerX.makeFromBytes_eq_ofDigits l).symm

/-- The number of a digest determines the digest. -/
lemma makeFromBytes_digest_inj {x y : List Natural8}
    (h : IntegerX.makeFromBytes (Fips180.digest x) = IntegerX.makeFromBytes (Fips180.digest y)) :
    Fips180.digest x = Fips180.digest y := by
  have hback (z : List Natural8) :
      IntegerX.asFixedWidthByteArray (IntegerX.makeFromBytes (Fips180.digest z)) 32 =
        Fips180.digest z := by
    have hfixed := IntegerX.asFixedWidthByteArray_makeFromBytes (a := Fips180.digest z)
      (List.ne_nil_of_length_pos (by rw [Fips180.length_digest]; decide))
    rwa [Fips180.length_digest] at hfixed
  rw [← hback x, h, hback y]

/-- Different blocks have different outer messages. -/
lemma outerMessage_inj {b b' m m' : List Natural8} (hlen : b.length = b'.length)
    (h : Rfc2104.outerMessage b m = Rfc2104.outerMessage b' m') : b = b' := by
  have hmap := (List.append_inj h (by rw [List.length_map, List.length_map, hlen])).1
  refine List.map_injective_iff.mpr (fun x y hxy => ?_) hmap
  exact (BitVec.xor_left_inj 0x5c).mp hxy

lemma length_rfcKeyBlock (k : List Natural8) : (Rfc2104.keyBlock k).length = 64 := by
  rw [Rfc2104.keyBlock]
  split_ifs with h
  · rw [List.length_append, List.length_replicate]
    omega
  · rw [List.length_append, Fips180.length_digest, List.length_replicate]

/-- **The result is right for exactly these keys, but for collisions of the digest**: for every key
and every message, however it is fed. -/
theorem hmac_eq_iff (k : List Natural8) (l : List Sink) :
    (l.foldl sink (makeAsciiKey k)).finish.hmac = Rfc2104.hmac k (l.flatMap Sink.bytes) ↔
      KeyAgrees k ∨
        (Rfc2104.outerMessage (keyBlock (IntegerX.makeFromBytes k)) (l.flatMap Sink.bytes) ≠
            Rfc2104.outerMessage (Rfc2104.keyBlock k) (l.flatMap Sink.bytes) ∧
          Fips180.digest (Rfc2104.outerMessage (keyBlock (IntegerX.makeFromBytes k))
              (l.flatMap Sink.bytes)) =
            Fips180.digest (Rfc2104.outerMessage (Rfc2104.keyBlock k) (l.flatMap Sink.bytes))) := by
  set m := l.flatMap Sink.bytes
  have hcode : (l.foldl sink (makeAsciiKey k)).finish.hmac = IntegerX.makeFromBytes
      (Fips180.digest (Rfc2104.outerMessage (keyBlock (IntegerX.makeFromBytes k)) m)) :=
    hmac_finish _ l
  have hlen : (keyBlock (IntegerX.makeFromBytes k)).length = (Rfc2104.keyBlock k).length := by
    rw [length_keyBlock, length_rfcKeyBlock]
  rw [hcode, Rfc2104.hmac, value_eq, ← keyBlock_eq_iff]
  constructor
  · intro h
    by_cases hblock : keyBlock (IntegerX.makeFromBytes k) = Rfc2104.keyBlock k
    · exact Or.inl hblock
    · exact Or.inr ⟨fun h' => hblock (outerMessage_inj hlen h'), makeFromBytes_digest_inj h⟩
  · rintro (hblock | ⟨-, hdigest⟩)
    · rw [hblock]
    · rw [hdigest]

/-- A key of the two bytes `0` and `1`, and the empty message. -/
theorem hmac_zero_one_ne : (makeAsciiKey [0, 1]).finish.hmac ≠ Rfc2104.hmac [0, 1] [] := by
  have hcode := hmac_finish (IntegerX.makeFromBytes [0, 1]) []
  have hblock : keyBlock (IntegerX.makeFromBytes [0, 1]) = 1 :: List.replicate 63 0 :=
    keyBlock_of_le (by decide)
  have hrfc : Rfc2104.keyBlock [0, 1] = 0 :: 1 :: List.replicate 62 0 := by decide
  rw [hblock] at hcode
  rw [Rfc2104.hmac, Rfc2104.outerMessage, value_eq, hrfc]
  intro h
  have hdigest := makeFromBytes_digest_inj (hcode.symm.trans h)
  revert hdigest
  simp only [← doFinal_digest]
  decide +kernel

end HmacSha256

end EiffelWeb
