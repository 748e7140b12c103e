import Mathlib.Data.List.Basic
import Mathlib.Tactic.Common
import EiffelWeb.Crypto.Digest.Md5
import EiffelWeb.Crypto.Digest.Sha1
import EiffelWeb.Crypto.Hmac.HmacSha256

set_option relaxedAutoImplicit false
set_option autoImplicit false

/-!
# Reuse of digest and authentication objects

Whether an object that was used before gives the results of a new one. `SHA1` and `MD5` objects
always do. `SHA256.reset` does not clear `byte_count`, so the length in the padding is wrong unless
the bytes fed so far make up a multiple of `2 ^ 61`; and `HMAC_SHA256.reset` does not feed `ipad`
again.

## Main definitions

* `DigestClass.LikeNew`, `HmacSha256.LikeNew` — the results of a new object for every next message.
* `HmacSha256.FixesInitial` — the block of the key does not change the initial hash value.

## Main results

* `Sha256.resets` — creation, resetting and output of `SHA256`.
* `reuse` — when objects can be used again.
* `reuse_fails` — `SHA256` after `do_final`, and `HMAC_SHA256` after `reset`.
-/

namespace EiffelWeb

open Special MerkleDamgard

/-! ## Digests -/

/-- The object gives for every next message the result of a new one. -/
def DigestClass.LikeNew {η : Type*} (d : DigestClass η) (st : ShaState η) : Prop :=
  ∀ (m : List Sink) (output : List Natural8) (offset : ℕ),
    d.resultOf st m output offset = d.resultOf d.make m output offset

namespace Sha256

/-- The class. -/
def digest : DigestClass Chain where
  toShaFunctions := functions
  make := make
  reset := reset
  output := writeChain

/-- `reset` leaves an object that stands for the empty message. -/
lemma represents_reset {st : ShaState Chain} {a : Absorbed Fips180.Registers Natural8}
    (h : Represents functions 64 Chain.hash st a) :
    Represents functions 64 Chain.hash (reset st) ⟨Fips180.initial, []⟩ where
  length_buffer := h.length_buffer
  length_schedule := by
    simp only [reset, fillWith]
    rw [length_write (by rw [List.length_replicate]; omega), h.length_schedule]
  view_chain := hash_initialChain
  rest := ⟨[], [], rfl, by simp, by decide, by decide, rfl, rfl, rfl, rfl⟩

/-- **Creation, resetting and output** of `SHA256`. -/
lemma resets : Resets digest 64 Chain.hash Fips180.compress Fips180.initial where
  compresses := compresses
  make := represents_make
  reset h := represents_reset h
  output {x x'} h := by
    have hx : x = x' := by
      obtain ⟨⟩ := x
      obtain ⟨⟩ := x'
      simpa only [Chain.hash, Fips180.Registers.mk.injEq, Chain.mk.injEq] using h
    rw [hx]

/-- `reset` does not change the byte counter. -/
lemma byteCount_reset (st : ShaState Chain) : (digest.reset st).byteCount = st.byteCount := by
  simp only [digest, reset]

lemma byteCount_make : digest.make.byteCount = 0 := by
  simp only [digest, make, reset]

/-- The byte counter behind `finish`. -/
lemma byteCount_finish (st : ShaState Chain) : (digest.finish st).byteCount =
    st.byteCount + BitVec.ofNat 64 (digest.padding st.byteCount).length := by
  rw [digest.finish_eq, byteCount_feed]

end Sha256

/-! ## Authentication -/

/-- The operations of an `HMAC_SHA256` object. -/
inductive HmacOp where
  /-- A feeding routine. -/
  | sink (s : Sink)
  /-- `finish`. -/
  | finish
  /-- `reset`. -/
  | reset

namespace HmacSha256

/-- The object behind an operation. -/
def step (m : HmacSha256) : HmacOp → HmacSha256
  | .sink s => m.sink s
  | .finish => m.finish
  | .reset => m.reset

/-- A new object behind a sequence of operations. -/
def run (key : ℕ) (l : List HmacOp) : HmacSha256 := l.foldl step (make key)

/-- The object gives for every next message the result of a new one with the same key. -/
def LikeNew (key : ℕ) (m : HmacSha256) : Prop :=
  ∀ l : List Sink, (l.foldl sink m).finish.hmac = (l.foldl sink (make key)).finish.hmac

/-- The block of the key, as `ipad`, does not change the initial hash value. -/
def FixesInitial (key : ℕ) : Prop :=
  Fips180.compress (Fips180.parse ((keyBlock key).map (· ^^^ 0x36))) Fips180.initial =
    Fips180.initial

/-- What every operation keeps: the pads, and that `message_hash` stands for some bytes. -/
structure Valid (key : ℕ) (m : HmacSha256) : Prop where
  opad : m.opad = (make key).opad
  represents : ∃ a, Represents Sha256.functions 64 Sha256.Chain.hash m.messageHash a

lemma valid_make (key : ℕ) : Valid key (make key) where
  opad := rfl
  represents := by
    rw [make_messageHash]
    exact ⟨_, Sha256.represents_make.feed Sha256.compresses _⟩

lemma finish_opad (m : HmacSha256) : m.finish.opad = m.opad := by
  simp only [finish]

lemma finish_messageHash (m : HmacSha256) :
    m.finish.messageHash = Sha256.reset (Sha256.functions.finish m.messageHash) := by
  simp only [finish, Sha256.doFinal]

/-- **Every operation** keeps the invariant. -/
lemma Valid.step {key : ℕ} {m : HmacSha256} (h : Valid key m) (op : HmacOp) :
    Valid key (m.step op) := by
  obtain ⟨a, ha⟩ := h.represents
  cases op with
  | sink s => exact ⟨h.opad, _, ha.feed Sha256.compresses _⟩
  | finish =>
    rw [HmacSha256.step]
    refine ⟨by rw [finish_opad, h.opad], ⟨Fips180.initial, []⟩, ?_⟩
    rw [finish_messageHash, Sha256.functions.finish_eq]
    exact Sha256.represents_reset (ha.feed Sha256.compresses _)
  | reset => exact ⟨h.opad, _, Sha256.represents_reset ha⟩

/-- **Every sequence of operations** keeps the invariant. -/
lemma valid_run (key : ℕ) (l : List HmacOp) : Valid key (run key l) := by
  have hfold : ∀ (l : List HmacOp) (m : HmacSha256), Valid key m →
      Valid key (l.foldl HmacSha256.step m) := by
    intro l
    induction l with
    | nil => exact fun m h => h
    | cons op l ih => exact fun m h => ih _ (h.step op)
  exact hfold l _ (valid_make key)

/-- A new object stands for the initial hash value when the key does not change it. -/
lemma represents_make_of_fixes {key : ℕ} (h : FixesInitial key) :
    Represents Sha256.functions 64 Sha256.Chain.hash (make key).messageHash
      ⟨Fips180.initial, []⟩ := by
  have hlen : ((keyBlock key).map (· ^^^ (0x36 : Natural8))).length = 64 := by
    rw [List.length_map, length_keyBlock]
  have hfeed := Sha256.represents_make.feed Sha256.compresses
    ((keyBlock key).map (· ^^^ (0x36 : Natural8)))
  rw [absorbAll_block (by decide) hlen] at hfeed
  have hfix : compressBytes Sha256.functions Fips180.compress
      ((keyBlock key).map (· ^^^ (0x36 : Natural8))) Fips180.initial = Fips180.initial := by
    rw [compressBytes]
    show Fips180.compress (wordsOf asNatural32Be _) _ = _
    rw [Sha256.wordsOf_eq_parse]
    exact h
  rw [hfix] at hfeed
  rw [make_messageHash]
  exact hfeed

/-- The result for a next message, from the digest that `message_hash` gives for it. -/
lemma hmac_foldl_sink {m : HmacSha256} (l : List Sink) (hopad : m.opad.length = 64) :
    (l.foldl sink m).finish.hmac = IntegerX.makeFromBytes (Fips180.digest (m.opad ++
      Sha256.digest.resultOf m.messageHash l (List.replicate 32 0) 0)) := by
  have hresult : Sha256.digest.resultOf m.messageHash l (List.replicate 32 0) 0 =
      (Sha256.doFinal (Sha256.functions.feed m.messageHash (l.flatMap Sink.bytes))
        (List.replicate 32 0) 0).2 := by
    simp only [DigestClass.resultOf, DigestClass.doFinal, Sha256.doFinal]
    rw [Sha256.digest.foldl_sink]
    simp only [Sha256.digest]
  rw [foldl_sink, hmac_finish_eq _ (by exact hopad), hresult]

/-- **Reuse after `reset`**, for a key that does not change the initial hash value. -/
lemma likeNew_reset {key : ℕ} {m : HmacSha256} (hm : Valid key m) (hkey : FixesInitial key)
    (hcount : m.messageHash.byteCount <<< 3 = 512) : LikeNew key m.reset := by
  intro l
  obtain ⟨a, ha⟩ := hm.represents
  have hopad : (make key).opad.length = 64 := by
    rw [make_opad, List.length_map, length_keyBlock]
  have hnew : (make key).messageHash.byteCount <<< 3 = 512 := by
    rw [make_messageHash, byteCount_feed, List.length_map, length_keyBlock]
    decide
  have hinner := Sha256.resets.doFinal_eq (Sha256.represents_reset ha)
    (represents_make_of_fixes hkey) (hcount.trans hnew.symm) l (List.replicate 32 0) 0
  have hreset : m.reset.opad = (make key).opad := by
    rw [reset, hm.opad]
  have hmessage : m.reset.messageHash = Sha256.reset m.messageHash := by
    rw [reset]
  rw [hmac_foldl_sink l (by rw [hreset, hopad]), hmac_foldl_sink l hopad, hreset, hmessage, hinner]

end HmacSha256

/-! ## When objects can be used again -/

/-- **Reuse.** After every sequence of operations, a `SHA1` or `MD5` object that was reset, by
`reset` or by `do_final`, gives the results of a new one. A `SHA256` object does when its byte
counter is then a multiple of `2 ^ 61`, and an `HMAC_SHA256` object when its byte counter is the one
of a new object modulo `2 ^ 61` and the key does not change the initial hash value. -/
theorem reuse (l : List DigestOp) (key : ℕ) (ops : List HmacOp) :
    (Sha1.digest.LikeNew (Sha1.digest.reset (Sha1.digest.run l)) ∧
      ∀ out off, Sha1.digest.LikeNew (Sha1.digest.doFinal (Sha1.digest.run l) out off).1) ∧
    (Md5.digest.LikeNew (Md5.digest.reset (Md5.digest.run l)) ∧
      ∀ out off, Md5.digest.LikeNew (Md5.digest.doFinal (Md5.digest.run l) out off).1) ∧
    ((Sha256.digest.run l).byteCount <<< 3 = 0 →
      Sha256.digest.LikeNew (Sha256.digest.reset (Sha256.digest.run l))) ∧
    (((Sha256.digest.run l).byteCount + BitVec.ofNat 64 (Sha256.digest.padding
        (Sha256.digest.run l).byteCount).length) <<< 3 = 0 →
      ∀ out off, Sha256.digest.LikeNew (Sha256.digest.doFinal (Sha256.digest.run l) out off).1) ∧
    (HmacSha256.FixesInitial key →
      (HmacSha256.run key ops).messageHash.byteCount <<< 3 = 512 →
      HmacSha256.LikeNew key (HmacSha256.run key ops).reset) := by
  refine ⟨⟨?_, ?_⟩, ⟨?_, ?_⟩, ?_, ?_, ?_⟩
  · refine Sha1.resets.reset_run l ?_
    rw [Sha1.byteCount_reset, Sha1.byteCount_make]
  · intro out off
    refine Sha1.resets.doFinal_run l out off ?_
    rw [DigestClass.doFinal_fst, Sha1.byteCount_reset, Sha1.byteCount_make]
  · refine Md5.resets.reset_run l ?_
    rw [Md5.byteCount_reset, Md5.byteCount_make]
  · intro out off
    refine Md5.resets.doFinal_run l out off ?_
    rw [DigestClass.doFinal_fst, Md5.byteCount_reset, Md5.byteCount_make]
  · intro hcount
    refine Sha256.resets.reset_run l ?_
    rw [Sha256.byteCount_reset, Sha256.byteCount_make, hcount]
    rfl
  · intro hcount out off
    refine Sha256.resets.doFinal_run l out off ?_
    rw [DigestClass.doFinal_fst, Sha256.byteCount_reset, Sha256.byteCount_finish,
      Sha256.byteCount_make, hcount]
    rfl
  · exact fun hkey hcount =>
      HmacSha256.likeNew_reset (HmacSha256.valid_run key ops) hkey hcount

/-- A `SHA256` object that is reset before it was fed anything. -/
theorem reuse_sha256_reset :
    Sha256.digest.LikeNew (Sha256.digest.reset (Sha256.digest.run [.reset, .reset])) :=
  (reuse [.reset, .reset] 0 []).2.2.1 (by decide)

/-- `SHA256` after `do_final` on the empty message, and `HMAC_SHA256` with the key `1` after
`reset`: the results for the empty message differ from those of new objects. -/
theorem reuse_fails :
    ¬ Sha256.digest.LikeNew
        (Sha256.digest.doFinal (Sha256.digest.run []) (List.replicate 32 0) 0).1 ∧
      ¬ HmacSha256.LikeNew 1 (HmacSha256.run 1 []).reset := by
  constructor
  · intro h
    have hempty := h [] (List.replicate 32 0) 0
    revert hempty
    decide +kernel
  · intro h
    have hempty := h []
    revert hempty
    decide +kernel

end EiffelWeb
