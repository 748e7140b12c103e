import Mathlib.Data.List.Basic
import Mathlib.Data.List.GetD
import Mathlib.Tactic.Common
import EiffelWeb.Crypto.Digest.Sha256
import EiffelWeb.Crypto.Digest.Fips180

set_option relaxedAutoImplicit false
set_option autoImplicit false

/-!
# SHA-256 conforms to the standard

The class `SHA256` against FIPS 180. Behind `j` of the eight rounds in the loop of `process_block`
the registers of the standard are those of the code under names rotated `j` times, so behind all
eight they have their own names again. A digest represents the message that it was fed, and
`do_final` feeds the padding of the standard.

## Main definitions

* `Sha256.Registers.plain`, `Sha256.Registers.rotated1` and so on — the registers of the standard.

## Main results

* `Sha256.compresses` — `process_block` is the compression of the standard.
* `Sha256.padding_eq` — the padding is that of the standard.
* `Sha256.doFinal_conforms` — the digest of every message, however it is fed.
-/

namespace EiffelWeb

open Special MerkleDamgard

namespace Sha256

/-! ## Functions and constants -/

lemma rotateRight32_eq_rotr (x : Natural32) {n : ℕ} (h : n < 32) :
    rotateRight32 x n = Fips180.rotr n x := by
  rw [rotateRight32, Fips180.rotr, BitVec.rotateRight_def, Nat.mod_eq_of_lt h]

lemma ch_eq (u v w : Natural32) : ShaFunctions.ch u v w = Fips180.ch u v w := by
  apply BitVec.eq_of_getLsbD_eq
  intro i hi
  simp only [ShaFunctions.ch, Fips180.ch, BitVec.getLsbD_or, BitVec.getLsbD_xor, BitVec.getLsbD_and,
    BitVec.getLsbD_not]
  cases u.getLsbD i <;> simp

lemma maj_eq (u v w : Natural32) : ShaFunctions.maj u v w = Fips180.maj u v w := by
  apply BitVec.eq_of_getLsbD_eq
  intro i hi
  simp only [ShaFunctions.maj, Fips180.maj, BitVec.getLsbD_or, BitVec.getLsbD_xor,
    BitVec.getLsbD_and]
  cases u.getLsbD i <;> cases v.getLsbD i <;> cases w.getLsbD i <;> rfl

lemma sigma0_eq (x : Natural32) : sigma0 x = Fips180.bigSigma0 x := by
  simp only [sigma0, Fips180.bigSigma0]
  rw [rotateRight32_eq_rotr x (by decide), rotateRight32_eq_rotr x (by decide),
    rotateRight32_eq_rotr x (by decide)]

lemma sigma1_eq (x : Natural32) : sigma1 x = Fips180.bigSigma1 x := by
  simp only [sigma1, Fips180.bigSigma1]
  rw [rotateRight32_eq_rotr x (by decide), rotateRight32_eq_rotr x (by decide),
    rotateRight32_eq_rotr x (by decide)]

lemma lsigma0_eq (x : Natural32) : lsigma0 x = Fips180.sigma0 x := by
  rw [lsigma0, Fips180.sigma0, rotateRight32_eq_rotr x (by decide),
    rotateRight32_eq_rotr x (by decide)]

lemma lsigma1_eq (x : Natural32) : lsigma1 x = Fips180.sigma1 x := by
  rw [lsigma1, Fips180.sigma1, rotateRight32_eq_rotr x (by decide),
    rotateRight32_eq_rotr x (by decide)]

/-- The table of the code has the bits of the cube roots. -/
lemma item_k {t : ℕ} (ht : t < 64) : item k t = Fips180.k t := by
  have htable : k = (List.range 64).map Fips180.k := by decide +kernel
  rw [htable, item, List.getD_eq_getElem _ _ (by simpa using ht)]
  simp

/-! ## The schedule -/

/-- The words that `expand_blocks` has written. -/
lemma take_expandBlocks {s : List Natural32} (hs : s.length = 64) {n : ℕ} (hn : n ≤ 48) :
    ((List.range' 16 n).foldl expandStep s).take (16 + n) = Fips180.expand (s.take 16) n ∧
      ((List.range' 16 n).foldl expandStep s).length = 64 := by
  induction n with
  | zero => exact ⟨rfl, hs⟩
  | succ n ih =>
    obtain ⟨hwords, hlen⟩ := ih (by omega)
    set s' := (List.range' 16 n).foldl expandStep s
    set w := Fips180.expand (s.take 16) n with hw
    have hlenw : w.length = 16 + n := by
      refine Fips180.length_expand ?_ n
      rw [List.length_take]
      omega
    rw [← hlenw] at hwords
    have hread {j : ℕ} (hj : j < 16 + n) : item s' j = w.getD j 0 :=
      item_of_take hwords (by omega)
    rw [List.range'_1_concat, List.foldl_concat, expandStep, List.length_set]
    refine ⟨?_, hlen⟩
    have hset := take_set_concat hwords (by omega) (lsigma1 (item s' (16 + n - 2)) +
      item s' (16 + n - 7) + lsigma0 (item s' (16 + n - 15)) + item s' (16 + n - 16))
    rw [hlenw] at hset
    rw [← Nat.add_assoc, hset, Fips180.expand, ← hw, hread (by omega), hread (by omega),
      hread (by omega), hread (by omega), lsigma1_eq, lsigma0_eq]

/-- **`expand_blocks` computes the message schedule.** -/
lemma expandBlocks_eq {s : List Natural32} (hs : s.length = 64) :
    expandBlocks s = Fips180.schedule (s.take 16) := by
  obtain ⟨hwords, hlen⟩ := take_expandBlocks hs (Nat.le_refl 48)
  rw [expandBlocks, Fips180.schedule, ← hwords, List.take_of_length_le (by omega)]

/-! ## The rounds -/

namespace Registers

/-- The registers of the standard at the head of the loop. -/
def plain (r : Sha256.Registers) : Fips180.Registers :=
  ⟨r.a, r.b, r.c, r.d, r.e, r.f, r.g, r.h⟩

/-- The registers of the standard behind 1 rounds of the eight. -/
def rotated1 (r : Sha256.Registers) : Fips180.Registers := ⟨r.h, r.a, r.b, r.c, r.d, r.e, r.f, r.g⟩

/-- The registers of the standard behind 2 rounds of the eight. -/
def rotated2 (r : Sha256.Registers) : Fips180.Registers := ⟨r.g, r.h, r.a, r.b, r.c, r.d, r.e, r.f⟩

/-- The registers of the standard behind 3 rounds of the eight. -/
def rotated3 (r : Sha256.Registers) : Fips180.Registers := ⟨r.f, r.g, r.h, r.a, r.b, r.c, r.d, r.e⟩

/-- The registers of the standard behind 4 rounds of the eight. -/
def rotated4 (r : Sha256.Registers) : Fips180.Registers := ⟨r.e, r.f, r.g, r.h, r.a, r.b, r.c, r.d⟩

/-- The registers of the standard behind 5 rounds of the eight. -/
def rotated5 (r : Sha256.Registers) : Fips180.Registers := ⟨r.d, r.e, r.f, r.g, r.h, r.a, r.b, r.c⟩

/-- The registers of the standard behind 6 rounds of the eight. -/
def rotated6 (r : Sha256.Registers) : Fips180.Registers := ⟨r.c, r.d, r.e, r.f, r.g, r.h, r.a, r.b⟩

/-- The registers of the standard behind 7 rounds of the eight. -/
def rotated7 (r : Sha256.Registers) : Fips180.Registers := ⟨r.b, r.c, r.d, r.e, r.f, r.g, r.h, r.a⟩

end Registers

/-- One round of the standard. -/
lemma round_eq_registerStep (a b c d e f g h kt wt : Natural32) :
    Fips180.round kt wt ⟨a, b, c, d, e, f, g, h⟩ =
      ⟨(registerStep a b c d e f g h kt wt).2, a, b, c, (registerStep a b c d e f g h kt wt).1,
        e, f, g⟩ := by
  simp only [Fips180.round, registerStep, sigma0_eq, sigma1_eq, ch_eq, maj_eq, BitVec.add_assoc]

/-- **Eight rounds of the code are eight rounds of the standard.** -/
lemma plain_eightRounds (s : List Natural32) (r : Registers) {i : ℕ} (hi : i < 8) :
    (eightRounds s r i).plain = (List.range' (8 * i) 8).foldl
      (fun r t => Fips180.round (Fips180.k t) (item s t) r) r.plain := by
  have step0 (r : Registers) (kt wt : Natural32) :
      Fips180.round kt wt r.plain = (round0 r kt wt).rotated1 := round_eq_registerStep ..
  have step1 (r : Registers) (kt wt : Natural32) :
      Fips180.round kt wt r.rotated1 = (round1 r kt wt).rotated2 := round_eq_registerStep ..
  have step2 (r : Registers) (kt wt : Natural32) :
      Fips180.round kt wt r.rotated2 = (round2 r kt wt).rotated3 := round_eq_registerStep ..
  have step3 (r : Registers) (kt wt : Natural32) :
      Fips180.round kt wt r.rotated3 = (round3 r kt wt).rotated4 := round_eq_registerStep ..
  have step4 (r : Registers) (kt wt : Natural32) :
      Fips180.round kt wt r.rotated4 = (round4 r kt wt).rotated5 := round_eq_registerStep ..
  have step5 (r : Registers) (kt wt : Natural32) :
      Fips180.round kt wt r.rotated5 = (round5 r kt wt).rotated6 := round_eq_registerStep ..
  have step6 (r : Registers) (kt wt : Natural32) :
      Fips180.round kt wt r.rotated6 = (round6 r kt wt).rotated7 := round_eq_registerStep ..
  have step7 (r : Registers) (kt wt : Natural32) :
      Fips180.round kt wt r.rotated7 = (round7 r kt wt).plain := round_eq_registerStep ..
  simp only [List.range', List.foldl_cons, List.foldl_nil]
  rw [step0, step1, step2, step3, step4, step5, step6, step7]
  simp only [eightRounds]
  rw [item_k (by omega), item_k (by omega), item_k (by omega), item_k (by omega), item_k (by omega),
    item_k (by omega), item_k (by omega), item_k (by omega)]

/-- The loop of `process_block`. -/
lemma plain_foldl_eightRounds (s : List Natural32) (r : Registers) {n : ℕ} (hn : n ≤ 8) :
    ((List.range n).foldl (eightRounds s) r).plain = (List.range (8 * n)).foldl
      (fun r t => Fips180.round (Fips180.k t) (item s t) r) r.plain := by
  induction n with
  | zero => rfl
  | succ n ih =>
    have hrange : List.range (8 * (n + 1)) = List.range (8 * n) ++ List.range' (8 * n) 8 := by
      have happend := List.range'_append_1 (s := 0) (m := 8 * n) (n := 8)
      rw [Nat.zero_add] at happend
      rw [List.range_eq_range', List.range_eq_range', happend, Nat.mul_succ]
    rw [List.range_succ, List.foldl_concat, plain_eightRounds s _ (by omega), ih (by omega), hrange,
      List.foldl_append]

/-- The hash value in `h1` to `h8`. -/
def Chain.hash (x : Chain) : Fips180.Registers := ⟨x.h1, x.h2, x.h3, x.h4, x.h5, x.h6, x.h7, x.h8⟩

/-- What `process_block` adds to the hash value. -/
lemma hash_processBlock (s : List Natural32) (x : Chain) :
    (processBlock s x).2.hash = x.hash.add ((List.range 8).foldl (eightRounds (expandBlocks s))
      ⟨x.h1, x.h2, x.h3, x.h4, x.h5, x.h6, x.h7, x.h8⟩).plain := rfl

lemma hash_processBlock_eq_compress {s : List Natural32} (hs : s.length = 64) (x : Chain) :
    (processBlock s x).2.hash = Fips180.compress (s.take 16) x.hash := by
  have hitem (w : List Natural32) (t : ℕ) : w.getD t 0 = item w t := rfl
  rw [hash_processBlock, plain_foldl_eightRounds _ _ (Nat.le_refl 8), Fips180.compress,
    ← expandBlocks_eq hs]
  simp only [hitem]
  congr 1

lemma length_processBlock {s : List Natural32} (hs : s.length = 64) (x : Chain) :
    (processBlock s x).1.length = 64 := by
  simp only [processBlock, expandBlocks, (take_expandBlocks hs (Nat.le_refl 48)).2]

lemma functions_processBlock : functions.processBlock = processBlock := rfl

/-- **`process_block` is the compression of the standard.** -/
lemma compresses : Compresses functions 64 Chain.hash Fips180.compress where
  le_count := by decide
  length_schedule s x hs := by
    rw [functions_processBlock]
    exact length_processBlock hs x
  view_chain s x hs := by
    rw [functions_processBlock]
    exact hash_processBlock_eq_compress hs x

/-! ## Messages -/

lemma wordsOf_eq_parse (l : List Natural8) : wordsOf asNatural32Be l = Fips180.parse l := by
  fun_induction Fips180.parse l with
  | case1 b₀ b₁ b₂ b₃ l ih =>
    rw [wordsOf, ih, asNatural32Be_eq]
    rfl
  | case2 l h =>
    rw [wordsOf]
    exact h

/-- The initial values have the bits of the square roots. -/
lemma hash_initialChain : initialChain.hash = Fips180.initial := by
  have hwords : Fips180.initial = ⟨0x6a09e667, 0xbb67ae85, 0x3c6ef372, 0xa54ff53a, 0x510e527f,
      0x9b05688c, 0x1f83d9ab, 0x5be0cd19⟩ := by
    simp only [Fips180.initial, Fips180.Registers.mk.injEq]
    decide +kernel
  rw [hwords]
  rfl

/-- A new object stands for the empty message. -/
lemma represents_make : Represents functions 64 Chain.hash make ⟨Fips180.initial, []⟩ where
  length_buffer := rfl
  length_schedule := by decide
  view_chain := hash_initialChain
  rest := ⟨[], [], rfl, by simp, by decide, by decide, rfl, rfl, rfl, rfl⟩

/-- The bytes of the two words of a length. -/
lemma lengthBytes_eq (n : ℕ) : Fips180.lengthBytes n =
    Word.bytes ((BitVec.ofNat 64 (8 * n) >>> 32).setWidth 32) ++
      Word.bytes ((BitVec.ofNat 64 (8 * n)).setWidth 32) := by
  rw [Fips180.lengthBytes]
  generalize BitVec.ofNat 64 (8 * n) = x
  have hcut {j : ℕ} (y : Natural64) (hj : j + 8 ≤ 32) :
      (y.setWidth 32 >>> j).setWidth 8 = (y >>> j).setWidth 8 := by
    apply BitVec.eq_of_getLsbD_eq
    intro i hi
    simp only [BitVec.getLsbD_setWidth, BitVec.getLsbD_ushiftRight]
    grind
  have hlast (y : Natural64) : (y.setWidth 32).setWidth 8 = y.setWidth 8 :=
    BitVec.setWidth_setWidth_of_le y (by decide)
  simp only [Word.bytes, hcut (j := 24) _ (by decide), hcut (j := 16) _ (by decide),
    hcut (j := 8) _ (by decide), hlast, ← BitVec.shiftRight_add]
  rfl

/-- **The padding is that of the standard.** -/
lemma padding_eq (m : List Natural8) :
    m ++ functions.padding (BitVec.ofNat 64 m.length) = Fips180.pad m := by
  have hzeros : padBytes (BitVec.ofNat 64 m.length + 1) = Fips180.zeros m.length := by
    obtain ⟨hmod, hlt⟩ := padBytes_spec (BitVec.ofNat 64 m.length + 1)
    have hcount : (BitVec.ofNat 64 m.length + 1 : Natural64).toNat =
        (m.length % 2 ^ 64 + 1) % 2 ^ 64 := BitVec.toNat_add _ _
    rw [hcount] at hmod
    rw [Fips180.zeros]
    omega
  have hlength : (functions.lengthWords (BitVec.ofNat 64 m.length <<< 3)).flatMap
      functions.wordBytes = Fips180.lengthBytes m.length := by
    have hbits : (BitVec.ofNat 64 m.length <<< 3 : Natural64) = BitVec.ofNat 64 (8 * m.length) := by
      apply BitVec.eq_of_toNat_eq
      rw [BitVec.toNat_shiftLeft, BitVec.toNat_ofNat, BitVec.toNat_ofNat, Nat.shiftLeft_eq]
      omega
    rw [hbits, lengthBytes_eq]
    rfl
  rw [ShaFunctions.padding, hzeros, hlength, Fips180.pad]
  simp only [List.append_assoc]

/-- `do_final` writes the hash value, the most significant bytes first. -/
lemma writeChain_eq (x : Chain) {output : List Natural8} {outOff : ℕ}
    (h : outOff + 32 ≤ output.length) :
    writeChain x output outOff = write output outOff x.hash.bytes := by
  simp only [writeChain]
  rw [fromNatural32Be_eq x.h1 (by omega), fromNatural32Be_write x.h2 (by simp) (by omega),
    fromNatural32Be_write x.h3 (by simp) (by omega),
    fromNatural32Be_write x.h4 (by simp) (by omega),
    fromNatural32Be_write x.h5 (by simp) (by omega),
    fromNatural32Be_write x.h6 (by simp) (by omega),
    fromNatural32Be_write x.h7 (by simp) (by omega),
    fromNatural32Be_write x.h8 (by simp) (by omega)]
  rfl

/-- The hash value of a state that stands for whole blocks. -/
lemma hash_feed_pad {st : ShaState Chain} (hst : Represents functions 64 Chain.hash st
    ⟨Fips180.initial, []⟩) (m : List Natural8) :
    (functions.feed st (Fips180.pad m)).chain.hash =
      Fips180.hashBlocks (Fips180.blocks (Fips180.pad m)) := by
  have hfeed := hst.feed compresses (Fips180.pad m)
  have hblocks : absorbAll 64 (compressBytes functions Fips180.compress) ⟨Fips180.initial, []⟩
      (Fips180.blocks (Fips180.pad m)).flatten = _ :=
    absorbAll_flatten (by decide) fun b hb => Fips180.length_of_mem_blocks hb
  rw [Fips180.flatten_blocks (Fips180.length_pad m)] at hblocks
  rw [hfeed.view_chain, hblocks, Fips180.hashBlocks]
  have hparse (h : Fips180.Registers) (b : List Natural8) :
      compressBytes functions Fips180.compress b h = Fips180.compress (Fips180.parse b) h := by
    rw [compressBytes, ← wordsOf_eq_parse]
    rfl
  simp only [hparse]

/-- The hash value of a message that was fed to a new object. -/
lemma hash_finish_feed (m : List Natural8) :
    (functions.finish (functions.feed make m)).chain.hash =
      Fips180.hashBlocks (Fips180.blocks (Fips180.pad m)) := by
  have hcount : (functions.feed make m).byteCount = BitVec.ofNat 64 m.length := by
    rw [byteCount_feed]
    exact BitVec.zero_add _
  have hfinish : functions.finish (functions.feed make m) =
      functions.feed make (Fips180.pad m) := by
    rw [functions.finish_eq, hcount, ← padding_eq m]
    exact List.foldl_append.symm
  rw [hfinish, hash_feed_pad represents_make]

/-- What `do_final` writes on an object that stands for a message. -/
lemma doFinal_feed (m : List Natural8) {output : List Natural8} {outOff : ℕ}
    (hout : outOff + 32 ≤ output.length) :
    (doFinal (functions.feed make m) output outOff).2 =
      write output outOff (Fips180.digest m) := by
  simp only [doFinal]
  rw [writeChain_eq _ hout, hash_finish_feed, Fips180.digest]

/-- **SHA-256 of every message, however it is fed**: for every sequence of calls of feeding routines
on a new object, `do_final` writes the digest of the bytes and nothing else. The standard admits
messages of fewer than `2 ^ 61` bytes; beyond them both sides take the length in bits
modulo `2 ^ 64`. -/
theorem doFinal_conforms (l : List Sink) {output : List Natural8} {outOff : ℕ}
    (hout : outOff + 32 ≤ output.length) :
    (doFinal (l.foldl functions.sink make) output outOff).2 =
      write output outOff (Fips180.digest (l.flatMap Sink.bytes)) := by
  rw [functions.foldl_sink, doFinal_feed _ hout]

/-- The three bytes of the string `abc`, two of them fed as a string. -/
theorem doFinal_conforms_abc :
    (doFinal ([Sink.string [0x61, 0x62], Sink.update 0x63].foldl functions.sink make)
      (List.replicate 33 0) 1).2 =
        write (List.replicate 33 0) 1 (Fips180.digest [0x61, 0x62, 0x63]) :=
  doFinal_conforms [Sink.string [0x61, 0x62], Sink.update 0x63] (by decide)

end Sha256

end EiffelWeb
