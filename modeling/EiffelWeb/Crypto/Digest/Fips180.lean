import Mathlib.Data.List.Basic
import Mathlib.Tactic.Common
import Mathlib.Tactic.Ring
import EiffelWeb.Word

set_option relaxedAutoImplicit false
set_option autoImplicit false

/-!
# The Secure Hash Standard

SHA-256 of FIPS 180 in the standard's own terms: messages are lists of bytes, a block is sixteen
words of four bytes, and the constants are the first bits of the fractional parts of roots of the
first primes. Nothing here is taken from the code.

## Main definitions

* `Fips180.root` — the integer part of a root, from which `Fips180.k` and `Fips180.initial` come.
* `Fips180.schedule`, `Fips180.round`, `Fips180.compress`
* `Fips180.pad`, `Fips180.blocks`, `Fips180.digest`

## Main results

* `Fips180.root_spec` — the root is the integer part.
* `Fips180.length_pad` — a padded message is made of whole blocks.
* `Fips180.flatten_blocks` — the blocks make up the message.
-/

namespace Fips180

/-- A byte. -/
abbrev Byte := BitVec 8

/-- A word of 32 bits. -/
abbrev Word := BitVec 32

/-! ## Constants -/

/-- The bits below `2 ^ i` of a root of degree `d` that begins with `r`, the highest first. -/
def rootBits (d n : ℕ) : (i : ℕ) → (r : ℕ) → ℕ
  | 0, r => r
  | i + 1, r => rootBits d n i (if (r + 2 ^ i) ^ d ≤ n then r + 2 ^ i else r)

/-- The integer part of the root of degree `d`, for roots below `2 ^ 40`. -/
def root (d n : ℕ) : ℕ := rootBits d n 40 0

/-- The bits keep the root between `r` and `r + 2 ^ i`. -/
lemma rootBits_spec {d n : ℕ} (i r : ℕ) (hle : r ^ d ≤ n) (hlt : n < (r + 2 ^ i) ^ d) :
    rootBits d n i r ^ d ≤ n ∧ n < (rootBits d n i r + 1) ^ d := by
  induction i generalizing r with
  | zero => exact ⟨hle, by simpa [rootBits] using hlt⟩
  | succ i ih =>
    rw [rootBits]
    split_ifs with h
    · refine ih (r + 2 ^ i) h ?_
      have hsum : r + 2 ^ i + 2 ^ i = r + 2 ^ (i + 1) := by ring
      rwa [hsum]
    · exact ih r hle (Nat.lt_of_not_ge h)

/-- **The root is the integer part.** -/
lemma root_spec {d n : ℕ} (hd : d ≠ 0) (hn : n < (2 ^ 40) ^ d) :
    root d n ^ d ≤ n ∧ n < (root d n + 1) ^ d := by
  refine rootBits_spec 40 0 ?_ ?_
  · rw [Nat.zero_pow (Nat.pos_of_ne_zero hd)]
    exact Nat.zero_le n
  · rwa [Nat.zero_add]

/-- The first 64 primes. -/
def primes : List ℕ :=
  [2, 3, 5, 7, 11, 13, 17, 19, 23, 29, 31, 37, 41, 43, 47, 53, 59, 61, 67, 71, 73, 79, 83, 89, 97,
    101, 103, 107, 109, 113, 127, 131, 137, 139, 149, 151, 157, 163, 167, 173, 179, 181, 191, 193,
    197, 199, 211, 223, 227, 229, 233, 239, 241, 251, 257, 263, 269, 271, 277, 281, 283, 293, 307,
    311]

/-- `K_t`: the first 32 bits of the fractional part of the cube root of a prime. -/
def k (t : ℕ) : Word := BitVec.ofNat 32 (root 3 (primes.getD t 0 * 2 ^ 96))

/-! ## Functions -/

/-- `ROTR`. -/
def rotr (n : ℕ) (x : Word) : Word := x.rotateRight n

/-- `Ch`. -/
def ch (x y z : Word) : Word := x &&& y ^^^ ~~~x &&& z

/-- `Maj`. -/
def maj (x y z : Word) : Word := x &&& y ^^^ x &&& z ^^^ y &&& z

/-- `Σ₀`. -/
def bigSigma0 (x : Word) : Word := rotr 2 x ^^^ rotr 13 x ^^^ rotr 22 x

/-- `Σ₁`. -/
def bigSigma1 (x : Word) : Word := rotr 6 x ^^^ rotr 11 x ^^^ rotr 25 x

/-- `σ₀`. -/
def sigma0 (x : Word) : Word := rotr 7 x ^^^ rotr 18 x ^^^ x >>> 3

/-- `σ₁`. -/
def sigma1 (x : Word) : Word := rotr 17 x ^^^ rotr 19 x ^^^ x >>> 10

/-! ## Compression -/

/-- The message schedule: sixteen words, and `n` more. -/
def expand (m : List Word) : ℕ → List Word
  | 0 => m
  | n + 1 =>
    let w := expand m n
    let t := 16 + n
    w ++ [sigma1 (w.getD (t - 2) 0) + w.getD (t - 7) 0 + sigma0 (w.getD (t - 15) 0) +
      w.getD (t - 16) 0]

/-- The message schedule of a block. -/
def schedule (m : List Word) : List Word := expand m 48

lemma length_expand {m : List Word} (h : m.length = 16) (n : ℕ) : (expand m n).length = 16 + n := by
  induction n with
  | zero => exact h
  | succ n ih => rw [expand, List.length_append, ih, List.length_singleton, Nat.add_assoc]

/-- The working variables, and the hash value. -/
structure Registers where
  /-- The first variable. -/
  a : Word
  /-- The second variable. -/
  b : Word
  /-- The third variable. -/
  c : Word
  /-- The fourth variable. -/
  d : Word
  /-- The fifth variable. -/
  e : Word
  /-- The sixth variable. -/
  f : Word
  /-- The seventh variable. -/
  g : Word
  /-- The eighth variable. -/
  h : Word

/-- The initial hash value: the first 32 bits of the fractional parts of the square roots of the
first eight primes. -/
def initial : Registers :=
  let word (t : ℕ) : Word := BitVec.ofNat 32 (root 2 (primes.getD t 0 * 2 ^ 64))
  ⟨word 0, word 1, word 2, word 3, word 4, word 5, word 6, word 7⟩

/-- One round, with a constant and a word of the schedule. -/
def round (kt wt : Word) (r : Registers) : Registers :=
  let t₁ := r.h + bigSigma1 r.e + ch r.e r.f r.g + kt + wt
  let t₂ := bigSigma0 r.a + maj r.a r.b r.c
  ⟨t₁ + t₂, r.a, r.b, r.c, r.d + t₁, r.e, r.f, r.g⟩

/-- The sums of the variables and the hash value. -/
def Registers.add (r s : Registers) : Registers :=
  ⟨r.a + s.a, r.b + s.b, r.c + s.c, r.d + s.d, r.e + s.e, r.f + s.f, r.g + s.g, r.h + s.h⟩

/-- The hash value behind a block of sixteen words. -/
def compress (m : List Word) (hash : Registers) : Registers :=
  hash.add ((List.range 64).foldl (fun r t => round (k t) ((schedule m).getD t 0) r) hash)

/-! ## Messages -/

/-- The words of a list of bytes. -/
def parse : List Byte → List Word
  | b₀ :: b₁ :: b₂ :: b₃ :: l => Word.ofBytes b₀ b₁ b₂ b₃ :: parse l
  | _ => []

/-- The number of zero bytes in the padding of a message of `n` bytes: with the byte before them
they fill a block up to its last eight bytes. -/
def zeros (n : ℕ) : ℕ := (119 - n % 64) % 64

/-- The length of a message of `n` bytes in bits, as eight bytes. -/
def lengthBytes (n : ℕ) : List Byte :=
  (List.range 8).map fun i => (BitVec.ofNat 64 (8 * n) >>> (56 - 8 * i)).setWidth 8

/-- The padded message. -/
def pad (m : List Byte) : List Byte :=
  m ++ [(0x80 : Byte)] ++ List.replicate (zeros m.length) (0 : Byte) ++ lengthBytes m.length

/-- The blocks of 64 bytes. -/
def blocks (m : List Byte) : List (List Byte) :=
  (List.range (m.length / 64)).map fun i => (m.drop (64 * i)).take 64

/-- The hash value of a list of blocks. -/
def hashBlocks (l : List (List Byte)) : Registers :=
  l.foldl (fun h b => compress (parse b) h) initial

/-- The bytes of a hash value. -/
def Registers.bytes (r : Registers) : List Byte :=
  Word.bytes r.a ++ Word.bytes r.b ++ Word.bytes r.c ++ Word.bytes r.d ++ Word.bytes r.e ++
    Word.bytes r.f ++ Word.bytes r.g ++ Word.bytes r.h

/-- The message digest. -/
def digest (m : List Byte) : List Byte := (hashBlocks (blocks (pad m))).bytes

@[simp] lemma length_digest (m : List Byte) : (digest m).length = 32 := rfl

/-- A padded message is made of whole blocks. -/
lemma length_pad (m : List Byte) : (pad m).length % 64 = 0 := by
  simp only [pad, zeros, lengthBytes, List.length_append, List.length_singleton,
    List.length_replicate, List.length_map, List.length_range]
  omega

lemma length_of_mem_blocks {m b : List Byte} (h : b ∈ blocks m) : b.length = 64 := by
  obtain ⟨i, hi, rfl⟩ := List.mem_map.mp h
  have hi' := List.mem_range.mp hi
  rw [List.length_take, List.length_drop]
  omega

/-- **The blocks make up the message.** -/
lemma flatten_blocks {m : List Byte} (h : m.length % 64 = 0) : (blocks m).flatten = m := by
  have hpart (n : ℕ) : ((List.range n).map fun i => (m.drop (64 * i)).take 64).flatten =
      m.take (64 * n) := by
    induction n with
    | zero => rfl
    | succ n ih =>
      rw [List.range_succ, List.map_append, List.map_singleton, List.flatten_append, ih,
        List.flatten_singleton, ← List.take_add]
      rfl
  rw [blocks, hpart, List.take_of_length_le (by omega)]

end Fips180
