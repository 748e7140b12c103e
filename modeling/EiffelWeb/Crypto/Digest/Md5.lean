import Mathlib.Data.List.Basic
import Mathlib.Tactic.Common
import EiffelWeb.Crypto.Digest.DigestObject

set_option relaxedAutoImplicit false
set_option autoImplicit false

/-!
# MD5

The class `MD5`: words are read and written with the least significant byte first, and the registers
`a` to `d` of `process_block` are attributes. They are assigned before they are read.

## Main definitions

* `Md5.processBlock`, `Md5.digest`

## Main results

* `Md5.resets` — creation, resetting and output.
-/

namespace EiffelWeb

open Special MerkleDamgard

namespace Md5

/-- `f (u, v, w)`: `ch` renamed. -/
def f (u v w : Natural32) : Natural32 := ShaFunctions.ch u v w

/-- `g (u, v, w)`. -/
def g (u v w : Natural32) : Natural32 := u &&& w ||| v &&& ~~~w

/-- `h (u, v, w)`: `parity` renamed. -/
def h (u v w : Natural32) : Natural32 := ShaFunctions.parity u v w

/-- `k (u, v, w)`. -/
def k (u v w : Natural32) : Natural32 := v ^^^ (u ||| ~~~w)

/-- The attributes `a` to `d`. -/
structure Registers where
  /-- `a`. -/
  a : Natural32
  /-- `b`. -/
  b : Natural32
  /-- `c`. -/
  c : Natural32
  /-- `d`. -/
  d : Natural32

/-- The right hand side of the assignments of `process_block`. -/
def md5Step (fn : Natural32 → Natural32 → Natural32 → Natural32) (a b c d x const : Natural32)
    (count : ℕ) : Natural32 :=
  rotateLeft32 (a + fn b c d + x + const) count + b

/-- The first sixteen assignments of `process_block`, with the function `f`. -/
def round1 (schedule : List Natural32) (r : Registers) : Registers :=
  let w := item schedule
  let a := r.a
  let b := r.b
  let c := r.c
  let d := r.d
  let a := md5Step f a b c d (w 0) 0xd76aa478 7
  let d := md5Step f d a b c (w 1) 0xe8c7b756 12
  let c := md5Step f c d a b (w 2) 0x242070db 17
  let b := md5Step f b c d a (w 3) 0xc1bdceee 22
  let a := md5Step f a b c d (w 4) 0xf57c0faf 7
  let d := md5Step f d a b c (w 5) 0x4787c62a 12
  let c := md5Step f c d a b (w 6) 0xa8304613 17
  let b := md5Step f b c d a (w 7) 0xfd469501 22
  let a := md5Step f a b c d (w 8) 0x698098d8 7
  let d := md5Step f d a b c (w 9) 0x8b44f7af 12
  let c := md5Step f c d a b (w 10) 0xffff5bb1 17
  let b := md5Step f b c d a (w 11) 0x895cd7be 22
  let a := md5Step f a b c d (w 12) 0x6b901122 7
  let d := md5Step f d a b c (w 13) 0xfd987193 12
  let c := md5Step f c d a b (w 14) 0xa679438e 17
  let b := md5Step f b c d a (w 15) 0x49b40821 22
  ⟨a, b, c, d⟩

/-- The second sixteen assignments of `process_block`, with the function `g`. -/
def round2 (schedule : List Natural32) (r : Registers) : Registers :=
  let w := item schedule
  let a := r.a
  let b := r.b
  let c := r.c
  let d := r.d
  let a := md5Step g a b c d (w 1) 0xf61e2562 5
  let d := md5Step g d a b c (w 6) 0xc040b340 9
  let c := md5Step g c d a b (w 11) 0x265e5a51 14
  let b := md5Step g b c d a (w 0) 0xe9b6c7aa 20
  let a := md5Step g a b c d (w 5) 0xd62f105d 5
  let d := md5Step g d a b c (w 10) 0x02441453 9
  let c := md5Step g c d a b (w 15) 0xd8a1e681 14
  let b := md5Step g b c d a (w 4) 0xe7d3fbc8 20
  let a := md5Step g a b c d (w 9) 0x21e1cde6 5
  let d := md5Step g d a b c (w 14) 0xc33707d6 9
  let c := md5Step g c d a b (w 3) 0xf4d50d87 14
  let b := md5Step g b c d a (w 8) 0x455a14ed 20
  let a := md5Step g a b c d (w 13) 0xa9e3e905 5
  let d := md5Step g d a b c (w 2) 0xfcefa3f8 9
  let c := md5Step g c d a b (w 7) 0x676f02d9 14
  let b := md5Step g b c d a (w 12) 0x8d2a4c8a 20
  ⟨a, b, c, d⟩

/-- The third sixteen assignments of `process_block`, with the function `h`. -/
def round3 (schedule : List Natural32) (r : Registers) : Registers :=
  let w := item schedule
  let a := r.a
  let b := r.b
  let c := r.c
  let d := r.d
  let a := md5Step h a b c d (w 5) 0xfffa3942 4
  let d := md5Step h d a b c (w 8) 0x8771f681 11
  let c := md5Step h c d a b (w 11) 0x6d9d6122 16
  let b := md5Step h b c d a (w 14) 0xfde5380c 23
  let a := md5Step h a b c d (w 1) 0xa4beea44 4
  let d := md5Step h d a b c (w 4) 0x4bdecfa9 11
  let c := md5Step h c d a b (w 7) 0xf6bb4b60 16
  let b := md5Step h b c d a (w 10) 0xbebfbc70 23
  let a := md5Step h a b c d (w 13) 0x289b7ec6 4
  let d := md5Step h d a b c (w 0) 0xeaa127fa 11
  let c := md5Step h c d a b (w 3) 0xd4ef3085 16
  let b := md5Step h b c d a (w 6) 0x04881d05 23
  let a := md5Step h a b c d (w 9) 0xd9d4d039 4
  let d := md5Step h d a b c (w 12) 0xe6db99e5 11
  let c := md5Step h c d a b (w 15) 0x1fa27cf8 16
  let b := md5Step h b c d a (w 2) 0xc4ac5665 23
  ⟨a, b, c, d⟩

/-- The last sixteen assignments of `process_block`, with the function `k`. -/
def round4 (schedule : List Natural32) (r : Registers) : Registers :=
  let w := item schedule
  let a := r.a
  let b := r.b
  let c := r.c
  let d := r.d
  let a := md5Step k a b c d (w 0) 0xf4292244 6
  let d := md5Step k d a b c (w 7) 0x432aff97 10
  let c := md5Step k c d a b (w 14) 0xab9423a7 15
  let b := md5Step k b c d a (w 5) 0xfc93a039 21
  let a := md5Step k a b c d (w 12) 0x655b59c3 6
  let d := md5Step k d a b c (w 3) 0x8f0ccc92 10
  let c := md5Step k c d a b (w 10) 0xffeff47d 15
  let b := md5Step k b c d a (w 1) 0x85845dd1 21
  let a := md5Step k a b c d (w 8) 0x6fa87e4f 6
  let d := md5Step k d a b c (w 15) 0xfe2ce6e0 10
  let c := md5Step k c d a b (w 6) 0xa3014314 15
  let b := md5Step k b c d a (w 13) 0x4e0811a1 21
  let a := md5Step k a b c d (w 4) 0xf7537e82 6
  let d := md5Step k d a b c (w 11) 0xbd3af235 10
  let c := md5Step k c d a b (w 2) 0x2ad7d2bb 15
  let b := md5Step k b c d a (w 9) 0xeb86d391 21
  ⟨a, b, c, d⟩

/-- The attributes `h1` to `h4`. -/
structure Words where
  /-- `h1`. -/
  h1 : Natural32
  /-- `h2`. -/
  h2 : Natural32
  /-- `h3`. -/
  h3 : Natural32
  /-- `h4`. -/
  h4 : Natural32

/-- The chaining words and the registers. -/
structure Chain where
  /-- `h1` to `h4`. -/
  words : Words
  /-- `a` to `d`. -/
  registers : Registers

/-- The registers behind the 64 assignments. -/
def rounds (schedule : List Natural32) (x : Words) : Registers :=
  round4 schedule (round3 schedule (round2 schedule (round1 schedule ⟨x.h1, x.h2, x.h3, x.h4⟩)))

/-- The sums at the end of `process_block`. -/
def addRegisters (x : Words) (r : Registers) : Words :=
  ⟨x.h1 + r.a, x.h2 + r.b, x.h3 + r.c, x.h4 + r.d⟩

/-- `process_block`, on `schedule` and the other attributes. -/
def processBlock (schedule : List Natural32) (x : Chain) : List Natural32 × Chain :=
  let r := rounds schedule x.words
  (schedule, ⟨addRegisters x.words r, r⟩)

/-- What `MD5` defines. -/
def functions : ShaFunctions Chain where
  asNatural32 := asNatural32Le
  wordBytes w := [w.setWidth 8, (w >>> 8).setWidth 8, (w >>> 16).setWidth 8, (w >>> 24).setWidth 8]
  lengthWords length := [length.setWidth 32, (length >>> 32).setWidth 32]
  processBlock := processBlock

/-- The values that `reset` gives to `h1` to `h4`. -/
def initialWords : Words := ⟨0x67452301, 0xefcdab89, 0x98badcfe, 0x10325476⟩

/-- `reset`. -/
def reset (st : ShaState Chain) : ShaState Chain :=
  { st with
    byteCount := 0
    scheduleOffset := 0
    bufferOffset := 0
    chain := { st.chain with words := initialWords } }

/-- `make`. -/
def make : ShaState Chain :=
  reset ⟨List.replicate 4 0, 0, List.replicate 16 0, 0, 0, ⟨⟨0, 0, 0, 0⟩, ⟨0, 0, 0, 0⟩⟩⟩

/-- What `do_final` writes. -/
def output (x : Chain) (out : List Natural8) (offset : ℕ) : List Natural8 :=
  let out := fromNatural32Le x.words.h1 out offset
  let out := fromNatural32Le x.words.h2 out (offset + 4)
  let out := fromNatural32Le x.words.h3 out (offset + 8)
  fromNatural32Le x.words.h4 out (offset + 12)

/-- The class. -/
def digest : DigestClass Chain where
  toShaFunctions := functions
  make := make
  reset := reset
  output := output

/-- `reset` clears the byte counter. -/
lemma byteCount_reset (st : ShaState Chain) : (digest.reset st).byteCount = 0 := by
  simp only [digest, reset]

lemma byteCount_make : digest.make.byteCount = 0 := by
  simp only [digest, make, reset]

lemma digest_output : digest.output = output := by
  simp only [digest]

/-- **Creation, resetting and output** depend on `h1` to `h4` only. -/
lemma resets : Resets digest 16 Chain.words
    (fun schedule x => addRegisters x (rounds schedule x)) initialWords where
  compresses :=
    { le_count := by decide
      length_schedule := fun _ _ hs => hs
      view_chain := fun s x hs => by rw [← hs, List.take_length]; rfl }
  make :=
    { length_buffer := rfl
      length_schedule := rfl
      view_chain := rfl
      rest := ⟨[], [], rfl, by simp, by decide, by decide, rfl, rfl, rfl, rfl⟩ }
  reset h :=
    { length_buffer := h.length_buffer
      length_schedule := h.length_schedule
      view_chain := rfl
      rest := ⟨[], [], rfl, by simp, by decide, by decide, rfl, rfl, rfl, rfl⟩ }
  output {x x'} hx := by
    have hwords : x.words = x'.words := hx
    rw [digest_output]
    funext out offset
    simp only [output, hwords]

end Md5

end EiffelWeb
