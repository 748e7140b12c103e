import Mathlib.Data.List.Basic
import Mathlib.Tactic.Common
import EiffelWeb.Crypto.Digest.ShaFunctions

set_option relaxedAutoImplicit false
set_option autoImplicit false

/-!
# SHA-256

The class `SHA256`. The loop of `process_block` makes eight rounds at a time, where the registers
change their names instead of their contents.

## Main definitions

* `Sha256.processBlock`
* `Sha256.make`, `Sha256.reset`, `Sha256.doFinal`
-/

namespace EiffelWeb

open Special

namespace Sha256

/-- `sigma0 (x1)`. -/
def sigma0 (x1 : Natural32) : Natural32 :=
  let result := rotateRight32 x1 2
  let result := result ^^^ rotateRight32 x1 13
  result ^^^ rotateRight32 x1 22

/-- `sigma1 (x1)`. -/
def sigma1 (x1 : Natural32) : Natural32 :=
  let result := rotateRight32 x1 6
  let result := result ^^^ rotateRight32 x1 11
  result ^^^ rotateRight32 x1 25

/-- `lsigma0 (x1)`. -/
def lsigma0 (x1 : Natural32) : Natural32 := rotateRight32 x1 7 ^^^ rotateRight32 x1 18 ^^^ x1 >>> 3

/-- `lsigma1 (x1)`. -/
def lsigma1 (x1 : Natural32) : Natural32 :=
  rotateRight32 x1 17 ^^^ rotateRight32 x1 19 ^^^ x1 >>> 10

/-- `k`. -/
def k : List Natural32 :=
  [0x428a2f98, 0x71374491, 0xb5c0fbcf, 0xe9b5dba5, 0x3956c25b, 0x59f111f1, 0x923f82a4, 0xab1c5ed5,
    0xd807aa98, 0x12835b01, 0x243185be, 0x550c7dc3, 0x72be5d74, 0x80deb1fe, 0x9bdc06a7, 0xc19bf174,
    0xe49b69c1, 0xefbe4786, 0x0fc19dc6, 0x240ca1cc, 0x2de92c6f, 0x4a7484aa, 0x5cb0a9dc, 0x76f988da,
    0x983e5152, 0xa831c66d, 0xb00327c8, 0xbf597fc7, 0xc6e00bf3, 0xd5a79147, 0x06ca6351, 0x14292967,
    0x27b70a85, 0x2e1b2138, 0x4d2c6dfc, 0x53380d13, 0x650a7354, 0x766a0abb, 0x81c2c92e, 0x92722c85,
    0xa2bfe8a1, 0xa81a664b, 0xc24b8b70, 0xc76c51a3, 0xd192e819, 0xd6990624, 0xf40e3585, 0x106aa070,
    0x19a4c116, 0x1e376c08, 0x2748774c, 0x34b0bcb5, 0x391c0cb3, 0x4ed8aa4a, 0x5b9cca4f, 0x682e6ff3,
    0x748f82ee, 0x78a5636f, 0x84c87814, 0x8cc70208, 0x90befffa, 0xa4506ceb, 0xbef9a3f7, 0xc67178f2]

/-- One iteration of `expand_blocks`. -/
def expandStep (schedule : List Natural32) (t : ℕ) : List Natural32 :=
  schedule.set t (lsigma1 (item schedule (t - 2)) + item schedule (t - 7) +
    lsigma0 (item schedule (t - 15)) + item schedule (t - 16))

/-- `expand_blocks`. -/
def expandBlocks (schedule : List Natural32) : List Natural32 :=
  (List.range' 16 48).foldl expandStep schedule

/-- The locals `a` to `h` of `process_block`. -/
structure Registers where
  /-- `a`. -/
  a : Natural32
  /-- `b`. -/
  b : Natural32
  /-- `c`. -/
  c : Natural32
  /-- `d`. -/
  d : Natural32
  /-- `e`. -/
  e : Natural32
  /-- `f`. -/
  f : Natural32
  /-- `g`. -/
  g : Natural32
  /-- `h`. -/
  h : Natural32

/-- The assignments of one round, with the registers under their names in the first one: what `d`
and `h` become. -/
def registerStep (a b c d e f g h kt wt : Natural32) : Natural32 × Natural32 :=
  let h := h + sigma1 e + ShaFunctions.ch e f g + kt + wt
  let d := d + h
  let h := h + sigma0 a + ShaFunctions.maj a b c
  (d, h)

/-- The first of the eight rounds in the loop. -/
def round0 (r : Registers) (kt wt : Natural32) : Registers :=
  let x := registerStep r.a r.b r.c r.d r.e r.f r.g r.h kt wt
  { r with d := x.1, h := x.2 }

/-- The second of the eight rounds in the loop. -/
def round1 (r : Registers) (kt wt : Natural32) : Registers :=
  let x := registerStep r.h r.a r.b r.c r.d r.e r.f r.g kt wt
  { r with c := x.1, g := x.2 }

/-- The third of the eight rounds in the loop. -/
def round2 (r : Registers) (kt wt : Natural32) : Registers :=
  let x := registerStep r.g r.h r.a r.b r.c r.d r.e r.f kt wt
  { r with b := x.1, f := x.2 }

/-- The fourth of the eight rounds in the loop. -/
def round3 (r : Registers) (kt wt : Natural32) : Registers :=
  let x := registerStep r.f r.g r.h r.a r.b r.c r.d r.e kt wt
  { r with a := x.1, e := x.2 }

/-- The fifth of the eight rounds in the loop. -/
def round4 (r : Registers) (kt wt : Natural32) : Registers :=
  let x := registerStep r.e r.f r.g r.h r.a r.b r.c r.d kt wt
  { r with h := x.1, d := x.2 }

/-- The sixth of the eight rounds in the loop. -/
def round5 (r : Registers) (kt wt : Natural32) : Registers :=
  let x := registerStep r.d r.e r.f r.g r.h r.a r.b r.c kt wt
  { r with g := x.1, c := x.2 }

/-- The seventh of the eight rounds in the loop. -/
def round6 (r : Registers) (kt wt : Natural32) : Registers :=
  let x := registerStep r.c r.d r.e r.f r.g r.h r.a r.b kt wt
  { r with f := x.1, b := x.2 }

/-- The eighth of the eight rounds in the loop. -/
def round7 (r : Registers) (kt wt : Natural32) : Registers :=
  let x := registerStep r.b r.c r.d r.e r.f r.g r.h r.a kt wt
  { r with e := x.1, a := x.2 }

/-- One iteration of the loop of `process_block`, where `t` begins with `8 * i`. -/
def eightRounds (schedule : List Natural32) (r : Registers) (i : ℕ) : Registers :=
  let t := 8 * i
  let r := round0 r (item k t) (item schedule t)
  let r := round1 r (item k (t + 1)) (item schedule (t + 1))
  let r := round2 r (item k (t + 2)) (item schedule (t + 2))
  let r := round3 r (item k (t + 3)) (item schedule (t + 3))
  let r := round4 r (item k (t + 4)) (item schedule (t + 4))
  let r := round5 r (item k (t + 5)) (item schedule (t + 5))
  let r := round6 r (item k (t + 6)) (item schedule (t + 6))
  round7 r (item k (t + 7)) (item schedule (t + 7))

/-- The attributes `h1` to `h8`. -/
structure Chain where
  /-- `h1`. -/
  h1 : Natural32
  /-- `h2`. -/
  h2 : Natural32
  /-- `h3`. -/
  h3 : Natural32
  /-- `h4`. -/
  h4 : Natural32
  /-- `h5`. -/
  h5 : Natural32
  /-- `h6`. -/
  h6 : Natural32
  /-- `h7`. -/
  h7 : Natural32
  /-- `h8`. -/
  h8 : Natural32

/-- `process_block`, on `schedule` and `h1` to `h8`. -/
def processBlock (schedule : List Natural32) (x : Chain) : List Natural32 × Chain :=
  let schedule := expandBlocks schedule
  let r := (List.range 8).foldl (eightRounds schedule)
    ⟨x.h1, x.h2, x.h3, x.h4, x.h5, x.h6, x.h7, x.h8⟩
  (schedule, ⟨x.h1 + r.a, x.h2 + r.b, x.h3 + r.c, x.h4 + r.d, x.h5 + r.e, x.h6 + r.f, x.h7 + r.g,
    x.h8 + r.h⟩)

/-- What `SHA256` and `SHA_FUNCTIONS` define. -/
def functions : ShaFunctions Chain where
  asNatural32 := asNatural32Be
  wordBytes w := [(w >>> 24).setWidth 8, (w >>> 16).setWidth 8, (w >>> 8).setWidth 8, w.setWidth 8]
  lengthWords length := [(length >>> 32).setWidth 32, length.setWidth 32]
  processBlock := processBlock

/-- The values that `reset` gives to `h1` to `h8`. -/
def initialChain : Chain :=
  ⟨0x6a09e667, 0xbb67ae85, 0x3c6ef372, 0xa54ff53a, 0x510e527f, 0x9b05688c, 0x1f83d9ab, 0x5be0cd19⟩

/-- `reset`. -/
def reset (st : ShaState Chain) : ShaState Chain :=
  { st with
    bufferOffset := 0
    chain := initialChain
    scheduleOffset := 0
    schedule := fillWith st.schedule 0 0 st.schedule.length }

/-- `make`. -/
def make : ShaState Chain :=
  reset ⟨List.replicate 4 0, 0, List.replicate 64 0, 0, 0, ⟨0, 0, 0, 0, 0, 0, 0, 0⟩⟩

/-- The bytes of `h1` to `h8` written to `output`. -/
def writeChain (x : Chain) (output : List Natural8) (outOff : ℕ) : List Natural8 :=
  let output := fromNatural32Be x.h1 output outOff
  let output := fromNatural32Be x.h2 output (outOff + 4)
  let output := fromNatural32Be x.h3 output (outOff + 8)
  let output := fromNatural32Be x.h4 output (outOff + 12)
  let output := fromNatural32Be x.h5 output (outOff + 16)
  let output := fromNatural32Be x.h6 output (outOff + 20)
  let output := fromNatural32Be x.h7 output (outOff + 24)
  fromNatural32Be x.h8 output (outOff + 28)

/-- `do_final (output, out_off)`: the object and the array written. -/
def doFinal (st : ShaState Chain) (output : List Natural8) (outOff : ℕ) :
    ShaState Chain × List Natural8 :=
  let st := functions.finish st
  let output := writeChain st.chain output outOff
  (reset st, output)

end Sha256

end EiffelWeb
