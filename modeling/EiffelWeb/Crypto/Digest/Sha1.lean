import Mathlib.Data.List.Basic
import Mathlib.Tactic.Common
import EiffelWeb.Crypto.Digest.DigestObject

set_option relaxedAutoImplicit false
set_option autoImplicit false

/-!
# SHA-1

The class `SHA1`: four loops of `process_block` with five rounds at a time, where the registers
change their names instead of their contents. The registers `A` to `E` are attributes, which are
assigned before they are read, and the words of `schedule` behind the first sixteen are expanded
from these.

## Main definitions

* `Sha1.processBlock`, `Sha1.digest`

## Main results

* `Sha1.expandWordBlock_congr` — the expansion reads the first sixteen words.
* `Sha1.resets` — creation, resetting and output.
-/

namespace EiffelWeb

open Special MerkleDamgard

namespace Sha1

/-- The word that one iteration of `expand_word_block` writes. -/
def expandedWord (schedule : List Natural32) (i : ℕ) : Natural32 :=
  let temp := item schedule (i - 3) ^^^ item schedule (i - 8) ^^^ item schedule (i - 14) ^^^
    item schedule (i - 16)
  rotateLeft32 temp 1

/-- `expand_word_block`. -/
def expandWordBlock (schedule : List Natural32) : List Natural32 :=
  (List.range' 16 64).foldl (fun schedule i => schedule.set i (expandedWord schedule i)) schedule

/-- The attributes `A` to `E`. -/
structure Registers where
  /-- `A`. -/
  a : Natural32
  /-- `B`. -/
  b : Natural32
  /-- `C`. -/
  c : Natural32
  /-- `D`. -/
  d : Natural32
  /-- `E`. -/
  e : Natural32

/-- The body of the loops of `do_round_1` to `do_round_4`, from the index `idx` on, with the
function and the constant of the loop. -/
def fiveRounds (fn : Natural32 → Natural32 → Natural32 → Natural32) (k : Natural32)
    (schedule : List Natural32) (r : Registers) (idx : ℕ) : Registers :=
  let w := item schedule
  let e := r.e + rotateLeft32 r.a 5 + fn r.b r.c r.d + w idx + k
  let b := rotateLeft32 r.b 30
  let d := r.d + rotateLeft32 e 5 + fn r.a b r.c + w (idx + 1) + k
  let a := rotateLeft32 r.a 30
  let c := r.c + rotateLeft32 d 5 + fn e a b + w (idx + 2) + k
  let e := rotateLeft32 e 30
  let b := b + rotateLeft32 c 5 + fn d e a + w (idx + 3) + k
  let d := rotateLeft32 d 30
  let a := a + rotateLeft32 b 5 + fn c d e + w (idx + 4) + k
  let c := rotateLeft32 c 30
  ⟨a, b, c, d, e⟩

/-- A loop of four times five rounds. -/
def doRound (fn : Natural32 → Natural32 → Natural32 → Natural32) (k : Natural32) (idx : ℕ)
    (schedule : List Natural32) (r : Registers) : Registers :=
  (List.range 4).foldl (fun r j => fiveRounds fn k schedule r (idx + 5 * j)) r

/-- `do_round_1`. -/
def doRound1 : List Natural32 → Registers → Registers := doRound ShaFunctions.ch 0x5a827999 0

/-- `do_round_2`. -/
def doRound2 : List Natural32 → Registers → Registers := doRound ShaFunctions.parity 0x6ed9eba1 20

/-- `do_round_3`. -/
def doRound3 : List Natural32 → Registers → Registers := doRound ShaFunctions.maj 0x8f1bbcdc 40

/-- `do_round_4`. -/
def doRound4 : List Natural32 → Registers → Registers := doRound ShaFunctions.parity 0xca62c1d6 60

/-- The attributes `H1` to `H5`. -/
structure Words where
  /-- `H1`. -/
  h1 : Natural32
  /-- `H2`. -/
  h2 : Natural32
  /-- `H3`. -/
  h3 : Natural32
  /-- `H4`. -/
  h4 : Natural32
  /-- `H5`. -/
  h5 : Natural32

/-- The chaining words and the registers. -/
structure Chain where
  /-- `H1` to `H5`. -/
  words : Words
  /-- `A` to `E`. -/
  registers : Registers

/-- The registers behind the four loops. -/
def rounds (schedule : List Natural32) (x : Words) : Registers :=
  doRound4 schedule (doRound3 schedule (doRound2 schedule (doRound1 schedule
    ⟨x.h1, x.h2, x.h3, x.h4, x.h5⟩)))

/-- The sums at the end of `process_block`. -/
def addRegisters (x : Words) (r : Registers) : Words :=
  ⟨x.h1 + r.a, x.h2 + r.b, x.h3 + r.c, x.h4 + r.d, x.h5 + r.e⟩

/-- `process_block`, on `schedule` and the other attributes. -/
def processBlock (schedule : List Natural32) (x : Chain) : List Natural32 × Chain :=
  let schedule := expandWordBlock schedule
  let r := rounds schedule x.words
  (schedule, ⟨addRegisters x.words r, r⟩)

/-- What `SHA1` and `SHA_FUNCTIONS` define. -/
def functions : ShaFunctions Chain where
  asNatural32 := asNatural32Be
  wordBytes w := [(w >>> 24).setWidth 8, (w >>> 16).setWidth 8, (w >>> 8).setWidth 8, w.setWidth 8]
  lengthWords length := [(length >>> 32).setWidth 32, length.setWidth 32]
  processBlock := processBlock

/-- The values that `reset` gives to `H1` to `H5`. -/
def initialWords : Words := ⟨0x67452301, 0xefcdab89, 0x98badcfe, 0x10325476, 0xc3d2e1f0⟩

/-- `reset`. -/
def reset (st : ShaState Chain) : ShaState Chain :=
  { st with
    byteCount := 0
    bufferOffset := 0
    chain := { st.chain with words := initialWords }
    scheduleOffset := 0 }

/-- `make`. -/
def make : ShaState Chain :=
  reset ⟨List.replicate 4 0, 0, List.replicate 80 0, 0, 0, ⟨⟨0, 0, 0, 0, 0⟩, ⟨0, 0, 0, 0, 0⟩⟩⟩

/-- What `do_final` writes; `unpack_word` has the body of `from_natural_32_be`. -/
def output (x : Chain) (out : List Natural8) (offset : ℕ) : List Natural8 :=
  let out := fromNatural32Be x.words.h1 out offset
  let out := fromNatural32Be x.words.h2 out (offset + 4)
  let out := fromNatural32Be x.words.h3 out (offset + 8)
  let out := fromNatural32Be x.words.h4 out (offset + 12)
  fromNatural32Be x.words.h5 out (offset + 16)

/-- The class. -/
def digest : DigestClass Chain where
  toShaFunctions := functions
  make := make
  reset := reset
  output := output

/-! ## The expansion -/

lemma length_expandWordBlock (s : List Natural32) : (expandWordBlock s).length = s.length := by
  rw [expandWordBlock, length_foldl_set fun s i => List.length_set]

/-- **The expansion reads the first sixteen words.** -/
lemma expandWordBlock_congr {s s' : List Natural32} (hs : s.length = 80) (hs' : s'.length = 80)
    (h : s.take 16 = s'.take 16) : expandWordBlock s = expandWordBlock s' := by
  have hword (a a' : List Natural32) (t : ℕ) (ht : 16 ≤ t) (hat : a.take t = a'.take t) :
      expandedWord a t = expandedWord a' t := by
    have hitem {j : ℕ} (hj : j < t) : item a j = item a' j := by
      rw [← item_take a hj, hat, item_take a' hj]
    rw [expandedWord, expandedWord, hitem (by omega), hitem (by omega), hitem (by omega),
      hitem (by omega)]
  have hfill := take_foldl_set hword h (n := 64) (by omega) (by omega)
  rw [← expandWordBlock, ← expandWordBlock, List.take_of_length_le, List.take_of_length_le] at hfill
  · exact hfill
  · rw [length_expandWordBlock]
    omega
  · rw [length_expandWordBlock]
    omega

/-- The compression of sixteen words. -/
def compress (w : List Natural32) (x : Words) : Words :=
  addRegisters x (rounds (expandWordBlock (w ++ List.replicate 64 0)) x)

lemma functions_processBlock : functions.processBlock = processBlock := rfl

lemma compresses : Compresses functions 80 Chain.words compress where
  le_count := by decide
  length_schedule s x hs := by
    rw [functions_processBlock]
    simp only [processBlock, length_expandWordBlock, hs]
  view_chain s x hs := by
    have hsixteen : (s.take 16).length = 16 := by
      rw [List.length_take]
      omega
    have hexpand : expandWordBlock (s.take 16 ++ List.replicate 64 0) = expandWordBlock s := by
      refine expandWordBlock_congr ?_ hs ?_
      · rw [List.length_append, hsixteen, List.length_replicate]
      · rw [List.take_left' hsixteen]
    rw [functions_processBlock, compress, hexpand]
    simp only [processBlock]

/-- A new object stands for the empty message. -/
lemma represents_make : Represents functions 80 Chain.words make ⟨initialWords, []⟩ where
  length_buffer := rfl
  length_schedule := by decide
  view_chain := rfl
  rest := ⟨[], [], rfl, by simp, by decide, by decide, rfl, rfl, rfl, rfl⟩

/-- `reset` clears the byte counter. -/
lemma byteCount_reset (st : ShaState Chain) : (digest.reset st).byteCount = 0 := by
  simp only [digest, reset]

lemma byteCount_make : digest.make.byteCount = 0 := by
  simp only [digest, make, reset]

lemma digest_output : digest.output = output := by
  simp only [digest]

/-- **Creation, resetting and output** depend on `H1` to `H5` only. -/
lemma resets : Resets digest 80 Chain.words compress initialWords where
  compresses := compresses
  make := represents_make
  reset h :=
    { length_buffer := h.length_buffer
      length_schedule := h.length_schedule
      view_chain := rfl
      rest := ⟨[], [], rfl, by simp, by decide, by decide, rfl, rfl, rfl, rfl⟩ }
  output {x x'} hx := by
    have hwords : x.words = x'.words := hx
    rw [digest_output]
    funext out offset
    simp only [output, hwords]

end Sha1

end EiffelWeb
