import Mathlib.Data.List.Basic
import Mathlib.Tactic.Common
import EiffelWeb.Character
import EiffelWeb.MerkleDamgard
import EiffelWeb.Crypto.ArrayFacilities

set_option relaxedAutoImplicit false
set_option autoImplicit false

/-!
# Digests by blocks of sixteen words

The classes `BYTE_FACILITIES`, `BYTE_32_BIT_BLOCK_FACILITIES` and `SHA_FUNCTIONS`, from which
`SHA256`, `SHA1` and `MD5` inherit. Bytes go into a buffer of four, words from there into the first
sixteen places of an array, and full blocks are processed by the descendants. All feeding routines
pass their bytes to `update` one by one, and so do the padding and the length at the end.

The buffers hold old bytes and old words behind the offsets. What counts is the chaining value with
the bytes since the last block, and a state stands for these (`Represents`).

## Main definitions

* `ShaFunctions` — what the descendants define.
* `ShaState`, `ShaFunctions.update`, `ShaFunctions.pad`, `ShaFunctions.finish`
* `Sink` — the feeding routines, with the bytes they pass on.
* `Compresses` — what the processing of a block has to satisfy.
* `Represents` — the bytes that a state stands for.

## Main results

* `Represents.update`, `Represents.feed` — one byte, and many.
* `ShaFunctions.finish_eq` — `finish` feeds the padding.
* `padBytes_spec` — the length of the padding.
-/

namespace EiffelWeb

open Special MerkleDamgard

/-! ## Functions of three words -/

/-- `ch (u, v, w)`. -/
def ShaFunctions.ch (u v w : Natural32) : Natural32 := u &&& v ||| ~~~u &&& w

/-- `maj (u, v, w)`. -/
def ShaFunctions.maj (u v w : Natural32) : Natural32 := u &&& v ||| u &&& w ||| v &&& w

/-- `parity (u, v, w)`. -/
def ShaFunctions.parity (u v w : Natural32) : Natural32 := u ^^^ v ^^^ w

/-! ## The state and its operations -/

/-- What the descendants define: `process_word` reads a word in their byte order, `update_word`
passes the bytes of a word to `update` in their order, `process_length` passes on two words, and
`process_block` works on `schedule` and on the chaining words. -/
structure ShaFunctions (η : Type*) where
  /-- The word that `process_word` reads from the buffer. -/
  asNatural32 : List Natural8 → ℕ → Natural32
  /-- The bytes that `update_word` passes to `update`. -/
  wordBytes : Natural32 → List Natural8
  /-- The words that `process_length` passes to `update_word`. -/
  lengthWords : Natural64 → List Natural32
  /-- `process_block`, on `schedule` and the other attributes. -/
  processBlock : List Natural32 → η → List Natural32 × η

/-- The attributes of a digest, those of the descendants in `chain`. -/
structure ShaState (η : Type*) where
  /-- `buffer`. -/
  buffer : List Natural8
  /-- `buffer_offset`. -/
  bufferOffset : ℕ
  /-- `schedule`. -/
  schedule : List Natural32
  /-- `schedule_offset`. -/
  scheduleOffset : ℕ
  /-- `byte_count`. -/
  byteCount : Natural64
  /-- The chaining words and what else the descendant has. -/
  chain : η

/-- The number of zero bytes that `pad` adds, computed from `byte_count`. -/
def padBytes (byteCount : Natural64) : ℕ :=
  let padBytes := ((56 - byteCount % 64).setWidth 32).toInt
  let padBytes := if padBytes < 0 then padBytes + 64 else padBytes
  padBytes.toNat

namespace ShaFunctions

variable {η : Type*} (c : ShaFunctions η)

/-- `process_word (buffer, 0)`. -/
def processWord (st : ShaState η) : ShaState η :=
  let st := { st with
    schedule := st.schedule.set st.scheduleOffset (c.asNatural32 st.buffer 0)
    scheduleOffset := st.scheduleOffset + 1 }
  if st.scheduleOffset = 16 then
    let r := c.processBlock st.schedule st.chain
    { st with scheduleOffset := 0, schedule := r.1, chain := r.2 }
  else st

/-- `update (in)`: the version of `BYTE_32_BIT_BLOCK_FACILITIES`, and the byte is counted. -/
def update (st : ShaState η) (b : Natural8) : ShaState η :=
  let byteCount := st.byteCount
  let st := { st with
    buffer := st.buffer.set st.bufferOffset b
    bufferOffset := st.bufferOffset + 1 }
  let st := if 3 < st.bufferOffset then { c.processWord st with bufferOffset := 0 } else st
  { st with byteCount := byteCount + 1 }

/-- Bytes that are passed to `update` one after the other. -/
def feed (st : ShaState η) (l : List Natural8) : ShaState η := l.foldl c.update st

/-- `update_word (in)`. -/
def updateWord (st : ShaState η) (w : Natural32) : ShaState η := c.feed st (c.wordBytes w)

/-- `pad`. -/
def pad (st : ShaState η) : ShaState η :=
  let st := c.update st 0x80
  (List.replicate (padBytes st.byteCount) (0 : Natural8)).foldl c.update st

/-- `process_length (length)`. -/
def processLength (st : ShaState η) (length : Natural64) : ShaState η :=
  (c.lengthWords length).foldl c.updateWord st

/-- `finish`, where `bit_count` is `byte_count |<< 3`. -/
def finish (st : ShaState η) : ShaState η :=
  let length := st.byteCount <<< 3
  let st := c.pad st
  c.processLength st length

end ShaFunctions

/-- The routines that feed a digest. -/
inductive Sink where
  /-- `update (in)`, or `byte_sink`. -/
  | update (b : Natural8)
  /-- `sink_special (in, in_lower, in_upper)`: from the last index down. -/
  | special (a : List Natural8) (lower upper : ℕ)
  /-- `sink_special_lsb (in, in_lower, in_upper)`: from the first index up. -/
  | specialLsb (a : List Natural8) (lower upper : ℕ)
  /-- `sink_character (in)`. -/
  | character (x : Character8)
  /-- `sink_natural_32_be (in)`. -/
  | natural32Be (w : Natural32)
  /-- `sink_string (in)`. -/
  | string (s : String8)

/-- The bytes that a routine passes to `update`, in this order. -/
def Sink.bytes : Sink → List Natural8
  | update b => [b]
  | special a lower upper => (List.range' lower (upper + 1 - lower)).reverse.map (item a)
  | specialLsb a lower upper => (List.range' lower (upper + 1 - lower)).map (item a)
  | character x => [x.toBitVec]
  | natural32Be w =>
    [(w >>> 24).setWidth 8, (w >>> 16).setWidth 8, (w >>> 8).setWidth 8, w.setWidth 8]
  | string s => s.map UInt8.toBitVec

namespace ShaFunctions

variable {η : Type*} (c : ShaFunctions η)

/-- A call of a feeding routine. -/
def sink (st : ShaState η) (s : Sink) : ShaState η := c.feed st s.bytes

/-- Calls of feeding routines feed their bytes. -/
lemma foldl_sink (st : ShaState η) (l : List Sink) :
    l.foldl c.sink st = c.feed st (l.flatMap Sink.bytes) := by
  induction l generalizing st with
  | nil => rfl
  | cons s l ih => rw [List.foldl_cons, ih, List.flatMap_cons, feed, feed, List.foldl_append]; rfl

/-- The bytes that `finish` feeds when `byte_count` has the value `n`. -/
def padding (n : Natural64) : List Natural8 :=
  [(0x80 : Natural8)] ++ List.replicate (padBytes (n + 1)) (0 : Natural8) ++
    (c.lengthWords (n <<< 3)).flatMap c.wordBytes

/-- **`finish` feeds the padding.** -/
lemma finish_eq (st : ShaState η) : c.finish st = c.feed st (c.padding st.byteCount) := by
  have hlength (st : ShaState η) (l : List Natural32) :
      l.foldl c.updateWord st = c.feed st (l.flatMap c.wordBytes) := by
    induction l generalizing st with
    | nil => rfl
    | cons w l ih =>
      rw [List.foldl_cons, ih, List.flatMap_cons, feed, feed, List.foldl_append]
      rfl
  rw [finish, processLength, hlength, padding, feed, feed, List.foldl_append]
  rfl

end ShaFunctions

/-! ## The length of the padding -/

/-- **The padding fills a block up to its last eight bytes.** The subtraction wraps around when the
byte count is beyond them, and the conversion makes a negative number of it. -/
lemma padBytes_spec (n : Natural64) : (n.toNat + padBytes n) % 64 = 56 ∧ padBytes n < 64 := by
  have hmod : (n % 64).toNat = n.toNat % 64 := by
    rw [BitVec.toNat_umod]
    rfl
  have hlt : n.toNat % 64 < 64 := Nat.mod_lt _ (by decide)
  have hint : ((56 - n % 64).setWidth 32).toInt = 56 - (n.toNat % 64 : ℕ) := by
    have hsub : ((56 : Natural64) - n % 64).toNat = (2 ^ 64 - n.toNat % 64 + 56) % 2 ^ 64 := by
      rw [BitVec.toNat_sub, hmod]
      rfl
    rw [BitVec.toInt_eq_toNat_cond, BitVec.toNat_setWidth, hsub]
    split_ifs <;> omega
  simp only [padBytes, hint]
  split_ifs <;> omega

/-! ## What a state stands for -/

/-- The words of a list of bytes, four for each. -/
def wordsOf (asNatural32 : List Natural8 → ℕ → Natural32) : List Natural8 → List Natural32
  | b₀ :: b₁ :: b₂ :: b₃ :: l => asNatural32 [b₀, b₁, b₂, b₃] 0 :: wordsOf asNatural32 l
  | _ => []

/-- A list of words that are given as bytes. -/
lemma wordsOf_flatten (asNatural32 : List Natural8 → ℕ → Natural32) {ws : List (List Natural8)}
    (h : ∀ w ∈ ws, w.length = 4) : wordsOf asNatural32 ws.flatten = ws.map (asNatural32 · 0) := by
  induction ws with
  | nil => rfl
  | cons w ws ih =>
    obtain ⟨b₀, b₁, b₂, b₃, rfl⟩ : ∃ b₀ b₁ b₂ b₃, w = [b₀, b₁, b₂, b₃] :=
      List.length_eq_four.mp (h w List.mem_cons_self)
    have ih' := ih fun w' hw' => h w' (List.mem_cons_of_mem _ hw')
    rw [List.map_cons, ← ih']
    rfl

lemma length_flatten_words {ws : List (List Natural8)} (h : ∀ w ∈ ws, w.length = 4) :
    ws.flatten.length = 4 * ws.length := by
  induction ws with
  | nil => rfl
  | cons w ws ih =>
    rw [List.flatten_cons, List.length_append, h w List.mem_cons_self,
      ih fun w' hw' => h w' (List.mem_cons_of_mem _ hw'), List.length_cons]
    omega

section

variable {η θ : Type*} (c : ShaFunctions η) (count : ℕ) (view : η → θ)

/-- The processing of a block, on the chaining value that is seen in the attributes: it reads the
first sixteen words of `schedule` and keeps the size of the array. -/
structure Compresses (compress : List Natural32 → θ → θ) : Prop where
  le_count : 16 ≤ count
  length_schedule (s : List Natural32) (x : η) : s.length = count →
    (c.processBlock s x).1.length = count
  view_chain (s : List Natural32) (x : η) : s.length = count →
    view (c.processBlock s x).2 = compress (s.take 16) (view x)

/-- The state stands for a chaining value and for the bytes since the last block: full words of them
are in `schedule`, and the others in `buffer`. -/
structure Represents (st : ShaState η) (a : Absorbed θ Natural8) : Prop where
  length_buffer : st.buffer.length = 4
  length_schedule : st.schedule.length = count
  view_chain : view st.chain = a.chain
  rest : ∃ (ws : List (List Natural8)) (tail : List Natural8),
    a.rest = ws.flatten ++ tail ∧ (∀ w ∈ ws, w.length = 4) ∧ ws.length < 16 ∧
    tail.length < 4 ∧ st.bufferOffset = tail.length ∧ st.buffer.take tail.length = tail ∧
    st.scheduleOffset = ws.length ∧ st.schedule.take ws.length = ws.map (c.asNatural32 · 0)

end

section

variable {η θ : Type*} {c : ShaFunctions η} {count : ℕ} {view : η → θ}
  {compress : List Natural32 → θ → θ} {st : ShaState η} {a : Absorbed θ Natural8}

/-- The compression of a block of bytes. -/
def compressBytes (c : ShaFunctions η) (compress : List Natural32 → θ → θ) (l : List Natural8)
    (h : θ) : θ :=
  compress (wordsOf c.asNatural32 l) h

lemma byteCount_update (st : ShaState η) (b : Natural8) :
    (c.update st b).byteCount = st.byteCount + 1 := rfl

lemma byteCount_feed (st : ShaState η) (l : List Natural8) :
    (c.feed st l).byteCount = st.byteCount + BitVec.ofNat 64 l.length := by
  induction l generalizing st with
  | nil => exact (BitVec.add_zero _).symm
  | cons b l ih =>
    rw [ShaFunctions.feed, List.foldl_cons, ← ShaFunctions.feed, ih, byteCount_update,
      List.length_cons, BitVec.add_assoc, Nat.add_comm, BitVec.ofNat_add]
    rfl

/-- **One byte.** Either it stays in the buffer, or it completes a word, or the word completes a
block. -/
lemma Represents.update (hc : Compresses c count view compress) (h : Represents c count view st a)
    (b : Natural8) :
    Represents c count view (c.update st b) (absorb 64 (compressBytes c compress) a b) := by
  obtain ⟨ws, tail, hrest, hws, hlt16, hlt4, hboff, hbuf, hsoff, hsch⟩ := h.rest
  have hlenws := length_flatten_words hws
  have hlen : a.rest.length = 4 * ws.length + tail.length := by
    rw [hrest, List.length_append, hlenws]
  have hrest' : a.rest ++ [b] = ws.flatten ++ (tail ++ [b]) := by
    rw [hrest, List.append_assoc]
  have htake := take_set_concat hbuf (by rw [h.length_buffer]; exact hlt4) b
  have hlentail : (tail ++ [b]).length = tail.length + 1 := by
    rw [List.length_append, List.length_singleton]
  rcases Nat.lt_or_ge (tail.length + 1) 4 with hpart | hfull
  · have hupdate : c.update st b = { st with
        buffer := st.buffer.set tail.length b
        bufferOffset := tail.length + 1
        byteCount := st.byteCount + 1 } := by
      simp only [ShaFunctions.update, hboff]
      rw [if_neg (by omega)]
    have habsorb : absorb 64 (compressBytes c compress) a b = ⟨a.chain, a.rest ++ [b]⟩ :=
      if_neg (by omega)
    rw [hupdate, habsorb]
    exact ⟨by simp only [List.length_set, h.length_buffer], h.length_schedule, h.view_chain,
      ws, tail ++ [b], hrest', hws, hlt16, by omega, hlentail.symm, by rw [hlentail, htake], hsoff,
      hsch⟩
  · -- the buffer is full, and the word goes into the schedule
    have hword : st.buffer.set tail.length b = tail ++ [b] := by
      rw [← htake, List.take_of_length_le]
      rw [List.length_set, h.length_buffer]
      omega
    have hschedule : (st.schedule.set ws.length (c.asNatural32 (tail ++ [b]) 0)).take
        (ws.length + 1) = (ws ++ [tail ++ [b]]).map (c.asNatural32 · 0) := by
      have hmap : (ws.map (c.asNatural32 · 0)).length = ws.length := List.length_map ..
      have hset := take_set_concat (u := ws.map (c.asNatural32 · 0)) (by rw [hmap, hsch])
        (by rw [hmap, h.length_schedule]; have := hc.le_count; omega)
        (c.asNatural32 (tail ++ [b]) 0)
      rw [hmap] at hset
      rw [hset, List.map_append, List.map_singleton]
    have hws' : ∀ w ∈ ws ++ [tail ++ [b]], w.length = 4 := by
      intro w hw
      rcases List.mem_append.mp hw with hw | hw
      · exact hws w hw
      · rw [List.mem_singleton.mp hw, hlentail]
        omega
    have hflat : a.rest ++ [b] = (ws ++ [tail ++ [b]]).flatten := by
      rw [hrest', List.flatten_append, List.flatten_singleton]
    rcases Nat.lt_or_ge (ws.length + 1) 16 with hpart16 | hfull16
    · have hupdate : c.update st b = { st with
          buffer := tail ++ [b]
          bufferOffset := 0
          schedule := st.schedule.set ws.length (c.asNatural32 (tail ++ [b]) 0)
          scheduleOffset := ws.length + 1
          byteCount := st.byteCount + 1 } := by
        simp only [ShaFunctions.update, ShaFunctions.processWord, hboff, hsoff, hword]
        rw [if_pos (by omega), if_neg (by omega)]
      have habsorb : absorb 64 (compressBytes c compress) a b = ⟨a.chain, a.rest ++ [b]⟩ :=
        if_neg (by omega)
      rw [hupdate, habsorb]
      exact ⟨by simp only [hlentail]; omega, by simp only [List.length_set, h.length_schedule],
        h.view_chain, ws ++ [tail ++ [b]], [], by rw [hflat, List.append_nil], hws',
        by rw [List.length_append, List.length_singleton]; exact hpart16, by decide, rfl, rfl,
        by rw [List.length_append, List.length_singleton],
        by rw [List.length_append, List.length_singleton, hschedule]⟩
    · obtain ⟨schedule, hschdef⟩ : ∃ s, s = st.schedule.set ws.length
          (c.asNatural32 (tail ++ [b]) 0) := ⟨_, rfl⟩
      have hlensch : schedule.length = count := by
        rw [hschdef, List.length_set, h.length_schedule]
      have hupdate : c.update st b = { st with
          buffer := tail ++ [b]
          bufferOffset := 0
          schedule := (c.processBlock schedule st.chain).1
          scheduleOffset := 0
          chain := (c.processBlock schedule st.chain).2
          byteCount := st.byteCount + 1 } := by
        simp only [ShaFunctions.update, ShaFunctions.processWord, hboff, hsoff, hword, ← hschdef]
        rw [if_pos (by omega), if_pos (by omega)]
      have habsorb : absorb 64 (compressBytes c compress) a b =
          ⟨compressBytes c compress (a.rest ++ [b]) a.chain, []⟩ :=
        if_pos (by omega)
      have hsixteen : schedule.take 16 = wordsOf c.asNatural32 (a.rest ++ [b]) := by
        obtain hws16 : ws.length + 1 = 16 := by omega
        rw [hflat, wordsOf_flatten _ hws', ← hschedule, ← hschdef, hws16]
      rw [hupdate, habsorb]
      refine ⟨by simp only [hlentail]; omega, hc.length_schedule _ _ hlensch, ?_, [], [], rfl,
        by simp, by decide, by decide, rfl, rfl, rfl, rfl⟩
      show view (c.processBlock schedule st.chain).2 =
        compressBytes c compress (a.rest ++ [b]) a.chain
      rw [hc.view_chain _ _ hlensch, hsixteen, h.view_chain]
      rfl

/-- **Many bytes.** -/
lemma Represents.feed (hc : Compresses c count view compress) (h : Represents c count view st a)
    (l : List Natural8) :
    Represents c count view (c.feed st l) (absorbAll 64 (compressBytes c compress) a l) := by
  induction l generalizing st a with
  | nil => exact h
  | cons b l ih => exact ih (h.update hc b)

end

end EiffelWeb
