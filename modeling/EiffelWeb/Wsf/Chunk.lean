import Mathlib.Data.List.Basic
import Mathlib.Tactic.Common
import EiffelWeb.Loop
import EiffelWeb.Encoder.Url
import EiffelWeb.Http.Header

set_option relaxedAutoImplicit false
set_option autoImplicit false

/-!
# Chunks

The strings that the routine `write_chunk` of `WSF_RESPONSE` writes. The size of a chunk is
written in hexadecimal digits: its leading zeros are removed by a loop that stops at the first
other digit and has no bound.

## Main definitions

* `zeroLoop`, `chunkHex` — the size of a chunk.
* `chunkPieces` — the strings a call writes.
* `callsWritten`, `chunksWritten` — what a sequence of calls writes.
* `ChunkedBody` — the chunked bodies of HTTP/1.1 and what they stand for.

## Main results

* `chunkHex_eq` — the size without its leading zeros; there is none if all digits are zeros.
* `chunkedBody_chunksWritten_append` — only the empty line at the end is missing.
* `not_chunksDecode` — what is written is never a chunked body.
-/

namespace EiffelWeb

/-! ## The routine -/

/-- The loop of `write_chunk` that skips zeros. It fails when it leaves the string. -/
def zeroLoop (hex : String8) : Loop ℤ where
  exit i := (Text.item? hex i).any (· ≠ ch '0')
  body i := (Text.item? hex i).map fun _ => i + 1

/-- The text of the size `count` of a chunk, `none` if the loop leaves the string. -/
def chunkHex (count : ℕ) : Option String8 :=
  let hex := UrlEncoder.toHexString count
  ((zeroLoop hex).run (hex.length + 1) 1).map fun i =>
    if 1 < i then Text.substring hex i hex.length else hex

/-- The strings that `write_chunk (s)` gives to `write_string`, `none` if it fails before. -/
def chunkPieces : Option String8 → Option (List String8)
  | some s => (chunkHex s.length).map fun hex => [hex ++ crlf, s, crlf]
  | none => some [str "0" ++ crlf]

/-- What a sequence of calls of `write_chunk` writes; `none` if a call fails. -/
def callsWritten : List (Option String8) → Option String8
  | [] => some []
  | s :: calls =>
    (chunkPieces s).bind fun pieces => (callsWritten calls).map (pieces.flatten ++ ·)

/-- What `write_chunk` writes for the strings and then for `Void`. -/
def chunksWritten (strings : List String8) : Option String8 :=
  callsWritten (strings.map some ++ [none])

/-! ## Chunked bodies -/

/-- The number written by hexadecimal digits. -/
def hexSize (hex : String8) : ℕ :=
  hex.foldl (fun r c => r * 16 + (UrlEncoder.hexDigitValue c).toNat) 0

/-- The chunked bodies of HTTP/1.1, with the content they stand for. -/
inductive ChunkedBody : String8 → String8 → Prop where
  /-- The last chunk and the empty line behind it. -/
  | last : ChunkedBody (str "0" ++ crlf ++ crlf) []
  /-- A chunk of at least one byte. -/
  | chunk {hex data rest content : String8} (hhex : hex ≠ [] ∧ ∀ c ∈ hex, isHexaDigit c = true)
      (hsize : hexSize hex = data.length) (hpos : 0 < data.length)
      (hrest : ChunkedBody rest content) :
      ChunkedBody (hex ++ crlf ++ (data ++ crlf) ++ rest) (data ++ content)

/-- What is written for the strings is a chunked body that stands for their concatenation, and no
call fails. -/
def ChunksDecode (strings : List String8) : Prop :=
  ∃ out, chunksWritten strings = some out ∧ ChunkedBody out strings.flatten

/-! ## The size of a chunk -/

/-- The loop stops at the first digit that is not zero, or fails. -/
lemma zeroLoop_run (a r : String8) {i : ℤ} (hi : i = a.length + 1) {fuel : ℕ}
    (hf : r.length < fuel) :
    (zeroLoop (a ++ r)).run fuel i =
      if r.dropWhile (· = ch '0') = [] then none
      else some ((a.length : ℤ) + (r.takeWhile (· = ch '0')).length + 1) := by
  induction r generalizing a i fuel with
  | nil =>
    obtain ⟨fuel, rfl⟩ : ∃ k, fuel = k + 1 := ⟨fuel - 1, by simp at hf; omega⟩
    rw [List.append_nil]
    have hitem : Text.item? a i = none := by
      rw [Text.item?, if_neg]
      simp only [Text.validIndex]
      omega
    have he : (zeroLoop a).exit i = false := by simp [zeroLoop, hitem]
    rw [Loop.run_succ_of_not_exit he]
    simp [zeroLoop, hitem]
  | cons c r ih =>
    obtain ⟨fuel, rfl⟩ : ∃ k, fuel = k + 1 := ⟨fuel - 1, by simp at hf; omega⟩
    have hitem : Text.item? (a ++ c :: r) i = some c := Text.item?_append_cons a c r hi
    by_cases hc : c = ch '0'
    · subst hc
      have he : (zeroLoop (a ++ ch '0' :: r)).exit i = false := by simp [zeroLoop, hitem]
      have hb : (zeroLoop (a ++ ch '0' :: r)).body i = some (i + 1) := by simp [zeroLoop, hitem]
      have hsplit : a ++ ch '0' :: r = (a ++ [ch '0']) ++ r := by simp
      rw [Loop.run_succ he hb, hsplit, ih (a ++ [ch '0']) (by simp; omega) (by simp at hf; omega)]
      simp only [List.dropWhile_cons, List.takeWhile_cons, decide_true, if_true,
        List.length_append, List.length_cons, List.length_nil]
      congr 2
      push_cast
      ring
    · have he : (zeroLoop (a ++ c :: r)).exit i = true := by simp [zeroLoop, hitem, hc]
      rw [Loop.run_of_exit he]
      simp [hc, hi]

/-- **The size of a chunk** is written without its leading zeros, and the loop fails if all digits
are zeros. -/
lemma chunkHex_eq (count : ℕ) :
    chunkHex count =
      if (UrlEncoder.toHexString count).dropWhile (· = ch '0') = [] then none
      else some ((UrlEncoder.toHexString count).dropWhile (· = ch '0')) := by
  simp only [chunkHex]
  generalize UrlEncoder.toHexString count = hex
  have hrun := zeroLoop_run [] hex (i := 1) (by simp) (Nat.lt_succ_self _)
  rw [List.nil_append] at hrun
  rw [hrun]
  split
  · rfl
  · have hsplit := List.takeWhile_append_dropWhile (p := (· = ch '0')) (l := hex)
    rw [Option.map_some, Option.some.injEq]
    split
    · conv_lhs => rw [← hsplit]
      exact Text.substring_suffix _ _ (by simp) (by rw [hsplit])
    · next hle =>
      have hnil : hex.takeWhile (· = ch '0') = [] := by
        apply List.length_eq_zero_iff.mp
        simp only [List.length_nil] at hle
        omega
      rw [hnil, List.nil_append] at hsplit
      exact hsplit.symm

lemma hexSize_dropWhile (hex : String8) : hexSize (hex.dropWhile (· = ch '0')) = hexSize hex := by
  induction hex with
  | nil => rfl
  | cons c hex ih =>
    by_cases hc : c = ch '0'
    · have hzero : hexSize (c :: hex) = hexSize hex := by
        have hval : (UrlEncoder.hexDigitValue (ch '0')).toNat = 0 := by decide
        simp [hexSize, hc, hval]
      rw [List.dropWhile_cons, if_pos (by simpa using hc), ih, hzero]
    · rw [List.dropWhile_cons, if_neg (by simpa using hc)]

lemma toHexCharacter_spec : ∀ d : Fin 16,
    (UrlEncoder.hexDigitValue (UrlEncoder.toHexCharacter d)).toNat = d ∧
      isHexaDigit (UrlEncoder.toHexCharacter d) = true := by decide

lemma hexSize_toHexString {count : ℕ} (h : count < 2 ^ 31) :
    hexSize (UrlEncoder.toHexString count) = count := by
  have hdigit : ∀ d : ℕ, d < 16 →
      (UrlEncoder.hexDigitValue (UrlEncoder.toHexCharacter d)).toNat = d :=
    fun d hd => (toHexCharacter_spec ⟨d, hd⟩).1
  have hrange : List.range 8 = [0, 1, 2, 3, 4, 5, 6, 7] := by decide
  simp only [hexSize, UrlEncoder.toHexString, hrange, List.map_cons, List.map_nil, List.foldl_cons,
    List.foldl_nil, hdigit _ (Nat.mod_lt _ (by decide : 16 > 0))]
  norm_num
  omega

/-- The size of a string that is not empty. -/
lemma chunkHex_of_pos {count : ℕ} (hpos : 0 < count) (h : count < 2 ^ 31) :
    ∃ hex, chunkHex count = some hex ∧ (hex ≠ [] ∧ ∀ c ∈ hex, isHexaDigit c = true) ∧
      hexSize hex = count := by
  have hsize : hexSize ((UrlEncoder.toHexString count).dropWhile (· = ch '0')) = count := by
    rw [hexSize_dropWhile, hexSize_toHexString h]
  have hne : (UrlEncoder.toHexString count).dropWhile (· = ch '0') ≠ [] := by
    intro hnil
    rw [hnil] at hsize
    simp only [hexSize, List.foldl_nil] at hsize
    omega
  refine ⟨_, by rw [chunkHex_eq, if_neg hne], ⟨hne, fun c hc => ?_⟩, hsize⟩
  obtain ⟨k, -, rfl⟩ := List.mem_map.mp ((List.dropWhile_suffix _).subset hc)
  exact (toHexCharacter_spec ⟨_, Nat.mod_lt _ (by decide)⟩).2

/-- **A call fails for the empty string and for no other**: there the loop leaves the string of
hexadecimal digits. -/
lemma chunkPieces_eq_none_iff {s : String8} (h : s.length < 2 ^ 31) :
    chunkPieces (some s) = none ↔ s = [] := by
  constructor
  · intro hnone
    by_contra hne
    obtain ⟨hex, hhex, -⟩ := chunkHex_of_pos (List.length_pos_iff.mpr hne) h
    simp [chunkPieces, hhex] at hnone
  · rintro rfl
    have hzero : (UrlEncoder.toHexString 0).dropWhile (· = ch '0') = [] := by decide
    simp [chunkPieces, chunkHex_eq, hzero]

/-! ## Lists of strings -/

lemma chunksWritten_nil : chunksWritten [] = some (str "0" ++ crlf) := rfl

lemma chunksWritten_cons (s : String8) (strings : List String8) :
    chunksWritten (s :: strings) =
      (chunkHex s.length).bind fun hex =>
        (chunksWritten strings).map fun out => hex ++ crlf ++ (s ++ crlf) ++ out := by
  simp only [chunksWritten, List.map_cons, List.cons_append, callsWritten, chunkPieces]
  rcases chunkHex s.length with _ | hex
  · rfl
  · simp

/-- The last thing that is written is the last chunk. -/
lemma suffix_chunksWritten {strings : List String8} {out : String8}
    (h : chunksWritten strings = some out) : str "0" ++ crlf <:+ out := by
  induction strings generalizing out with
  | nil =>
    rw [chunksWritten_nil, Option.some.injEq] at h
    exact h ▸ List.suffix_rfl
  | cons s strings ih =>
    rw [chunksWritten_cons] at h
    obtain ⟨hex, -, hmap⟩ := Option.bind_eq_some_iff.mp h
    obtain ⟨out', hout', rfl⟩ := Option.map_eq_some_iff.mp hmap
    exact (ih hout').trans (List.suffix_append _ _)

/-- A chunked body ends with the last chunk and an empty line. -/
lemma ChunkedBody.suffix {out content : String8} (h : ChunkedBody out content) :
    str "0" ++ crlf ++ crlf <:+ out := by
  induction h with
  | last => exact List.suffix_rfl
  | chunk _ _ _ _ ih => exact ih.trans (List.suffix_append _ _)

/-- Behind the last chunk of a chunked body stands an empty line. -/
lemma not_chunkedBody_of_suffix {out content : String8} (h : str "0" ++ crlf <:+ out) :
    ¬ ChunkedBody out content := by
  intro hbody
  have hsuffix := List.suffix_of_suffix_length_le h hbody.suffix (by decide)
  exact absurd hsuffix (by decide)

/-- **Only the empty line at the end is missing**, for strings that are not empty. -/
lemma chunkedBody_chunksWritten_append {strings : List String8}
    (h : ∀ s ∈ strings, 0 < s.length ∧ s.length < 2 ^ 31) :
    ∃ out, chunksWritten strings = some out ∧ ChunkedBody (out ++ crlf) strings.flatten := by
  induction strings with
  | nil => exact ⟨_, chunksWritten_nil, ChunkedBody.last⟩
  | cons s strings ih =>
    obtain ⟨out, hout, hbody⟩ := ih fun s' hs' => h s' (List.mem_cons_of_mem s hs')
    obtain ⟨hpos, hlt⟩ := h s List.mem_cons_self
    obtain ⟨hex, hhex, hdigits, hsize⟩ := chunkHex_of_pos hpos hlt
    refine ⟨hex ++ crlf ++ (s ++ crlf) ++ out, ?_, ?_⟩
    · rw [chunksWritten_cons, hhex, Option.bind_some, hout, Option.map_some]
    · rw [List.append_assoc, List.flatten_cons]
      exact ChunkedBody.chunk hdigits hsize hpos hbody

/-- **What is written is never a chunked body**: the empty line behind the last chunk is
missing. -/
theorem not_chunksDecode (strings : List String8) : ¬ ChunksDecode strings := by
  rintro ⟨out, hout, hbody⟩
  exact not_chunkedBody_of_suffix (suffix_chunksWritten hout) hbody

/-- The strings `ab` and `c` are not written as a chunked body. -/
theorem not_chunksDecode_two : ¬ ∀ strings : List String8, ChunksDecode strings := by
  intro hall
  obtain ⟨out, hout, hbody⟩ := hall [str "ab", str "c"]
  exact not_chunkedBody_of_suffix (suffix_chunksWritten hout) hbody

end EiffelWeb
