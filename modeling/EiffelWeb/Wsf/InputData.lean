import Mathlib.Data.List.Basic
import Mathlib.Tactic.Common
import EiffelWeb.Wsf.Parameters

set_option relaxedAutoImplicit false
set_option autoImplicit false

/-!
# The body of a request

The routine `read_input_data` of `WSF_MIME_HANDLER_HELPER`, which has the same text as
`form_input_data` of `WSF_REQUEST`, reads the body in blocks. The size of a block is fixed before
the first read, and the number of bytes still to be read is a `NATURAL_64`, whose subtraction
wraps around.

The handler of the content type `application/x-www-form-urlencoded` cuts the body it read in the
way `urlencoded_parameters` cuts the query of a request.

An input stream is the list of the bytes it still delivers: `read_string (nb)` takes the next `nb`
of them, or all if there are fewer.

## Main definitions

* `readLoop`, `readInputData` — reading the body.
* `Wraps` — an iteration in which the counter wraps around.
* `ReadsContent` — the body is read, nothing behind it is, and the counter does not wrap.
* `handleUrlencoded` — the handler.

## Main results

* `readsContent_iff` — when the body is read.
* `handleUrlencoded_vars` — the handler and `urlencoded_parameters` fill the same table.
-/

namespace EiffelWeb

/-! ## Reading in blocks -/

/-- `read_string (nb)` on the stream `input`: `last_string`, and what the stream still delivers. -/
def readString (input : String8) (nb : ℤ) : String8 × String8 :=
  (input.take nb.toNat, input.drop nb.toNat)

/-- `n.to_integer_32`: the value modulo `2 ^ 32`, as a signed number. -/
def toInteger32 (n : UInt64) : ℤ := Int.bmod n.toNat (2 ^ 32)

/-- State of the loop of `read_input_data`. -/
structure ReadState where
  /-- The local `n64`: the number of bytes still to be read. -/
  n64 : UInt64
  /-- The local `s`: the bytes read so far. -/
  s : String8
  /-- What the stream still delivers. -/
  input : String8

/-- The loop of `read_input_data` for blocks of `n` bytes. -/
def readLoop (n : ℤ) : Loop ReadState where
  exit st := st.n64 ≤ 0
  body st :=
    let (t, input) := readString st.input n
    some {
      n64 := if (t.length : ℤ) < n then 0 else st.n64 - UInt64.ofNat t.length
      s := st.s ++ t
      input := input }

/-- The size of the blocks. -/
def blockSize (nb : UInt64) : ℤ := if 1024 < toInteger32 nb then 1024 else toInteger32 nb

/-- The state before the first iteration. -/
def readStart (input : String8) (nb : UInt64) : ReadState := ⟨nb, [], input⟩

/-- `read_input_data (a_input, nb)`: the result and what the stream still delivers, `none` if the
routine fails or does not return. A full block shortens the stream and another one ends the loop,
so that the length of the stream bounds the number of iterations. -/
def readInputData (aInput : String8) (nb : UInt64) : Option (String8 × String8) :=
  -- `create s.make (nb32)` does not accept a negative size
  if toInteger32 nb < 0 then none
  else ((readLoop (blockSize nb)).run (aInput.length + 1) (readStart aInput nb)).map
    fun st => (st.s, st.input)

/-- In the iteration from `st` the counter `n64` wraps around. -/
def Wraps (n : ℤ) (st : ReadState) : Prop :=
  ¬ ((readString st.input n).1.length : ℤ) < n ∧
    st.n64.toNat < (readString st.input n).1.length

/-- The result is the first `nb` bytes of the stream, or all of them if there are fewer; the
stream still delivers the others; and the counter never wraps around. -/
def ReadsContent (input : String8) (nb : UInt64) : Prop :=
  readInputData input nb = some (input.take nb.toNat, input.drop nb.toNat) ∧
    ∀ st, (readLoop (blockSize nb)).Reaches (readStart input nb) st →
      (readLoop (blockSize nb)).exit st = false → ¬ Wraps (blockSize nb) st

/-! ## One iteration -/

lemma exit_readLoop {n : ℤ} {st : ReadState} : (readLoop n).exit st = true ↔ st.n64.toNat = 0 := by
  simp [readLoop, UInt64.le_iff_toNat_le]

lemma exit_readLoop_eq_false {n : ℤ} {st : ReadState} :
    (readLoop n).exit st = false ↔ 0 < st.n64.toNat := by
  rw [← Bool.not_eq_true, exit_readLoop]
  omega

section Iteration

variable {n : ℕ} {st : ReadState}

/-- A short block is the rest of the stream, and the last one. -/
lemma body_readLoop_short (h : st.input.length < n) :
    (readLoop n).body st = some ⟨0, st.s ++ st.input, []⟩ := by
  have ht : st.input.take n = st.input := List.take_of_length_le (by omega)
  have hd : st.input.drop n = [] := List.drop_eq_nil_of_le (by omega)
  simp [readLoop, readString, ht, hd, h]

/-- A full block. -/
lemma body_readLoop_full (h : n ≤ st.input.length) :
    (readLoop n).body st =
      some ⟨st.n64 - UInt64.ofNat n, st.s ++ st.input.take n, st.input.drop n⟩ := by
  have ht : (st.input.take n).length = n := by simp [h]
  simp only [readLoop, readString, Int.toNat_natCast, ht, lt_irrefl, if_false]

lemma wraps_iff : Wraps n st ↔ n ≤ st.input.length ∧ st.n64.toNat < n := by
  simp only [Wraps, readString, Int.toNat_natCast, List.length_take]
  omega

/-- The counter after a full block, if it does not wrap around. -/
lemma toNat_sub_block {m : UInt64} (h : n ≤ m.toNat) :
    (m - UInt64.ofNat n).toNat = m.toNat - n := by
  have hlt := m.toNat_lt
  have hn : (UInt64.ofNat n).toNat = n := by
    rw [UInt64.toNat_ofNat']
    exact Nat.mod_eq_of_lt (by omega)
  rw [UInt64.toNat_sub_of_le, hn]
  rw [UInt64.le_iff_toNat_le, hn]
  exact h

end Iteration

/-! ## The body is read -/

/-- The bytes still to be read are full blocks, or they are all the stream delivers; the loop has
read the part of the content before them. -/
structure Reading (n : ℕ) (content rest : String8) (st : ReadState) : Prop where
  /-- Full blocks, or the end of the stream. -/
  fits : n ∣ st.n64.toNat ∨ st.input.length ≤ st.n64.toNat
  /-- What was read and what is to be read. -/
  content_eq : st.s ++ st.input.take st.n64.toNat = content
  /-- What is not to be read. -/
  rest_eq : st.input.drop st.n64.toNat = rest

section Reading

variable {n : ℕ} {content rest : String8} {st : ReadState}

/-- If a full block is read, a full block is left to be read. -/
lemma Reading.block_le (h : Reading n content rest st) (hpos : 0 < st.n64.toNat)
    (hfull : n ≤ st.input.length) : n ≤ st.n64.toNat := by
  rcases h.fits with hd | hle
  · exact Nat.le_of_dvd hpos hd
  · omega

lemma Reading.not_wraps (h : Reading n content rest st) (hpos : 0 < st.n64.toNat) :
    ¬ Wraps n st := by
  rw [wraps_iff]
  rintro ⟨hfull, hlt⟩
  have := h.block_le hpos hfull
  omega

/-- A short block is all there is to be read. -/
lemma Reading.short (h : Reading n content rest st) (hpos : 0 < st.n64.toNat)
    (hshort : st.input.length < n) : Reading n content rest ⟨0, st.s ++ st.input, []⟩ := by
  have hle : st.input.length ≤ st.n64.toNat := by
    rcases h.fits with hd | hle
    · have := Nat.le_of_dvd hpos hd
      omega
    · exact hle
  refine ⟨Or.inl (by simp), ?_, ?_⟩
  · rw [← h.content_eq, List.take_of_length_le hle]
    simp
  · rw [← h.rest_eq, List.drop_eq_nil_of_le hle]
    simp

lemma Reading.full (h : Reading n content rest st) (hpos : 0 < st.n64.toNat)
    (hfull : n ≤ st.input.length) :
    Reading n content rest
      ⟨st.n64 - UInt64.ofNat n, st.s ++ st.input.take n, st.input.drop n⟩ := by
  have hn := h.block_le hpos hfull
  have hsub := toNat_sub_block hn
  refine ⟨?_, ?_, ?_⟩
  · rcases h.fits with hd | hle
    · exact Or.inl (hsub ▸ Nat.dvd_sub hd dvd_rfl)
    · refine Or.inr ?_
      rw [hsub, List.length_drop]
      omega
  · have htake : st.input.take n ++ (st.input.drop n).take (st.n64.toNat - n) =
        st.input.take st.n64.toNat := by
      conv_rhs => rw [← Nat.add_sub_cancel' hn, List.take_add]
    rw [hsub, List.append_assoc, htake]
    exact h.content_eq
  · rw [hsub, List.drop_drop, Nat.add_sub_cancel' hn]
    exact h.rest_eq

/-- **One iteration** reads a part of the content, and the stream gets shorter or the loop ends. -/
lemma Reading.body (hn : 0 < n) (h : Reading n content rest st) (hpos : 0 < st.n64.toNat) :
    ∃ st', (readLoop n).body st = some st' ∧ Reading n content rest st' ∧
      st'.input.length + min 1 st'.n64.toNat < st.input.length + min 1 st.n64.toNat := by
  by_cases hfull : n ≤ st.input.length
  · refine ⟨_, body_readLoop_full hfull, h.full hpos hfull, ?_⟩
    simp only [List.length_drop]
    omega
  · refine ⟨_, body_readLoop_short (by omega), h.short hpos (by omega), ?_⟩
    simp
    omega

end Reading

/-! ## The body is not read -/

/-- More than the content is read, or will be: the bytes still to be read end inside a block, and
the stream delivers more. -/
def ReadsBeyond (n nb : ℕ) (st : ReadState) : Prop :=
  (st.s.length + st.n64.toNat = nb ∧ ¬ n ∣ st.n64.toNat ∧ st.n64.toNat < st.input.length) ∨
    nb < st.s.length

lemma ReadsBeyond.body {n nb : ℕ} {st st' : ReadState} (h : ReadsBeyond n nb st)
    (hb : (readLoop n).body st = some st') : ReadsBeyond n nb st' := by
  by_cases hfull : n ≤ st.input.length
  · rw [body_readLoop_full hfull, Option.some.injEq] at hb
    subst hb
    have hlen : (st.s ++ st.input.take n).length = st.s.length + n := by simp [hfull]
    rcases h with ⟨hsum, hd, hlt⟩ | hlt
    · by_cases hn : n ≤ st.n64.toNat
      · have hsub := toNat_sub_block hn
        refine Or.inl ⟨by rw [hlen, hsub]; omega, ?_, ?_⟩
        · rw [hsub]
          exact fun hd' => hd ((Nat.dvd_sub_iff_left hn dvd_rfl).mp hd')
        · rw [hsub, List.length_drop]
          omega
      · exact Or.inr (by rw [hlen]; omega)
    · exact Or.inr (by rw [hlen]; omega)
  · rw [body_readLoop_short (by omega), Option.some.injEq] at hb
    subst hb
    refine Or.inr ?_
    rw [List.length_append]
    rcases h with ⟨hsum, -, hlt⟩ | hlt <;> omega

/-! ## The routine -/

section Routine

variable {input : String8} {nb : UInt64}

lemma toInteger32_of_lt (h : nb.toNat < 2 ^ 31) : toInteger32 nb = nb.toNat := by
  unfold toInteger32
  have hlow : -(((2 ^ 32 : ℕ) : ℤ) / 2) ≤ 0 := by decide
  have hhigh : ((2 ^ 31 : ℕ) : ℤ) ≤ (((2 ^ 32 : ℕ) : ℤ) + 1) / 2 := by decide
  exact Int.bmod_eq_of_le (hlow.trans (Int.natCast_nonneg _))
    ((Int.ofNat_lt.mpr h).trans_le hhigh)

lemma blockSize_of_lt (h : nb.toNat < 2 ^ 31) : blockSize nb = (min nb.toNat 1024 : ℕ) := by
  rw [blockSize, toInteger32_of_lt h]
  split <;> omega

lemma readInputData_of_lt (h : nb.toNat < 2 ^ 31) :
    readInputData input nb =
      ((readLoop (min nb.toNat 1024 : ℕ)).run (input.length + 1) (readStart input nb)).map
        fun st => (st.s, st.input) := by
  rw [readInputData, if_neg (by rw [toInteger32_of_lt h]; omega), blockSize_of_lt h]

/-- The lengths on which the loop reads the content and nothing else. -/
lemma reading_readStart (h : nb.toNat ≤ 1024 ∨ nb.toNat % 1024 = 0 ∨ input.length ≤ nb.toNat) :
    Reading (min nb.toNat 1024) (input.take nb.toNat) (input.drop nb.toNat)
      (readStart input nb) := by
  refine ⟨?_, rfl, rfl⟩
  rcases h with h | h | h
  · exact Or.inl (by rw [min_eq_left h]; exact dvd_rfl)
  · by_cases hle : nb.toNat ≤ 1024
    · exact Or.inl (by rw [min_eq_left hle]; exact dvd_rfl)
    · exact Or.inl (by rw [min_eq_right (by omega)]; exact Nat.dvd_of_mod_eq_zero h)
  · exact Or.inr h

/-- Content of full blocks, or up to the end of the stream, is read. -/
lemma readInputData_eq (hlt : nb.toNat < 2 ^ 31)
    (h : nb.toNat ≤ 1024 ∨ nb.toNat % 1024 = 0 ∨ input.length ≤ nb.toNat) :
    readInputData input nb = some (input.take nb.toNat, input.drop nb.toNat) := by
  by_cases h0 : nb.toNat = 0
  · rw [readInputData_of_lt hlt, Loop.run_of_exit (exit_readLoop.mpr h0)]
    simp [readStart, h0]
  · obtain ⟨st, hrun, hread, hexit⟩ := Loop.run_of_variant
      (Reading (min nb.toNat 1024) (input.take nb.toNat) (input.drop nb.toNat))
      (fun st => st.input.length + min 1 st.n64.toNat)
      (fun st hst he => hst.body (by omega) (exit_readLoop_eq_false.mp he))
      (reading_readStart h) (n := input.length + 1) (by simp only [readStart]; omega)
    rw [readInputData_of_lt hlt, hrun, ← hread.content_eq, ← hread.rest_eq, exit_readLoop.mp hexit]
    simp

/-- Content that ends inside a block in front of more bytes is not read. -/
lemma readInputData_ne (hlt : nb.toNat < 2 ^ 31) (hblock : 1024 < nb.toNat)
    (hmod : nb.toNat % 1024 ≠ 0) (hmore : nb.toNat < input.length) :
    readInputData input nb ≠ some (input.take nb.toNat, input.drop nb.toNat) := by
  rw [readInputData_of_lt hlt, min_eq_right hblock.le]
  intro heq
  obtain ⟨st, hrun, hst⟩ := Option.map_eq_some_iff.mp heq
  have hstart : ReadsBeyond 1024 nb.toNat (readStart input nb) :=
    Or.inl ⟨by simp [readStart], fun hd => hmod (Nat.mod_eq_zero_of_dvd hd), hmore⟩
  obtain ⟨hbeyond, hexit⟩ :=
    Loop.run_invariant (fun _ _ hI _ hb => ReadsBeyond.body hI hb) hstart hrun
  have hlen : st.s.length ≤ nb.toNat := by
    rw [(Prod.mk.inj hst).1, List.length_take]
    omega
  rcases hbeyond with ⟨-, hd, -⟩ | hgt
  · exact hd (by rw [exit_readLoop.mp hexit]; exact dvd_zero _)
  · omega

end Routine

/-- **When the body is read**: the length is at most one block or a multiple of the block size, or
the stream ends with the body. In all other cases the last block goes beyond the body.

**Proof sketch.** In these cases the bytes still to be read are full blocks, or all the stream
delivers (`Reading`), in every state of the loop. Else they end inside a block in front of more
bytes, until a block is read beyond them (`ReadsBeyond`). -/
theorem readsContent_iff (input : String8) (nb : UInt64) (hpos : 0 < nb.toNat)
    (hlt : nb.toNat < 2 ^ 31) :
    ReadsContent input nb ↔
      nb.toNat ≤ 1024 ∨ nb.toNat % 1024 = 0 ∨ input.length ≤ nb.toNat := by
  constructor
  · rintro ⟨hread, -⟩
    by_contra hnot
    simp only [not_or, not_le] at hnot
    obtain ⟨hblock, hmod, hmore⟩ := hnot
    exact readInputData_ne hlt hblock hmod hmore hread
  · intro h
    refine ⟨readInputData_eq hlt h, ?_⟩
    rw [blockSize_of_lt hlt]
    intro st hst he
    have hreading := hst.invariant (fun st st' hI he hb => by
      obtain ⟨st'', hb', hI', -⟩ := hI.body (by omega) (exit_readLoop_eq_false.mp he)
      rw [hb', Option.some.injEq] at hb
      exact hb ▸ hI') (reading_readStart h)
    exact hreading.not_wraps (exit_readLoop_eq_false.mp he)

/-- A body of 2048 bytes is read from a stream that delivers 2100. -/
theorem readsContent_two_blocks :
    (0 < (2048 : UInt64).toNat ∧ (2048 : UInt64).toNat < 2 ^ 31) ∧
      ReadsContent (List.replicate 2100 (ch 'a')) 2048 :=
  ⟨by decide, (readsContent_iff _ 2048 (by decide) (by decide)).mpr (Or.inr (Or.inl (by decide)))⟩

/-- A body of 1500 bytes is not read from a stream that delivers 1600. -/
theorem not_readsContent_inside_block :
    ¬ ∀ (input : String8) (nb : UInt64), 0 < nb.toNat → nb.toNat < 2 ^ 31 →
      ReadsContent input nb := by
  intro hall
  have hread := (hall (List.replicate 1600 (ch 'a')) 1500 (by decide) (by decide)).1
  exact readInputData_ne (by decide) (by decide) (by decide)
    (by rw [List.length_replicate]; decide) hread

/-! ## The form handler -/

/-- What a call of `handle` leaves behind. -/
structure HandleResult where
  /-- What the input stream of the request still delivers. -/
  input : String8
  /-- The table `a_vars`. -/
  vars : ValueTable
  /-- The cell `a_raw_data`, if there is one, with its content. -/
  rawData : Option (Option String8)

section Handler

variable (uc : UnicodeConversion)

/-- `handle` of `WSF_APPLICATION_X_WWW_FORM_URLENCODED_HANDLER` for a request with the stream
`input`. Its loop has the text of the one of `urlencoded_parameters`. -/
def handleUrlencoded (aContentLength : UInt64) (input : String8) (aVars : ValueTable)
    (aRawData : Option (Option String8)) : Option HandleResult :=
  (readInputData input aContentLength).bind fun (lContent, input) =>
    let aRawData := aRawData.map fun _ => some lContent
    let n := lContent.length
    if 0 < n then
      ((segmentLoop uc lContent).run (n + 1) (1, aVars)).map fun st => ⟨input, st.2, aRawData⟩
    else some ⟨input, aVars, aRawData⟩

variable {uc}

/-- The handler adds the pairs of the body it read. -/
lemma handleUrlencoded_eq {aContentLength : UInt64} {input lContent rest : String8}
    (h : readInputData input aContentLength = some (lContent, rest)) (aVars : ValueTable)
    (aRawData : Option (Option String8)) :
    handleUrlencoded uc aContentLength input aVars aRawData =
      (addPairs uc (pairs lContent) aVars).map fun t =>
        ⟨rest, t, aRawData.map fun _ => some lContent⟩ := by
  simp only [handleUrlencoded, h, Option.bind_some]
  split
  · rw [← segmentLoop_run [] lContent (p := 1) (by simp) (Nat.lt_succ_self _) aVars,
      List.nil_append, Option.map_map]
    rfl
  · next hnil =>
    rw [List.length_pos_iff, not_not] at hnil
    subst hnil
    rfl

end Handler

/-- **The handler and `urlencoded_parameters` fill the same table**: for a stream that delivers
the content and nothing else, both return or neither does, and the tables are equal. The raw data
is the content. -/
theorem handleUrlencoded_vars (uc : UnicodeConversion) (s : String8) (h : s.length < 2 ^ 31)
    (aRawData : Option (Option String8)) :
    (handleUrlencoded uc (UInt64.ofNat s.length) s [] aRawData).map HandleResult.vars =
        urlencodedParameters uc (some s) ∧
      ∀ r, handleUrlencoded uc (UInt64.ofNat s.length) s [] aRawData = some r →
        r.input = [] ∧ r.rawData = aRawData.map fun _ => some s := by
  have hlen : (UInt64.ofNat s.length).toNat = s.length := by
    rw [UInt64.toNat_ofNat']
    exact Nat.mod_eq_of_lt (by omega)
  have hread : readInputData s (UInt64.ofNat s.length) = some (s, []) := by
    have hle : s.length ≤ (UInt64.ofNat s.length).toNat := by omega
    rw [readInputData_eq (by omega) (Or.inr (Or.inr hle)), List.take_of_length_le hle,
      List.drop_eq_nil_of_le hle]
  rw [handleUrlencoded_eq hread, urlencodedParameters_eq]
  refine ⟨?_, fun r hr => ?_⟩
  · rw [Option.map_map]
    exact Option.map_id'
  · obtain ⟨t, -, rfl⟩ := Option.map_eq_some_iff.mp hr
    exact ⟨rfl, rfl⟩

/-- The theorem at a content of two parameters. -/
theorem handleUrlencoded_vars_two :
    (str "a=1&b=2").length < 2 ^ 31 ∧
      (handleUrlencoded standardConversion (UInt64.ofNat (str "a=1&b=2").length) (str "a=1&b=2") []
          (some none)).map HandleResult.vars =
        urlencodedParameters standardConversion (some (str "a=1&b=2")) :=
  ⟨by decide, (handleUrlencoded_vars standardConversion (str "a=1&b=2") (by decide) _).1⟩

end EiffelWeb
