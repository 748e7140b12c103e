import EiffelWeb.Encoder.Base64

set_option relaxedAutoImplicit false
set_option autoImplicit false

/-!
# Base64 text with other characters in it

What `decode_string_to_buffer` does with a text that is not the output of the encoder: the
position moves from one character of the map to the next and skips all others. The search for the
next character has no bound of its own, it reads the character at the position before it compares
the position with the length. So an iteration that finds fewer than four characters of the map
reads behind the end of the text, also when nothing but a line break is left.

## Main definitions

* `Base64.Ahead` — the characters of the map behind a position.
* `Base64.HasPaddedGroup`, `Base64.EndsInMap` — the two ways the decoder can stop.

## Main results

* `Base64.decodeLoop_ahead` — one iteration takes four characters of the map.
* `Base64.terminates_iff` — when the decoder stays inside the text.
* `Base64.decodedString_broken_iff` — when encoded text broken over lines is decoded.
-/

namespace EiffelWeb.Base64

/-- `valid_encoded_string (v)`. -/
def validEncodedString (v : String8) : Bool := v.isEmpty || decide (4 ≤ v.length)

/-- The state of the decoder at its start. -/
def DecodeState.start : DecodeState := ⟨0, false, 0, 0, 0, 0, []⟩

/-- The text does not end in a character outside the map. -/
def EndsInMap (v : String8) : Prop := ∀ c ∈ v.getLast?, inCharacterMap c = true

/-- Read in groups of four, the characters `w` have a full group with a sign of padding at its
third or fourth place. -/
def HasPaddedGroup (w : String8) : Prop :=
  ∃ k, 4 * k + 4 ≤ w.length ∧ (w[4 * k + 2]? = some (ch '=') ∨ w[4 * k + 3]? = some (ch '='))

instance (v : String8) : Decidable (EndsInMap v) :=
  inferInstanceAs (Decidable (∀ c ∈ v.getLast?, _))

/-! ## The characters ahead of a position -/

/-- Behind the position the characters of the map in `v` are `w`. What is before it ends in the
map: the decoder stops on such characters only. -/
def Ahead (v : String8) (pos : ℤ) (w : String8) : Prop :=
  ∃ l u, v = l ++ u ∧ pos = l.length ∧ EndsInMap l ∧ u.filter inCharacterMap = w

lemma ahead_start (v : String8) : Ahead v 0 (v.filter inCharacterMap) :=
  ⟨[], v, rfl, rfl, by simp [EndsInMap], rfl⟩

/-- At a position with nothing ahead, it is at the end if and only if the text ends in the map. -/
lemma Ahead.length_le_iff {v : String8} {pos : ℤ} (h : Ahead v pos []) :
    (v.length : ℤ) ≤ pos ↔ EndsInMap v := by
  obtain ⟨l, u, rfl, rfl, hl, hu⟩ := h
  rcases List.eq_nil_or_concat' u with rfl | ⟨u, c, rfl⟩
  · simpa using hl
  · have hc : inCharacterMap c = false := by simpa using List.filter_eq_nil_iff.mp hu c (by simp)
    constructor
    · intro hle
      rw [List.length_append, List.length_append, List.length_singleton] at hle
      omega
    · intro hend
      simp [EndsInMap, ← List.append_assoc, hc] at hend

/-- A position with a character ahead is not at the end. -/
lemma Ahead.lt_length {v w : String8} {pos : ℤ} {c : Character8} (h : Ahead v pos (c :: w)) :
    pos < v.length := by
  obtain ⟨l, u, rfl, rfl, -, hu⟩ := h
  have hne : u ≠ [] := by
    rintro rfl
    simp at hu
  have hlen := List.length_pos_iff.mpr hne
  rw [List.length_append]
  omega

/-- The scan over a text without characters of the map reads behind its end. -/
lemma positionLoop_run_nil (l u : String8) (hu : ∀ c ∈ u, inCharacterMap c = false) {pos : ℤ}
    (hpos : pos = l.length + 1) (n : ℕ) : (positionLoop (l ++ u)).run n (pos, false) = none := by
  induction n generalizing l u pos with
  | zero => rfl
  | succ n ih =>
    cases u with
    | nil =>
      have hread : Text.item? (l ++ []) pos = none := by
        rw [Text.item?, if_neg]
        intro hv
        have hle := hv.2
        simp only [List.append_nil] at hle
        omega
      have hbody : (positionLoop (l ++ [])).body (pos, false) = none := by
        simp only [positionLoop, hread, Option.bind_eq_bind, Option.bind_none]
      rw [Loop.run_succ_of_not_exit rfl, hbody, Option.bind_none]
    | cons c u =>
      have hcut : l ++ c :: u = (l ++ [c]) ++ u := by simp
      rw [positionLoop_run_skip l c u hpos (hu c (by simp)), hcut]
      apply ih
      · intro d hd
        exact hu d (by simp [hd])
      · simp [hpos]

/-- The scan skips a text without characters of the map. -/
lemma positionLoop_run_append (l u : String8) (hu : ∀ c ∈ u, inCharacterMap c = false)
    (c : Character8) (r : String8) (hc : inCharacterMap c = true) {pos : ℤ}
    (hpos : pos = l.length + 1) {n : ℕ} (hn : u.length < n) :
    (positionLoop (l ++ (u ++ c :: r))).run n (pos, false) = some (pos + u.length, true) := by
  induction u generalizing l pos n with
  | nil =>
    obtain ⟨n, rfl⟩ : ∃ k, n = k + 1 := ⟨n - 1, by omega⟩
    rw [List.nil_append, positionLoop_run_cons l c r hpos hc]
    simp
  | cons d u ih =>
    obtain ⟨n, rfl⟩ : ∃ k, n = k + 1 := ⟨n - 1, by omega⟩
    have hcut : l ++ d :: (u ++ c :: r) = (l ++ [d]) ++ (u ++ c :: r) := by simp
    rw [List.cons_append, positionLoop_run_skip l d _ hpos (hu d (by simp)), hcut,
      ih (l ++ [d]) (fun e he => hu e (by simp [he])) (by simp [hpos])
        (by simpa using hn)]
    simp only [List.length_cons, Option.some.injEq, Prod.mk.injEq, and_true]
    omega

/-- With nothing ahead the next position cannot be computed. -/
lemma Ahead.next_nil {v : String8} {pos : ℤ} (h : Ahead v pos []) :
    nextEncodedCharacterPosition v pos = none := by
  obtain ⟨l, u, rfl, rfl, -, hu⟩ := h
  have hnone : ∀ c ∈ u, inCharacterMap c = false := by
    intro c hc
    simpa using List.filter_eq_nil_iff.mp hu c hc
  rw [nextEncodedCharacterPosition, positionLoop_run_nil l u hnone rfl]
  rfl

/-- The next position is that of the first character ahead. -/
lemma Ahead.next_cons {v w : String8} {pos : ℤ} {c : Character8} (h : Ahead v pos (c :: w)) :
    ∃ pos', nextEncodedCharacterPosition v pos = some pos' ∧ Text.item? v pos' = some c ∧
      Ahead v pos' w := by
  obtain ⟨l, u, rfl, rfl, -, hu⟩ := h
  obtain ⟨a, b, rfl, ha, hc, rfl⟩ := List.filter_eq_cons_iff.mp hu
  have hnone : ∀ d ∈ a, inCharacterMap d = false := by
    intro d hd
    simpa using ha d hd
  have hcut : l ++ (a ++ c :: b) = (l ++ a) ++ c :: b := by simp
  refine ⟨l.length + 1 + a.length, ?_, ?_, l ++ a ++ [c], b, by simp, ?_, by simp [EndsInMap, hc],
    rfl⟩
  · rw [nextEncodedCharacterPosition, positionLoop_run_append l a hnone c b hc rfl]
    · rfl
    · rw [List.length_append, List.length_append]
      omega
  · rw [hcut, Text.item?_append_cons _ c b]
    rw [List.length_append]
    omega
  · simp only [List.length_append, List.length_singleton]
    omega

/-! ## One iteration -/

/-- **One iteration takes four characters of the map**, whatever stands between them. -/
lemma decodeLoop_ahead {v w : String8} {st : DecodeState} {c₁ c₂ c₃ c₄ : Character8}
    (h : Ahead v st.pos (c₁ :: c₂ :: c₃ :: c₄ :: w)) :
    ∃ pos', (decodeLoop v).body st =
        some ({ st.read c₁ c₂ c₃ c₄ with pos := pos' }.finish (groupCount c₃ c₄)) ∧
      Ahead v pos' w := by
  obtain ⟨p₁, n₁, i₁, h₁⟩ := h.next_cons
  obtain ⟨p₂, n₂, i₂, h₂⟩ := h₁.next_cons
  obtain ⟨p₃, n₃, i₃, h₃⟩ := h₂.next_cons
  obtain ⟨p₄, n₄, i₄, h₄⟩ := h₃.next_cons
  exact ⟨p₄, decodeLoop_body n₁ i₁ n₂ i₂ n₃ i₃ n₄ i₄, h₄⟩

/-- An iteration that finds fewer than four characters of the map fails. -/
lemma decodeLoop_short {v w : String8} {st : DecodeState} (h : Ahead v st.pos w)
    (hw : w.length < 4) : (decodeLoop v).body st = none := by
  change (nextEncodedCharacterPosition v st.pos).bind _ = none
  rcases w with _ | ⟨c₁, w⟩
  · rw [h.next_nil, Option.bind_none]
  obtain ⟨p₁, n₁, i₁, h₁⟩ := h.next_cons
  rw [n₁, Option.bind_some, if_pos (le_length_of_item? i₁), i₁]
  change (nextEncodedCharacterPosition v p₁).bind _ = none
  rcases w with _ | ⟨c₂, w⟩
  · rw [h₁.next_nil, Option.bind_none]
  obtain ⟨p₂, n₂, i₂, h₂⟩ := h₁.next_cons
  rw [n₂, Option.bind_some, if_pos (le_length_of_item? i₂), i₂]
  change (nextEncodedCharacterPosition v p₂).bind _ = none
  rcases w with _ | ⟨c₃, w⟩
  · rw [h₂.next_nil, Option.bind_none]
  obtain ⟨p₃, n₃, i₃, h₃⟩ := h₂.next_cons
  rw [n₃, Option.bind_some, if_pos (le_length_of_item? i₃), i₃]
  change (nextEncodedCharacterPosition v p₃).bind _ = none
  rcases w with _ | ⟨c₄, w⟩
  · rw [h₃.next_nil, Option.bind_none]
  · simp only [List.length_cons] at hw
    omega
/-- One iteration of a run: a full group is added to the buffer, a padded one ends the loop. -/
lemma run_group {v w : String8} {st : DecodeState} {c₁ c₂ c₃ c₄ : Character8}
    (h : Ahead v st.pos (c₁ :: c₂ :: c₃ :: c₄ :: w)) (hdone : st.done = false) (n : ℕ) :
    ∃ st', (decodeLoop v).run (n + 1) st = (decodeLoop v).run n st' ∧ Ahead v st'.pos w ∧
      st'.done = decide (groupCount c₃ c₄ < 4) ∧
      st'.buffer = ((st.read c₁ c₂ c₃ c₄).finish (groupCount c₃ c₄)).buffer := by
  have hlt := h.lt_length
  have hexit : (decodeLoop v).exit st = false := by
    simp only [decodeLoop_exit, hdone, Bool.or_false, decide_eq_false_iff_not]
    omega
  obtain ⟨pos', hbody, hahead⟩ := decodeLoop_ahead h
  exact ⟨_, Loop.run_succ hexit hbody n, hahead, rfl, rfl⟩

/-! ## When the decoder stays inside the text -/

lemma not_hasPaddedGroup {w : String8} (hw : w.length < 4) : ¬ HasPaddedGroup w := by
  rintro ⟨k, hk, -⟩
  omega

/-- A sign of padding in the first group, or in a later one. -/
lemma hasPaddedGroup_cons (c₁ c₂ c₃ c₄ : Character8) (w : String8) :
    HasPaddedGroup (c₁ :: c₂ :: c₃ :: c₄ :: w) ↔ groupCount c₃ c₄ < 4 ∨ HasPaddedGroup w := by
  have hcount : groupCount c₃ c₄ < 4 ↔ c₃ = ch '=' ∨ c₄ = ch '=' := by
    by_cases d₃ : c₃ = ch '=' <;> by_cases d₄ : c₄ = ch '=' <;> simp [groupCount, d₃, d₄]
  rw [hcount]
  constructor
  · rintro ⟨_ | k, hk, hpad⟩
    · exact Or.inl (by simpa using hpad)
    · refine Or.inr ⟨k, ?_, by simpa [Nat.mul_add] using hpad⟩
      simp only [List.length_cons] at hk
      omega
  · rintro (hpad | ⟨k, hk, hpad⟩)
    · exact ⟨0, by simp, by simpa using hpad⟩
    · refine ⟨k + 1, ?_, by simpa [Nat.mul_add] using hpad⟩
      simp only [List.length_cons]
      omega

/-- With fewer than four characters ahead the decoder can only stop at once. -/
lemma run_short {v w : String8} {st : DecodeState} (h : Ahead v st.pos w)
    (hdone : st.done = false) (hw : w.length < 4) (n : ℕ) :
    ((decodeLoop v).run n st).isSome ↔ w = [] ∧ EndsInMap v := by
  have hexit : (decodeLoop v).exit st = decide ((v.length : ℤ) ≤ st.pos) := by
    rw [decodeLoop_exit, hdone, Bool.or_false]
  by_cases hend : (v.length : ℤ) ≤ st.pos
  · have hnil : w = [] := by
      rcases w with _ | ⟨c, w⟩
      · rfl
      · have hlt := h.lt_length
        omega
    subst hnil
    rw [Loop.run_of_exit (by simp [hexit, hend])]
    simpa using h.length_le_iff.mp hend
  · have hnot : ¬ (w = [] ∧ EndsInMap v) := by
      rintro ⟨rfl, hv⟩
      exact hend (h.length_le_iff.mpr hv)
    have hbody := decodeLoop_short h hw
    cases n <;> simp [Loop.run, hexit, hend, hbody, hnot]

/-- **A run of the decoder**, with as much fuel as there are characters ahead: it returns if and
only if it meets a padded group, or full groups only with nothing skipped at the end.

**Proof sketch.** Induction on the fuel. With fewer than four characters ahead the loop stops or
fails at once; otherwise it takes a group, which ends the loop or leaves the same question for the
characters behind it. -/
lemma run_isSome_iff {v w : String8} {st : DecodeState} {n : ℕ} (h : Ahead v st.pos w)
    (hdone : st.done = false) (hn : w.length ≤ n) :
    ((decodeLoop v).run n st).isSome ↔ HasPaddedGroup w ∨ 4 ∣ w.length ∧ EndsInMap v := by
  induction n generalizing w st with
  | zero =>
    obtain rfl := List.length_eq_zero_iff.mp (Nat.le_zero.mp hn)
    rw [run_short h hdone (by simp)]
    simp [not_hasPaddedGroup]
  | succ n ih =>
    by_cases hshort : w.length < 4
    · have hdvd : 4 ∣ w.length ↔ w = [] := by
        rw [← List.length_eq_zero_iff]
        omega
      rw [run_short h hdone hshort, hdvd]
      simp [not_hasPaddedGroup hshort]
    · obtain ⟨c₁, c₂, c₃, c₄, w, rfl⟩ : ∃ c₁ c₂ c₃ c₄ w', w = c₁ :: c₂ :: c₃ :: c₄ :: w' := by
        rcases w with _ | ⟨c₁, _ | ⟨c₂, _ | ⟨c₃, _ | ⟨c₄, w⟩⟩⟩⟩
        iterate 4 simp at hshort
        exact ⟨c₁, c₂, c₃, c₄, w, rfl⟩
      obtain ⟨st', hrun, hahead, hdone', -⟩ := run_group h hdone n
      have hdvd : 4 ∣ (c₁ :: c₂ :: c₃ :: c₄ :: w).length ↔ 4 ∣ w.length := by
        simp only [List.length_cons]
        omega
      rw [hrun, hasPaddedGroup_cons, hdvd]
      by_cases hcount : groupCount c₃ c₄ < 4
      · rw [Loop.run_of_exit (by simp [decodeLoop_exit, hdone', hcount])]
        simp [hcount]
      · rw [ih hahead (by simpa [hdone'] using hcount)
          (by simp only [List.length_cons] at hn; omega)]
        simp [hcount]

/-- **When the decoder stays inside the text**: it terminates, each call within its precondition
and each index within the text, if and only if the characters of the map in the text have a full
group of four with a sign of padding at its third or fourth place, or they form full groups and
the text ends in one of them. -/
theorem terminates_iff (v : String8) :
    (decodeLoop v).Terminates DecodeState.start ↔
      HasPaddedGroup (v.filter inCharacterMap) ∨
        4 ∣ (v.filter inCharacterMap).length ∧ EndsInMap v := by
  have hrun : ∀ n, (v.filter inCharacterMap).length ≤ n →
      (((decodeLoop v).run n DecodeState.start).isSome ↔ _) := fun n hn =>
    @run_isSome_iff v _ DecodeState.start n (ahead_start v) rfl hn
  constructor
  · rintro ⟨n, hn⟩
    obtain ⟨st, hst⟩ := Option.isSome_iff_exists.mp hn
    have hmono := Loop.run_mono (le_max_left n (v.filter inCharacterMap).length) hst
    apply (hrun _ (le_max_right n _)).mp
    rw [hmono]
    rfl
  · intro h
    exact ⟨_, (hrun _ le_rfl).mpr h⟩

/-- Text that the precondition admits and the decoder leaves: the first group of a user and a
password behind which a line break is left. -/
theorem not_terminates_lineBreak :
    validEncodedString (str "YWJj\n") = true ∧
      ¬ (decodeLoop (str "YWJj\n")).Terminates DecodeState.start := by
  refine ⟨by decide, ?_⟩
  rintro ⟨n, hn⟩
  obtain ⟨st, hst⟩ := Option.isSome_iff_exists.mp hn
  -- the second iteration fails
  have hfail : (decodeLoop (str "YWJj\n")).run (n + 2) DecodeState.start = none := rfl
  have hmono := Loop.run_mono (Nat.le_add_right n 2) hst
  rw [hfail] at hmono
  cases hmono

/-! ## Text broken over lines -/

/-- `%R` or `%N`. -/
def isLineBreak (c : Character8) : Bool := c = ch '\r' || c = ch '\n'

lemma inCharacterMap_isLineBreak (c : Character8) (h : isLineBreak c = true) :
    inCharacterMap c = false := by
  revert h
  exact forall_character8 (P := fun c => isLineBreak c = true → inCharacterMap c = false)
    (by decide +kernel) c

lemma inCharacterMap_encodedString (s : String8) {c : Character8} (h : c ∈ encodedString s) :
    inCharacterMap c = true := by
  obtain ⟨body, k, hs, -, hbody⟩ := encodedString_alphabet s
  rw [hs, List.mem_append] at h
  rcases h with h | h
  · have hall : (characterMap.take 64).all inCharacterMap = true := by decide +kernel
    exact List.all_eq_true.mp hall c (hbody h)
  · rw [List.eq_of_mem_replicate h]
    rfl

section Broken

variable {s v : String8} (hv : v.filter (fun c => !isLineBreak c) = encodedString s)

include hv

/-- A character of the broken text is a line break or belongs to the map. -/
lemma broken_inCharacterMap {c : Character8} (hc : c ∈ v) :
    inCharacterMap c = !isLineBreak c := by
  cases hb : isLineBreak c with
  | true => rw [inCharacterMap_isLineBreak c hb, Bool.not_true]
  | false =>
    apply inCharacterMap_encodedString s
    rw [← hv, List.mem_filter]
    simp [hc, hb]

lemma broken_filter : v.filter inCharacterMap = encodedString s := by
  rw [← hv]
  exact List.filter_congr fun c hc => broken_inCharacterMap hv hc

lemma broken_endsInMap : EndsInMap v ↔ ∀ c ∈ v.getLast?, isLineBreak c = false := by
  have hlast : ∀ c ∈ v.getLast?, (inCharacterMap c = true ↔ isLineBreak c = false) := by
    intro c hc
    rw [broken_inCharacterMap hv (List.mem_of_getLast? hc)]
    simp
  exact forall₂_congr hlast

end Broken

/-- What the decoder does with the groups of `r`, whatever skipped characters are between them:
it puts `r` into the buffer. After the last full group it must be at the end of the text. -/
lemma run_encoded {v r : String8} {st : DecodeState} {n : ℕ}
    (h : Ahead v st.pos (encodedString r)) (hdone : st.done = false)
    (hend : r.length % 3 ≠ 0 ∨ EndsInMap v) (hn : (encodedString r).length ≤ n) :
    ((decodeLoop v).run n st).map DecodeState.buffer = some (st.buffer ++ r) := by
  induction r using groupInduction generalizing st n with
  | nil =>
    have hstop := h.length_le_iff.mpr (hend.resolve_left (by simp))
    rw [Loop.run_of_exit (by simp [decodeLoop_exit, hstop])]
    simp
  | one a =>
    rw [encodedString_one] at h hn
    obtain ⟨n, rfl⟩ : ∃ k, n = k + 1 := ⟨n - 1, by simp at hn; omega⟩
    obtain ⟨st', hrun, -, hdone', hbuf⟩ := run_group h hdone n
    have hcount : groupCount (ch '=') (ch '=') = 2 := rfl
    rw [hrun, Loop.run_of_exit (by simp [decodeLoop_exit, hdone', hcount]), Option.map_some,
      hbuf, buffer_group_one]
  | two a b =>
    have hb := b.toNat_lt
    rw [encodedString_two] at h hn
    obtain ⟨n, rfl⟩ : ∃ k, n = k + 1 := ⟨n - 1, by simp at hn; omega⟩
    obtain ⟨st', hrun, -, hdone', hbuf⟩ := run_group h hdone n
    have hcount := groupCount_padding (mapItem_ne_padding (b.toNat % 16 * 4) (by omega))
    rw [hrun, Loop.run_of_exit (by simp [decodeLoop_exit, hdone', hcount]), Option.map_some,
      hbuf, buffer_group_two]
  | cons a b c s ih =>
    rw [encodedString_cons] at h hn
    simp only [List.length_cons] at hn hend
    obtain ⟨n, rfl⟩ : ∃ k, n = k + 1 := ⟨n - 1, by omega⟩
    obtain ⟨st', hrun, hahead, hdone', hbuf⟩ := run_group h hdone n
    have hnext : st'.done = false := by simpa [groupCount_full] using hdone'
    rw [hrun, ih hahead hnext (hend.imp_left fun hne => by omega) (by omega), hbuf,
      buffer_group_full]
    simp

lemma not_hasPaddedGroup_encodedString {s : String8} (hs : s.length % 3 = 0) :
    ¬ HasPaddedGroup (encodedString s) := by
  induction s using groupInduction with
  | nil => exact not_hasPaddedGroup (by simp)
  | one a => simp at hs
  | two a b => simp at hs
  | cons a b c s ih =>
    rw [encodedString_cons, hasPaddedGroup_cons, groupCount_full]
    simp only [List.length_cons] at hs
    rintro (hlt | h)
    · omega
    · exact ih (by omega) h

/-- **Encoded text broken over lines**: with any line breaks in it at any places the text is
decoded to the string it encodes, if and only if it is padded or does not end in a line break. -/
theorem decodedString_broken_iff (s v : String8)
    (hv : v.filter (fun c => !isLineBreak c) = encodedString s) :
    decodedString v = some s ↔
      s.length % 3 ≠ 0 ∨ ∀ c ∈ v.getLast?, isLineBreak c = false := by
  have hahead : Ahead v DecodeState.start.pos (encodedString s) := by
    rw [← broken_filter hv]
    exact ahead_start v
  have hfuel : (encodedString s).length ≤ v.length := by
    rw [← hv]
    exact List.length_filter_le _ v
  rw [← broken_endsInMap hv]
  constructor
  · intro hdec
    by_contra hneg
    obtain ⟨hmod, hlast⟩ := not_or.mp hneg
    have hnone := run_isSome_iff hahead rfl hfuel
    have hsome : ((decodeLoop v).run v.length DecodeState.start).isSome := by
      obtain ⟨st, hst, -⟩ := Option.map_eq_some_iff.mp hdec
      exact Option.isSome_of_eq_some hst
    rcases hnone.mp hsome with hpad | ⟨-, hend⟩
    · exact not_hasPaddedGroup_encodedString (not_not.mp hmod) hpad
    · exact hlast hend
  · intro hend
    exact run_encoded hahead rfl hend hfuel

/-- A break inside a group, and one behind the padding. -/
theorem decodedString_broken_twoBytes : decodedString (str "YW\r\nI=\n") = some (str "ab") :=
  (decodedString_broken_iff (str "ab") (str "YW\r\nI=\n") (by decide +kernel)).mpr
    (Or.inl (by decide))

/-- A break behind the last character is not skipped where the encoder wrote no padding. -/
theorem decodedString_broken_threeBytes :
    ∃ s v : String8, s ≠ [] ∧ v.filter (fun c => !isLineBreak c) = encodedString s ∧
      decodedString v ≠ some s :=
  ⟨str "abc", str "YWJj\r\n", by decide, by decide +kernel, by decide +kernel⟩

end EiffelWeb.Base64
