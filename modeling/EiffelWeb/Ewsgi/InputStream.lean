import EiffelWeb.Character
import EiffelWeb.Loop
import EiffelWeb.Special
import EiffelWeb.Text

set_option relaxedAutoImplicit false
set_option autoImplicit false

/-!
# Input streams of connectors

The class `WGI_INPUT_STREAM`, whose routine `read_to_string` fills a part of a string character by
character. The features that read are deferred: a stream is any type of states with them, and what
the routine relies on is that `read_character` delivers the next character or sets `end_of_input`
when there is none.

## Main definitions

* `WgiInputStream` — the deferred features.
* `WgiInputStream.Delivers` — what is assumed of them.
* `WgiInputStream.readToString`

## Main results

* `WgiInputStream.readToString_fills` — what is read, and where it is put.
-/

namespace EiffelWeb

/-- The deferred features of `WGI_INPUT_STREAM` that `read_to_string` calls, over the states of a
stream. -/
structure WgiInputStream (σ : Type) where
  /-- `read_character`. -/
  readCharacter : σ → σ
  /-- `end_of_input`. -/
  endOfInput : σ → Bool
  /-- `last_character`. -/
  lastCharacter : σ → Character8

namespace WgiInputStream

variable {σ : Type} (s : WgiInputStream σ)

/-- The stream delivers the characters of `rest`, one at a time, and sets `end_of_input` when it is
read behind them. -/
structure Delivers (rest : σ → String8) : Prop where
  /-- The next character. -/
  next : ∀ st c r, rest st = c :: r → s.endOfInput (s.readCharacter st) = false ∧
    s.lastCharacter (s.readCharacter st) = c ∧ rest (s.readCharacter st) = r
  /-- The end. -/
  finish : ∀ st, rest st = [] → s.endOfInput (s.readCharacter st) = true ∧
    rest (s.readCharacter st) = []

/-- `s.put (c, i)`; it fails where the index is not valid. -/
def putCharacter (a : String8) (c : Character8) (i : ℤ) : Option String8 :=
  if Text.validIndex a i then some (a.set (i - 1).toNat c) else none

/-- The locals of `read_to_string`, with the string and the stream. -/
structure ReadState (σ : Type) where
  /-- `i`. -/
  i : ℤ
  /-- `Result`. -/
  result : ℤ
  /-- `a_string`. -/
  aString : String8
  /-- The stream. -/
  stream : σ

/-- The loop of `read_to_string`. -/
def readLoop (pos nb endPos : ℤ) : Loop (ReadState σ) where
  exit st := decide (endPos < st.i)
  body st := do
    let stream := s.readCharacter st.stream
    if !s.endOfInput stream then
      let aString ← putCharacter st.aString (s.lastCharacter stream) st.i
      return { st with aString := aString, stream := stream, i := st.i + 1 }
    else
      -- jump out of the loop
      return { st with stream := stream, result := st.i - pos - nb, i := endPos + 1 }

/-- `read_to_string (a_string, pos, nb)`: the result, the string and the stream. -/
def readToString (aString : String8) (pos nb : ℤ) (stream : σ) : Option (ℤ × String8 × σ) := do
  let endPos := pos + nb - 1
  let st ← (s.readLoop pos nb endPos).run nb.toNat ⟨pos, 0, aString, stream⟩
  return (st.result + st.i - pos, st.aString, st.stream)

variable {s}

/-- **The loop** with `n` characters to go puts the next characters at the index.

**Proof sketch.** Induction on `n`. At the end of the input the result becomes negative by the
number of characters that are missing, and the index jumps over as many: their sum is the index
behind the last character in both cases. -/
lemma readLoop_run {rest : σ → String8} (hs : s.Delivers rest) {pos nb : ℤ} (n : ℕ) {k : ℕ}
    {aString : String8} (stream : σ) (hn : pos + nb = k + 1 + n)
    (hroom : k + n ≤ aString.length) :
    ∃ st, (s.readLoop pos nb (pos + nb - 1)).run n ⟨k + 1, 0, aString, stream⟩ = some st ∧
      st.result + st.i = k + 1 + (min n (rest stream).length : ℕ) ∧
      st.aString = Special.write aString k ((rest stream).take n) ∧
      rest st.stream = (rest stream).drop n := by
  induction n generalizing k aString stream with
  | zero =>
    refine ⟨_, Loop.run_of_exit (by simp only [readLoop, decide_eq_true_eq]; omega) 0, ?_, ?_, ?_⟩
    · simp
    · simp
    · simp
  | succ n ih =>
    have hexit : (s.readLoop pos nb (pos + nb - 1)).exit ⟨k + 1, 0, aString, stream⟩ = false := by
      simp only [readLoop, decide_eq_false_iff_not]
      omega
    cases hrest : rest stream with
    | nil =>
      obtain ⟨hend, hafter⟩ := hs.finish stream hrest
      have hbody : (s.readLoop pos nb (pos + nb - 1)).body ⟨k + 1, 0, aString, stream⟩ =
          some ⟨pos + nb - 1 + 1, k + 1 - pos - nb, aString, s.readCharacter stream⟩ := by
        simp only [readLoop, hend]
        rfl
      rw [Loop.run_succ hexit hbody, Loop.run_of_exit (by simp [readLoop])]
      refine ⟨_, rfl, ?_, ?_, ?_⟩
      · simp
      · simp
      · simpa using hafter
    | cons c r =>
      obtain ⟨hend, hlast, hafter⟩ := hs.next stream c r hrest
      have hvalid : Text.validIndex aString (k + 1) := ⟨by omega, by omega⟩
      have hindex : ((k : ℤ) + 1 - 1).toNat = k := by omega
      have hput : putCharacter aString c (k + 1) = some (Special.write aString k [c]) := by
        rw [putCharacter, if_pos hvalid, hindex, Special.set_eq_write c (by omega)]
      have hbody : (s.readLoop pos nb (pos + nb - 1)).body ⟨k + 1, 0, aString, stream⟩ =
          some ⟨(k + 1 : ℕ) + 1, 0, Special.write aString k [c], s.readCharacter stream⟩ := by
        simp only [readLoop, hend, hlast, hput]
        rfl
      have hlen : (Special.write aString k [c]).length = aString.length :=
        Special.length_write (by rw [List.length_singleton]; omega)
      have hn' : pos + nb = (k + 1 : ℕ) + 1 + n := by
        push_cast at hn ⊢
        omega
      have hroom' : k + 1 + n ≤ (Special.write aString k [c]).length := by
        rw [hlen]
        omega
      obtain ⟨st, hrun, hcount, hstring, hstream⟩ := ih (s.readCharacter stream) hn' hroom'
      rw [Loop.run_succ hexit hbody]
      refine ⟨st, hrun, ?_, ?_, ?_⟩
      · rw [hcount, hafter, List.length_cons]
        push_cast
        omega
      · rw [hstring, hafter, Special.write_write (by rw [List.length_singleton])
          (by rw [List.length_singleton]; omega)]
        rfl
      · rw [hstream, hafter]
        rfl

/-- **`read_to_string`** returns the number of characters that it read, the smaller one of `nb` and
the number of characters that the stream had left. These are at the positions from `pos` on, and the
other positions are unchanged. -/
theorem readToString_fills (s : WgiInputStream σ) (rest : σ → String8) (hs : s.Delivers rest)
    (stream : σ) (aString : String8) (pos nb : ℤ) (hpos : Text.validIndex aString pos)
    (hnb : 0 < nb) (hroom : nb ≤ aString.length - pos + 1) :
    ∃ (m : ℕ) (aString' : String8) (stream' : σ),
      s.readToString aString pos nb stream = some ((m : ℤ), aString', stream') ∧
      (m : ℤ) = min nb (rest stream).length ∧ 0 ≤ (m : ℤ) ∧ (m : ℤ) ≤ nb ∧
      aString'.length = aString.length ∧
      (∀ k < m, Text.item? aString' (pos + k) = (rest stream)[k]?) ∧
      (∀ i, i < pos ∨ pos + m ≤ i → Text.item? aString' i = Text.item? aString i) ∧
      rest stream' = (rest stream).drop m := by
  obtain ⟨k, rfl⟩ : ∃ k : ℕ, pos = k + 1 := ⟨(pos - 1).toNat, by have := hpos.1; omega⟩
  obtain ⟨n, rfl⟩ : ∃ n : ℕ, nb = n := ⟨nb.toNat, by omega⟩
  have hend : (k : ℤ) + 1 + (n : ℕ) = k + 1 + n := rfl
  have hroom' : k + n ≤ aString.length := by omega
  obtain ⟨st, hrun, hcount, hstring, hstream⟩ := readLoop_run hs n stream hend hroom'
  have hread : s.readToString aString (k + 1) n stream =
      some (st.result + st.i - (k + 1), st.aString, st.stream) := by
    simp only [readToString, Int.toNat_natCast, hrun]
    rfl
  set u := (rest stream).take n with hu
  have hlen : u.length = min n (rest stream).length := List.length_take
  have hfit : k + u.length ≤ aString.length := by omega
  have hcountEq : st.result + st.i - ((k : ℤ) + 1) = (u.length : ℕ) := by
    rw [hcount, hlen]
    omega
  rw [hcountEq, hstring] at hread
  refine ⟨u.length, _, _, hread, ?_, Int.natCast_nonneg _, ?_, Special.length_write hfit,
    fun j hj => ?_, fun i hi => ?_, ?_⟩
  · rw [hlen]
    omega
  · omega
  · have hvalid : Text.validIndex (Special.write aString k u) (k + 1 + j) := by
      rw [Text.validIndex, Special.length_write hfit]
      omega
    have hindex : ((k : ℤ) + 1 + j - 1).toNat = k + j := by omega
    rw [Text.item?, if_pos hvalid, hindex, Special.getElem?_write hfit, if_pos (by omega),
      Nat.add_sub_cancel_left, hu, List.getElem?_take_of_lt (by omega)]
  · have hsame : Text.validIndex (Special.write aString k u) i ↔ Text.validIndex aString i := by
      rw [Text.validIndex, Text.validIndex, Special.length_write hfit]
    by_cases hvalid : Text.validIndex aString i
    · have hpositive := hvalid.1
      rw [Text.item?, Text.item?, if_pos (hsame.mpr hvalid), if_pos hvalid,
        Special.getElem?_write hfit, if_neg (by omega)]
    · rw [Text.item?, Text.item?, if_neg fun h => hvalid (hsame.mp h), if_neg hvalid]
  · rw [hstream, hlen, ← List.drop_eq_drop_min]

/-- A stream over a list of characters. -/
def ofList : WgiInputStream (String8 × Bool × Character8) where
  readCharacter st := match st.1 with
    | [] => ([], true, st.2.2)
    | c :: r => (r, false, c)
  endOfInput st := st.2.1
  lastCharacter st := st.2.2

lemma delivers_ofList : ofList.Delivers Prod.fst where
  next := by
    rintro ⟨-, b, d⟩ c r rfl
    exact ⟨rfl, rfl, rfl⟩
  finish := by
    rintro ⟨-, b, d⟩ rfl
    exact ⟨rfl, rfl⟩

/-- The input ends before the string is full. -/
theorem readToString_fills_short :
    ∃ (m : ℕ) (aString' : String8) (stream' : String8 × Bool × Character8),
      ofList.readToString (str "......") 2 4 (str "ab", false, 0) =
        some ((m : ℤ), aString', stream') ∧
      (m : ℤ) = min 4 (str "ab").length ∧ aString'.length = (str "......").length :=
  let ⟨m, a, t, hread, hm, _, _, hlen, _⟩ := readToString_fills ofList Prod.fst delivers_ofList
    (str "ab", false, 0) (str "......") 2 4 (by decide) (by decide) (by decide)
  ⟨m, a, t, hread, hm, hlen⟩

end WgiInputStream

end EiffelWeb
