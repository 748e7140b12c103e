import EiffelWeb.Character
import EiffelWeb.HashTable
import EiffelWeb.Tokens

set_option relaxedAutoImplicit false
set_option autoImplicit false

/-!
# Media types of file extensions

The class `HTTP_FILE_EXTENSION_MIME_MAPPING` with its two loaders. A line of a `mime.types` text is
a comment, or a media type followed by extensions. The scanners of `add_mapping_line` start one
position behind their argument and yield `0` for "none"; the loader of a string searches for the
ends of lines, the loader of a file tests for the end of the file after it has read a line and
before it uses it.

A file is given by its content. Reading a line leaves the line without its end in `last_string`; the
last line of a file is delivered also if it has no end, but the end of the file is reached then.

## Main definitions

* `MimeMapping`, `MimeMapping.mimeType`, `MimeMapping.map`, `MimeMapping.addMappingLine`
* `MimeMapping.makeFromString`, `MimeMapping.makeFromFile` — the loaders.
* `RawFile` — a file that is read line by line.
* `Mentions`, `typeIn` — the media type that the lines of a text give an extension.

## Main results

* `MimeMapping.addMappingLine_eq` — a line adds its extensions.
* `MimeMapping.makeFromString_spec` — what is found after loading a text.
* `MimeMapping.loadersAgree_iff` — the texts that the two loaders read alike.
-/

namespace EiffelWeb

/-- `HTTP_FILE_EXTENSION_MIME_MAPPING`. -/
structure MimeMapping where
  /-- `mapping`, from extensions to media types. -/
  mapping : HashTable String8 String8

/-- `next_blank_position (s, p)`. -/
def nextBlankPosition (s : String8) (p : ℤ) : Option ℤ := Text.nextPosition isSpace s p

/-- `next_non_blank_position (s, p)`. -/
def nextNonBlankPosition (s : String8) (p : ℤ) : Option ℤ :=
  Text.nextPosition (fun c => !isSpace c) s p

namespace MimeMapping

/-- `make_empty (n)`. -/
def makeEmpty : MimeMapping := ⟨[]⟩

/-- `mime_type (ext)`. -/
def mimeType (m : MimeMapping) (ext : String8) : Option String8 := m.mapping.item (asLower ext)

/-- `map (e, t)`. -/
def map (m : MimeMapping) (e t : String8) : MimeMapping := ⟨m.mapping.force t (asLower e)⟩

/-- The loop of `add_mapping_line` over the extensions, with the positions `i` and `j`. -/
def extensionLoop (t lType : String8) : Loop (ℤ × ℤ × MimeMapping) where
  exit st := st.1 = 0
  body st := do
    let (_, j, m) := st
    let i ← nextNonBlankPosition t j
    if 0 < i then
      let j ← nextBlankPosition t i
      if j = 0 then some (0, j, m.map (Text.substring t i t.length) lType)
      else some (j, j, m.map (Text.substring t i (j - 1)) lType)
    else some (i, j, m)

/-- `add_mapping_line (t)`. -/
def addMappingLine (t : String8) (m : MimeMapping) : Option MimeMapping :=
  if 0 < t.length then do
    let i ← nextNonBlankPosition t 0
    if 0 < i then
      if Text.item t i = ch '#' then some m
      else
        let j ← nextBlankPosition t i
        if i < j then
          let lType := Text.substring t i (j - 1)
          ((extensionLoop t lType).run (t.length + 1) (i, j, m)).map fun st => st.2.2
        else some m
    else some m
  else some m

/-- The loop of `make_from_string`, with the position `i`. -/
def lineLoop (t : String8) : Loop (ℤ × MimeMapping) where
  exit st := st.1 = 0 || t.length < st.1
  body st :=
    let j := Text.indexOf t 10 st.1
    if 0 < j then
      (addMappingLine (Text.substring t st.1 (j - 1)) st.2).map fun m => (j + 1, m)
    else (addMappingLine (Text.substring t st.1 t.length) st.2).map fun m => (0, m)

/-- `make_from_string (t)`. -/
def makeFromString (t : String8) : Option MimeMapping :=
  if 0 < t.length then ((lineLoop t).run (t.length + 1) (1, makeEmpty)).map Prod.snd
  else some makeEmpty

end MimeMapping

/-- A `RAW_FILE` that is open for reading. -/
structure RawFile where
  /-- What was not read yet. -/
  rest : String8
  /-- `last_string`. -/
  lastString : String8 := []
  /-- `end_of_file`. -/
  endOfFile : Bool := false

/-- `read_line`. -/
def RawFile.readLine (f : RawFile) : RawFile :=
  if 10 ∈ f.rest then
    { rest := (f.rest.dropWhile (· ≠ 10)).tail
      lastString := f.rest.takeWhile (· ≠ 10)
      endOfFile := false }
  else { rest := [], lastString := f.rest, endOfFile := true }

namespace MimeMapping

/-- The loop of `make_from_file`. -/
def fileLoop : Loop (RawFile × MimeMapping) where
  exit st := st.1.endOfFile
  body st := (addMappingLine st.1.lastString st.2).map fun m => (st.1.readLine, m)

/-- `make_from_file (fn)`, for the content of the file; `none` if there is no file or it is not
readable. -/
def makeFromFile (content : Option String8) : Option MimeMapping :=
  match content with
  | some t =>
    (fileLoop.run (t.length + 1) (RawFile.readLine ⟨t, [], false⟩, makeEmpty)).map Prod.snd
  | none => some makeEmpty

/-! ## What a line says -/

end MimeMapping

/-- A line whose first character that is no blank is `#`. -/
def IsComment (line : String8) : Prop := (line.dropWhile isSpace).head? = some (ch '#')

instance (line : String8) : Decidable (IsComment line) := inferInstanceAs (Decidable (_ = _))

/-- A line that is no comment and has the extension `e`, in either case, behind its first token. -/
def Mentions (e line : String8) : Prop :=
  ¬ IsComment line ∧ ∃ x ∈ (Text.tokens isSpace line).tail, asLower x = asLower e

instance (e line : String8) : Decidable (Mentions e line) := inferInstanceAs (Decidable (_ ∧ _))

/-- The first token of the last line that mentions the extension. -/
def typeIn (lines : List String8) (e : String8) : Option String8 :=
  (lines.filter fun line => Mentions e line).getLast?.bind fun line =>
    (Text.tokens isSpace line).head?

namespace MimeMapping

/-- The extensions of a line, mapped to its media type. -/
def addLine (m : MimeMapping) (line : String8) : MimeMapping :=
  if IsComment line then m
  else match Text.tokens isSpace line with
    | [] => m
    | lType :: exts => exts.foldl (fun m e => m.map e lType) m

lemma typeIn_nil (e : String8) : typeIn [] e = none := rfl

/-- One more line. -/
lemma typeIn_concat (lines : List String8) (line e : String8) :
    typeIn (lines ++ [line]) e =
      if Mentions e line then (Text.tokens isSpace line).head? else typeIn lines e := by
  rw [typeIn, List.filter_append]
  by_cases h : Mentions e line
  · simp [h]
  · simp [h, typeIn]

/-- The loop over the extensions maps the tokens behind the position `j`.

**Proof sketch.** Induction on the fuel, which exceeds the number of characters behind `j`. The
scanner for the next character that is no blank stops at the next token, the one for the next blank
behind it; without one the token ends the line. -/
lemma extensionLoop_run {fuel : ℕ} (l r lType : String8) {i j : ℤ} (hi : i ≠ 0)
    (hj : j = l.length) (hf : r.length < fuel) (m : MimeMapping) :
    ((extensionLoop (l ++ r) lType).run fuel (i, j, m)).map (fun st => st.2.2) =
      some ((Text.tokens isSpace r).foldl (fun m e => m.map e lType) m) := by
  induction fuel generalizing l r i j m with
  | zero => omega
  | succ fuel ih =>
    have hexit : (extensionLoop (l ++ r) lType).exit (i, j, m) = false := by
      simpa [extensionLoop] using hi
    rw [Loop.run_succ_of_not_exit hexit]
    rcases Text.all_false_or_split (fun c => !isSpace c) r with hall | ⟨b, x, r, rfl, hb, hx⟩
    · have hscan : nextNonBlankPosition (l ++ r) j = some 0 := Text.nextPosition_eq_zero l hall hj
      have htokens : Text.tokens isSpace r = [] :=
        Text.tokens_of_blank fun c hc => by simpa using hall c hc
      simp only [extensionLoop, hscan, htokens]
      simp [Loop.run_of_exit]
    · have hblank : ∀ c ∈ b, isSpace c = true := fun c hc => by simpa using hb c hc
      have hx' : isSpace x = false := by simpa using hx
      have hscan : nextNonBlankPosition (l ++ (b ++ x :: r)) j =
          some ((l.length : ℤ) + b.length + 1) := Text.nextPosition_eq l hb hx r hj
      have hsplit : l ++ (b ++ x :: r) = (l ++ b ++ [x]) ++ r := by simp
      have hcut : ((l.length : ℤ) + b.length + 1) = (l ++ b ++ [x]).length := by
        simp [add_assoc]
      rcases Text.all_false_or_split isSpace r with hall | ⟨a, y, r, rfl, ha, hy⟩
      · -- the token ends the line
        have hend : nextBlankPosition (l ++ (b ++ x :: r)) ((l.length : ℤ) + b.length + 1) =
            some 0 := by
          rw [hsplit]
          exact Text.nextPosition_eq_zero _ hall hcut
        have hsub : Text.substring (l ++ (b ++ x :: r)) ((l.length : ℤ) + b.length + 1)
            (l ++ (b ++ x :: r)).length = x :: r := by
          rw [← List.append_assoc]
          exact Text.substring_suffix (l ++ b) (x :: r) (by simp) (by simp)
        have htokens : Text.tokens isSpace (b ++ x :: r) = [x :: r] := by
          rw [Text.tokens_blank_append hblank]
          exact Text.tokens_eq_singleton (List.forall_mem_cons.mpr ⟨hx', hall⟩) (by simp)
        have hpos : (0 : ℤ) < (l.length : ℤ) + b.length + 1 := by omega
        simp only [extensionLoop, hscan, hend, hsub, htokens, Option.bind_eq_bind,
          Option.bind_some, if_pos hpos, if_true]
        rw [Loop.run_of_exit rfl]
        rfl
      · -- a blank ends the token
        have hstop : nextBlankPosition (l ++ (b ++ x :: (a ++ y :: r)))
            ((l.length : ℤ) + b.length + 1) =
              some ((l.length : ℤ) + b.length + 1 + a.length + 1) := by
          rw [hsplit, hcut]
          exact Text.nextPosition_eq _ ha hy r rfl
        have hsub : Text.substring (l ++ (b ++ x :: (a ++ y :: r))) ((l.length : ℤ) + b.length + 1)
            ((l.length : ℤ) + b.length + 1 + a.length + 1 - 1) = x :: a := by
          have hparts : l ++ (b ++ x :: (a ++ y :: r)) = (l ++ b) ++ (x :: a ++ y :: r) := by simp
          rw [hparts]
          refine Text.substring_eq (l ++ b) (x :: a) (y :: r) (by simp) ?_
          simp only [List.length_append, List.length_cons]
          push_cast
          ring
        have htokens : Text.tokens isSpace (b ++ x :: (a ++ y :: r)) =
            (x :: a) :: Text.tokens isSpace r := by
          rw [Text.tokens_blank_append hblank, ← List.cons_append]
          exact Text.tokens_append_cons (List.forall_mem_cons.mpr ⟨hx', ha⟩) (by simp) hy r
        have hpos : (0 : ℤ) < (l.length : ℤ) + b.length + 1 := by omega
        have hne : ¬ (l.length : ℤ) + b.length + 1 + a.length + 1 = 0 := by omega
        have hparts : l ++ (b ++ x :: (a ++ y :: r)) = (l ++ (b ++ x :: (a ++ [y]))) ++ r := by simp
        have hrest := ih (l ++ (b ++ x :: (a ++ [y]))) r
          (j := (l.length : ℤ) + b.length + 1 + a.length + 1) hne
          (by simp only [List.length_append, List.length_cons, List.length_nil]; push_cast; ring)
          (by simp only [List.length_append, List.length_cons] at hf; omega)
          (m.map (x :: a) lType)
        rw [← hparts] at hrest
        rw [htokens, List.foldl_cons, ← hrest]
        simp only [extensionLoop, hscan, hstop, hsub, Option.bind_eq_bind, Option.bind_some,
          if_pos hpos, if_neg hne]

/-- The first character of a line that is no blank tells whether it is a comment. -/
lemma isComment_iff {b : String8} (hb : ∀ c ∈ b, isSpace c = true) {x : Character8}
    (hx : isSpace x = false) (r : String8) : IsComment (b ++ x :: r) ↔ x = ch '#' := by
  have hdrop : (b ++ x :: r).dropWhile isSpace = x :: r := by
    rw [List.dropWhile_append_of_pos hb, List.dropWhile_cons_of_neg (by simp [hx])]
  rw [IsComment, hdrop, List.head?_cons, Option.some.injEq]

lemma not_isComment_of_blank {b : String8} (hb : ∀ c ∈ b, isSpace c = true) : ¬ IsComment b := by
  rw [IsComment, List.dropWhile_eq_nil_iff.mpr hb]
  simp

/-- **A line adds its extensions.**

**Proof sketch.** The line is blank, or starts with blanks and another character. That character is
`#`, or the first token goes from it up to the next blank; a line with a single token and no blank
behind it has no extensions. -/
lemma addMappingLine_eq (line : String8) (m : MimeMapping) :
    addMappingLine line m = some (m.addLine line) := by
  rcases Text.all_false_or_split (fun c => !isSpace c) line with hall | ⟨b, x, r, rfl, hb, hx⟩
  · have hblank : ∀ c ∈ line, isSpace c = true := fun c hc => by simpa using hall c hc
    have hscan : nextNonBlankPosition line 0 = some 0 :=
      Text.nextPosition_eq_zero [] hall (by simp)
    rw [addLine, if_neg (not_isComment_of_blank hblank), Text.tokens_of_blank hblank,
      addMappingLine, hscan]
    simp
  · have hblank : ∀ c ∈ b, isSpace c = true := fun c hc => by simpa using hb c hc
    have hx' : isSpace x = false := by simpa using hx
    have hlen : 0 < (b ++ x :: r).length := by simp
    have hscan : nextNonBlankPosition (b ++ x :: r) 0 = some ((b.length : ℤ) + 1) := by
      have h : Text.nextPosition (fun c => !isSpace c) ([] ++ (b ++ x :: r)) 0 = _ :=
        Text.nextPosition_eq [] hb hx r rfl
      simpa [nextNonBlankPosition] using h
    have hitem : Text.item (b ++ x :: r) ((b.length : ℤ) + 1) = x :=
      Text.item_append_cons b x r rfl
    have hpos : (0 : ℤ) < (b.length : ℤ) + 1 := by omega
    have hsplit : b ++ x :: r = (b ++ [x]) ++ r := by simp
    rw [addLine, addMappingLine, if_pos hlen, hscan]
    simp only [Option.bind_eq_bind, Option.bind_some, if_pos hpos, hitem, isComment_iff hblank hx']
    by_cases hcomment : x = ch '#'
    · rw [if_pos hcomment, if_pos hcomment]
    · rw [if_neg hcomment, if_neg hcomment, Text.tokens_blank_append hblank]
      rcases Text.all_false_or_split isSpace r with hall | ⟨a, y, r, rfl, ha, hy⟩
      · have hend : nextBlankPosition (b ++ x :: r) ((b.length : ℤ) + 1) = some 0 := by
          rw [hsplit]
          exact Text.nextPosition_eq_zero _ hall (by simp)
        rw [hend, Text.tokens_eq_singleton (List.forall_mem_cons.mpr ⟨hx', hall⟩) (by simp)]
        simp only [Option.bind_some, if_neg hpos.not_gt]
        rfl
      · have hstop : nextBlankPosition (b ++ x :: (a ++ y :: r)) ((b.length : ℤ) + 1) =
            some ((b.length : ℤ) + 1 + a.length + 1) := by
          have h := Text.nextPosition_eq (b ++ [x]) ha hy r (p := (b.length : ℤ) + 1) (by simp)
          rw [hsplit, nextBlankPosition, h]
          simp
        have hsub : Text.substring (b ++ x :: (a ++ y :: r)) ((b.length : ℤ) + 1)
            ((b.length : ℤ) + 1 + a.length + 1 - 1) = x :: a := by
          rw [← List.cons_append]
          refine Text.substring_eq b (x :: a) (y :: r) rfl ?_
          rw [List.length_cons]
          push_cast
          ring
        have hparts : b ++ x :: (a ++ y :: r) = (b ++ x :: (a ++ [y])) ++ r := by simp
        have hloop := @extensionLoop_run ((b ++ x :: (a ++ y :: r)).length + 1)
          (b ++ x :: (a ++ [y])) r (x :: a) _ ((b.length : ℤ) + 1 + a.length + 1) hpos.ne'
          (by simp only [List.length_append, List.length_cons, List.length_nil]; push_cast; ring)
          (by simp only [List.length_append, List.length_cons]; omega) m
        rw [← hparts] at hloop
        rw [hstop, ← List.cons_append,
          Text.tokens_append_cons (List.forall_mem_cons.mpr ⟨hx', ha⟩) (by simp) hy r,
          List.cons_append]
        simp only [Option.bind_some, hsub]
        rw [if_pos (by omega), hloop]

/-! ## What is found after loading -/

/-- The media type of an extension after one more line. -/
lemma mimeType_addLine (m : MimeMapping) (line e : String8) :
    (m.addLine line).mimeType e =
      if Mentions e line then (Text.tokens isSpace line).head? else m.mimeType e := by
  have hfold (l : List String8) (m : MimeMapping) (t : String8) :
      (l.foldl (fun m e => m.map e t) m).mimeType e =
        if ∃ x ∈ l, asLower x = asLower e then some t else m.mimeType e := by
    induction l generalizing m with
    | nil => simp
    | cons x l ih =>
      rw [List.foldl_cons, ih, mimeType, map, HashTable.item_force]
      by_cases hl : ∃ x ∈ l, asLower x = asLower e
      · simp [hl]
      · by_cases hx : asLower x = asLower e
        · simp [hl, hx]
        · rw [if_neg hl, if_neg (Ne.symm hx), if_neg (by simpa [hx] using hl), mimeType]
  rw [addLine]
  by_cases hc : IsComment line
  · simp [Mentions, hc]
  · rw [if_neg hc]
    rcases htokens : Text.tokens isSpace line with _ | ⟨t, exts⟩
    · simp [Mentions, htokens]
    · simp only [hfold, Mentions, htokens, hc, not_false_eq_true, true_and, List.tail_cons,
        List.head?_cons]

/-- What is found after the lines of a text. -/
lemma mimeType_foldl_addLine (lines : List String8) (e : String8) :
    (lines.foldl addLine makeEmpty).mimeType e = typeIn lines e := by
  induction lines using List.reverseRecOn with
  | nil => rfl
  | append_singleton lines line ih =>
    rw [List.foldl_concat, mimeType_addLine, typeIn_concat, ih]

/-- The keys are in lower case. -/
def LowerKeys (m : MimeMapping) : Prop := ∀ k ∈ m.mapping.keys, asLower k = k

lemma lowerKeys_map {m : MimeMapping} (h : m.LowerKeys) (e t : String8) :
    (m.map e t).LowerKeys := by
  intro k hk
  rcases HashTable.mem_keys_force.mp hk with rfl | hk
  · exact asLower_asLower e
  · exact h k hk

lemma lowerKeys_foldl_map {m : MimeMapping} (h : m.LowerKeys) (l : List String8) (t : String8) :
    (l.foldl (fun m e => m.map e t) m).LowerKeys := by
  induction l generalizing m with
  | nil => exact h
  | cons e l ih => exact ih (lowerKeys_map h e t)

lemma lowerKeys_addLine {m : MimeMapping} (h : m.LowerKeys) (line : String8) :
    (m.addLine line).LowerKeys := by
  unfold addLine
  split
  · exact h
  · split
    · exact h
    · exact lowerKeys_foldl_map h _ _

lemma lowerKeys_foldl_addLine (lines : List String8) :
    (lines.foldl addLine makeEmpty).LowerKeys := by
  induction lines using List.reverseRecOn with
  | nil => exact fun k hk => absurd hk (by simp [makeEmpty])
  | append_singleton lines line ih =>
    rw [List.foldl_concat]
    exact lowerKeys_addLine ih line

/-! ## The loaders -/

/-- The loop over a string adds the lines of the text from its position on.

**Proof sketch.** Induction on the fuel, which exceeds the length of that text. A text that ends
with the end of a line has an empty last line, for which there is no iteration. -/
lemma lineLoop_run {fuel : ℕ} (l r : String8) {i : ℤ} (hi : i = l.length + 1)
    (hf : r.length < fuel) (m : MimeMapping) :
    ((lineLoop (l ++ r)).run fuel (i, m)).map Prod.snd =
      some ((r.splitOn 10).foldl addLine m) := by
  induction fuel generalizing l r i m with
  | zero => omega
  | succ fuel ih =>
    by_cases hr : r = []
    · subst hr
      have hexit : (lineLoop (l ++ [])).exit (i, m) = true := by
        simp [lineLoop]
        omega
      have hnil : m.addLine [] = m := by simp [addLine]
      rw [Loop.run_of_exit hexit]
      simp [hnil]
    · have hlen := List.length_pos_iff.mpr hr
      have hexit : (lineLoop (l ++ r)).exit (i, m) = false := by
        simp [lineLoop]
        omega
      rw [Loop.run_succ_of_not_exit hexit]
      rcases Text.notMem_or_split 10 r with h | ⟨a, b, rfl, ha⟩
      · have hj := Text.indexOf_eq_zero l r hi h
        have hsub : Text.substring (l ++ r) i (l ++ r).length = r :=
          Text.substring_suffix _ _ hi rfl
        simp only [lineLoop, hj, hsub, lt_irrefl, if_false, addMappingLine_eq, Option.map_some,
          Option.bind_some, List.splitOn_eq_singleton h]
        rw [Loop.run_of_exit rfl]
        rfl
      · have hj := Text.indexOf_eq l a b hi ha
        have hsub : Text.substring (l ++ (a ++ 10 :: b)) i (l.length + a.length + 1 - 1) = a :=
          Text.substring_eq _ _ _ hi (by simp)
        have hparts : l ++ (a ++ 10 :: b) = (l ++ (a ++ [10])) ++ b := by simp
        have hpos : (0 : ℤ) < (l.length : ℤ) + a.length + 1 := by omega
        have hrest := ih (l ++ (a ++ [10])) b (i := (l.length : ℤ) + a.length + 1 + 1)
          (by simp [add_assoc]) (by simp at hf; omega) (m.addLine a)
        rw [← hparts] at hrest
        rw [List.splitOn_append_cons_self_of_not_mem ha, List.foldl_cons, ← hrest]
        simp only [lineLoop, hj, hsub, if_pos hpos, addMappingLine_eq, Option.map_some,
          Option.bind_some]

/-- **Loading a text** adds its lines. -/
lemma makeFromString_eq (t : String8) :
    makeFromString t = some ((t.splitOn 10).foldl addLine makeEmpty) := by
  unfold makeFromString
  split
  · exact lineLoop_run [] t rfl (by omega) makeEmpty
  · have ht : t = [] := List.length_eq_zero_iff.mp (by omega)
    subst ht
    rfl

lemma readLine_append_cons {a : String8} (ha : 10 ∉ a) (b s : String8) (e : Bool) :
    RawFile.readLine ⟨a ++ 10 :: b, s, e⟩ = ⟨b, a, false⟩ := by
  rw [RawFile.readLine, if_pos (by simp), Text.takeWhile_ne ha, Text.dropWhile_ne ha]
  rfl

lemma readLine_of_notMem {r : String8} (hr : 10 ∉ r) (s : String8) (e : Bool) :
    RawFile.readLine ⟨r, s, e⟩ = ⟨[], r, true⟩ := by
  rw [RawFile.readLine, if_neg hr]

/-- The loop over a file adds the lines that have an end.

**Proof sketch.** Induction on the fuel. The line without an end is read, but the end of the file is
reached with it, so that the loop is left before the line is used. -/
lemma fileLoop_run {fuel : ℕ} {r : String8} (hf : r.length < fuel) (s : String8) (e : Bool)
    (m : MimeMapping) : (fileLoop.run fuel (RawFile.readLine ⟨r, s, e⟩, m)).map Prod.snd =
      some ((r.splitOn 10).dropLast.foldl addLine m) := by
  induction fuel generalizing r s e m with
  | zero => omega
  | succ fuel ih =>
    rcases Text.notMem_or_split 10 r with h | ⟨a, b, rfl, ha⟩
    · rw [readLine_of_notMem h, Loop.run_of_exit rfl, List.splitOn_eq_singleton h]
      rfl
    · have hbody : fileLoop.body (⟨b, a, false⟩, m) =
          some (RawFile.readLine ⟨b, a, false⟩, m.addLine a) := by
        simp only [fileLoop, addMappingLine_eq, Option.map_some]
      rw [readLine_append_cons ha, Loop.run_succ rfl hbody,
        ih (by simp at hf; omega), List.splitOn_append_cons_self_of_not_mem ha,
        List.dropLast_cons_of_ne_nil (List.splitOn_ne_nil 10 b), List.foldl_cons]

/-- **Loading a file** adds the lines of its content that have an end. -/
lemma makeFromFile_eq (t : String8) :
    makeFromFile (some t) = some ((t.splitOn 10).dropLast.foldl addLine makeEmpty) :=
  fileLoop_run (Nat.lt_succ_self _) [] false makeEmpty

/-- **Parsing.** After loading a text, the media type of any extension is the first token of the
last line that is no comment and has the extension, in either case, behind its first token; there is
none if there is no such line. All keys are in lower case. -/
theorem makeFromString_spec (t : String8) :
    ∃ m, makeFromString t = some m ∧ (∀ e, m.mimeType e = typeIn (t.splitOn 10) e) ∧
      ∀ k ∈ m.mapping.keys, asLower k = k :=
  ⟨_, makeFromString_eq t, mimeType_foldl_addLine _, lowerKeys_foldl_addLine _⟩

/-- The last line is a token of one character with an extension of one character between blanks, and
has no end. -/
example : ((makeFromString (str "#t a\na/b A c\n t  a ")).bind fun m => m.mimeType (str "A")) =
    some (str "t") := by decide +kernel

/-- The loaders make the same mapping of a content: the same item under every key. -/
def LoadersAgree (t : String8) : Prop :=
  ∃ m m', makeFromFile (some t) = some m ∧ makeFromString t = some m' ∧
    ∀ k, m.mapping.item k = m'.mapping.item k

/-- Two mappings with keys in lower case that give every extension the same media type. -/
lemma item_eq_of_mimeType {m m' : MimeMapping} (h : m.LowerKeys) (h' : m'.LowerKeys) :
    (∀ k, m.mapping.item k = m'.mapping.item k) ↔ ∀ e, m.mimeType e = m'.mimeType e := by
  constructor
  · exact fun hitem e => hitem (asLower e)
  · intro htype k
    by_cases hk : asLower k = k
    · have := htype k
      rwa [mimeType, mimeType, hk] at this
    · have hnone {m : MimeMapping} (hm : m.LowerKeys) : m.mapping.item k = none :=
        HashTable.item_eq_none_iff.mpr fun hmem => hk (hm k hmem)
      rw [hnone h, hnone h']

/-- The text behind the last end of a line. -/
def unfinishedLine (t : String8) : String8 := Text.afterLast 10 t

/-- The unfinished line is the last one.

**Proof sketch.** Induction on the length: what stands before the first end of a line is a line of
its own. -/
lemma getLast_splitOn {n : ℕ} {t : String8} (hn : t.length ≤ n) :
    (t.splitOn 10).getLast (List.splitOn_ne_nil 10 t) = unfinishedLine t := by
  induction n generalizing t with
  | zero =>
    obtain rfl : t = [] := List.length_eq_zero_iff.mp (by omega)
    rfl
  | succ n ih =>
    rcases Text.notMem_or_split 10 t with h | ⟨a, b, rfl, ha⟩
    · simp only [List.splitOn_eq_singleton h, List.getLast_singleton, unfinishedLine,
        Text.afterLast_of_notMem h]
    · have hb : b.length ≤ n := by simp at hn; omega
      simp only [List.splitOn_append_cons_self_of_not_mem ha, unfinishedLine,
        Text.afterLast_append_cons]
      rw [List.getLast_cons (List.splitOn_ne_nil 10 b)]
      exact ih hb

lemma splitOn_eq_concat (t : String8) :
    t.splitOn 10 = (t.splitOn 10).dropLast ++ [unfinishedLine t] := by
  rw [← getLast_splitOn (le_refl t.length), List.dropLast_append_getLast]

/-- **Loading a file and loading its text** make the same mapping if and only if every extension of
the line that has no end has the media type of that line from the lines before it already; above
all if the text ends with the end of a line. -/
theorem loadersAgree_iff (t : String8) :
    LoadersAgree t ↔ ∀ e, Mentions e (unfinishedLine t) →
      typeIn (t.splitOn 10).dropLast e = (Text.tokens isSpace (unfinishedLine t)).head? := by
  have hall : LoadersAgree t ↔ ∀ e, typeIn (t.splitOn 10).dropLast e = typeIn (t.splitOn 10) e := by
    have hitem := item_eq_of_mimeType (lowerKeys_foldl_addLine (t.splitOn 10).dropLast)
      (lowerKeys_foldl_addLine (t.splitOn 10))
    simp only [mimeType_foldl_addLine] at hitem
    rw [← hitem, LoadersAgree, makeFromFile_eq, makeFromString_eq]
    simp
  rw [hall, splitOn_eq_concat t, List.dropLast_concat]
  refine forall_congr' fun e => ?_
  rw [typeIn_concat]
  by_cases h : Mentions e (unfinishedLine t) <;> simp [h]

/-- A file of one line without an end. -/
theorem not_loadersAgree_css : ¬ ∀ t, LoadersAgree t := by
  intro h
  have hcss := (loadersAgree_iff (str "text/css css")).mp (h _) (str "css") (by decide +kernel)
  revert hcss
  decide +kernel

end MimeMapping

end EiffelWeb
