import Mathlib.Algebra.Order.Field.Rat
import Mathlib.Data.List.Basic
import Mathlib.Data.Prod.Lex
import Mathlib.Tactic.Common
import EiffelWeb.CursorList
import EiffelWeb.Maxima
import EiffelWeb.Conneg.MimeParse

set_option relaxedAutoImplicit false
set_option autoImplicit false

/-!
# The best match

The routine `best_match` of `MIME_PARSE`: every supported type is compared with the ranges of a
header, and a loop removes all but the best ones from the list of the results, before and behind
its cursor. Among these the routine looks for the one the header names first. Fitness comes before
quality; a best match of quality zero is no match.

## Main definitions

* `MimeParse.pruneLoop` — the loop that keeps the best results.
* `MimeParse.nameLoop` — the loops that look for a name.
* `MimeParse.bestMatch` — the routine.
* `MimeParse.pair` — the fitness and the quality, ordered lexicographically.

## Main results

* `MimeParse.pruneLoop_run` — the loop keeps the greatest results.
* `MimeParse.bestMatch_selects` — what the routine returns.
* `MimeParse.bestMatch_completes_iff` — when it returns.
* `MimeParse.bestMatch_acceptable` — when it finds a type, and of which quality.
-/

namespace EiffelWeb

namespace MimeParse

/-! ## The routine -/

/-- The first loop of `best_match`: the ranges of the header. -/
def headerResults (dc : DoubleConversion) (header : String8) : Option (List ParseResults) :=
  (header.splitOn (ch ',')).mapM (parseMediaRange dc)

/-- The result for the supported type `s`. -/
def weightedMatch (dc : DoubleConversion) (lHeaderResults : List ParseResults) (s : String8) :
    Option FitnessAndQuality :=
  (fitnessAndQualityParsed dc s lHeaderResults).map fun f => { f with mimeType := mimeType s }

/-- The second loop of `best_match`: the results for the supported types. -/
def weightedMatches (dc : DoubleConversion) (lHeaderResults : List ParseResults)
    (supported : List String8) : Option (List FitnessAndQuality) :=
  supported.mapM (weightedMatch dc lHeaderResults)

/-- State of the loop of `best_match` that keeps the best results. -/
structure PruneState where
  /-- The local `weighted_matches`. -/
  weighted : CursorList FitnessAndQuality
  /-- The local `first_one`. -/
  firstOne : FitnessAndQuality

/-- The inner loop of `best_match` with the moves around it: everything before the cursor is
removed. -/
def removeBefore (weighted : CursorList FitnessAndQuality) :
    Option (CursorList FitnessAndQuality) :=
  if weighted.isfirst then some weighted
  else (weighted.back.bind (CursorList.removeLoop.run weighted.index)).bind CursorList.forth

/-- The loop of `best_match` that keeps the best results. -/
def pruneLoop : Loop PruneState where
  exit st := st.weighted.after
  body st := st.weighted.item.bind fun f =>
    if st.firstOne.isLess f then
      ((removeBefore st.weighted).bind CursorList.forth).map fun w => ⟨w, f⟩
    else if st.firstOne.isEqual f then
      st.weighted.forth.map fun w => ⟨w, st.firstOne⟩
    else st.weighted.remove.map fun w => ⟨w, st.firstOne⟩

/-- The state before the loop: `first_one` is the first result, if there is one. -/
def pruneStart (ws : List FitnessAndQuality) : Option PruneState :=
  let weighted := CursorList.start ⟨ws, 0⟩
  weighted.item.bind fun f => weighted.forth.map fun w => ⟨w, f⟩

/-- State of the loops of `best_match` that look for a name. -/
structure NameState where
  /-- The local `l_header_results`. -/
  headers : CursorList ParseResults
  /-- The local `weighted_matches`. -/
  weighted : CursorList FitnessAndQuality
  /-- The local `fitness_and_quality`. -/
  found : Option FitnessAndQuality

/-- The loops of `best_match` that look for a result with the name of a range. -/
def nameLoop : Loop NameState where
  exit st := st.headers.after || st.found.isSome
  body st := st.headers.item.bind fun r =>
    ((CursorList.searchLoop fun w : FitnessAndQuality => w.mimeType = r.mimeType).run
        (st.weighted.items.length + 1) (st.weighted.start, none)).bind fun found =>
      st.headers.forth.map fun headers => ⟨headers, found.1, found.2⟩

/-- The end of `best_match`. -/
def select (lHeaderResults : List ParseResults) (st : PruneState) : Option String8 :=
  if st.firstOne.quality ≠ 0 then
    if st.weighted.items.length = 1 then some st.firstOne.mimeType
    else
      (nameLoop.run (lHeaderResults.length + 1)
          ⟨CursorList.start ⟨lHeaderResults, 0⟩, st.weighted, none⟩).map fun st' =>
        (st'.found.getD st.firstOne).mimeType
  else some []

/-- `best_match (supported, header)`: `none` if a call in it fails. -/
def bestMatch (dc : DoubleConversion) (supported : List String8) (header : String8) :
    Option String8 :=
  (headerResults dc header).bind fun lHeaderResults =>
    (weightedMatches dc lHeaderResults supported).bind fun ws =>
      ((pruneStart ws).bind (pruneLoop.run ws.length)).bind (select lHeaderResults)

/-- `quality (a_mime_type, ranges)`. -/
def quality (dc : DoubleConversion) (aMimeType ranges : String8) : Option ℚ :=
  (headerResults dc ranges).bind fun lRanges =>
    qualityParsed dc aMimeType (lRanges.foldl CursorList.putLeft ⟨[], 0⟩).items

/-! ## The order of the results -/

/-- The fitness and the quality of a result, ordered lexicographically. -/
def pair (f : FitnessAndQuality) : ℤ ×ₗ ℚ := toLex (f.fitness, f.quality)

lemma isLess_iff {a b : FitnessAndQuality} : a.isLess b = true ↔ pair a < pair b := by
  rw [FitnessAndQuality.isLess, pair, pair, Prod.Lex.toLex_lt_toLex]
  split
  · next h => simp [h]
  · next h => simp [h]

lemma isEqual_iff {a b : FitnessAndQuality} : a.isEqual b = true ↔ pair a = pair b := by
  rw [FitnessAndQuality.isEqual, Bool.and_eq_true, Bool.not_eq_true', Bool.not_eq_true',
    ← Bool.not_eq_true, ← Bool.not_eq_true, isLess_iff, isLess_iff, not_lt, not_lt]
  exact ⟨fun h => le_antisymm h.2 h.1, fun h => ⟨h.ge, h.le⟩⟩

/-! ## Keeping the best results -/

/-- The cursor stands behind the greatest of the results it has passed, and `first_one` is the
first of these. -/
def Pruned (ws : List FitnessAndQuality) (st : PruneState) : Prop :=
  ∃ p rest m, ws = p ++ rest ∧ maxima pair p = st.firstOne :: m ∧
    st.weighted = CursorList.between (st.firstOne :: m) rest

lemma removeBefore_between (f : FitnessAndQuality) (m : List FitnessAndQuality)
    (x : FitnessAndQuality) (rest : List FitnessAndQuality) :
    removeBefore (CursorList.between (f :: m) (x :: rest)) =
      some (CursorList.between [] (x :: rest)) := by
  obtain ⟨a, z, hz⟩ : ∃ a z, f :: m = a ++ [z] :=
    ⟨(f :: m).dropLast, (f :: m).getLast (by simp), (List.dropLast_append_getLast _).symm⟩
  have hrun : CursorList.removeLoop.run (CursorList.between (a ++ [z]) (x :: rest)).index
      (CursorList.between a (z :: x :: rest)) = some (CursorList.first (x :: rest)) :=
    CursorList.removeLoop_run a z (x :: rest) (by
      simp only [CursorList.between, List.length_append, List.length_cons, List.length_nil]
      omega)
  rw [removeBefore, CursorList.isfirst_between_cons, hz]
  simp [hrun]

/-- **One iteration** passes the item under the cursor or removes it. -/
lemma Pruned.body {ws : List FitnessAndQuality} {st : PruneState} (h : Pruned ws st)
    (he : pruneLoop.exit st = false) :
    ∃ st', pruneLoop.body st = some st' ∧ Pruned ws st' ∧
      st'.weighted.remaining < st.weighted.remaining := by
  obtain ⟨p, rest, m, hws, hmax, hweighted⟩ := h
  rcases rest with _ | ⟨x, rest⟩
  · simp [pruneLoop, hweighted] at he
  · have hfirst : st.firstOne ∈ maxima pair p := by simp [hmax]
    have hws' : ws = (p ++ [x]) ++ rest := by simp [hws]
    by_cases hlt : pair st.firstOne < pair x
    · have hb : pruneLoop.body st = some ⟨CursorList.between [x] rest, x⟩ := by
        simp [pruneLoop, hweighted, isLess_iff.mpr hlt, removeBefore_between]
      refine ⟨_, hb, ⟨p ++ [x], rest, [], hws', maxima_append_of_lt hfirst hlt, rfl⟩, ?_⟩
      simp [hweighted]
    · have hless : st.firstOne.isLess x = false := by
        rw [← Bool.not_eq_true, isLess_iff]
        exact hlt
      by_cases heq : pair st.firstOne = pair x
      · have hb : pruneLoop.body st =
            some ⟨CursorList.between (st.firstOne :: m ++ [x]) rest, st.firstOne⟩ := by
          simp [pruneLoop, hweighted, hless, isEqual_iff.mpr heq]
        refine ⟨_, hb, ⟨p ++ [x], rest, m ++ [x], hws', ?_, rfl⟩, ?_⟩
        · rw [maxima_append_of_eq hfirst heq.symm, hmax]
          rfl
        · simp [hweighted]
      · have hequal : st.firstOne.isEqual x = false := by
          rw [← Bool.not_eq_true, isEqual_iff]
          exact heq
        have hgt : pair x < pair st.firstOne := lt_of_le_of_ne (not_lt.mp hlt) (Ne.symm heq)
        have hb : pruneLoop.body st =
            some ⟨CursorList.between (st.firstOne :: m) rest, st.firstOne⟩ := by
          simp [pruneLoop, hweighted, hless, hequal]
        refine ⟨_, hb, ⟨p ++ [x], rest, m, hws', ?_, rfl⟩, ?_⟩
        · rw [maxima_append_of_gt hfirst hgt, hmax]
        · simp [hweighted]

/-- **The loop keeps the greatest results**, in order, and the first of them. -/
lemma pruneLoop_run {ws : List FitnessAndQuality} (hne : ws ≠ []) :
    ∃ st st' m, pruneStart ws = some st ∧ pruneLoop.run ws.length st = some st' ∧
      st'.weighted.items = maxima pair ws ∧ maxima pair ws = st'.firstOne :: m := by
  rcases ws with _ | ⟨f, ws⟩
  · exact absurd rfl hne
  · have hstart : pruneStart (f :: ws) = some ⟨CursorList.between [f] ws, f⟩ := by
      simp [pruneStart, CursorList.start_eq]
    have hpruned : Pruned (f :: ws) ⟨CursorList.between [f] ws, f⟩ :=
      ⟨[f], ws, [], rfl, maxima_singleton f, rfl⟩
    obtain ⟨st, hrun, hst, hexit⟩ := Loop.run_of_variant (Pruned (f :: ws))
      (fun st => st.weighted.remaining) (fun st hI he => hI.body he) hpruned
      (n := (f :: ws).length) (by simp)
    obtain ⟨p, rest, m, hws, hmax, hweighted⟩ := hst
    rcases rest with _ | ⟨x, rest⟩
    · rw [List.append_nil] at hws
      refine ⟨_, st, m, hstart, hrun, ?_, hws ▸ hmax⟩
      rw [hweighted, CursorList.items_between, List.append_nil, hws, hmax]
    · simp [pruneLoop, hweighted] at hexit

/-! ## Looking for a name -/

/-- The first of the results that a range of the header names, in the order of the ranges. -/
def namedFirst (lHeaderResults : List ParseResults) (ws : List FitnessAndQuality) :
    Option FitnessAndQuality :=
  lHeaderResults.findSome? fun r => ws.find? fun w => w.mimeType = r.mimeType

/-- **The loops find the result that the header names first.** -/
lemma nameLoop_run (a b : List ParseResults) (weighted : CursorList FitnessAndQuality)
    {fuel : ℕ} (hf : b.length < fuel) :
    ∃ st, nameLoop.run fuel ⟨CursorList.between a b, weighted, none⟩ = some st ∧
      st.found = namedFirst b weighted.items := by
  induction b generalizing a weighted fuel with
  | nil => exact ⟨_, Loop.run_of_exit (by simp [nameLoop]) fuel, rfl⟩
  | cons r b ih =>
    obtain ⟨fuel, rfl⟩ : ∃ k, fuel = k + 1 := ⟨fuel - 1, by simp at hf; omega⟩
    obtain ⟨c, hsearch, hitems⟩ := CursorList.searchLoop_run
      (fun w : FitnessAndQuality => decide (w.mimeType = r.mimeType)) [] weighted.items
      (Nat.lt_succ_self _)
    have he : nameLoop.exit ⟨CursorList.between a (r :: b), weighted, none⟩ = false := by
      simp [nameLoop]
    have hb : nameLoop.body ⟨CursorList.between a (r :: b), weighted, none⟩ =
        some ⟨CursorList.between (a ++ [r]) b, c,
          weighted.items.find? fun w => w.mimeType = r.mimeType⟩ := by
      simp only [nameLoop, CursorList.item_between_cons, Option.bind_some, CursorList.start_eq,
        CursorList.forth_between_cons, Option.map_some]
      rw [hsearch, Option.bind_some]
    rw [Loop.run_succ he hb, namedFirst, List.findSome?_cons]
    rcases List.find? (fun w : FitnessAndQuality => decide (w.mimeType = r.mimeType))
      weighted.items with _ | w
    · obtain ⟨st, hrun, hfound⟩ := @ih (a ++ [r]) c fuel (by simp at hf; omega)
      rw [hitems, List.nil_append] at hfound
      exact ⟨st, hrun, hfound⟩
    · exact ⟨_, Loop.run_of_exit (by simp [nameLoop]) fuel, rfl⟩

/-- The end of the routine, after the loop that keeps the best results. -/
lemma select_eq {lHeaderResults : List ParseResults} {st : PruneState} {m : List FitnessAndQuality}
    (hitems : st.weighted.items = st.firstOne :: m) :
    select lHeaderResults st = some (if st.firstOne.quality = 0 then []
      else ((namedFirst lHeaderResults (st.firstOne :: m)).getD st.firstOne).mimeType) := by
  rw [select]
  by_cases hq : st.firstOne.quality = 0
  · rw [if_neg (not_not.mpr hq), if_pos hq]
  · rw [if_pos hq, if_neg hq]
    split
    · next hone =>
      -- the only result is the first one, named or not
      have hm : m = [] := by simpa [hitems] using hone
      have hnamed : ∀ w, namedFirst lHeaderResults [st.firstOne] = some w → w = st.firstOne := by
        intro w hw
        obtain ⟨r, -, hr⟩ := List.exists_of_findSome?_eq_some hw
        exact List.mem_singleton.mp (List.mem_of_find?_eq_some hr)
      rw [hm]
      rcases hn : namedFirst lHeaderResults [st.firstOne] with _ | w
      · rfl
      · rw [hnamed w hn]
        rfl
    · rw [CursorList.start_eq]
      obtain ⟨st', hrun, hfound⟩ := nameLoop_run [] lHeaderResults st.weighted
        (Nat.lt_succ_self _)
      rw [hrun, Option.map_some, hfound, hitems]

/-! ## What the routine returns -/

section Result

variable {dc : DoubleConversion} {supported : List String8} {header : String8}
  {lHeaderResults : List ParseResults} {ws : List FitnessAndQuality}

lemma weightedMatches_ne_nil (hw : weightedMatches dc lHeaderResults supported = some ws)
    (hne : supported ≠ []) : ws ≠ [] := by
  rintro rfl
  exact hne (List.forall₂_nil_right_iff.mp (mapM_eq_some_iff.mp hw))

/-- The result of the routine on parsed arguments. -/
lemma bestMatch_eq (hh : headerResults dc header = some lHeaderResults)
    (hw : weightedMatches dc lHeaderResults supported = some ws) (hne : supported ≠ []) :
    ∃ best m, maxima pair ws = best :: m ∧
      bestMatch dc supported header = some (if best.quality = 0 then []
        else ((namedFirst lHeaderResults (best :: m)).getD best).mimeType) := by
  obtain ⟨st, st', m, hstart, hrun, hitems, hmax⟩ :=
    pruneLoop_run (weightedMatches_ne_nil hw hne)
  refine ⟨st'.firstOne, m, hmax, ?_⟩
  rw [bestMatch, hh, Option.bind_some, hw, Option.bind_some, hstart, Option.bind_some, hrun,
    Option.bind_some]
  exact select_eq (hitems.trans hmax)

end Result

/-- **What `best_match` returns.** The loop returns, with the results whose pair of fitness and
quality is greatest, in order. If this pair has quality zero the routine returns the empty text;
else it returns the type, among these, that the header names first, and the first of these if it
names none. -/
theorem bestMatch_selects (dc : DoubleConversion) (supported : List String8) (header : String8)
    (lHeaderResults : List ParseResults) (ws : List FitnessAndQuality) (hne : supported ≠ [])
    (hh : headerResults dc header = some lHeaderResults)
    (hw : weightedMatches dc lHeaderResults supported = some ws) :
    (∃ st st', pruneStart ws = some st ∧ pruneLoop.run ws.length st = some st' ∧
        st'.weighted.items = maxima pair ws) ∧
      ∃ best m, maxima pair ws = best :: m ∧ (∀ w ∈ ws, pair w ≤ pair best) ∧
        (best.quality = 0 → bestMatch dc supported header = some []) ∧
        (best.quality ≠ 0 → bestMatch dc supported header =
          some ((namedFirst lHeaderResults (maxima pair ws)).getD best).mimeType) := by
  refine ⟨?_, ?_⟩
  · obtain ⟨st, st', m, hstart, hrun, hitems, -⟩ := pruneLoop_run (weightedMatches_ne_nil hw hne)
    exact ⟨st, st', hstart, hrun, hitems⟩
  · obtain ⟨best, m, hmax, hbest⟩ := bestMatch_eq hh hw hne
    have hmem : best ∈ maxima pair ws := by simp [hmax]
    refine ⟨best, m, hmax, (mem_maxima.mp hmem).2, fun hq => ?_, fun hq => ?_⟩
    · rw [hbest, if_pos hq]
    · rw [hbest, if_neg hq, hmax]

/-- A more specific range decides, although the other type comes first. -/
theorem bestMatch_selects_text_xml :
    [str "application/xbel+xml", str "text/xml"] ≠ [] ∧
      ∃ lHeaderResults ws,
        headerResults decimalConversion (str "text/*;q=0.5,*/*;q=0.1") = some lHeaderResults ∧
        weightedMatches decimalConversion lHeaderResults
          [str "application/xbel+xml", str "text/xml"] = some ws ∧
        ∃ best m, maxima pair ws = best :: m ∧ ∀ w ∈ ws, pair w ≤ pair best := by
  have hne : [str "application/xbel+xml", str "text/xml"] ≠ [] := List.cons_ne_nil _ _
  have hsome : ((headerResults decimalConversion (str "text/*;q=0.5,*/*;q=0.1")).bind fun hs =>
      weightedMatches decimalConversion hs
        [str "application/xbel+xml", str "text/xml"]).isSome = true := by
    decide +kernel
  obtain ⟨ws, hws⟩ := Option.isSome_iff_exists.mp hsome
  obtain ⟨hs, hh, hw⟩ := Option.bind_eq_some_iff.mp hws
  obtain ⟨-, best, m, hmax, hle, -⟩ := bestMatch_selects _ _ _ hs ws hne hh hw
  exact ⟨hne, hs, ws, hh, hw, best, m, hmax, hle⟩

example : bestMatch decimalConversion [str "application/xbel+xml", str "text/xml"]
    (str "text/*;q=0.5,*/*;q=0.1") = some (str "text/xml") := by
  decide +kernel

/-! ## When the routine returns -/

section Completes

variable {dc : DoubleConversion} {header : String8} {lHeaderResults : List ParseResults}

variable (dc) in
lemma isSome_headerResults :
    (headerResults dc header).isSome ↔ ∀ e ∈ header.splitOn (ch ','), Readable e := by
  rw [headerResults, isSome_mapM_iff]
  exact forall₂_congr fun e _ => isSome_parseMediaRange dc

/-- The ranges of a header are valid. -/
lemma validRange_of_headerResults (hh : headerResults dc header = some lHeaderResults) :
    ∀ r ∈ lHeaderResults, ValidRange dc r := by
  intro r hr
  obtain ⟨e, -, he⟩ := exists_of_mem_mapM hh hr
  exact validRange_of_parseMediaRange he

/-- Readable types are compared with the ranges of a header. -/
lemma exists_weightedMatches {supported : List String8} (hs : ∀ s ∈ supported, Readable s)
    (hh : headerResults dc header = some lHeaderResults) :
    ∃ ws, weightedMatches dc lHeaderResults supported = some ws := by
  rw [← Option.isSome_iff_exists, weightedMatches, isSome_mapM_iff]
  intro s hmem
  obtain ⟨f, hf, -⟩ := fitnessAndQualityParsed_spec (hs s hmem) (validRange_of_headerResults hh)
  rw [weightedMatch, hf]
  rfl

end Completes

/-- **When `best_match` returns**, for readable supported types: every element of the header has a
slash before its first semicolon, or is a star there. Else an element is cut into one piece, and
the second is asked for. -/
theorem bestMatch_completes_iff (dc : DoubleConversion) (supported : List String8)
    (header : String8) (hne : supported ≠ []) (hs : ∀ s ∈ supported, Readable s) :
    ((∀ e ∈ header.splitOn (ch ','), (parseMediaRange dc e).isSome) ∧
        (bestMatch dc supported header).isSome) ↔
      ∀ e ∈ header.splitOn (ch ','), Readable e := by
  constructor
  · rintro ⟨hparse, -⟩ e he
    exact (isSome_parseMediaRange dc).mp (hparse e he)
  · intro hread
    refine ⟨fun e he => (isSome_parseMediaRange dc).mpr (hread e he), ?_⟩
    obtain ⟨lHeaderResults, hh⟩ :=
      Option.isSome_iff_exists.mp ((isSome_headerResults dc).mpr hread)
    obtain ⟨ws, hw⟩ := exists_weightedMatches hs hh
    obtain ⟨best, m, -, hbest⟩ := bestMatch_eq hh hw hne
    rw [hbest]
    rfl

/-- The theorem at a header with a star and an element with parameters. -/
theorem bestMatch_completes_star :
    ([str "text/xml"] ≠ [] ∧ ∀ s ∈ [str "text/xml"], Readable s) ∧
      (bestMatch decimalConversion [str "text/xml"] (str "text/html;level=1, *")).isSome := by
  have hne : [str "text/xml"] ≠ [] := List.cons_ne_nil _ _
  have hs : ∀ s ∈ [str "text/xml"], Readable s := by
    intro s hs
    rw [List.mem_singleton] at hs
    rw [hs]
    decide
  have hread : ∀ e ∈ (str "text/html;level=1, *").splitOn (ch ','), Readable e := by
    have hsplit : (str "text/html;level=1, *").splitOn (ch ',') =
        [str "text/html;level=1", str " *"] := by decide +kernel
    rw [hsplit, List.forall_mem_cons, List.forall_mem_singleton]
    exact ⟨by decide, by decide⟩
  exact ⟨⟨hne, hs⟩, ((bestMatch_completes_iff decimalConversion _ _ hne hs).mpr hread).2⟩

/-- The header `text` has no subtype, and is not parsed. -/
theorem not_bestMatch_completes_text :
    ¬ ∀ (dc : DoubleConversion) (supported : List String8) (header : String8), supported ≠ [] →
      (∀ s ∈ supported, Readable s) →
        (∀ e ∈ header.splitOn (ch ','), (parseMediaRange dc e).isSome) ∧
          (bestMatch dc supported header).isSome := by
  intro hall
  have hs : ∀ s ∈ [str "text/xml"], Readable s := by
    intro s hs
    rw [List.mem_singleton] at hs
    rw [hs]
    decide
  have hsome := (hall decimalConversion [str "text/xml"] (str "text") (List.cons_ne_nil _ _) hs).2
  exact absurd hsome (by decide +kernel)

/-! ## Acceptable types -/

/-- A media type: a slash, no white space and no parameters. -/
structure IsMediaType (s : String8) : Prop where
  /-- A type and a subtype. -/
  slash : ch '/' ∈ s
  /-- No white space. -/
  noSpace : ∀ c ∈ s, isSpace c = false
  /-- No parameters. -/
  noParameter : ch ';' ∉ s

section MediaType

variable {s : String8}

lemma IsMediaType.readable (h : IsMediaType s) : Readable s := by
  have hfirst : firstPart s = s := by
    rw [firstPart, List.takeWhile_eq_self_iff]
    exact fun c hc => decide_eq_true (ne_of_mem_of_not_mem hc h.noParameter)
  rw [Readable, hfirst]
  exact Or.inr h.slash

lemma IsMediaType.mimeType_eq (h : IsMediaType s) : mimeType s = s := by
  rw [mimeType, Text.indexOf_one_eq_zero h.noParameter]
  exact trim_of_noSpace h.noSpace

lemma IsMediaType.ne_nil (h : IsMediaType s) : s ≠ [] := List.ne_nil_of_mem h.slash

end MediaType

/-- The element is parsed, and its quality, if there is one, is between `0` and `1`. -/
def isMediaRange (dc : DoubleConversion) (e : String8) : Bool :=
  (parseMimeType e).any fun r => (r.item (str "q")).all fun q =>
    (dc.toDouble q).any fun v => 0 ≤ v && v ≤ 1

/-- The supported type `t` has the greatest fitness for the ranges, and its quality is positive. -/
def BestFit (dc : DoubleConversion) (ranges : List ParseResults) (supported : List String8)
    (t : String8) : Prop :=
  ∃ f, fitnessAndQualityParsed dc t ranges = some f ∧ 0 < f.quality ∧
    ∀ u ∈ supported, ∀ g, fitnessAndQualityParsed dc u ranges = some g → g.fitness ≤ f.fitness

section Acceptable

variable {dc : DoubleConversion} {supported : List String8} {ranges : List ParseResults}
  {ws : List FitnessAndQuality}

/-- A result belongs to a supported type, with its fitness, its quality and its name. -/
lemma exists_supported_of_mem (hw : weightedMatches dc ranges supported = some ws)
    (hs : ∀ s ∈ supported, IsMediaType s) {w : FitnessAndQuality} (hmem : w ∈ ws) :
    w.mimeType ∈ supported ∧ ∃ f, fitnessAndQualityParsed dc w.mimeType ranges = some f ∧
      f.fitness = w.fitness ∧ f.quality = w.quality := by
  obtain ⟨s, hsup, hmatch⟩ := exists_of_mem_mapM hw hmem
  obtain ⟨f, hf, rfl⟩ := Option.map_eq_some_iff.mp hmatch
  have hname : mimeType s = s := (hs s hsup).mimeType_eq
  simp only [hname]
  exact ⟨hsup, f, hf, rfl, rfl⟩

/-- A supported type has a result, with its fitness and its quality. -/
lemma exists_mem_of_supported (hw : weightedMatches dc ranges supported = some ws) {t : String8}
    (ht : t ∈ supported) {f : FitnessAndQuality}
    (hf : fitnessAndQualityParsed dc t ranges = some f) :
    ∃ w ∈ ws, w.fitness = f.fitness ∧ w.quality = f.quality := by
  obtain ⟨w, hmem, hmatch⟩ := exists_mem_of_mapM hw ht
  rw [weightedMatch, hf, Option.map_some, Option.some.injEq] at hmatch
  exact ⟨w, hmem, by rw [← hmatch], by rw [← hmatch]⟩

lemma pair_le_iff {a b : FitnessAndQuality} :
    pair a ≤ pair b ↔ a.fitness < b.fitness ∨ a.fitness = b.fitness ∧ a.quality ≤ b.quality := by
  rw [pair, pair, Prod.Lex.toLex_le_toLex]

/-- The greatest result has a positive quality if a type with the greatest fitness has one. -/
lemma quality_pos_iff (hw : weightedMatches dc ranges supported = some ws)
    (hs : ∀ s ∈ supported, IsMediaType s) {best : FitnessAndQuality}
    (hbest : best ∈ maxima pair ws) :
    0 < best.quality ↔ ∃ t ∈ supported, BestFit dc ranges supported t := by
  obtain ⟨hmem, hmax⟩ := mem_maxima.mp hbest
  constructor
  · intro hpos
    obtain ⟨hsup, f, hf, hfit, hq⟩ := exists_supported_of_mem hw hs hmem
    refine ⟨_, hsup, f, hf, hq ▸ hpos, fun u hu g hg => ?_⟩
    obtain ⟨w, hwmem, hwfit, -⟩ := exists_mem_of_supported hw hu hg
    rcases pair_le_iff.mp (hmax w hwmem) with hlt | ⟨heq, -⟩ <;> omega
  · rintro ⟨t, ht, f, hf, hpos, hgreatest⟩
    obtain ⟨w, hwmem, hwfit, hwq⟩ := exists_mem_of_supported hw ht hf
    obtain ⟨hsup, g, hg, hgfit, -⟩ := exists_supported_of_mem hw hs hmem
    have hle := hgreatest _ hsup g hg
    rcases pair_le_iff.mp (hmax w hwmem) with hlt | ⟨-, hqle⟩
    · omega
    · exact (hwq ▸ hpos).trans_le hqle

end Acceptable

/-- **Acceptable types.** For media types and a header whose elements are parsed, `best_match`
returns a type exactly when one of the supported types of the greatest fitness has a positive
quality; and a type that it returns is a supported one whose own quality is positive. -/
theorem bestMatch_acceptable (dc : DoubleConversion) (supported : List String8) (header : String8)
    (hne : supported ≠ []) (hs : ∀ s ∈ supported, IsMediaType s)
    (hread : ∀ e ∈ header.splitOn (ch ','), Readable e) :
    ∃ ranges result, headerResults dc header = some ranges ∧
      bestMatch dc supported header = some result ∧
      (result ≠ [] ↔ ∃ t ∈ supported, BestFit dc ranges supported t) ∧
      (result ≠ [] →
        result ∈ supported ∧ ∃ q, qualityParsed dc result ranges = some q ∧ 0 < q) := by
  obtain ⟨ranges, hh⟩ := Option.isSome_iff_exists.mp ((isSome_headerResults dc).mpr hread)
  obtain ⟨ws, hw⟩ := exists_weightedMatches (fun s hmem => (hs s hmem).readable) hh
  obtain ⟨best, m, hmax, hbest⟩ := bestMatch_eq hh hw hne
  have hbestmem : best ∈ maxima pair ws := by simp [hmax]
  have hnonneg : 0 ≤ best.quality := by
    obtain ⟨hsup, f, hf, -, hq⟩ := exists_supported_of_mem hw hs (mem_maxima.mp hbestmem).1
    obtain ⟨f', hf', hpos⟩ := fitnessAndQualityParsed_spec (hs _ hsup).readable
      (validRange_of_headerResults hh)
    rw [hf, Option.some.injEq] at hf'
    rwa [← hq, hf']
  have hiff := quality_pos_iff hw hs hbestmem
  refine ⟨ranges, _, hh, hbest, ?_⟩
  by_cases hq : best.quality = 0
  · rw [if_pos hq]
    rw [hq] at hiff
    simpa using hiff
  · rw [if_neg hq]
    have hpos : 0 < best.quality := lt_of_le_of_ne hnonneg (Ne.symm hq)
    -- the result the routine selects is one of the greatest
    obtain ⟨w, hwname, hwmem⟩ : ∃ w, w = (namedFirst ranges (best :: m)).getD best ∧
        w ∈ maxima pair ws := by
      refine ⟨_, rfl, ?_⟩
      rcases hn : namedFirst ranges (best :: m) with _ | w
      · exact hbestmem
      · obtain ⟨r, -, hr⟩ := List.exists_of_findSome?_eq_some hn
        rw [hmax]
        exact List.mem_of_find?_eq_some hr
    rw [← hwname]
    obtain ⟨hsup, f, hf, -, hfq⟩ := exists_supported_of_mem hw hs (mem_maxima.mp hwmem).1
    have hname : w.mimeType ≠ [] := (hs _ hsup).ne_nil
    have hwq : w.quality = best.quality := by
      have hpair := key_eq_of_mem_maxima hwmem hbestmem
      exact (Prod.ext_iff.mp (toLex_inj.mp hpair)).2
    refine ⟨⟨fun _ => hiff.mp hpos, fun _ => hname⟩, fun _ => ⟨hsup, f.quality, ?_, ?_⟩⟩
    · rw [qualityParsed, hf, Option.map_some]
    · rw [hfq, hwq]
      exact hpos

lemma isMediaType_of_all {s : String8}
    (h : (ch '/' ∈ s && s.all (fun c => !isSpace c && c ≠ ch ';')) = true) : IsMediaType s := by
  simp only [Bool.and_eq_true, decide_eq_true_eq, List.all_eq_true, Bool.not_eq_true'] at h
  exact ⟨h.1, fun c hc => (h.2 c hc).1, fun hc => (h.2 _ hc).2 rfl⟩

/-- The theorem at a header that excludes a type. -/
theorem bestMatch_acceptable_star :
    ([str "c/d"] ≠ [] ∧ (∀ s ∈ [str "c/d"], IsMediaType s) ∧
        ∀ e ∈ (str "a/b;q=0, */*;q=0.5").splitOn (ch ','), Readable e) ∧
      ∃ ranges result, headerResults decimalConversion (str "a/b;q=0, */*;q=0.5") = some ranges ∧
        bestMatch decimalConversion [str "c/d"] (str "a/b;q=0, */*;q=0.5") = some result ∧
        (result ≠ [] → result ∈ [str "c/d"]) := by
  have hne : [str "c/d"] ≠ [] := List.cons_ne_nil _ _
  have hs : ∀ s ∈ [str "c/d"], IsMediaType s := by
    rw [List.forall_mem_singleton]
    exact isMediaType_of_all (by decide)
  have hread : ∀ e ∈ (str "a/b;q=0, */*;q=0.5").splitOn (ch ','), Readable e := by
    have hsplit : (str "a/b;q=0, */*;q=0.5").splitOn (ch ',') =
        [str "a/b;q=0", str " */*;q=0.5"] := by decide +kernel
    rw [hsplit, List.forall_mem_cons, List.forall_mem_singleton]
    exact ⟨by decide, by decide⟩
  obtain ⟨ranges, result, hh, hbest, -, hresult⟩ :=
    bestMatch_acceptable decimalConversion _ _ hne hs hread
  exact ⟨⟨hne, hs, hread⟩, ranges, result, hh, hbest, fun h => (hresult h).1⟩

/-- The type `c/d` has the quality `0.5`, but the excluded type `a/b` has the greater fitness. -/
theorem not_bestMatch_acceptable_excluded :
    ¬ ∀ (dc : DoubleConversion) (supported : List String8) (header : String8), supported ≠ [] →
      (∀ s ∈ supported, IsMediaType s) →
      (∀ e ∈ header.splitOn (ch ','), isMediaRange dc e = true) →
      (∃ t ∈ supported, ∃ q, quality dc t header = some q ∧ 0 < q) →
      ∃ result, bestMatch dc supported header = some result ∧ result ≠ [] ∧ result ∈ supported ∧
        ∃ q, quality dc result header = some q ∧ 0 < q := by
  intro hall
  have hs : ∀ s ∈ [str "a/b", str "c/d"], IsMediaType s := by
    rw [List.forall_mem_cons, List.forall_mem_singleton]
    exact ⟨isMediaType_of_all (by decide), isMediaType_of_all (by decide)⟩
  have hranges : ((str "a/b;q=0, */*;q=0.5").splitOn (ch ',')).all
      (isMediaRange decimalConversion) = true := by decide +kernel
  have hquality : quality decimalConversion (str "c/d") (str "a/b;q=0, */*;q=0.5") =
      some (1 / 2) := by decide +kernel
  have hempty : bestMatch decimalConversion [str "a/b", str "c/d"]
      (str "a/b;q=0, */*;q=0.5") = some [] := by decide +kernel
  obtain ⟨result, hresult, hne, -⟩ := hall decimalConversion [str "a/b", str "c/d"]
    (str "a/b;q=0, */*;q=0.5") (List.cons_ne_nil _ _) hs (List.all_eq_true.mp hranges)
    ⟨str "c/d", by simp, 1 / 2, hquality, by decide +kernel⟩
  rw [hempty, Option.some.injEq] at hresult
  exact hne hresult.symm

end MimeParse

end EiffelWeb
