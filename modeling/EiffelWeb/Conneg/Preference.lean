import Mathlib.Algebra.Order.Field.Rat
import Mathlib.Data.List.Basic
import Mathlib.Tactic.Common
import EiffelWeb.HashTable
import EiffelWeb.Character
import EiffelWeb.CursorList
import EiffelWeb.Conneg.MimeParse

set_option relaxedAutoImplicit false
set_option autoImplicit false

/-!
# Languages, character sets and encodings

The parsers `LANGUAGE_PARSE` and `COMMON_ACCEPT_HEADER_PARSER`, siblings of `MIME_PARSE`. All three
read the parameters of an element into a table, and compare a target with the parsed preferences of
a header: the quality of the best preference so far is read by `to_double`. `MIME_PARSE` and
`LANGUAGE_PARSE` replace a missing or an invalid quality by the default after the parameters have
been read. `parse_common` writes the default only where the element has no parameters.

## Main definitions

* `LanguageResults`, `LanguageParse.parseMediaRange`, `LanguageParse.fitnessAndQualityParsed`
* `CommonResults`, `CommonAcceptHeaderParser.parseCommon`,
  `CommonAcceptHeaderParser.fitnessAndQualityParsed`
* `givenQuality` — the quality that an element gives.
* `CarriesQuality` — the parsed preference has a valid quality, the default where none is given.
* `toDoubleReads` — the texts read by `to_double` in a comparison.

## Main results

* `item_foldl_putParam` — the parameters of an element, the last one of a name.
* `isSome_foldlM_bestStep_iff` — a comparison returns if every text it reads is a number; for the
  three parsers in `isSome_fitnessAndQualityParsed_iff`.
* `preferences_carry_quality_iff` — which preferences have a valid quality.
-/

namespace EiffelWeb

/-! ## Parameters -/

/-- One iteration of the loop of the parsers over the parts of an element, on the table of the
parameters. -/
def putParam (params : HashTable String8 String8) (p : String8) : HashTable String8 String8 :=
  match p.splitOn (ch '=') with
  | [key, value] => params.force (trim value) (trim key)
  | _ => params

/-- The value of a part that is a parameter of the name `aKey`. -/
def valueOfParameter (aKey p : String8) : Option String8 :=
  match p.splitOn (ch '=') with
  | [key, value] => if trim key = aKey then some (trim value) else none
  | _ => none

/-- The quality that an element gives: the value of the last of its parts that is a parameter of
the name `q`. -/
def givenQuality (s : String8) : Option String8 :=
  (s.splitOn (ch ';')).reverse.findSome? (valueOfParameter (str "q"))

lemma item_putParam (params : HashTable String8 String8) (p aKey : String8) :
    (putParam params p).item aKey = (valueOfParameter aKey p).or (params.item aKey) := by
  rw [putParam, valueOfParameter]
  split
  · next key value _ =>
    rw [HashTable.item_force]
    by_cases h : aKey = trim key
    · rw [if_pos h, if_pos h.symm, Option.some_or]
    · rw [if_neg h, if_neg (Ne.symm h), Option.none_or]
  · rw [Option.none_or]

/-- **The last parameter of a name is kept.** -/
lemma item_foldl_putParam (parts : List String8) (params : HashTable String8 String8)
    (aKey : String8) :
    (parts.foldl putParam params).item aKey =
      (parts.reverse.findSome? (valueOfParameter aKey)).or (params.item aKey) := by
  induction parts generalizing params with
  | nil => rfl
  | cons p parts ih =>
    rw [List.foldl_cons, ih, item_putParam, List.reverse_cons, List.findSome?_append,
      Option.or_assoc]
    congr 1
    simp only [List.findSome?_cons, List.findSome?_nil]
    cases valueOfParameter aKey p <;> rfl

lemma params_putParameter (result : ParseResults) (p : String8) :
    (MimeParse.putParameter result p).params = putParam result.params p := by
  rw [MimeParse.putParameter]
  split
  · next key value heq => simp only [putParam, heq, ParseResults.put]
  · next hne =>
    rw [putParam]
    split
    · next key value heq => exact absurd heq (hne key value)
    · rfl

lemma params_foldl_putParameter (parts : List String8) (result : ParseResults) :
    (parts.foldl MimeParse.putParameter result).params = parts.foldl putParam result.params :=
  (List.foldl_hom ParseResults.params fun r p => (params_putParameter r p).symm).symm

/-! ## Languages -/

/-- `LANGUAGE_RESULTS`. -/
structure LanguageResults where
  /-- The attribute `type`. -/
  type : Option String8
  /-- The attribute `sub_type`. -/
  subType : Option String8
  /-- The attribute `mime_type`. -/
  mimeType : String8
  /-- The attribute `params`. -/
  params : HashTable String8 String8

namespace LanguageResults

/-- `make`. -/
def make : LanguageResults := ⟨none, none, str "*", []⟩

/-- `item (a_key)`. -/
def item (r : LanguageResults) (aKey : String8) : Option String8 := r.params.item aKey

/-- `keys`. -/
def keys (r : LanguageResults) : List String8 := r.params.keys

/-- `has_key (a_key)`. -/
def hasKey (r : LanguageResults) (aKey : String8) : Bool := r.params.hasKey aKey

/-- `set_type (a_type)`. -/
def setType (r : LanguageResults) (aType : String8) : LanguageResults :=
  { r with
    type := some aType
    mimeType := match r.subType with
      | some st => aType ++ str "-" ++ st
      | none => aType }

/-- `set_sub_type (a_sub_type)`. -/
def setSubType (r : LanguageResults) (aSubType : String8) : LanguageResults :=
  { r with
    subType := some aSubType
    mimeType := match r.type with
      | some t => t ++ str "-" ++ aSubType
      | none => str "*" }

/-- `put (new, key)`. -/
def put (r : LanguageResults) (new key : String8) : LanguageResults :=
  { r with params := r.params.force new key }

end LanguageResults

section Comparison

variable (dc : DoubleConversion)

/-- `q.is_double`, with a value between `0` and `1`. -/
def ValidQuality (q : String8) : Prop := ∃ v, dc.toDouble q = some v ∧ 0 ≤ v ∧ v ≤ 1

/-- The local `target_q` of `fitness_and_quality_parsed`, for the quality of the target. -/
def targetQualityOf (q : Option String8) : ℚ :=
  match q.bind dc.toDouble with
  | some r => if r < 0 then 0 else if 1 < r then 1 else r
  | none => 1

section Preferences

variable {R : Type*} (fitness : R → Option ℤ) (quality : R → Option String8)

/-- One iteration of the loops of `fitness_and_quality_parsed` over the parsed preferences, for the
best fitness and its quality. A preference that does not match has no fitness. `none` if the
quality cannot be read. -/
def bestStep (targetQ : ℚ) (best : ℤ × ℚ) (range : R) : Option (ℤ × ℚ) :=
  match fitness range with
  | some lFitness =>
    if best.1 < lFitness then
      match quality range with
      | some element => (dc.toDouble element).map fun r => (lFitness, min r targetQ)
      | none => some (lFitness, 0)
    else some best
  | none => some best

/-- The texts read by `to_double` in the loop over the preferences, from a best fitness on. -/
def loopReads : ℤ → List R → List String8
  | _, [] => []
  | best, range :: ranges =>
    match fitness range with
    | some lFitness =>
      if best < lFitness then (quality range).toList ++ loopReads lFitness ranges
      else loopReads best ranges
    | none => loopReads best ranges

/-- The texts read by `to_double` in `fitness_and_quality_parsed`: the quality of the target if it
is a number, then those of the loop. -/
def toDoubleReads (targetQ : Option String8) (ranges : List R) : List String8 :=
  (targetQ.filter fun q => (dc.toDouble q).isSome).toList ++ loopReads fitness quality (-1) ranges

end Preferences

/-! ### The parser of languages -/

namespace LanguageParse

/-- One iteration of the loop of `parse_mime_type` over the parts. -/
def putParameter (result : LanguageResults) (p : String8) : LanguageResults :=
  { result with params := putParam result.params p }

/-- `parse_mime_type (a_mime_type)`. -/
def parseMimeType (aMimeType : String8) : LanguageResults :=
  let lParts := aMimeType.splitOn (ch ';')
  let result := lParts.foldl putParameter LanguageResults.make
  let lFullType := trim (lParts.headD [])
  match lFullType.splitOn (ch '-') with
  | t :: st :: _ => (result.setType (trim t)).setSubType (trim st)
  | [t] => result.setType (trim t)
  | [] => result

/-- The end of `parse_media_range`: a default where there is no quality between `0` and `1`. -/
def ensureQuality (result : LanguageResults) : LanguageResults :=
  match result.item (str "q") with
  | some q =>
    match dc.toDouble q with
    | some r =>
      if 0 ≤ r ∧ r ≤ 1 then
        if q = str "1" then result.put (str "1.0") (str "q") else result
      else result.put (str "1.0") (str "q")
    | none => result.put (str "1.0") (str "q")
  | none => result.put (str "1.0") (str "q")

/-- `parse_media_range (a_range)`. -/
def parseMediaRange (aRange : String8) : LanguageResults := ensureQuality dc (parseMimeType aRange)

/-- The loop over the parameters of `target`: the number of those that `range` has as well. -/
def paramMatches (target range : LanguageResults) : ℕ :=
  (target.keys.filter fun element =>
    element ≠ str "q" && range.hasKey element &&
      (target.item element).isSome && target.item element = range.item element).length

/-- What equal subtypes add to the fitness. -/
def subTypeFitness (target range : LanguageResults) : ℤ :=
  match range.subType, target.subType with
  | some lRangeSubType, some lTargetSubType =>
    if MimeParse.matchesText lTargetSubType lRangeSubType then
      if lRangeSubType = lTargetSubType then 10 else 0
    else 0
  | _, _ => 0

/-- The local `l_fitness`, for a preference whose type matches. -/
def rangeFitness (target range : LanguageResults) : Option ℤ :=
  match target.type, range.type with
  | some lTargetType, some lRangeType =>
    if MimeParse.matchesText lTargetType lRangeType then
      some ((if lRangeType = lTargetType then 100 else 0) + subTypeFitness target range
        + paramMatches target range)
    else none
  | _, _ => none

/-- `fitness_and_quality_parsed (a_mime_type, parsed_ranges)`. -/
def fitnessAndQualityParsed (aMimeType : String8) (parsedRanges : List LanguageResults) :
    Option FitnessAndQuality :=
  let target := parseMediaRange dc aMimeType
  let targetQ := targetQualityOf dc (target.item (str "q"))
  (parsedRanges.foldlM (bestStep dc (rangeFitness target) (·.item (str "q")) targetQ) (-1, 0)).map
    fun b => ⟨b.1, b.2, []⟩

end LanguageParse

end Comparison

/-! ## Character sets and encodings -/

/-- `COMMON_RESULTS`. -/
structure CommonResults where
  /-- The attribute `field`. -/
  field : Option String8
  /-- The attribute `params`. -/
  params : HashTable String8 String8

namespace CommonResults

/-- `make`. -/
def make : CommonResults := ⟨none, []⟩

/-- `item (a_key)`. -/
def item (r : CommonResults) (aKey : String8) : Option String8 := r.params.item aKey

/-- `set_field (a_field)`. -/
def setField (r : CommonResults) (aField : String8) : CommonResults :=
  { r with field := some aField }

/-- `put (new, key)`. -/
def put (r : CommonResults) (new key : String8) : CommonResults :=
  { r with params := r.params.force new key }

end CommonResults

namespace CommonAcceptHeaderParser

/-- One iteration of the loop of `parse_common` over the parts. -/
def putParameter (result : CommonResults) (p : String8) : CommonResults :=
  { result with params := putParam result.params p }

/-- `parse_common (header)`. The name of the field is trimmed twice. -/
def parseCommon (header : String8) : CommonResults :=
  let lParts := header.splitOn (ch ';')
  let result :=
    if lParts.length = 1 then CommonResults.make.put (str "1.0") (str "q")
    else lParts.foldl putParameter CommonResults.make
  result.setField (trim (trim (lParts.headD [])))

/-- The local `l_fitness`, for a preference that matches. -/
def rangeFitness (target range : CommonResults) : Option ℤ :=
  match target.field, range.field with
  | some lTargetField, some lRangeCommon =>
    if MimeParse.matchesText lTargetField lRangeCommon then
      some (if lRangeCommon = lTargetField then 100 else 0)
    else none
  | _, _ => none

/-- `fitness_and_quality_parsed (a_field, parsed_charsets)`. -/
def fitnessAndQualityParsed (dc : DoubleConversion) (aField : String8)
    (parsedCharsets : List CommonResults) : Option FitnessAndQuality :=
  let target := parseCommon aField
  let targetQ := targetQualityOf dc (target.item (str "q"))
  (parsedCharsets.foldlM (bestStep dc (rangeFitness target) (·.item (str "q")) targetQ) (-1, 0)).map
    fun b => ⟨b.1, b.2, []⟩

end CommonAcceptHeaderParser

/-! ## The texts read as numbers -/

section Reads

variable {dc : DoubleConversion} {R : Type*} {fitness : R → Option ℤ}
  {quality : R → Option String8}

/-- **A comparison returns if every text it reads is a number.** -/
lemma isSome_foldlM_bestStep_iff (targetQ : ℚ) (ranges : List R) (best : ℤ × ℚ) :
    (ranges.foldlM (bestStep dc fitness quality targetQ) best).isSome ↔
      ∀ t ∈ loopReads fitness quality best.1 ranges, (dc.toDouble t).isSome := by
  induction ranges generalizing best with
  | nil => simp [loopReads]
  | cons range ranges ih =>
    rw [List.foldlM_cons, bestStep, loopReads]
    split
    · next f _ =>
      split
      · split
        · next element hq =>
          rw [hq]
          cases hd : dc.toDouble element with
          | none => simp [hd]
          | some r =>
            have hrest := ih (f, min r targetQ)
            simp only [Option.map_some, Option.bind_eq_bind, Option.bind_some, hrest]
            simp [hd]
        · next hq =>
          have hrest := ih (f, 0)
          simpa [hq] using hrest
      · exact ih best
    · exact ih best

/-- Only qualities of preferences are read. -/
lemma exists_of_mem_loopReads {ranges : List R} {best : ℤ} {t : String8}
    (h : t ∈ loopReads fitness quality best ranges) : ∃ r ∈ ranges, quality r = some t := by
  induction ranges generalizing best with
  | nil => simp [loopReads] at h
  | cons range ranges ih =>
    have hrest : ∀ best', t ∈ loopReads fitness quality best' ranges →
        ∃ r ∈ range :: ranges, quality r = some t := by
      intro best' h'
      obtain ⟨r, hr, hq⟩ := ih h'
      exact ⟨r, List.mem_cons_of_mem range hr, hq⟩
    rw [loopReads] at h
    split at h
    · next f _ =>
      split at h
      · rw [List.mem_append, Option.mem_toList] at h
        rcases h with h | h
        · exact ⟨range, List.mem_cons_self, h⟩
        · exact hrest f h
      · exact hrest best h
    · exact hrest best h

/-- The quality of the target is read only if it is a number. -/
lemma forall_mem_toDoubleReads_iff {targetQ : Option String8} {ranges : List R} :
    (∀ t ∈ toDoubleReads dc fitness quality targetQ ranges, (dc.toDouble t).isSome) ↔
      ∀ t ∈ loopReads fitness quality (-1) ranges, (dc.toDouble t).isSome := by
  simp only [toDoubleReads, List.mem_append, Option.mem_toList]
  constructor
  · intro hall t ht
    exact hall t (Or.inr ht)
  · rintro hloop t (ht | ht)
    · exact (Option.filter_eq_some_iff.mp ht).2
    · exact hloop t ht

/-- If the target and the preferences have valid qualities, only valid qualities are read. -/
lemma validQuality_of_mem_toDoubleReads {targetQ : Option String8} {ranges : List R}
    (htarget : ∀ q, targetQ = some q → ValidQuality dc q)
    (hranges : ∀ r ∈ ranges, ∀ q, quality r = some q → ValidQuality dc q) {t : String8}
    (ht : t ∈ toDoubleReads dc fitness quality targetQ ranges) : ValidQuality dc t := by
  rw [toDoubleReads, List.mem_append, Option.mem_toList] at ht
  rcases ht with ht | ht
  · exact htarget t (Option.eq_some_of_filter_eq_some ht)
  · obtain ⟨r, hr, hq⟩ := exists_of_mem_loopReads ht
    exact hranges r hr t hq

end Reads

/-- The fitness of a media range that matches, from the attributes of the target. -/
def MimeParse.fitnessOf (target range : ParseResults) : Option ℤ :=
  match target.type, target.subType, range.type, range.subType with
  | some lTargetType, some lTargetSubType, some lRangeType, some lRangeSubType =>
    if matchesText lTargetType lRangeType && matchesText lTargetSubType lRangeSubType then
      some (rangeFitness target range lTargetType lTargetSubType lRangeType lRangeSubType)
    else none
  | _, _, _, _ => none

/-- The loop of `MIME_PARSE` has the iterations of its siblings. -/
lemma MimeParse.rangeStep_eq_bestStep {dc : DoubleConversion} {target : ParseResults}
    {t st : String8} (ht : target.type = some t) (hst : target.subType = some st) (targetQ : ℚ)
    (best : ℤ × ℚ) (range : ParseResults) :
    rangeStep dc target t st targetQ best range =
      bestStep dc (fitnessOf target) (·.item (str "q")) targetQ best range := by
  rw [rangeStep, bestStep, fitnessOf, ht, hst]
  cases range.type with
  | none => rfl
  | some rt =>
    cases range.subType with
    | none => rfl
    | some rst =>
      dsimp only
      cases matchesText t rt && matchesText st rst <;> rfl

/-- A comparison of `MIME_PARSE` returns if every text it reads is a number. -/
lemma MimeParse.isSome_fitnessAndQualityParsed_iff {dc : DoubleConversion} {s : String8}
    {target : ParseResults} (h : parseMediaRange dc s = some target)
    (ranges : List ParseResults) :
    (fitnessAndQualityParsed dc s ranges).isSome ↔
      ∀ t ∈ toDoubleReads dc (fitnessOf target) (·.item (str "q")) (target.item (str "q")) ranges,
        (dc.toDouble t).isSome := by
  have hvalid := (validRange_of_parseMediaRange h).attached
  obtain ⟨t, ht⟩ := Option.isSome_iff_exists.mp hvalid.1
  obtain ⟨st, hst⟩ := Option.isSome_iff_exists.mp hvalid.2
  have hstep : rangeStep dc target t st (targetQuality dc target) =
      bestStep dc (fitnessOf target) (·.item (str "q")) (targetQuality dc target) := by
    funext best range
    exact rangeStep_eq_bestStep ht hst _ best range
  rw [fitnessAndQualityParsed, h, Option.bind_some, forall_mem_toDoubleReads_iff]
  simp only [ht, hst, hstep, Option.isSome_map, isSome_foldlM_bestStep_iff]

/-- A comparison of `LANGUAGE_PARSE` returns if every text it reads is a number. -/
lemma LanguageParse.isSome_fitnessAndQualityParsed_iff {dc : DoubleConversion} (s : String8)
    (ranges : List LanguageResults) :
    (fitnessAndQualityParsed dc s ranges).isSome ↔
      ∀ t ∈ toDoubleReads dc (rangeFitness (parseMediaRange dc s)) (·.item (str "q"))
        ((parseMediaRange dc s).item (str "q")) ranges, (dc.toDouble t).isSome := by
  rw [fitnessAndQualityParsed, Option.isSome_map, isSome_foldlM_bestStep_iff,
    forall_mem_toDoubleReads_iff]

/-- A comparison of `COMMON_ACCEPT_HEADER_PARSER` returns if every text it reads is a number. -/
lemma CommonAcceptHeaderParser.isSome_fitnessAndQualityParsed_iff {dc : DoubleConversion}
    (s : String8) (ranges : List CommonResults) :
    (fitnessAndQualityParsed dc s ranges).isSome ↔
      ∀ t ∈ toDoubleReads dc (rangeFitness (parseCommon s)) (·.item (str "q"))
        ((parseCommon s).item (str "q")) ranges, (dc.toDouble t).isSome := by
  rw [fitnessAndQualityParsed, Option.isSome_map, isSome_foldlM_bestStep_iff,
    forall_mem_toDoubleReads_iff]

/-! ## Qualities -/

section Quality

variable (dc : DoubleConversion)

/-- The parsed preference of the element `s`, of quality `q`, has a quality between `0` and `1`,
which is the default if the element gives none, or an invalid one. -/
def CarriesQuality (s : String8) (q : Option String8) : Prop :=
  ∃ t, q = some t ∧ ValidQuality dc t ∧
    ((∀ t', givenQuality s = some t' → ¬ ValidQuality dc t') → t = str "1.0")

/-- The quality that `parse_media_range` leaves, for the one that was read. -/
def ensuredQuality (q : Option String8) : String8 :=
  match q with
  | some t =>
    match dc.toDouble t with
    | some r => if 0 ≤ r ∧ r ≤ 1 then if t = str "1" then str "1.0" else t else str "1.0"
    | none => str "1.0"
  | none => str "1.0"

variable {dc}

lemma validQuality_one : ValidQuality dc (str "1.0") :=
  ⟨1, dc.toDouble_one, zero_le_one, le_rfl⟩

lemma carriesQuality_one (s : String8) : CarriesQuality dc s (some (str "1.0")) :=
  ⟨str "1.0", rfl, validQuality_one, fun _ => rfl⟩

/-- **A preference whose quality is ensured carries one.** -/
lemma carriesQuality_ensuredQuality (s : String8) :
    CarriesQuality dc s (some (ensuredQuality dc (givenQuality s))) := by
  unfold ensuredQuality
  split
  · next t hgiven =>
    split
    · next r hr =>
      split
      · next hle =>
        split
        · exact carriesQuality_one s
        · have hvalid : ValidQuality dc t := ⟨r, hr, hle⟩
          exact ⟨t, rfl, hvalid, fun hnone => absurd hvalid (hnone t hgiven)⟩
      · exact carriesQuality_one s
    · exact carriesQuality_one s
  · exact carriesQuality_one s

lemma MimeParse.item_ensureQuality (result : ParseResults) :
    (ensureQuality dc result).item (str "q") =
      some (ensuredQuality dc (result.item (str "q"))) := by
  have hput : (result.put (str "1.0") (str "q")).item (str "q") = some (str "1.0") :=
    HashTable.item_force_self _ _ _
  unfold ensureQuality ensuredQuality
  cases hitem : result.item (str "q") with
  | none => exact hput
  | some t =>
    cases hr : dc.toDouble t with
    | none => simpa only [hr] using hput
    | some r =>
      simp only [hr]
      split
      · split
        · exact hput
        · exact hitem
      · exact hput

lemma LanguageParse.item_ensureQuality (result : LanguageResults) :
    (ensureQuality dc result).item (str "q") =
      some (ensuredQuality dc (result.item (str "q"))) := by
  have hput : (result.put (str "1.0") (str "q")).item (str "q") = some (str "1.0") :=
    HashTable.item_force_self _ _ _
  unfold ensureQuality ensuredQuality
  cases hitem : result.item (str "q") with
  | none => exact hput
  | some t =>
    cases hr : dc.toDouble t with
    | none => simpa only [hr] using hput
    | some r =>
      simp only [hr]
      split
      · split
        · exact hput
        · exact hitem
      · exact hput

/-- The quality read by `MIME_PARSE` is the one that the element gives. -/
lemma MimeParse.item_parseMimeType {s : String8} {r : ParseResults}
    (h : parseMimeType s = some r) : r.item (str "q") = givenQuality s := by
  rw [parseMimeType] at h
  split at h
  · rw [Option.some.injEq] at h
    subst h
    have hparams := params_foldl_putParameter (s.splitOn (ch ';')) ParseResults.make
    change HashTable.item (List.foldl putParameter ParseResults.make _).params _ = _
    rw [hparams, item_foldl_putParam]
    exact Option.or_none
  · cases h

lemma LanguageParse.params_foldl_putParameter (parts : List String8) (result : LanguageResults) :
    (parts.foldl putParameter result).params = parts.foldl putParam result.params :=
  (List.foldl_hom LanguageResults.params fun _ _ => rfl).symm

/-- The quality read by `LANGUAGE_PARSE` is the one that the element gives. -/
lemma LanguageParse.item_parseMimeType (s : String8) :
    (parseMimeType s).item (str "q") = givenQuality s := by
  have hparams : (parseMimeType s).params =
      (List.foldl putParameter LanguageResults.make (s.splitOn (ch ';'))).params := by
    unfold parseMimeType
    simp only
    split <;> rfl
  rw [LanguageResults.item, hparams, params_foldl_putParameter, item_foldl_putParam]
  exact Option.or_none

lemma CommonAcceptHeaderParser.params_foldl_putParameter (parts : List String8)
    (result : CommonResults) :
    (parts.foldl putParameter result).params = parts.foldl putParam result.params :=
  (List.foldl_hom CommonResults.params fun _ _ => rfl).symm

lemma length_splitOn_eq_one_iff {s : String8} {c : Character8} :
    (s.splitOn c).length = 1 ↔ c ∉ s := by
  rw [← not_iff_not, not_not, ← MimeParse.exists_second_piece]
  constructor
  · intro h
    match hs : s.splitOn c with
    | [] => exact absurd hs (List.splitOn_ne_nil c s)
    | [t] => simp [hs] at h
    | t :: st :: r => exact ⟨t, st, r, rfl⟩
  · rintro ⟨t, st, r, hs⟩
    simp [hs]

/-- The quality read by `parse_common`: the default if there are no parameters, else the one that
the element gives. -/
lemma CommonAcceptHeaderParser.item_parseCommon (s : String8) :
    (parseCommon s).item (str "q") =
      if ch ';' ∈ s then givenQuality s else some (str "1.0") := by
  by_cases h : ch ';' ∈ s
  · have hlength : (s.splitOn (ch ';')).length ≠ 1 := fun h' =>
      length_splitOn_eq_one_iff.mp h' h
    rw [if_pos h, parseCommon]
    simp only [if_neg hlength, CommonResults.item, CommonResults.setField]
    rw [params_foldl_putParameter, item_foldl_putParam]
    exact Option.or_none
  · have hlength : (s.splitOn (ch ';')).length = 1 := length_splitOn_eq_one_iff.mpr h
    rw [if_neg h, parseCommon]
    simp only [if_pos hlength, CommonResults.item, CommonResults.setField, CommonResults.put]
    exact HashTable.item_force_self _ _ _

/-- The element has no parameters, or gives a valid quality. -/
def HasQuality (dc : DoubleConversion) (s : String8) : Prop :=
  ch ';' ∉ s ∨ ∃ t, givenQuality s = some t ∧ ValidQuality dc t

/-- **`parse_common` leaves a valid quality if the element has no parameters or a valid one.** -/
lemma CommonAcceptHeaderParser.carriesQuality_parseCommon_iff (s : String8) :
    CarriesQuality dc s ((parseCommon s).item (str "q")) ↔ HasQuality dc s := by
  rw [item_parseCommon, HasQuality]
  by_cases h : ch ';' ∈ s
  · simp only [h, not_true_eq_false, false_or]
    constructor
    · rintro ⟨t, hgiven, hvalid, -⟩
      exact ⟨t, hgiven, hvalid⟩
    · rintro ⟨t, hgiven, hvalid⟩
      exact ⟨t, hgiven, hvalid, fun hnone => absurd hvalid (hnone t hgiven)⟩
  · simp only [h, not_false_eq_true, true_or, iff_true]
    exact carriesQuality_one s

lemma CarriesQuality.validQuality {s : String8} {q : Option String8} (h : CarriesQuality dc s q)
    {t : String8} (ht : q = some t) : ValidQuality dc t := by
  obtain ⟨t', ht', hvalid, -⟩ := h
  rw [ht, Option.some.injEq] at ht'
  rwa [ht']

/-- **Which preferences have a valid quality.** The media ranges and the languages have one, the
default if the element gives none or an invalid one, and the comparisons read only numbers between
`0` and `1`. The preferences of `parse_common` have one if and only if each element has no
parameters, or gives a valid quality.

**Proof sketch.** `parse_media_range` ensures the quality after all parameters have been read;
`parse_common` writes the default only if there is one part. A comparison reads the qualities of the
target and of some of the preferences. -/
theorem preferences_carry_quality_iff (dc : DoubleConversion) :
    (∀ (s : String8) (elements : List String8) target ranges,
      MimeParse.parseMediaRange dc s = some target →
      elements.mapM (MimeParse.parseMediaRange dc) = some ranges →
        CarriesQuality dc s (target.item (str "q")) ∧
        List.Forall₂ (fun e r => CarriesQuality dc e (r.item (str "q"))) elements ranges ∧
        ∀ t ∈ toDoubleReads dc (MimeParse.fitnessOf target) (·.item (str "q"))
          (target.item (str "q")) ranges, ValidQuality dc t) ∧
    (∀ (s : String8) (elements : List String8),
      let target := LanguageParse.parseMediaRange dc s
      CarriesQuality dc s (target.item (str "q")) ∧
      (∀ e ∈ elements,
        CarriesQuality dc e ((LanguageParse.parseMediaRange dc e).item (str "q"))) ∧
      ∀ t ∈ toDoubleReads dc (LanguageParse.rangeFitness target) (·.item (str "q"))
        (target.item (str "q")) (elements.map (LanguageParse.parseMediaRange dc)),
        ValidQuality dc t) ∧
    (∀ (s : String8) (elements : List String8),
      let target := CommonAcceptHeaderParser.parseCommon s
      (CarriesQuality dc s (target.item (str "q")) ∧
        (∀ e ∈ elements,
          CarriesQuality dc e ((CommonAcceptHeaderParser.parseCommon e).item (str "q"))) ∧
        ∀ t ∈ toDoubleReads dc (CommonAcceptHeaderParser.rangeFitness target) (·.item (str "q"))
          (target.item (str "q")) (elements.map CommonAcceptHeaderParser.parseCommon),
          ValidQuality dc t) ↔
      ∀ e ∈ s :: elements, HasQuality dc e) := by
  refine ⟨?_, ?_, ?_⟩
  · intro s elements target ranges htarget hranges
    have hrange := mapM_eq_some_iff.mp hranges
    have hcarries : ∀ e r, MimeParse.parseMediaRange dc e = some r →
        CarriesQuality dc e (r.item (str "q")) := by
      intro e r h
      obtain ⟨r', hr', rfl⟩ := Option.map_eq_some_iff.mp h
      rw [MimeParse.item_ensureQuality, MimeParse.item_parseMimeType hr']
      exact carriesQuality_ensuredQuality e
    have hall := hrange.imp hcarries
    refine ⟨hcarries s target htarget, hall, fun t ht => ?_⟩
    refine validQuality_of_mem_toDoubleReads
      (fun q hq => (hcarries s target htarget).validQuality hq) ?_ ht
    intro r hr q hq
    obtain ⟨e, -, he⟩ := exists_of_mem_mapM hranges hr
    exact (hcarries e r he).validQuality hq
  · intro s elements target
    have hcarries : ∀ e, CarriesQuality dc e
        ((LanguageParse.parseMediaRange dc e).item (str "q")) := by
      intro e
      rw [LanguageParse.parseMediaRange, LanguageParse.item_ensureQuality,
        LanguageParse.item_parseMimeType]
      exact carriesQuality_ensuredQuality e
    refine ⟨hcarries s, fun e _ => hcarries e, fun t ht => ?_⟩
    refine validQuality_of_mem_toDoubleReads (fun q hq => (hcarries s).validQuality hq) ?_ ht
    intro r hr q hq
    obtain ⟨e, -, rfl⟩ := List.mem_map.mp hr
    exact (hcarries e).validQuality hq
  · intro s elements target
    rw [List.forall_mem_cons]
    constructor
    · rintro ⟨htarget, hall, -⟩
      exact ⟨(CommonAcceptHeaderParser.carriesQuality_parseCommon_iff s).mp htarget,
        fun e he => (CommonAcceptHeaderParser.carriesQuality_parseCommon_iff e).mp (hall e he)⟩
    · rintro ⟨hs, hall⟩
      have htarget := (CommonAcceptHeaderParser.carriesQuality_parseCommon_iff s).mpr hs
      have hcarries : ∀ e ∈ elements, CarriesQuality dc e
          ((CommonAcceptHeaderParser.parseCommon e).item (str "q")) := fun e he =>
        (CommonAcceptHeaderParser.carriesQuality_parseCommon_iff e).mpr (hall e he)
      refine ⟨htarget, hcarries, fun t ht => ?_⟩
      refine validQuality_of_mem_toDoubleReads (fun q hq => htarget.validQuality hq) ?_ ht
      intro r hr q hq
      obtain ⟨e, he, rfl⟩ := List.mem_map.mp hr
      exact (hcarries e he).validQuality hq

/-- An encoding with a parameter that is no quality has no quality, and an invalid quality is
kept. -/
theorem parseCommon_without_quality :
    (CommonAcceptHeaderParser.parseCommon (str "gzip;level=9")).item (str "q") = none ∧
    ¬ CarriesQuality decimalConversion (str "gzip;level=9")
      ((CommonAcceptHeaderParser.parseCommon (str "gzip;level=9")).item (str "q")) ∧
    (CommonAcceptHeaderParser.parseCommon (str "gzip;q=5")).item (str "q") = some (str "5") ∧
    ¬ CarriesQuality decimalConversion (str "gzip;q=5")
      ((CommonAcceptHeaderParser.parseCommon (str "gzip;q=5")).item (str "q")) := by
  have hnone :
      (CommonAcceptHeaderParser.parseCommon (str "gzip;level=9")).item (str "q") = none := by
    decide +kernel
  have hfive : (CommonAcceptHeaderParser.parseCommon (str "gzip;q=5")).item (str "q") =
      some (str "5") := by
    decide +kernel
  have hdouble : decimalConversion.toDouble (str "5") = some 5 := by decide +kernel
  refine ⟨hnone, ?_, hfive, ?_⟩
  · rintro ⟨t, ht, -⟩
    rw [hnone] at ht
    cases ht
  · rintro ⟨t, ht, ⟨v, hv, -, hle⟩, -⟩
    rw [hfive, Option.some.injEq] at ht
    rw [← ht, hdouble, Option.some.injEq] at hv
    rw [← hv] at hle
    exact absurd hle (by decide +kernel)

end Quality

end EiffelWeb
