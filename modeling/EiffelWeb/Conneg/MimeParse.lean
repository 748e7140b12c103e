import Mathlib.Algebra.Order.Field.Rat
import Mathlib.Data.List.Basic
import Mathlib.Tactic.Common
import EiffelWeb.HashTable
import EiffelWeb.Character

set_option relaxedAutoImplicit false
set_option autoImplicit false

/-!
# Media types and media ranges

The parser `MIME_PARSE` of the library for content negotiation. An element of an `Accept` header is
cut at its semicolons, each part at its equal signs, and the first part at its slashes; the routines
then take the pieces at fixed positions. A media range has a quality, and a supported type is
compared with all ranges of a header: the most specific range that matches decides.

Qualities are exact decimals. How a text is read as a number is a parameter (`DoubleConversion`).

## Main definitions

* `trim`, `ParseResults`, `MimeParse.parseMimeType`, `MimeParse.parseMediaRange`
* `MimeParse.fitnessAndQualityParsed`, `MimeParse.qualityParsed`
* `Readable` — the elements that have a type and a subtype.

## Main results

* `MimeParse.isSome_parseMediaRange` — an element is parsed if it is readable.
* `MimeParse.validRange_of_parseMediaRange` — every range has a quality.
* `MimeParse.fitnessAndQualityParsed_spec` — a parsed type is compared with parsed ranges.
-/

namespace EiffelWeb

/-! ## Texts -/

/-- `s.right_justify`: white space at the end makes room for blanks at the front. -/
def rightJustify (s : String8) : String8 :=
  let r := Text.rightAdjust isSpace s
  List.replicate (s.length - r.length) (ch ' ') ++ r

/-- `trim (a_string)`: `left_adjust`, then `right_justify`. -/
def trim (s : String8) : String8 := rightJustify (Text.leftAdjust isSpace s)

/-- How a text is read as a number. -/
structure DoubleConversion where
  /-- `s.to_double` if `s.is_double`, else nothing. -/
  toDouble : String8 → Option ℚ
  /-- The default quality can be read. -/
  toDouble_one : toDouble (str "1.0") = some 1

/-- The number written by decimal digits. -/
def digitsValue (s : String8) : Option ℕ :=
  if !s.isEmpty && s.all isDigit then some (s.foldl (fun n c => 10 * n + (c.toNat - 48)) 0)
  else none

/-- Decimals without a sign: digits, or digits, a point and digits. -/
def decimalToDouble (s : String8) : Option ℚ :=
  match s.splitOn (ch '.') with
  | [a] => (digitsValue a).map fun n => (n : ℚ)
  | [a, b] => (digitsValue a).bind fun n => (digitsValue b).map fun m =>
    (n : ℚ) + (m : ℚ) / (10 : ℚ) ^ b.length
  | _ => none

lemma decimalToDouble_one : decimalToDouble (str "1.0") = some 1 := by decide +kernel

/-- Decimals as the numbers that can be read. -/
def decimalConversion : DoubleConversion := ⟨decimalToDouble, decimalToDouble_one⟩

/-! ## Results of the parser -/

/-- `PARSE_RESULTS`. -/
structure ParseResults where
  /-- The attribute `type`. -/
  type : Option String8
  /-- The attribute `sub_type`. -/
  subType : Option String8
  /-- The attribute `mime_type`. -/
  mimeType : String8
  /-- The attribute `params`. -/
  params : HashTable String8 String8

namespace ParseResults

/-- `make`. -/
def make : ParseResults := ⟨none, none, str "*/*", []⟩

/-- `item (a_key)`. -/
def item (r : ParseResults) (aKey : String8) : Option String8 := r.params.item aKey

/-- `keys`. -/
def keys (r : ParseResults) : List String8 := r.params.keys

/-- `has_key (a_key)`. -/
def hasKey (r : ParseResults) (aKey : String8) : Bool := r.params.hasKey aKey

/-- `set_type (a_type)`. -/
def setType (r : ParseResults) (aType : String8) : ParseResults :=
  { r with
    type := some aType
    mimeType := aType ++ str "/" ++ r.subType.getD (str "*") }

/-- `set_sub_type (a_sub_type)`. -/
def setSubType (r : ParseResults) (aSubType : String8) : ParseResults :=
  { r with
    subType := some aSubType
    mimeType := r.type.getD (str "*") ++ str "/" ++ aSubType }

/-- `put (new, key)`. -/
def put (r : ParseResults) (new key : String8) : ParseResults :=
  { r with params := r.params.force new key }

end ParseResults

/-- `FITNESS_AND_QUALITY`. -/
structure FitnessAndQuality where
  /-- The attribute `fitness`. -/
  fitness : ℤ
  /-- The attribute `quality`. -/
  quality : ℚ
  /-- The attribute `mime_type`. -/
  mimeType : String8

/-- `is_less (other)`. -/
def FitnessAndQuality.isLess (a b : FitnessAndQuality) : Bool :=
  if a.fitness = b.fitness then a.quality < b.quality else a.fitness < b.fitness

/-- `is_equal (other)`, inherited from `COMPARABLE`. -/
def FitnessAndQuality.isEqual (a b : FitnessAndQuality) : Bool := !a.isLess b && !b.isLess a

namespace MimeParse

/-! ## The parser -/

/-- One iteration of the loop of `parse_mime_type` over the parts. -/
def putParameter (result : ParseResults) (p : String8) : ParseResults :=
  match p.splitOn (ch '=') with
  | [key, value] => result.put (trim value) (trim key)
  | _ => result

/-- The text that `parse_mime_type` cuts into type and subtype. -/
def fullType (lParts : List String8) : String8 :=
  let lFullType := trim (lParts.headD [])
  if lFullType = str "*" then str "*/*" else lFullType

/-- `parse_mime_type (a_mime_type)`: `none` if there is no second piece for the subtype. -/
def parseMimeType (aMimeType : String8) : Option ParseResults :=
  let lParts := aMimeType.splitOn (ch ';')
  let result := lParts.foldl putParameter ParseResults.make
  match (fullType lParts).splitOn (ch '/') with
  | t :: st :: _ => some ((result.setType (trim t)).setSubType (trim st))
  | _ => none

section Quality

variable (dc : DoubleConversion)

/-- The end of `parse_media_range`: a default where there is no quality between `0` and `1`. -/
def ensureQuality (result : ParseResults) : ParseResults :=
  match result.item (str "q") with
  | some q =>
    match dc.toDouble q with
    | some r =>
      if 0 ≤ r ∧ r ≤ 1 then
        if q = str "1" then result.put (str "1.0") (str "q") else result
      else result.put (str "1.0") (str "q")
    | none => result.put (str "1.0") (str "q")
  | none => result.put (str "1.0") (str "q")

/-- `parse_media_range (a_range)`. -/
def parseMediaRange (aRange : String8) : Option ParseResults :=
  (parseMimeType aRange).map (ensureQuality dc)

/-- The local `target_q` of `fitness_and_quality_parsed`. -/
def targetQuality (target : ParseResults) : ℚ :=
  match (target.item (str "q")).bind dc.toDouble with
  | some q => if q < 0 then 0 else if 1 < q then 1 else q
  | none => 1

/-- `l_target.same_string (l_range) or l_range.same_string ("*") or l_target.same_string ("*")`. -/
def matchesText (lTarget lRange : String8) : Bool :=
  lTarget = lRange || lRange = str "*" || lTarget = str "*"

/-- The loop over the parameters of `target`: the number of those that `range` has as well. -/
def paramMatches (target range : ParseResults) : ℕ :=
  (target.keys.filter fun element =>
    element ≠ str "q" && range.hasKey element &&
      (target.item element).isSome && target.item element = range.item element).length

/-- The local `l_fitness`. -/
def rangeFitness (target range : ParseResults) (lTargetType lTargetSubType lRangeType
    lRangeSubType : String8) : ℤ :=
  (if lRangeType = lTargetType then 100 else 0) + (if lRangeSubType = lTargetSubType then 10 else 0)
    + paramMatches target range

/-- One iteration of the loop of `fitness_and_quality_parsed` over the ranges, for the best fitness
and its quality. `none` if the quality of the range cannot be read. -/
def rangeStep (target : ParseResults) (lTargetType lTargetSubType : String8) (targetQ : ℚ)
    (best : ℤ × ℚ) (range : ParseResults) : Option (ℤ × ℚ) :=
  match range.type, range.subType with
  | some lRangeType, some lRangeSubType =>
    if matchesText lTargetType lRangeType && matchesText lTargetSubType lRangeSubType then
      let lFitness :=
        rangeFitness target range lTargetType lTargetSubType lRangeType lRangeSubType
      if best.1 < lFitness then
        match range.item (str "q") with
        | some element => (dc.toDouble element).map fun r => (lFitness, min r targetQ)
        | none => some (lFitness, 0)
      else some best
    else some best
  | _, _ => some best

/-- `fitness_and_quality_parsed (a_mime_type, parsed_ranges)`. -/
def fitnessAndQualityParsed (aMimeType : String8) (parsedRanges : List ParseResults) :
    Option FitnessAndQuality :=
  (parseMediaRange dc aMimeType).bind fun target =>
    let best :=
      match target.type, target.subType with
      | some lTargetType, some lTargetSubType =>
        parsedRanges.foldlM
          (rangeStep dc target lTargetType lTargetSubType (targetQuality dc target)) (-1, 0)
      | _, _ => some (-1, 0)
    best.map fun b => ⟨b.1, b.2, []⟩

/-- `quality_parsed (a_mime_type, parsed_ranges)`. -/
def qualityParsed (aMimeType : String8) (parsedRanges : List ParseResults) : Option ℚ :=
  (fitnessAndQualityParsed dc aMimeType parsedRanges).map FitnessAndQuality.quality

/-- `mime_type (s)`. -/
def mimeType (s : String8) : String8 :=
  let p := Text.indexOf s (ch ';') 1
  if 0 < p then trim (Text.substring s 1 (p - 1)) else trim s

end Quality

end MimeParse

/-! ## Which elements are parsed -/

/-- The part of an element before its first semicolon. -/
def firstPart (s : String8) : String8 := s.takeWhile (· ≠ ch ';')

/-- The part before the first semicolon has a slash, or is a star behind white space. -/
def Readable (s : String8) : Prop :=
  Text.leftAdjust isSpace (firstPart s) = str "*" ∨ ch '/' ∈ firstPart s

instance (s : String8) : Decidable (Readable s) := inferInstanceAs (Decidable (_ ∨ _))

section Trim

/-- A text is trimmed by moving white space from its end to its front. -/
lemma trim_eq (s : String8) :
    ∃ k, trim s = List.replicate k (ch ' ') ++ adjust s ∧
      k = (Text.leftAdjust isSpace s).length - (adjust s).length :=
  ⟨_, rfl, rfl⟩

lemma mem_trim_iff {s : String8} {c : Character8} (hc : isSpace c = false) :
    c ∈ trim s ↔ c ∈ s := by
  obtain ⟨k, htrim, -⟩ := trim_eq s
  obtain ⟨u, w, hs, hu, hw⟩ := Text.adjust_split isSpace s
  have hcu : c ∉ u := fun h => by simp [hu c h] at hc
  have hcw : c ∉ w := fun h => by simp [hw c h] at hc
  have hblank : c ∉ List.replicate k (ch ' ') := by
    intro h
    rw [List.eq_of_mem_replicate h] at hc
    exact absurd hc (by decide)
  have hadjust : c ∈ s ↔ c ∈ adjust s := by
    conv_lhs => rw [hs]
    simp [hcu, hcw, adjust]
  rw [htrim, List.mem_append, hadjust]
  simp [hblank]

/-- A text is trimmed to a star only if it is a star behind white space. -/
lemma trim_eq_star_iff {s : String8} :
    trim s = str "*" ↔ Text.leftAdjust isSpace s = str "*" := by
  constructor
  · intro h
    obtain ⟨k, htrim, hk⟩ := trim_eq s
    rw [htrim] at h
    rcases k with _ | k
    · rw [List.replicate_zero, List.nil_append] at h
      have hle : (Text.leftAdjust isSpace s).length ≤ (adjust s).length := by omega
      have hpre : adjust s <+: Text.leftAdjust isSpace s := List.rdropWhile_prefix isSpace _
      rw [← hpre.eq_of_length_le hle, h]
    · rw [List.replicate_succ, List.cons_append] at h
      have hhead := (List.cons.inj h).1
      exact absurd hhead (by decide)
  · intro h
    rw [trim, h]
    decide

/-- A text without white space is not changed. -/
lemma trim_of_noSpace {s : String8} (h : ∀ c ∈ s, isSpace c = false) : trim s = s := by
  have hleft : Text.leftAdjust isSpace s = s := by
    rcases s with _ | ⟨c, s⟩
    · rfl
    · simp [Text.leftAdjust, h c List.mem_cons_self]
  have hright : Text.rightAdjust isSpace s = s := by
    rw [Text.rightAdjust, List.rdropWhile_eq_self_iff]
    intro hne
    rw [h _ (List.getLast_mem hne)]
    decide
  rw [trim, hleft, rightJustify, hright]
  simp

end Trim

namespace MimeParse

lemma headD_splitOn (s : String8) : (s.splitOn (ch ';')).headD [] = firstPart s := by
  unfold firstPart
  rcases Text.notMem_or_split (ch ';') s with h | ⟨a, b, rfl, ha⟩
  · rw [List.splitOn_eq_singleton h, List.headD_cons, List.takeWhile_eq_self_iff.mpr]
    intro c hc
    exact decide_eq_true (ne_of_mem_of_not_mem hc h)
  · rw [List.splitOn_append_cons_self_of_not_mem ha, List.headD_cons, Text.takeWhile_ne ha]

/-- A text has a second piece if it has the separator. -/
lemma exists_second_piece {s : String8} {c : Character8} :
    (∃ t st r, s.splitOn c = t :: st :: r) ↔ c ∈ s := by
  rcases Text.notMem_or_split c s with h | ⟨a, b, rfl, ha⟩
  · rw [List.splitOn_eq_singleton h]
    simp [h]
  · rw [List.splitOn_append_cons_self_of_not_mem ha]
    rcases hb : b.splitOn c with _ | ⟨st, r⟩
    · exact absurd hb (List.splitOn_ne_nil c b)
    · simp

/-- The text that is cut at its slashes has one. -/
lemma mem_fullType_iff {s : String8} :
    ch '/' ∈ fullType (s.splitOn (ch ';')) ↔ Readable s := by
  rw [fullType, headD_splitOn, Readable]
  by_cases hstar : trim (firstPart s) = str "*"
  · have hmem : ch '/' ∈ str "*/*" := by decide
    simp [hstar, trim_eq_star_iff.mp hstar, hmem]
  · have hne : ¬ Text.leftAdjust isSpace (firstPart s) = str "*" :=
      fun h => hstar (trim_eq_star_iff.mpr h)
    have hslash : isSpace (ch '/') = false := by decide
    simp [hstar, hne, mem_trim_iff hslash]

/-- **An element is parsed if it is readable.** -/
lemma isSome_parseMimeType {s : String8} : (parseMimeType s).isSome ↔ Readable s := by
  rw [← mem_fullType_iff, ← exists_second_piece, parseMimeType]
  constructor
  · intro h
    split at h
    · next t st r heq => exact ⟨t, st, r, heq⟩
    · simp at h
  · rintro ⟨t, st, r, heq⟩
    simp [heq]

lemma isSome_parseMediaRange (dc : DoubleConversion) {s : String8} :
    (parseMediaRange dc s).isSome ↔ Readable s := by
  rw [parseMediaRange, Option.isSome_map, isSome_parseMimeType]

/-- Type and subtype of a parsed element. -/
lemma attached_of_parseMimeType {s : String8} {r : ParseResults}
    (h : parseMimeType s = some r) : r.type.isSome ∧ r.subType.isSome := by
  rw [parseMimeType] at h
  split at h
  · rw [Option.some.injEq] at h
    subst h
    exact ⟨rfl, rfl⟩
  · cases h

/-! ## Qualities -/

section Valid

variable (dc : DoubleConversion)

/-- A range has a type, a subtype, and a quality between `0` and `1`. -/
structure ValidRange (r : ParseResults) : Prop where
  /-- The type and the subtype are attached. -/
  attached : r.type.isSome ∧ r.subType.isSome
  /-- The quality can be read, and is between `0` and `1`. -/
  quality : ∃ q v, r.item (str "q") = some q ∧ dc.toDouble q = some v ∧ 0 ≤ v ∧ v ≤ 1

variable {dc}

lemma validRange_put_one {r : ParseResults} (h : r.type.isSome ∧ r.subType.isSome) :
    ValidRange dc (r.put (str "1.0") (str "q")) :=
  ⟨h, str "1.0", 1, HashTable.item_force_self _ _ _, dc.toDouble_one, zero_le_one, le_rfl⟩

lemma validRange_ensureQuality {r : ParseResults} (h : r.type.isSome ∧ r.subType.isSome) :
    ValidRange dc (ensureQuality dc r) := by
  rw [ensureQuality]
  split
  · next q hq =>
    split
    · next v hv =>
      split
      · next hle =>
        split
        · exact validRange_put_one h
        · exact ⟨h, q, v, hq, hv, hle.1, hle.2⟩
      · exact validRange_put_one h
    · exact validRange_put_one h
  · exact validRange_put_one h

/-- **Every parsed range is valid.** -/
lemma validRange_of_parseMediaRange {s : String8} {r : ParseResults}
    (h : parseMediaRange dc s = some r) : ValidRange dc r := by
  rw [parseMediaRange] at h
  obtain ⟨r', hr', rfl⟩ := Option.map_eq_some_iff.mp h
  exact validRange_ensureQuality (attached_of_parseMimeType hr')

lemma targetQuality_nonneg (target : ParseResults) : 0 ≤ targetQuality dc target := by
  rw [targetQuality]
  split
  · split
    · exact le_rfl
    · next hneg =>
      split
      · exact zero_le_one
      · exact not_lt.mp hneg
  · exact zero_le_one

/-- One range of a header: the best fitness and its quality are known, and the quality is not
negative. -/
lemma rangeStep_spec {target range : ParseResults} {t st : String8} {targetQ : ℚ}
    (hq : 0 ≤ targetQ) (hrange : ValidRange dc range) {best : ℤ × ℚ} (hbest : 0 ≤ best.2) :
    ∃ best', rangeStep dc target t st targetQ best range = some best' ∧ 0 ≤ best'.2 := by
  obtain ⟨q, v, hitem, hdouble, hv, -⟩ := hrange.quality
  rw [rangeStep]
  split
  · split
    · dsimp only
      split
      · simp only [hitem, hdouble, Option.map_some]
        exact ⟨_, rfl, le_min hv hq⟩
      · exact ⟨best, rfl, hbest⟩
    · exact ⟨best, rfl, hbest⟩
  · exact ⟨best, rfl, hbest⟩

lemma foldlM_rangeStep_spec (target : ParseResults) (t st : String8) {targetQ : ℚ}
    (hq : 0 ≤ targetQ) {ranges : List ParseResults} (hranges : ∀ r ∈ ranges, ValidRange dc r)
    {best : ℤ × ℚ} (hbest : 0 ≤ best.2) :
    ∃ best', ranges.foldlM (rangeStep dc target t st targetQ) best = some best' ∧
      0 ≤ best'.2 := by
  induction ranges generalizing best with
  | nil => exact ⟨best, rfl, hbest⟩
  | cons r ranges ih =>
    obtain ⟨best₁, hstep, hbest₁⟩ := rangeStep_spec hq (hranges r List.mem_cons_self) hbest
    obtain ⟨best₂, hrest, hbest₂⟩ := ih (fun r' hr' => hranges r' (List.mem_cons_of_mem r hr'))
      hbest₁
    refine ⟨best₂, ?_, hbest₂⟩
    rw [List.foldlM_cons, hstep]
    exact hrest

/-- **A readable type is compared with parsed ranges**, and the quality is not negative. -/
lemma fitnessAndQualityParsed_spec {s : String8} (hs : Readable s) {ranges : List ParseResults}
    (hranges : ∀ r ∈ ranges, ValidRange dc r) :
    ∃ f, fitnessAndQualityParsed dc s ranges = some f ∧ 0 ≤ f.quality := by
  obtain ⟨target, htarget⟩ := Option.isSome_iff_exists.mp ((isSome_parseMediaRange dc).mpr hs)
  rw [fitnessAndQualityParsed, htarget, Option.bind_some]
  dsimp only
  split
  · next t st _ _ =>
    have hzero : 0 ≤ ((-1, 0) : ℤ × ℚ).2 := le_rfl
    obtain ⟨best, hbest, hnonneg⟩ := foldlM_rangeStep_spec target t st
      (targetQuality_nonneg target) hranges hzero
    rw [hbest, Option.map_some]
    exact ⟨_, rfl, hnonneg⟩
  · exact ⟨_, rfl, le_rfl⟩

end Valid

end MimeParse

end EiffelWeb
