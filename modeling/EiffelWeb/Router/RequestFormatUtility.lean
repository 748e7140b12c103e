import Mathlib.Data.List.Basic
import Mathlib.Data.List.Sort
import Mathlib.Tactic.Common
import Mathlib.Tactic.Ring
import EiffelWeb.Search
import EiffelWeb.Character

set_option relaxedAutoImplicit false
set_option autoImplicit false

/-!
# Accepted content types

The query `accepted_content_types` of `REQUEST_FORMAT_UTILITY` orders the content types of an
`Accept` header by their quality values. It puts the text of the quality value and a colon before
each type, sorts these strings by their characters, and takes the quality values off again.

The colon stands behind the digits and the point in the order of the characters. So a quality value
comes before the longer ones that start with the same text.

## Main definitions

* `QuickSorter` — the sorter of the library, with its order.
* `RequestFormatUtility.acceptedContentTypes`
* `QualityValue`, `AcceptElement` — the elements of an `Accept` header.
* `OrdersByPreference` — the result lists the types by their quality.

## Main results

* `RequestFormatUtility.acceptedContentTypes_eq` — the result for a header.
* `QualityValue.text_cases` — how the texts of two quality values are related.
* `RequestFormatUtility.ordersByPreference_iff`
-/

namespace EiffelWeb

/-- `QUICK_SORTER` with the comparator of strings. -/
structure QuickSorter where
  /-- `reverse_sort (l)`: the list afterwards. -/
  reverseSort : List String8 → List String8
  /-- The items stay the same. -/
  perm : ∀ l, (reverseSort l).Perm l
  /-- The items do not increase in the order of their characters. -/
  sorted : ∀ l, (reverseSort l).Pairwise fun s t => t ≤ s

namespace RequestFormatUtility

/-- The string that is sorted for an element of the header. -/
def qualified (s : String8) : String8 :=
  let p := Text.substringIndex s (str ";q=") 1
  if 0 < p then
    Text.substring s (p + 3) s.length ++ str ":" ++ Text.substring s 1 (p - 1)
  else str "1.0" ++ str ":" ++ s

/-- The loop that takes the quality value off, for one string: `s.remove_head (p)`. -/
def unqualified (s : String8) : String8 :=
  let p := Text.indexOf s (ch ':') 1
  if 0 < p then s.drop p.toNat else s

/-- `accepted_content_types (req)`, for the `Accept` header of the request. -/
def acceptedContentTypes (qs : QuickSorter) (httpAccept : Option String8) :
    Option (List String8) :=
  httpAccept.map fun lAccept =>
    (qs.reverseSort ((lAccept.splitOn (ch ',')).map qualified)).map unqualified

end RequestFormatUtility

/-! ## Quality values -/

/-- A quality value: a decimal between zero and one with at most three digits behind the point. -/
structure QualityValue where
  /-- The digit before the point is `1`. -/
  one : Bool
  /-- The digits behind the point, if there is one. -/
  fraction : Option (List (Fin 10))
  length_le : (fraction.getD []).length ≤ 3
  le_one : one = true → ∀ d ∈ fraction.getD [], d = 0

namespace QualityValue

/-- The character of a digit. -/
def digit (d : Fin 10) : Character8 := UInt8.ofNat (48 + d)

/-- The text of a quality value. -/
def text (q : QualityValue) : String8 :=
  (if q.one then ch '1' else ch '0') :: q.fraction.elim [] fun ds => ch '.' :: ds.map digit

/-- The digits of a fraction as a number of the unit `10 ^ (-k)`, for at most `k` digits. -/
def decimals : ℕ → List (Fin 10) → ℕ
  | 0, _ => 0
  | _ + 1, [] => 0
  | k + 1, d :: ds => d * 10 ^ k + decimals k ds

/-- A quality value in thousandths. -/
def value (q : QualityValue) : ℕ :=
  (if q.one then 1000 else 0) + decimals 3 (q.fraction.getD [])

/-- The value of elements without one: `1.0`. -/
def missing : QualityValue := ⟨true, some [0], by decide, by decide⟩

lemma digit_injective : Function.Injective digit := by
  intro d e
  revert d e
  decide

lemma digit_lt_iff (d e : Fin 10) : digit d < digit e ↔ d < e := by
  revert d e
  decide

lemma decimals_lt (k : ℕ) (ds : List (Fin 10)) : decimals k ds < 10 ^ k := by
  induction k generalizing ds with
  | zero => exact Nat.one_pos
  | succ k ih =>
    cases ds with
    | nil => exact Nat.pow_pos (by decide)
    | cons d ds =>
      have hrest := ih ds
      have hd : (d : ℕ) * 10 ^ k ≤ 9 * 10 ^ k := Nat.mul_le_mul_right _ (by omega)
      rw [decimals, Nat.pow_succ]
      omega

lemma decimals_le_append (k : ℕ) (p s : List (Fin 10)) : decimals k p ≤ decimals k (p ++ s) := by
  induction k generalizing p with
  | zero => exact le_rfl
  | succ k ih =>
    cases p with
    | nil => exact Nat.zero_le _
    | cons d p => exact Nat.add_le_add_left (ih p) _

/-- The first digit in which two fractions differ decides. -/
lemma decimals_lt_of_differ {k : ℕ} {p s t : List (Fin 10)} {d e : Fin 10} (hk : p.length < k)
    (hde : d < e) : decimals k (p ++ d :: s) < decimals k (p ++ e :: t) := by
  induction k generalizing p with
  | zero => omega
  | succ k ih =>
    cases p with
    | nil =>
      have hs := decimals_lt k s
      have hstep : ((d : ℕ) + 1) * 10 ^ k ≤ e * 10 ^ k := Nat.mul_le_mul_right _ hde
      rw [Nat.succ_mul] at hstep
      simp only [List.nil_append, decimals]
      omega
    | cons c p =>
      rw [List.length_cons] at hk
      exact Nat.add_lt_add_left (ih (by omega)) _

/-- The texts differ in a character for the first time, and the values are in the same order as
these characters. -/
def Below (a b : QualityValue) : Prop :=
  a.value < b.value ∧ ∃ p x s y t, a.text = p ++ x :: s ∧ b.text = p ++ y :: t ∧ x < y

/-- A fraction that starts another one has the smaller value. -/
lemma value_le_of_prefix {a b : QualityValue} (hone : a.one = b.one)
    (h : a.fraction.getD [] <+: b.fraction.getD []) : a.value ≤ b.value := by
  obtain ⟨s, hs⟩ := h
  unfold value
  rw [hone, ← hs]
  exact Nat.add_le_add_left (decimals_le_append _ _ _) _

/-- The texts of values with the same digit before the point and with fractions that differ. -/
lemma below_of_differ {a b : QualityValue} (hone : a.one = b.one) {p s t : List (Fin 10)}
    {d e : Fin 10} (ha : a.fraction = some (p ++ d :: s)) (hb : b.fraction = some (p ++ e :: t))
    (hde : d < e) : Below a b := by
  have hlen := a.length_le
  rw [ha, Option.getD_some, List.length_append, List.length_cons] at hlen
  refine ⟨?_, (if a.one then ch '1' else ch '0') :: ch '.' :: p.map digit, digit d, s.map digit,
    digit e, t.map digit, ?_, ?_, (digit_lt_iff d e).mpr hde⟩
  · unfold value
    rw [hone, ha, hb, Option.getD_some, Option.getD_some]
    exact Nat.add_lt_add_left (decimals_lt_of_differ (by omega) hde) _
  · simp [text, ha]
  · simp [text, hb, hone]

/-- **How the texts of two quality values are related**: one starts with the other, which has the
smaller value, or the first character in which they differ decides. -/
lemma text_cases (a b : QualityValue) :
    (a.text <+: b.text ∧ a.value ≤ b.value) ∨ (b.text <+: a.text ∧ b.value ≤ a.value) ∨
      Below a b ∨ Below b a := by
  have hzero_one {a b : QualityValue} (ha : a.one = false) (hb : b.one = true) : Below a b := by
    have hlt := decimals_lt 3 (a.fraction.getD [])
    have hta : a.text = ch '0' :: a.text.tail := by
      rw [text, ha]
      rfl
    have htb : b.text = ch '1' :: b.text.tail := by
      rw [text, hb]
      rfl
    refine ⟨?_, [], ch '0', a.text.tail, ch '1', b.text.tail, hta, htb, by decide⟩
    simp only [value, ha, hb, if_true, Bool.false_eq_true, if_false]
    omega
  by_cases hone : a.one = b.one
  · cases hfa : a.fraction with
    | none =>
      left
      exact ⟨by simp [text, hone, hfa], value_le_of_prefix hone (by simp [hfa])⟩
    | some ds =>
      cases hfb : b.fraction with
      | none =>
        right; left
        exact ⟨by simp [text, hone, hfb], value_le_of_prefix hone.symm (by simp [hfb])⟩
      | some es =>
        rcases Text.prefix_or_differ ds es with h | h | ⟨p, x, s, y, t, rfl, rfl, hne⟩
        · left
          refine ⟨?_, value_le_of_prefix hone (by simpa [hfa, hfb] using h)⟩
          simpa [text, hone, hfa, hfb, List.cons_prefix_cons] using h.map digit
        · right; left
          refine ⟨?_, value_le_of_prefix hone.symm (by simpa [hfa, hfb] using h)⟩
          simpa [text, hone, hfa, hfb, List.cons_prefix_cons] using h.map digit
        · right; right
          rcases lt_or_gt_of_ne hne with hlt | hlt
          · exact Or.inl (below_of_differ hone hfa hfb hlt)
          · exact Or.inr (below_of_differ hone.symm hfb hfa hlt)
  · right; right
    cases ha : a.one with
    | false => exact Or.inl (hzero_one ha (by simpa [ha] using Ne.symm hone))
    | true => exact Or.inr (hzero_one (by simpa [ha] using Ne.symm hone) ha)

lemma text_injective {a b : QualityValue} (h : a.text = b.text) : a.value = b.value := by
  unfold text at h
  obtain ⟨hhead, htail⟩ := List.cons.inj h
  have hone : a.one = b.one := by
    cases ha : a.one <;> cases hb : b.one <;> rw [ha, hb] at hhead <;>
      first | rfl | exact absurd hhead (by decide)
  have hfraction : a.fraction.getD [] = b.fraction.getD [] := by
    cases hfa : a.fraction with
    | none =>
      cases hfb : b.fraction with
      | none => rfl
      | some es => simp [hfa, hfb] at htail
    | some ds =>
      cases hfb : b.fraction with
      | none => simp [hfa, hfb] at htail
      | some es =>
        rw [hfa, hfb, Option.elim_some, Option.elim_some] at htail
        exact List.map_injective_iff.mpr digit_injective (List.cons.inj htail).2
  unfold value
  rw [hone, hfraction]

/-- The characters of a quality value stand before the colon. -/
lemma lt_colon_of_mem {q : QualityValue} {c : Character8} (h : c ∈ q.text) : c < ch ':' := by
  have hdigit : ∀ d : Fin 10, digit d < ch ':' := by decide
  unfold text at h
  rcases List.mem_cons.mp h with rfl | h
  · split <;> decide
  · cases hf : q.fraction with
    | none =>
      rw [hf] at h
      cases h
    | some ds =>
      rw [hf, Option.elim_some] at h
      rcases List.mem_cons.mp h with rfl | h
      · decide
      · obtain ⟨d, -, rfl⟩ := List.mem_map.mp h
        exact hdigit d

end QualityValue

/-! ## Elements of a header -/

/-- An element of an `Accept` header: a type, and its quality value if it has one. -/
structure AcceptElement where
  /-- The type, with its parameters. -/
  mediaType : String8
  /-- The quality value. -/
  q : Option QualityValue
  comma_notMem : ch ',' ∉ mediaType
  q_notIn : ¬ str ";q=" <:+: mediaType

namespace AcceptElement

/-- The text of an element. -/
def text (e : AcceptElement) : String8 :=
  e.mediaType ++ e.q.elim [] fun q => str ";q=" ++ q.text

/-- The quality of an element: `1.0` if it does not have one. -/
def quality (e : AcceptElement) : QualityValue := e.q.getD QualityValue.missing

/-- The quality value and the type of an element, as they are sorted. -/
def composite (e : AcceptElement) : String8 := e.quality.text ++ ch ':' :: e.mediaType

/-- The header with the given elements. -/
def header (es : List AcceptElement) : String8 := [ch ','].intercalate (es.map text)

lemma colon_notMem_text (q : QualityValue) : ch ':' ∉ q.text := fun h =>
  absurd (QualityValue.lt_colon_of_mem h) (by decide)

lemma comma_notMem_text (e : AcceptElement) : ch ',' ∉ e.text := by
  intro h
  rcases List.mem_append.mp h with h | h
  · exact e.comma_notMem h
  · cases hq : e.q with
    | none =>
      rw [hq] at h
      cases h
    | some q =>
      rw [hq, Option.elim_some] at h
      rcases List.mem_append.mp h with h | h
      · exact absurd h (by decide)
      · -- the characters of a quality value and the comma, in the order of the characters
        have hcomma : ∀ d : Fin 10, QualityValue.digit d ≠ ch ',' := by decide
        unfold QualityValue.text at h
        rcases List.mem_cons.mp h with h | h
        · split at h <;> exact absurd h (by decide)
        · cases hf : q.fraction with
          | none =>
            rw [hf] at h
            cases h
          | some ds =>
            rw [hf, Option.elim_some] at h
            rcases List.mem_cons.mp h with h | h
            · exact absurd h (by decide)
            · obtain ⟨d, -, hd⟩ := List.mem_map.mp h
              exact hcomma d hd

/-- The header is split into its elements. -/
lemma splitOn_header {es : List AcceptElement} (h : es ≠ []) :
    (header es).splitOn (ch ',') = es.map text := by
  apply List.splitOn_intercalate
  · intro l hl
    obtain ⟨e, -, rfl⟩ := List.mem_map.mp hl
    exact comma_notMem_text e
  · simpa using h

/-- The string that is sorted for an element. -/
lemma qualified_text (e : AcceptElement) : RequestFormatUtility.qualified e.text = e.composite := by
  unfold RequestFormatUtility.qualified composite quality
  cases hq : e.q with
  | none =>
    have htext : e.text = e.mediaType := by simp [text, hq]
    have hzero : Text.substringIndex e.text (str ";q=") 1 = 0 := by
      rw [htext]
      exact Text.substringIndex_eq_zero (a := []) (by simp) e.q_notIn
    have hdefault : QualityValue.missing.text = str "1.0" := by decide
    simp only [hzero, lt_irrefl, if_false, Option.getD_none, hdefault]
    rw [htext, List.append_assoc]
    rfl
  | some q =>
    have htext : e.text = e.mediaType ++ (str ";q" ++ [ch '='] ++ q.text) := by
      simp only [text, hq, Option.elim_some]
      rfl
    have heq_notMem : ch '=' ∉ str ";q" := by decide
    have hfirst := Text.infixIndex_of_last heq_notMem e.q_notIn q.text
    have hindex : Text.substringIndex e.text (str ";q=") 1 = 1 + e.mediaType.length := by
      rw [htext]
      exact Text.substringIndex_eq (a := []) (by simp) hfirst
    have hq_text : Text.substring e.text (1 + e.mediaType.length + 3) e.text.length = q.text := by
      rw [htext, ← List.append_assoc]
      refine Text.substring_suffix _ _ ?_ rfl
      rw [List.length_append]
      have hlen : (str ";q" ++ [ch '=']).length = 3 := rfl
      rw [hlen]
      push_cast
      ring
    have htype : Text.substring e.text 1 (1 + e.mediaType.length - 1) = e.mediaType := by
      rw [htext]
      exact Text.substring_prefix _ _ (by ring)
    have hpos : (0 : ℤ) < 1 + e.mediaType.length := by omega
    simp only [hindex, if_pos hpos, hq_text, htype, Option.getD_some]
    rw [List.append_assoc]
    rfl

/-- The type is what is left of the string. -/
lemma unqualified_composite (e : AcceptElement) :
    RequestFormatUtility.unqualified e.composite = e.mediaType := by
  have hindex : Text.indexOf e.composite (ch ':') 1 = e.quality.text.length + 1 :=
    Text.indexOf_one_eq _ _ (colon_notMem_text _)
  have hpos : (0 : ℤ) < e.quality.text.length + 1 := by omega
  have hnat : ((e.quality.text.length : ℤ) + 1).toNat = e.quality.text.length + 1 := by omega
  unfold RequestFormatUtility.unqualified
  simp only [hindex, if_pos hpos, hnat]
  rw [composite, List.drop_append, List.drop_eq_nil_of_le (by omega)]
  simp

/-- The element with the greater quality has the greater string, if their texts differ in a
character. -/
lemma composite_lt_of_below {e f : AcceptElement}
    (h : QualityValue.Below e.quality f.quality) : e.composite < f.composite := by
  obtain ⟨-, p, x, s, y, t, he, hf, hxy⟩ := h
  unfold composite
  rw [he, hf, List.append_assoc, List.append_assoc]
  apply List.append_left_lt
  exact List.cons_lt_cons_iff.mpr (Or.inl hxy)

/-- The element with the shorter text has the greater string, if the longer text starts with it. -/
lemma composite_lt_of_prefix {e f : AcceptElement} (h : e.quality.text <+: f.quality.text)
    (hne : e.quality.text ≠ f.quality.text) : f.composite < e.composite := by
  obtain ⟨r, hr⟩ := h
  cases r with
  | nil => exact absurd (by rw [← hr, List.append_nil]) hne
  | cons c r =>
    have hc : c < ch ':' := QualityValue.lt_colon_of_mem (by rw [← hr]; simp)
    unfold composite
    rw [← hr, List.append_assoc]
    apply List.append_left_lt
    exact List.cons_lt_cons_iff.mpr (Or.inl hc)

end AcceptElement

namespace RequestFormatUtility

open AcceptElement

/-- A list that is a permutation of the images of some items is the list of the images of a
permutation of the items. -/
lemma exists_perm_map {α β : Type*} (f : α → β) {l : List β} {es : List α}
    (h : l.Perm (es.map f)) : ∃ es' : List α, es'.Perm es ∧ es'.map f = l := by
  induction es generalizing l with
  | nil =>
    rw [List.map_nil, List.perm_nil] at h
    exact ⟨[], List.Perm.refl _, h.symm⟩
  | cons e es ih =>
    rw [List.map_cons] at h
    obtain ⟨s, t, rfl⟩ := List.append_of_mem (h.mem_iff.mpr List.mem_cons_self)
    obtain ⟨es', hperm, hmap⟩ := ih (List.perm_cons (f e) |>.mp (List.perm_middle.symm.trans h))
    obtain ⟨s', t', rfl, rfl, rfl⟩ := List.map_eq_append_iff.mp hmap
    exact ⟨s' ++ e :: t', List.perm_middle.trans (hperm.cons e), by simp⟩

/-- **The result for a header**: the types, in the order of the strings that are sorted. -/
lemma acceptedContentTypes_eq (qs : QuickSorter) {es : List AcceptElement} (h : es ≠ []) :
    ∃ es' : List AcceptElement, es'.Perm es ∧
      es'.map composite = qs.reverseSort (es.map composite) ∧
      acceptedContentTypes qs (some (header es)) = some (es'.map mediaType) := by
  obtain ⟨es', hperm, hmap⟩ := exists_perm_map composite (qs.perm (es.map composite))
  refine ⟨es', hperm, hmap, ?_⟩
  have hqualified : (es.map text).map qualified = es.map composite := by
    rw [List.map_map]
    exact List.map_congr_left fun e _ => qualified_text e
  have hunqualified : (es'.map composite).map unqualified = es'.map mediaType := by
    rw [List.map_map]
    exact List.map_congr_left fun e _ => unqualified_composite e
  rw [acceptedContentTypes, Option.map_some, splitOn_header h, hqualified, ← hmap, hunqualified]

/-- The result for a header is a permutation of the types, and the quality values do not increase:
each type with the quality value of the element that its string was made of. -/
def OrdersByPreference (qs : QuickSorter) (es : List AcceptElement) : Prop :=
  ∃ es' : List AcceptElement, es'.Perm es ∧
    es'.map composite = qs.reverseSort (es.map composite) ∧
    acceptedContentTypes qs (some (header es)) = some (es'.map mediaType) ∧
    es'.Pairwise fun e f => f.quality.value ≤ e.quality.value

/-- No quality value is less than another one whose text starts with its text. -/
def NoneShadowed (es : List AcceptElement) : Prop :=
  ∀ e ∈ es, ∀ f ∈ es, e.quality.text <+: f.quality.text → f.quality.value ≤ e.quality.value

/-- A quality value comes before the greater ones that start with its text. -/
lemma OrdersByPreference.noneShadowed {qs : QuickSorter} {es : List AcceptElement}
    (h : OrdersByPreference qs es) : NoneShadowed es := by
  obtain ⟨es', hperm, hmap, -, hvalues⟩ := h
  intro a ha b hb hprefix
  by_contra hlt
  have hne : a.quality.text ≠ b.quality.text := fun heq =>
    hlt (QualityValue.text_injective heq).ge
  have hgreater := composite_lt_of_prefix hprefix hne
  have hsorted := qs.sorted (es.map composite)
  rw [← hmap, List.pairwise_map] at hsorted
  -- in the result, one of the two elements is before the other
  have hboth := hvalues.and hsorted
  obtain ⟨s, t, rfl⟩ := List.append_of_mem (hperm.mem_iff.mpr ha)
  have hmem := hperm.mem_iff.mpr hb
  rw [List.pairwise_append, List.pairwise_cons] at hboth
  obtain ⟨-, ⟨hbehind, -⟩, hbefore⟩ := hboth
  rcases List.mem_append.mp hmem with hs | hs
  · exact (hbefore b hs a List.mem_cons_self).2 hgreater
  · rcases List.mem_cons.mp hs with rfl | ht
    · exact hne rfl
    · exact hlt (hbehind b ht).1

/-- **The order by preference.** For every header of one or more elements, the result lists the
types by their quality if and only if no quality value is less than another one whose text starts
with its text, as `0.5` and `0.55` are.

**Proof sketch.** Two quality values that differ in a character are sorted by this character, hence
by value. If one starts with the other, the shorter one comes first, since the colon behind it is
greater than digits and the point. -/
theorem ordersByPreference_iff (qs : QuickSorter) (e : AcceptElement) (es : List AcceptElement) :
    OrdersByPreference qs (e :: es) ↔ NoneShadowed (e :: es) := by
  constructor
  · exact OrdersByPreference.noneShadowed
  · intro hnone
    obtain ⟨es', hperm, hmap, hresult⟩ := acceptedContentTypes_eq qs (List.cons_ne_nil e es)
    refine ⟨es', hperm, hmap, hresult, ?_⟩
    have hsorted := qs.sorted ((e :: es).map composite)
    rw [← hmap, List.pairwise_map] at hsorted
    refine hsorted.imp_of_mem fun {a b} ha hb hle => ?_
    rcases QualityValue.text_cases a.quality b.quality with
      ⟨hpre, -⟩ | ⟨-, hvalue⟩ | hbelow | ⟨hlt, -⟩
    · exact hnone a (hperm.mem_iff.mp ha) b (hperm.mem_iff.mp hb) hpre
    · exact hvalue
    · exact absurd (composite_lt_of_below hbelow) hle
    · exact hlt.le

/-- A sorter: insertion into a list that is sorted. -/
def insertionSorter : QuickSorter where
  reverseSort := List.insertionSort fun s t => t ≤ s
  perm := List.perm_insertionSort _
  sorted l := by
    have htotal : Std.Total fun s t : String8 => t ≤ s := ⟨fun s t => List.le_total t s⟩
    have htrans : IsTrans String8 fun s t => t ≤ s := ⟨fun s t u hst htu => List.le_trans htu hst⟩
    exact List.pairwise_insertionSort _ l

/-- The header `text/html;q=0.5,text/plain;q=0.55`: the first type stays in front. -/
theorem not_ordersByPreference_prefix :
    ¬ ∀ (qs : QuickSorter) (e : AcceptElement) (es : List AcceptElement),
      OrdersByPreference qs (e :: es) := by
  intro hall
  let html : AcceptElement := ⟨str "text/html",
    some ⟨false, some [5], by decide, by decide⟩, by decide +kernel, by decide +kernel⟩
  let plain : AcceptElement := ⟨str "text/plain",
    some ⟨false, some [5, 5], by decide, by decide⟩, by decide +kernel, by decide +kernel⟩
  have hnone := (hall insertionSorter html [plain]).noneShadowed
  have hle := hnone html (by simp) plain (by simp) (by decide +kernel)
  exact absurd hle (by decide +kernel)

end RequestFormatUtility

end EiffelWeb
