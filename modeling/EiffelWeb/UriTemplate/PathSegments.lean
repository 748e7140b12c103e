import EiffelWeb.UriTemplate.RoundTrip

set_option relaxedAutoImplicit false
set_option autoImplicit false

/-!
# Path segments

The template `lit{/v}` read from a URI of `lit` and a list of segments: the loop of the matcher
takes one segment in each iteration and moves the offset by its length and one, for the slash. The
segments are stored under `v[1]`, `v[2]` and so on and the text of all of them under `v`.

## Main definitions

* `UriTemplate.Pattern.path` — the template `lit{/v}`.

## Main results

* `UriTemplate.pathRead_joined` — the segments of a path are read one by one.
* `UriTemplate.matchUri_segments` — what the template binds.
-/

namespace EiffelWeb.UriTemplate

/-- The template `lit{/v}`. -/
def Pattern.path (lit v : String8) (hlit : ch '{' ∉ lit) (hv : ValidName v) : Pattern where
  lit := lit
  parts := [⟨true, v, []⟩]
  lit_plain := hlit
  lits_plain := by simp
  names_valid := by simpa using hv
  names_nodup := by simp

/-- A segment of a path: not empty and without a slash and a question mark. -/
def IsSegment (s : String8) : Prop := s ≠ [] ∧ ch '/' ∉ s ∧ ch '?' ∉ s

lemma joined_cons (s : String8) (ss : List String8) :
    joined (s :: ss) = ch '/' :: (s ++ joined ss) :=
  List.flatMap_cons

/-! ## Reading the segments -/

/-- A segment is read up to the next slash. -/
lemma segment_joined {s : String8} (hs : IsSegment s) (ss : List String8) :
    segment none (s ++ joined ss) = s := by
  have hstop : ∀ c ∈ s, ∀ r, stops none c r = false := by
    intro c hc r
    have hslash : c ≠ ch '/' := fun h => hs.2.1 (h ▸ hc)
    have hquery : c ≠ ch '?' := fun h => hs.2.2 (h ▸ hc)
    simp [stops, tokenStarts, hslash, hquery]
  have hnil : segment none (joined ss) = [] := by
    cases ss with
    | nil => rfl
    | cons t ss =>
      rw [joined_cons, segment]
      rfl
  rw [segment_append hstop, hnil, List.append_nil]

/-- **The segments of a path are read one by one**, up to the end. -/
lemma pathRead_joined {ss : List String8} (h : ∀ s ∈ ss, IsSegment s) :
    pathRead none (joined ss) = (joined ss, ss, []) := by
  induction ss with
  | nil => simp [joined, pathRead]
  | cons s ss ih =>
    have hs := h s List.mem_cons_self
    have hseg := segment_joined hs ss
    have hrest := ih fun t ht => h t (List.mem_cons_of_mem s ht)
    obtain ⟨c, r, rfl⟩ := List.exists_cons_of_ne_nil hs.1
    have hdrop : (c :: (r ++ joined ss)).drop (c :: r).length = joined ss := List.drop_left
    rw [joined_cons, List.cons_append]
    rw [List.cons_append] at hseg
    rw [pathRead_cons hseg hs.1, hdrop, hrest]
    rfl

/-! ## The bindings -/

lemma segmentKey_injective (vn : String8) : Function.Injective (segmentKey vn) := by
  intro m n h
  rw [segmentKey, segmentKey, List.append_cancel_left_eq, List.cons.injEq,
    List.append_cancel_right_eq] at h
  exact natOut_injective h.2

/-- Storing segments does not touch the keys of lower numbers. -/
lemma item_storeSegments_of_le (vn : String8) {m nb : ℕ} (hle : m ≤ nb) (ss : List String8)
    (t : StringTable) :
    HashTable.item (storeSegments vn nb ss t) (segmentKey vn m) =
      HashTable.item t (segmentKey vn m) := by
  induction ss generalizing nb t with
  | nil => rfl
  | cons s ss ih =>
    have hne : segmentKey vn m ≠ segmentKey vn (nb + 1) := fun h => by
      have heq := segmentKey_injective vn h
      omega
    rw [storeSegments, ih (by omega), HashTable.item_force_of_ne _ _ hne]

/-- Each segment is stored under its number. -/
lemma item_storeSegments_getElem (vn : String8) (nb : ℕ) {ss : List String8} (t : StringTable)
    {i : ℕ} (hi : i < ss.length) :
    HashTable.item (storeSegments vn nb ss t) (segmentKey vn (nb + 1 + i)) = some ss[i] := by
  induction ss generalizing nb t i with
  | nil => simp at hi
  | cons s ss ih =>
    cases i with
    | zero =>
      rw [storeSegments, Nat.add_zero, item_storeSegments_of_le vn le_rfl,
        HashTable.item_force_self]
      rfl
    | succ i =>
      have hnext : nb + 1 + (i + 1) = nb + 1 + 1 + i := by omega
      rw [storeSegments, hnext, ih (nb + 1) _ (by simpa using hi)]
      rfl

/-- Storing segments does not touch other keys. -/
lemma item_storeSegments_of_ne (vn : String8) (nb : ℕ) {ss : List String8} (t : StringTable)
    {k : String8} (hk : ∀ i < ss.length, k ≠ segmentKey vn (nb + 1 + i)) :
    HashTable.item (storeSegments vn nb ss t) k = HashTable.item t k := by
  induction ss generalizing nb t with
  | nil => rfl
  | cons s ss ih =>
    have hfirst : k ≠ segmentKey vn (nb + 1) := hk 0 (by simp)
    rw [storeSegments, ih (nb + 1), HashTable.item_force_of_ne _ _ hfirst]
    intro i hi
    have hnext : nb + 1 + 1 + i = nb + 1 + (i + 1) := by omega
    rw [hnext]
    exact hk (i + 1) (by simpa using hi)

/-- One of the two tables was empty and is replaced. -/
lemma variableValue_update_empty (q : Bool) (f : StringTable → StringTable) (k : String8) :
    (MatchResult.update q f ⟨[], []⟩).variableValue k = HashTable.item (f []) k := by
  cases q <;> simp [MatchResult.update, MatchResult.variableValue]

lemma Pattern.path_text (lit v : String8) (hlit : ch '{' ∉ lit) (hv : ValidName v) :
    (Pattern.path lit v hlit hv).text = lit ++ str "\x7b/" ++ v ++ str "\x7d" := by
  simp [Pattern.path, Pattern.text, partsText, Part.text, Part.expression, str]

/-- The result of matching the template `lit{/v}`. -/
lemma matchUri_path {lit v : String8} (hlit : ch '{' ∉ lit) (hv : ValidName v)
    {ss : List String8} (hne : ss ≠ []) (h : ∀ s ∈ ss, IsSegment s) :
    matchUri (lit ++ str "\x7b/" ++ v ++ str "\x7d") (lit ++ joined ss) =
      some (some (MatchResult.update (decide (ch '?' ∈ lit))
        ((Capture.segments ss).store v) ⟨[], []⟩)) := by
  have hnil : joined ss ≠ [] := by
    obtain ⟨s, t, rfl⟩ := List.exists_cons_of_ne_nil hne
    rw [joined_cons]
    exact List.cons_ne_nil _ _
  have htake : takePart true (decide (ch '?' ∈ lit)) lit ⟨true, v, []⟩ [] (lit ++ joined ss) =
      some (⟨joined ss, .segments ss⟩, []) := by
    rw [takePart, if_neg (by simp), takeText, List.drop_left, if_neg hnil, if_pos rfl]
    rw [show separator [] [] = none from rfl, pathRead_joined h]
  have hread : reading true false lit [⟨true, v, []⟩] (lit ++ joined ss) =
      some ([⟨joined ss, .segments ss⟩], []) := by
    simp only [reading, Bool.false_or, htake]
    rfl
  have hend : endTest (lastLit lit [⟨true, v, []⟩]) [] := by simp [endTest, lastLit]
  have houtcome : outcome false lit [⟨true, v, []⟩] ⟨[], []⟩
      (reading true false lit [⟨true, v, []⟩] (lit ++ joined ss)) =
        some (MatchResult.update (decide (ch '?' ∈ lit)) ((Capture.segments ss).store v)
          ⟨[], []⟩) := by
    rw [hread, outcome, if_pos hend]
    rfl
  rw [← Pattern.path_text lit v hlit hv, matchUri_text, if_neg (by simp [Pattern.path])]
  exact congrArg some houtcome

/-- **What the template `lit{/v}` binds**, matched with `lit` and a path of segments: the path
under `v`, each segment under its number, and nothing else. -/
theorem matchUri_segments (lit v : String8) (ss : List String8) (hlit : ch '{' ∉ lit)
    (hv : v ≠ [] ∧ v.all isAlphaNumeric = true) (hne : ss ≠ [])
    (h : ∀ s ∈ ss, s ≠ [] ∧ ch '/' ∉ s ∧ ch '?' ∉ s) :
    isValid (lit ++ str "\x7b/" ++ v ++ str "\x7d") = true ∧
    ∃ r, matchUri (lit ++ str "\x7b/" ++ v ++ str "\x7d") (lit ++ joined ss) = some (some r) ∧
      r.variableValue v = some (joined ss) ∧
      (∀ (i : ℕ) (hi : i < ss.length), r.variableValue (segmentKey v (i + 1)) = some ss[i]) ∧
      ∀ k, k ≠ v → (∀ i < ss.length, k ≠ segmentKey v (i + 1)) → r.variableValue k = none := by
  have hname := ValidName.of_isAlphaNumeric hv.1 hv.2
  have hkey : ∀ n, segmentKey v n ≠ v := fun n =>
    (ne_segmentKey (hname.notMem (by decide)) v n).symm
  refine ⟨?_, _, matchUri_path hlit hname hne h, ?_, ?_, ?_⟩
  · rw [← Pattern.path_text lit v hlit hname]
    exact (analyze_text _).2
  · rw [variableValue_update_empty, Capture.store, HashTable.item_force_self]
  · intro i hi
    rw [variableValue_update_empty, Capture.store, HashTable.item_force_of_ne _ _ (hkey _),
      Nat.add_comm i 1, ← Nat.zero_add 1, item_storeSegments_getElem v 0 [] hi]
  · intro k hk hkeys
    rw [variableValue_update_empty, Capture.store, HashTable.item_force_of_ne _ _ hk,
      item_storeSegments_of_ne v 0 [] (by simpa [Nat.add_comm] using hkeys), HashTable.item_nil]

/-- The template `/hello{/vars}` on a path of two segments. -/
theorem matchUri_segments_hello :
    isValid (str "/hello" ++ str "\x7b/" ++ str "vars" ++ str "\x7d") = true ∧
    ∃ r, matchUri (str "/hello" ++ str "\x7b/" ++ str "vars" ++ str "\x7d")
        (str "/hello" ++ joined [str "foo", str "bar"]) = some (some r) ∧
      r.variableValue (str "vars") = some (joined [str "foo", str "bar"]) ∧
      (∀ (i : ℕ) (hi : i < [str "foo", str "bar"].length),
        r.variableValue (segmentKey (str "vars") (i + 1)) = some [str "foo", str "bar"][i]) ∧
      ∀ k, k ≠ str "vars" →
        (∀ i < [str "foo", str "bar"].length, k ≠ segmentKey (str "vars") (i + 1)) →
          r.variableValue k = none :=
  matchUri_segments (str "/hello") (str "vars") [str "foo", str "bar"] (by decide)
    ⟨by decide, by decide⟩ (by decide) (by decide)

end EiffelWeb.UriTemplate
