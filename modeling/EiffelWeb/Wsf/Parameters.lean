import Mathlib.Data.List.Basic
import Mathlib.Tactic.Common
import EiffelWeb.Wsf.AddValue

set_option relaxedAutoImplicit false
set_option autoImplicit false

/-!
# Url-encoded parameters

The routine `urlencoded_parameters` of `WSF_REQUEST`: the content is cut at the ampersands, each
segment at its first equal sign, and the pairs are added to a table one after the other.

## Main definitions

* `urlencodedParameters` — the routine.
* `pairs` — the names and values of a content.
* `keyName` — the key a name is stored under.
* `collected` — the value of a key after a list of flat names.

## Main results

* `urlencodedParameters_eq` — the routine adds the pairs in order.
* `keys_addValueToTable` — a call adds the key of its name.
* `item_foldl_storeValue` — flat names are collected.
* `urlencodedParameters_keys` — the table of a content whose names parse.
-/

namespace EiffelWeb

section Routine

variable (uc : UnicodeConversion)

/-- `add_value_to_table` for a segment `s`, if it has an equal sign. -/
def addSegment (s : String8) (result : ValueTable) : Option ValueTable :=
  if !s.isEmpty then
    let j := Text.indexOf s (ch '=') 1
    if 0 < j then
      addValueToTable uc (Text.substring s 1 (j - 1)) (Text.substring s (j + 1) s.length) result
    else some result
  else some result

/-- The loop of `urlencoded_parameters`, over the position `p` and the result. -/
def segmentLoop (aContent : String8) : Loop (ℤ × ValueTable) where
  exit st := st.1 = 0
  body st :=
    let i := Text.indexOf aContent (ch '&') st.1
    let (s, p) :=
      if i = 0 then (Text.substring aContent st.1 aContent.length, 0)
      else (Text.substring aContent st.1 (i - 1), i + 1)
    (addSegment uc s st.2).map fun result => (p, result)

/-- `urlencoded_parameters (a_content)`: `none` if a call in it does not return. The loop runs once
for each segment. -/
def urlencodedParameters (aContent : Option String8) : Option ValueTable :=
  match aContent with
  | none => some []
  | some content =>
    if content.length = 0 then some []
    else ((segmentLoop uc content).run (content.length + 1) (1, [])).map Prod.snd

/-! ## The pairs of a content -/

/-- The name and the value of a segment, cut at its first equal sign. -/
def pair (s : String8) : Option (String8 × String8) :=
  if ch '=' ∈ s then some (s.takeWhile (· ≠ ch '='), (s.dropWhile (· ≠ ch '=')).tail) else none

/-- The names and values of the segments of a content that have an equal sign. -/
def pairs (content : String8) : List (String8 × String8) :=
  (content.splitOn (ch '&')).filterMap pair

/-- The pairs of a content that may be `Void`. -/
def contentPairs (aContent : Option String8) : List (String8 × String8) :=
  (aContent.map pairs).getD []

/-- Adding pairs to a table, in order. -/
def addPairs (ps : List (String8 × String8)) (t : ValueTable) : Option ValueTable :=
  ps.foldlM (fun t p => addValueToTable uc p.1 p.2 t) t

variable {uc}

lemma pair_of_notMem {s : String8} (h : ch '=' ∉ s) : pair s = none := if_neg h

lemma pair_eq {a b : String8} (h : ch '=' ∉ a) : pair (a ++ ch '=' :: b) = some (a, b) := by
  rw [pair, if_pos (by simp), Text.takeWhile_ne h, Text.dropWhile_ne h]
  rfl

/-- A segment adds its pair. -/
lemma addSegment_eq (s : String8) (t : ValueTable) :
    addSegment uc s t = addPairs uc (pair s).toList t := by
  rcases Text.notMem_or_split (ch '=') s with h | ⟨a, b, rfl, ha⟩
  · simp [addSegment, Text.indexOf_one_eq_zero h, pair_of_notMem h, addPairs]
  · have hj := Text.indexOf_one_eq a b ha
    have hn : Text.substring (a ++ ch '=' :: b) 1 (a.length + 1 - 1) = a :=
      Text.substring_prefix _ _ (by simp)
    have hv : Text.substring (a ++ ch '=' :: b) (a.length + 1 + 1)
        (a ++ ch '=' :: b).length = b := Text.substring_behind a _ b (by omega) rfl
    simp only [addSegment, hj, hn, hv, pair_eq ha]
    rw [if_pos (by simp), if_pos (by omega)]
    simp [addPairs]

lemma addPairs_append (ps qs : List (String8 × String8)) (t : ValueTable) :
    addPairs uc (ps ++ qs) t = (addPairs uc ps t).bind (addPairs uc qs) := by
  simp only [addPairs, List.foldlM_append]
  rfl

/-- **The loop adds the pairs of the text from its position on.**

**Proof sketch.** Induction on the fuel, which exceeds the length of that text. An iteration adds
the pair of the segment up to the next ampersand; without one the loop is over. -/
lemma segmentLoop_run {fuel : ℕ} (l r : String8) {p : ℤ} (hp : p = l.length + 1)
    (hf : r.length < fuel) (t : ValueTable) :
    ((segmentLoop uc (l ++ r)).run fuel (p, t)).map Prod.snd = addPairs uc (pairs r) t := by
  induction fuel generalizing l r p t with
  | zero => omega
  | succ fuel ih =>
    have he : (segmentLoop uc (l ++ r)).exit (p, t) = false := by
      simp [segmentLoop]
      omega
    rw [Loop.run_succ_of_not_exit he]
    rcases Text.notMem_or_split (ch '&') r with h | ⟨a, b, rfl, ha⟩
    · have hi := Text.indexOf_eq_zero l r hp h
      have hs : Text.substring (l ++ r) p (l ++ r).length = r := Text.substring_suffix _ _ hp rfl
      simp only [segmentLoop, hi, if_true, hs, addSegment_eq, pairs, List.splitOn_eq_singleton h,
        List.filterMap_cons, List.filterMap_nil]
      rcases hpair : pair r with _ | q
      · simp [addPairs, Loop.run_of_exit]
      · simp only [Option.toList_some]
        rcases addPairs uc [q] t with _ | t'
        · rfl
        · simp [Loop.run_of_exit]
    · have hi := Text.indexOf_eq l a b hp ha
      have hs : Text.substring (l ++ (a ++ ch '&' :: b)) p (l.length + a.length + 1 - 1) = a :=
        Text.substring_eq _ _ _ hp (by simp)
      have hsplit : l ++ (a ++ ch '&' :: b) = (l ++ (a ++ [ch '&'])) ++ b := by simp
      have hpairs : pairs (a ++ ch '&' :: b) = (pair a).toList ++ pairs b := by
        simp only [pairs, List.splitOn_append_cons_self_of_not_mem ha, List.filterMap_cons]
        rcases pair a with _ | q <;> rfl
      have hne : ¬ ((l.length : ℤ) + a.length + 1 = 0) := by omega
      have hbody : (segmentLoop uc (l ++ (a ++ ch '&' :: b))).body (p, t) =
          (addPairs uc (pair a).toList t).map fun t' =>
            ((l.length : ℤ) + a.length + 1 + 1, t') := by
        simp only [segmentLoop, hi, if_neg hne, hs, addSegment_eq]
      rw [hbody, hpairs, addPairs_append]
      rcases addPairs uc (pair a).toList t with _ | t'
      · rfl
      · simp only [Option.map_some, Option.bind_some, hsplit]
        refine ih _ b (by simp; omega) ?_ t'
        simp only [List.length_append, List.length_cons] at hf
        omega

/-- **The routine adds the pairs of the content in order.** -/
lemma urlencodedParameters_eq (aContent : Option String8) :
    urlencodedParameters uc aContent = addPairs uc (contentPairs aContent) [] := by
  rcases aContent with _ | content
  · rfl
  · by_cases h : content.length = 0
    · rw [List.length_eq_zero_iff.mp h]
      rfl
    · rw [urlencodedParameters]
      simp only [if_neg h]
      exact segmentLoop_run [] content (by simp) (Nat.lt_succ_self _) []

end Routine

/-! ## The keys of the table -/

section Keys

variable (uc : UnicodeConversion)

/-- The key a name is stored under: the decoded text before its first group, the decoded name if
it has none. -/
def keyName (aName : String8) : String32 :=
  if HasGroup aName then urlDecodedString uc (aName.takeWhile (· ≠ ch '['))
  else urlDecodedString uc aName

/-- Every table is stored under its own name. -/
def TablesNamed (t : ValueTable) : Prop :=
  ∀ k tb, t.item k = some (WsfTable.toValue tb) → tb.name = k

variable {uc}

lemma tablesNamed_nil : TablesNamed [] := fun k tb h => by simp at h

lemma tablesNamed_force {t : ValueTable} (ht : TablesNamed t) {v : WsfValue} {k : String32}
    (hv : ∀ tb : WsfTable, v = tb.toValue → tb.name = k) : TablesNamed (t.force v k) := by
  intro k' tb h
  rw [HashTable.item_force] at h
  split at h
  · next he => rw [hv tb (Option.some.inj h), he]
  · exact ht k' tb h

lemma keyName_group {b g r : String8} (hb : ch '[' ∉ b) :
    keyName uc (b ++ ch '[' :: (g ++ ch ']' :: r)) = urlDecodedString uc b := by
  have hg : HasGroup (b ++ ch '[' :: (g ++ ch ']' :: r)) := by
    rw [HasGroup, Text.dropWhile_ne hb]
    simp
  rw [keyName, if_pos hg, Text.takeWhile_ne hb]

lemma baseTable_name {t : ValueTable} (ht : TablesNamed t) (b : String8) :
    (baseTable uc t b).name = urlDecodedString uc b := by
  rw [baseTable]
  rcases hi : (t.item (urlDecodedString uc b)).bind WsfValue.asTable with _ | tb
  · rfl
  · obtain ⟨v, hv, htb⟩ := Option.bind_eq_some_iff.mp hi
    rw [WsfValue.asTable_eq_some.mp htb] at hv
    exact ht _ _ hv

/-- Storing a table under its own name: it takes the place of a table and of nothing else. -/
lemma storeTable_eq {t : ValueTable} {k : String32} {v : WsfTable} (hv : v.name = k) :
    storeTable t k v =
      if ((t.item k).bind WsfValue.asTable).isSome ∨ t.item k = none then t.force v.toValue k
      else t := by
  rcases hi : t.item k with _ | w
  · simp [storeTable, HashTable.hasKey, hi, hv]
  · rcases hw : w.asTable with _ | tb
    · simp [storeTable, HashTable.hasKey, hi, hv, hw]
    · simp [storeTable, HashTable.hasKey, hi, hv, hw]

/-- What a call does to the keys. -/
structure KeyAdded (key : String32) (t t' : ValueTable) : Prop where
  /-- Tables stay under their own names. -/
  named : TablesNamed t'
  /-- The key is added, and nothing else. -/
  keys : ∀ k, k ∈ t'.keys ↔ k = key ∨ k ∈ t.keys

lemma storeValue_keyAdded {t : ValueTable} (ht : TablesNamed t) (s : WsfString) :
    KeyAdded s.name t (storeValue t (.string s)) := by
  have hforce : ∀ v : WsfValue, (∀ tb : WsfTable, v ≠ tb.toValue) →
      KeyAdded s.name t (t.force v s.name) := fun v hv =>
    ⟨tablesNamed_force ht fun tb htb => absurd htb (hv tb), fun k => HashTable.mem_keys_force⟩
  rw [storeValue]
  split <;> exact hforce _ fun tb => by simp [WsfTable.toValue, WsfValue.makeWithArray]

lemma storeTable_keyAdded {t : ValueTable} (ht : TablesNamed t) (v : WsfTable) :
    KeyAdded v.name t (storeTable t v.name v) := by
  rw [storeTable_eq rfl]
  split
  · refine ⟨tablesNamed_force ht fun tb htb => ?_, fun k => HashTable.mem_keys_force⟩
    exact congrArg WsfValue.name htb.symm
  · next h =>
    -- something that is no table is stored under the name
    refine ⟨ht, fun k => ⟨Or.inr, fun hk => hk.elim (fun he => ?_) id⟩⟩
    by_contra hn
    exact h (Or.inr (HashTable.item_eq_none_iff.mpr (he ▸ hn)))

variable (uc) in
/-- **A call adds the key of its name.** -/
lemma keys_addValueToTable {aName : String8} (h : Parses aName) (aValue : String8)
    {t : ValueTable} (ht : TablesNamed t) :
    ∃ t', addValueToTable uc aName aValue t = some t' ∧ KeyAdded (keyName uc aName) t t' := by
  by_cases hn : HasGroup aName
  · obtain ⟨b, g, r, rfl, hb, hg⟩ := hasGroup_iff.mp hn
    have ho := h.resolve_left (not_not.mpr hn)
    rw [mem_afterLast_group] at ho
    obtain ⟨gs, hgs⟩ := exists_groups ho
    refine ⟨storeGroup uc aValue b g gs t,
      addValueToTableWithin_group hb hg hgs (by simp; omega) aValue t, ?_⟩
    have hadd := storeTable_keyAdded ht (WsfTable.insert uc aValue gs (baseTable uc t b)
      (appendKey b (keyOrIndex (adjust g) (baseTable uc t b)))
      (keyOrIndex (adjust g) (baseTable uc t b)))
    rw [WsfTable.insert_name, baseTable_name ht] at hadd
    rwa [keyName_group hb]
  · refine ⟨_, addValueToTableWithin_plain hn _ aValue t, ?_⟩
    rw [keyName, if_neg hn]
    exact storeValue_keyAdded ht (WsfString.make uc aName aValue)

variable (uc) in
/-- Adding pairs whose names parse adds their keys. -/
lemma keys_addPairs {ps : List (String8 × String8)} (h : ∀ p ∈ ps, Parses p.1) {t : ValueTable}
    (ht : TablesNamed t) :
    ∃ t', addPairs uc ps t = some t' ∧
      ∀ k, k ∈ t'.keys ↔ (∃ p ∈ ps, keyName uc p.1 = k) ∨ k ∈ t.keys := by
  induction ps generalizing t with
  | nil => exact ⟨t, rfl, by simp⟩
  | cons p ps ih =>
    obtain ⟨t₁, h₁, hk₁⟩ := keys_addValueToTable uc (h p (by simp)) p.2 ht
    obtain ⟨t₂, h₂, hk₂⟩ := ih (fun q hq => h q (by simp [hq])) hk₁.named
    refine ⟨t₂, ?_, fun k => ?_⟩
    · simp only [addPairs, List.foldlM_cons, h₁, Option.bind_eq_bind, Option.bind_some]
      exact h₂
    · rw [hk₂ k, hk₁.keys k]
      simp only [List.mem_cons, exists_eq_or_imp, eq_comm (a := k)]
      rw [or_left_comm, or_assoc]

end Keys

/-! ## The values of flat names -/

section Flat

variable (uc : UnicodeConversion)

/-- The value of a key that occurs with the strings `l`, in order. -/
def collect (key : String32) : List WsfString → Option WsfValue
  | [] => none
  | [s] => some (.string s)
  | l => some (.multipleString key l)

/-- The strings of the pairs whose decoded name is `key`. -/
def stringsOf (ps : List (String8 × String8)) (key : String32) : List WsfString :=
  (ps.filter fun p => urlDecodedString uc p.1 = key).map fun p => WsfString.make uc p.1 p.2

variable {uc}

lemma not_hasGroup_of_notMem {aName : String8} (h : ch '[' ∉ aName) : ¬ HasGroup aName := by
  rw [hasGroup_iff]
  rintro ⟨b, g, r, rfl, -, -⟩
  simp at h

/-- Storing a string collects it. -/
lemma item_storeValue {t : ValueTable} {s : WsfString} {l : List WsfString}
    (h : t.item s.name = collect s.name l) (hl : ∀ x ∈ l, x.name = s.name) :
    (storeValue t (.string s)).item s.name = collect s.name (l ++ [s]) := by
  rcases l with _ | ⟨x, _ | ⟨y, l⟩⟩
  · simp only [collect] at h
    simp [storeValue, WsfValue.name, h, collect]
  · simp only [collect] at h
    simp [storeValue, WsfValue.name, h, collect, WsfValue.makeWithArray, WsfValue.addToMultiple,
      hl x (by simp)]
  · simp only [collect] at h
    simp [storeValue, WsfValue.name, h, collect, WsfValue.addToMultiple]

lemma item_storeValue_of_ne {t : ValueTable} {s : WsfString} {k : String32} (h : k ≠ s.name) :
    (storeValue t (.string s)).item k = t.item k := by
  rw [storeValue]
  split <;> exact HashTable.item_force_of_ne _ _ h

/-- **Flat names are collected**: if the table holds what the pairs `qs` gave, it holds after
adding `ps` what `qs ++ ps` gives. -/
lemma item_addPairs {ps : List (String8 × String8)} (h : ∀ p ∈ ps, ch '[' ∉ p.1)
    (qs : List (String8 × String8)) {t t' : ValueTable}
    (ht : ∀ key, t.item key = collect key (stringsOf uc qs key))
    (hps : addPairs uc ps t = some t') (key : String32) :
    t'.item key = collect key (stringsOf uc (qs ++ ps) key) := by
  induction ps generalizing qs t with
  | nil =>
    simp only [addPairs, List.foldlM_nil, Option.pure_def, Option.some.injEq] at hps
    simpa [hps] using ht key
  | cons p ps ih =>
    have hplain := not_hasGroup_of_notMem (h p (by simp))
    simp only [addPairs, List.foldlM_cons, addValueToTable, addValueToTableWithin_plain hplain,
      Option.bind_eq_bind, Option.bind_some] at hps
    rw [show qs ++ p :: ps = (qs ++ [p]) ++ ps by simp]
    refine ih (fun q hq => h q (by simp [hq])) (qs ++ [p]) (fun k => ?_) hps
    by_cases hk : k = urlDecodedString uc p.1
    · subst hk
      have hname : (WsfString.make uc p.1 p.2).name = urlDecodedString uc p.1 := rfl
      have hstep := item_storeValue (s := WsfString.make uc p.1 p.2) (ht _) (by
        intro x hx
        simp only [stringsOf, List.mem_map, List.mem_filter, decide_eq_true_eq] at hx
        obtain ⟨q, ⟨-, hq⟩, rfl⟩ := hx
        exact hq)
      rw [hname] at hstep
      simpa [stringsOf] using hstep
    · rw [item_storeValue_of_ne hk, ht k]
      simp [stringsOf, Ne.symm hk]

end Flat

/-- **The table of a url-encoded content** whose names parse. Its keys are the keys of the names
of the segments with an equal sign; if no name has an opening bracket, each key holds the string
of its only segment or collects the strings of its segments in order. -/
theorem urlencodedParameters_keys (uc : UnicodeConversion) (aContent : Option String8)
    (h : ∀ p ∈ contentPairs aContent, Parses p.1) :
    ∃ t, urlencodedParameters uc aContent = some t ∧
      (∀ key, key ∈ t.keys ↔ ∃ p ∈ contentPairs aContent, keyName uc p.1 = key) ∧
      ((∀ p ∈ contentPairs aContent, ch '[' ∉ p.1) → ∀ key,
        t.item key = collect key (stringsOf uc (contentPairs aContent) key)) := by
  obtain ⟨t, ht, hkeys⟩ := keys_addPairs uc h tablesNamed_nil
  rw [urlencodedParameters_eq]
  refine ⟨t, ht, fun key => by simp [hkeys], fun hflat key => ?_⟩
  exact item_addPairs hflat [] (fun _ => rfl) ht key

/-- A flat content with a name that occurs twice, an empty segment and one without equal sign. -/
theorem urlencodedParameters_keys_twice :
    (∀ p ∈ contentPairs (some (str "a=1&b=2&&a=3&c")), Parses p.1) ∧
      ∃ t, urlencodedParameters standardConversion (some (str "a=1&b=2&&a=3&c")) = some t ∧
        t.item (asString32 (str "a")) = some (.multipleString (asString32 (str "a"))
          [WsfString.make standardConversion (str "a") (str "1"),
            WsfString.make standardConversion (str "a") (str "3")]) := by
  have hpairs : contentPairs (some (str "a=1&b=2&&a=3&c")) =
      [(str "a", str "1"), (str "b", str "2"), (str "a", str "3")] := by decide
  have hparses : ∀ p ∈ contentPairs (some (str "a=1&b=2&&a=3&c")), Parses p.1 := by
    rw [hpairs]
    decide
  obtain ⟨t, ht, -, hitem⟩ :=
    urlencodedParameters_keys standardConversion (some (str "a=1&b=2&&a=3&c")) hparses
  refine ⟨hparses, t, ht, ?_⟩
  have ha : urlDecodedString standardConversion (str "a") = asString32 (str "a") :=
    urlDecodedString_of_plain _ (by decide)
  have hb : urlDecodedString standardConversion (str "b") = asString32 (str "b") :=
    urlDecodedString_of_plain _ (by decide)
  have hne : asString32 (str "b") ≠ asString32 (str "a") := by decide
  rw [hitem (by rw [hpairs]; decide), hpairs]
  simp [stringsOf, ha, hb, hne, collect]

/-- The content `a[]=1` has no flat name, and its table has the key `a`. -/
theorem urlencodedParameters_list_key :
    ¬ ∀ (content : String8) (t : ValueTable),
      urlencodedParameters standardConversion (some content) = some t →
      ∀ key, key ∈ t.keys ↔
        ∃ p ∈ pairs content, ch '[' ∉ p.1 ∧ urlDecodedString standardConversion p.1 = key := by
  intro hall
  have hpairs : pairs (str "a[]=1") = [(str "a[]", str "1")] := by decide
  have hparses : ∀ p ∈ contentPairs (some (str "a[]=1")), Parses p.1 := by decide
  obtain ⟨t, ht, hkeys⟩ := keys_addPairs standardConversion hparses tablesNamed_nil
  have hrun : urlencodedParameters standardConversion (some (str "a[]=1")) = some t := by
    rw [urlencodedParameters_eq, ht]
  have hmem : keyName standardConversion (str "a[]") ∈ t.keys :=
    (hkeys _).mpr (Or.inl ⟨(str "a[]", str "1"), by decide, rfl⟩)
  obtain ⟨p, hp, hopen, -⟩ := (hall _ t hrun _).mp hmem
  rw [hpairs, List.mem_singleton] at hp
  subst hp
  exact hopen (by decide)

end EiffelWeb
