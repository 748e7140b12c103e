import Mathlib.Data.List.Basic
import Mathlib.Tactic.Common
import EiffelWeb.Wsf.Leaves

set_option relaxedAutoImplicit false
set_option autoImplicit false

/-!
# Walking a table by decoded keys

A parameter with the name `b[k1]…[kn]` is stored in tables inside tables. A reader looks it up with
the decoded base and the decoded keys, one `WSF_TABLE.value` after the other. The loop of
`add_value_to_table` stores the inner tables under decoded keys; the statement after the loop stores
the string under the last key as it was received.

## Main definitions

* `WsfValue.walk` — following keys from a value.
* `RawKey` — the keys as they stand between two brackets.
* `FoundByDecodedKeys` — the string is where the decoded keys lead.

## Main results

* `walk_insert` — where a walk by decoded keys leads after a value was stored along groups.
* `foundByDecodedKeys_iff` — the string is found if and only if the last key is its own decoding.
-/

namespace EiffelWeb

/-- Following `WSF_TABLE.value` from a value through the keys. A value that is no table has no
keys. -/
def WsfValue.walk : List String32 → WsfValue → Option WsfValue
  | [], v => some v
  | k :: ks, v => v.asTable.bind fun t => (t.value k).bind (walk ks)

lemma WsfTable.walk_toValue (t : WsfTable) (k : String32) (ks : List String32) :
    t.toValue.walk (k :: ks) = (t.value k).bind (WsfValue.walk ks) := by
  rw [WsfValue.walk, asTable_toValue, Option.bind_some]

/-- A key as it stands between two brackets of a name. -/
structure RawKey (k : String8) : Prop where
  /-- It is not empty. -/
  nonempty : k ≠ []
  /-- It has no bracket. -/
  plain : ch '[' ∉ k ∧ ch ']' ∉ k
  /-- It has no leading or trailing blanks. -/
  adjusted : adjust k = k

lemma RawKey.keyOrIndex {k : String8} (h : RawKey k) (tb : WsfTable) : keyOrIndex k tb = k := by
  unfold EiffelWeb.keyOrIndex
  rw [if_neg]
  simpa using h.nonempty

section Walk

variable (uc : UnicodeConversion)

/-- After `add_value_to_table (b[k1]…[kn], v, empty table)` the decoded base and the decoded keys
lead to a `WSF_STRING` with the decoded `v`. -/
def FoundByDecodedKeys (b : String8) (ks : List String8) (v : String8) : Prop :=
  ∃ t, addValueToTable uc (b ++ ks.flatMap bracketed) v [] = some t ∧
    ∃ s, (t.item (urlDecodedString uc b)).bind (WsfValue.walk (ks.map (urlDecodedString uc))) =
        some (.string s) ∧ s.string = urlDecodedString uc v

variable {uc}

lemma childTable_of_empty {tb : WsfTable} (h : tb.values = []) (k : String32) (n : String8) :
    childTable uc tb k n = WsfTable.make uc n := by
  simp [childTable, WsfTable.value, h]

/-- **Where the decoded keys lead.** A walk by decoded keys in an empty table in which a value was
stored along the groups `gs` after the key `k` ends at the string if the last key is its own
decoding, and nowhere otherwise.

**Proof sketch.** Induction on the groups. A table inside is stored under the decoded key, so that
the walk enters it; it was created for this call and is empty, so that the induction hypothesis
applies. The last table holds the one entry written after the loop, under the key as received. -/
lemma walk_insert (v : String8) {gs : List String8} (hgs : ∀ g ∈ gs, RawKey g) (tb : WsfTable)
    (htb : tb.values = []) (n k l : String8) (hl : (k :: gs).getLast? = some l) :
    ∃ n', (WsfTable.insert uc v gs tb n k).toValue.walk ((k :: gs).map (urlDecodedString uc)) =
      if urlDecodedString uc l = asString32 l then some (.string (WsfString.make uc n' v))
      else none := by
  induction gs generalizing tb n k with
  | nil =>
    obtain rfl : k = l := by simpa using hl
    refine ⟨n, ?_⟩
    rw [List.map_cons, List.map_nil, WsfTable.walk_toValue, WsfTable.insert, WsfTable.value,
      WsfTable.addValue_values, HashTable.item_force, htb, HashTable.item_nil]
    by_cases h : urlDecodedString uc k = asString32 k
    · simp [h, WsfValue.walk]
    · simp [h]
  | cons g gs ih =>
    have hg := hgs g (by simp)
    obtain ⟨n', hn'⟩ := ih (fun j hj => hgs j (by simp [hj])) (WsfTable.make uc n) rfl
      (appendKey n g) g (by rwa [List.getLast?_cons_cons] at hl)
    refine ⟨n', ?_⟩
    have hins : WsfTable.insert uc v (g :: gs) tb n k =
        tb.addValue (WsfTable.insert uc v gs (WsfTable.make uc n) (appendKey n g) g).toValue
          (urlDecodedString uc k) := by
      rw [WsfTable.insert, childTable_of_empty htb, hg.keyOrIndex]
    rw [hins, List.map_cons, WsfTable.walk_toValue, WsfTable.value, WsfTable.addValue_values,
      HashTable.item_force_self, Option.bind_some, hn']

/-- A bracketed name stored in the empty table. -/
lemma addValueToTable_bracketed {b k : String8} {ks : List String8} (hb : ch '[' ∉ b)
    (hk : RawKey k) (hks : ∀ j ∈ ks, RawKey j) (v : String8) :
    addValueToTable uc (b ++ (k :: ks).flatMap bracketed) v [] =
      some [(urlDecodedString uc b,
        (WsfTable.insert uc v ks (WsfTable.make uc b) (appendKey b k) k).toValue)] := by
  have htext : b ++ (k :: ks).flatMap bracketed =
      b ++ ch '[' :: (k ++ ch ']' :: ks.flatMap bracketed) := by simp [bracketed]
  have hgs : Groups (adjust (ks.flatMap bracketed)) ks := by
    rw [adjust_flatMap_bracketed]
    exact groups_flatMap_bracketed fun j hj => (hks j hj).plain
  have hlen : (ks.flatMap bracketed).length ≤
      (b ++ ch '[' :: (k ++ ch ']' :: ks.flatMap bracketed)).length := by
    simp only [List.length_append, List.length_cons]
    omega
  rw [htext, addValueToTable, addValueToTableWithin_group hb hk.plain.2 hgs hlen]
  have htb : baseTable uc [] b = WsfTable.make uc b := rfl
  have hins : (WsfTable.insert uc v ks (WsfTable.make uc b) (appendKey b k) k).name =
      urlDecodedString uc b := WsfTable.insert_name uc v ks _ _ _
  rw [storeGroup, htb, hk.adjusted, hk.keyOrIndex, storeTable_eq hins,
    if_pos (Or.inr (HashTable.item_nil _))]
  rfl

/-- **Bracketed keys and their decoding.** A string stored under `b[k1]…[kn]` in the empty table is
where the decoded base and the decoded keys lead if and only if decoding the last key leaves it
unchanged. -/
theorem foundByDecodedKeys_iff (uc : UnicodeConversion) (b : String8) (ks : List String8)
    (v : String8) (hb : ch '[' ∉ b) (hne : ks ≠ []) (hks : ∀ k ∈ ks, RawKey k) :
    FoundByDecodedKeys uc b ks v ↔
      urlDecodedString uc (ks.getLast hne) = asString32 (ks.getLast hne) := by
  obtain ⟨k, ks, rfl⟩ := List.exists_cons_of_ne_nil hne
  have hrest : ∀ j ∈ ks, RawKey j := fun j hj => hks j (by simp [hj])
  obtain ⟨n, hn⟩ := @walk_insert uc v ks hrest (WsfTable.make uc b) rfl (appendKey b k) k _
    (List.getLast?_eq_some_getLast hne)
  unfold FoundByDecodedKeys
  rw [addValueToTable_bracketed hb (hks k (by simp)) hrest]
  constructor
  · rintro ⟨t, ht, s, hs, -⟩
    by_contra hlast
    rw [Option.some.injEq] at ht
    rw [← ht, HashTable.item, if_pos rfl, Option.bind_some, hn, if_neg hlast] at hs
    cases hs
  · intro hlast
    refine ⟨_, rfl, WsfString.make uc n v, ?_, rfl⟩
    rw [HashTable.item, if_pos rfl, Option.bind_some, hn, if_pos hlast]

/-- The name `a[x y][b]`: the keys need no decoding. -/
theorem foundByDecodedKeys_plain :
    FoundByDecodedKeys standardConversion (str "a") [str "x y", str "b"] (str "1") := by
  have hks : ∀ k ∈ [str "x y", str "b"], RawKey k := by
    intro k hk
    simp only [List.mem_cons, List.not_mem_nil, or_false] at hk
    rcases hk with rfl | rfl
    · exact ⟨by decide, by decide, by decide⟩
    · exact ⟨by decide, by decide, by decide⟩
  exact (foundByDecodedKeys_iff standardConversion (str "a") [str "x y", str "b"] (str "1")
    (by decide) (by simp) hks).mpr (urlDecodedString_of_plain _ (by decide))

/-- The name `a[x+y]`: the string is stored under the key `x+y`, the decoded key is `x y`. -/
theorem not_foundByDecodedKeys_plus :
    ¬ ∀ (b : String8) (ks : List String8) (v : String8), ch '[' ∉ b → ks ≠ [] →
      (∀ k ∈ ks, RawKey k) → FoundByDecodedKeys standardConversion b ks v := by
  intro hall
  have hkey : RawKey (str "x+y") := ⟨by decide, by decide, by decide⟩
  obtain ⟨t, ht, s, hs, -⟩ := hall (str "a") [str "x+y"] (str "1") (by decide) (by simp)
    (by simpa using hkey)
  rw [addValueToTable_bracketed (by decide) hkey (by simp), Option.some.injEq] at ht
  obtain ⟨n, hn⟩ := @walk_insert standardConversion (str "1") [] (by simp)
    (WsfTable.make standardConversion (str "a")) rfl (appendKey (str "a") (str "x+y")) (str "x+y")
    (str "x+y") rfl
  have hlast : urlDecodedString standardConversion (str "x+y") ≠ asString32 (str "x+y") := by
    decide
  rw [← ht, HashTable.item, if_pos rfl, Option.bind_some, List.map_cons, List.map_nil] at hs
  rw [List.map_cons, List.map_nil, if_neg hlast] at hn
  rw [hn] at hs
  cases hs

end Walk

end EiffelWeb
