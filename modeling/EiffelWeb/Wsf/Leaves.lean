import Mathlib.Data.List.Basic
import Mathlib.Tactic.Common
import EiffelWeb.Wsf.Parameters

set_option relaxedAutoImplicit false
set_option autoImplicit false

/-!
# Leaves of a table of parameters

Every call of `add_value_to_table` brings one string. The strings that can be reached from the
table are its leaves: those stored flat, the members of multiple strings, and those inside tables.
A call adds one leaf if there is room for its name: it does not meet a string where it needs a
table, nor a table where it needs a string, nor a key that is taken. Every other call loses at
least one string.

## Main definitions

* `WsfValue.leaves`, `leavesOf` — the number of strings that can be reached.
* `ParamName` — the names `base`, `base[]` and `base[k1]…[kn]`.
* `RoomIn`, `Room` — there is room for a name in a table.
* `RoomyRun` — there is room at every step of a sequence of calls.

## Main results

* `insert_leaves` — storing along groups.
* `addValueToTable_leaves` — one call.
* `leaves_eq_length_iff` — a sequence of calls.
-/

namespace EiffelWeb

/-! ## Leaves -/

mutual

/-- The number of `WSF_STRING` objects that can be reached from a value. -/
def WsfValue.leaves : WsfValue → ℕ
  | .string _ => 1
  | .multipleString _ l => l.length
  | .table _ vs => leavesOf vs

/-- The number of `WSF_STRING` objects that can be reached from the entries of a table. -/
def leavesOf : List (String32 × WsfValue) → ℕ
  | [] => 0
  | (_, v) :: t => v.leaves + leavesOf t

end

mutual

/-- Every entry of a table inside the value has a leaf. -/
def WsfValue.Full : WsfValue → Prop
  | .string _ => True
  | .multipleString _ _ => True
  | .table _ vs => FullEntries vs

/-- Every entry has a leaf, also inside the entries. -/
def FullEntries : List (String32 × WsfValue) → Prop
  | [] => True
  | (_, v) :: t => (0 < v.leaves ∧ v.Full) ∧ FullEntries t

end

lemma leavesOf_eq_weight (t : ValueTable) : leavesOf t = t.weight WsfValue.leaves := by
  induction t with
  | nil => simp [leavesOf, HashTable.weight]
  | cons e t ih => simp [leavesOf, HashTable.weight, ih]

/-- Storing a value adds its leaves and takes away those of the value it replaces. -/
lemma leavesOf_force (t : ValueTable) (v : WsfValue) (k : String32) :
    leavesOf (t.force v k) + (t.item k).elim 0 WsfValue.leaves = leavesOf t + v.leaves := by
  rw [leavesOf_eq_weight, leavesOf_eq_weight]
  exact HashTable.weight_force _ t v k

lemma leaves_le_leavesOf {t : ValueTable} {k : String32} {v : WsfValue}
    (h : t.item k = some v) : v.leaves ≤ leavesOf t := by
  rw [leavesOf_eq_weight]
  exact HashTable.le_weight_of_item h

lemma FullEntries.item {t : ValueTable} (ht : FullEntries t) {k : String32} {v : WsfValue}
    (h : t.item k = some v) : 0 < v.leaves ∧ v.Full := by
  induction t with
  | nil => simp at h
  | cons e t ih =>
    obtain ⟨k', v'⟩ := e
    simp only [FullEntries] at ht
    by_cases hk : k' = k
    · simp only [HashTable.item, hk, if_true, Option.some.injEq] at h
      exact h ▸ ht.1
    · simp only [HashTable.item, hk, if_false] at h
      exact ih ht.2 h

lemma FullEntries.force {t : ValueTable} (ht : FullEntries t) {k : String32} {v : WsfValue}
    (hl : 0 < v.leaves) (hv : v.Full) : FullEntries (t.force v k) := by
  induction t with
  | nil => simp [HashTable.force, FullEntries, hl, hv]
  | cons e t ih =>
    obtain ⟨k', v'⟩ := e
    simp only [FullEntries] at ht
    by_cases hk : k' = k
    · simp only [HashTable.force, hk, if_true, FullEntries]
      exact ⟨⟨hl, hv⟩, ht.2⟩
    · simp only [HashTable.force, hk, if_false, FullEntries]
      exact ⟨ht.1, ih ht.2⟩

/-! ## Storing along groups -/

section Insert

variable (uc : UnicodeConversion)

/-- A table may be stored in the slot: it is free or holds a table. -/
def TableOrFree (slot : Option WsfValue) : Prop := ∀ v, slot = some v → v.asTable.isSome = true

/-- There is room in `tb` for a value under the key `k` and the groups `gs`: every key before the
last is free or holds a table, and the last is free. -/
def RoomIn : List String8 → WsfTable → (n k : String8) → Prop
  | [], tb, _, k => tb.value (asString32 k) = none
  | g :: gs, tb, n, k =>
    let k32 := urlDecodedString uc k
    let child := childTable uc tb k32 n
    let k' := keyOrIndex g child
    TableOrFree (tb.value k32) ∧ RoomIn gs child (appendKey n k') k'

variable {uc}

/-- What a call does to the leaves: one more if there is room, otherwise not more. -/
def Added (room : Prop) (before after : ℕ) : Prop :=
  (room → after = before + 1) ∧ (¬ room → after ≤ before)

lemma WsfTable.leaves_toValue (t : WsfTable) : t.toValue.leaves = leavesOf t.values := by
  simp [WsfTable.toValue, WsfValue.leaves]

lemma WsfTable.full_toValue (t : WsfTable) : t.toValue.Full ↔ FullEntries t.values := by
  simp [WsfTable.toValue, WsfValue.Full]

/-- The table taken from a slot has full entries, and so has an empty one. -/
lemma fullEntries_taken (slot : Option WsfValue) (new : WsfTable) (hnew : new.values = [])
    (hslot : ∀ v, slot = some v → 0 < v.leaves ∧ v.Full) :
    FullEntries ((slot.bind WsfValue.asTable).getD new).values := by
  rcases hc : slot.bind WsfValue.asTable with _ | c
  · simp [hnew, FullEntries]
  · obtain ⟨v, hv, hvc⟩ := Option.bind_eq_some_iff.mp hc
    rw [WsfValue.asTable_eq_some.mp hvc] at hv
    exact (WsfTable.full_toValue c).mp (hslot _ hv).2

/-- The leaves of the table around a slot, when the table taken from the slot or an empty one is
filled and stored there.

**Proof sketch.** A free slot gains the leaves of the filled table, which are one. A table is
replaced by itself with what it gained. A string is replaced by a table with one leaf, and is
lost. -/
lemma added_of_slot (slot : Option WsfValue) (new : WsfTable) {room : Prop}
    {filled before after : ℕ} (hnew : new.values = [])
    (hslot : ∀ v, slot = some v → 0 < v.leaves ∧ v.Full) (hpos : 0 < filled)
    (hadd : Added room (leavesOf ((slot.bind WsfValue.asTable).getD new).values) filled)
    (hsum : after + slot.elim 0 WsfValue.leaves = before + filled) :
    Added (TableOrFree slot ∧ room) before after := by
  have hempty : leavesOf new.values = 0 := by simp [hnew, leavesOf]
  rcases slot with _ | v
  · have hfree : TableOrFree none := fun v hv => by simp at hv
    simp only [Option.bind_none, Option.getD_none, hempty, Option.elim_none] at hadd hsum
    refine ⟨fun h => ?_, fun h => ?_⟩
    · have := hadd.1 h.2
      omega
    · have := hadd.2 fun hr => h ⟨hfree, hr⟩
      omega
  · have hv := (hslot v rfl).1
    rcases hc : v.asTable with _ | c
    · have hmax : filled ≤ 1 := by
        simp only [Option.bind_some, hc, Option.getD_none, hempty] at hadd
        by_cases hr : room
        · exact (hadd.1 hr).le
        · exact (hadd.2 hr).trans (by omega)
      have htaken : ¬ TableOrFree (some v) := fun h => by simpa [hc] using h v rfl
      simp only [Option.elim_some] at hsum
      exact ⟨fun h => absurd h.1 htaken, fun _ => by omega⟩
    · have htable : TableOrFree (some v) := fun w hw => by
        obtain rfl := Option.some.inj hw
        simp [hc]
      simp only [Option.bind_some, hc, Option.getD_some] at hadd
      rw [WsfValue.asTable_eq_some.mp hc, Option.elim_some, WsfTable.leaves_toValue] at hsum
      refine ⟨fun h => ?_, fun h => ?_⟩
      · have := hadd.1 h.2
        omega
      · have := hadd.2 fun hr => h ⟨htable, hr⟩
        omega

variable (uc) in
/-- **Storing along groups** adds one leaf if there is room and none otherwise; the table then has
a leaf and its entries stay full.

**Proof sketch.** Induction on the groups, following `insert`. The table below takes the place of
what was stored under the key: of nothing, of itself before the call, or of a string, which is
then lost. -/
lemma insert_leaves (aValue : String8) (gs : List String8) (tb : WsfTable) (n k : String8)
    (hfull : FullEntries tb.values) :
    FullEntries (WsfTable.insert uc aValue gs tb n k).values ∧
      0 < leavesOf (WsfTable.insert uc aValue gs tb n k).values ∧
      Added (RoomIn uc gs tb n k) (leavesOf tb.values)
        (leavesOf (WsfTable.insert uc aValue gs tb n k).values) := by
  induction gs generalizing tb n k with
  | nil =>
    have hstr : (WsfValue.string (WsfString.make uc n aValue)).leaves = 1 := by
      simp [WsfValue.leaves]
    have hsum := leavesOf_force tb.values (.string (WsfString.make uc n aValue)) (asString32 k)
    have hself : HashTable.item
        (tb.values.force (.string (WsfString.make uc n aValue)) (asString32 k)) (asString32 k) =
          some (.string (WsfString.make uc n aValue)) := HashTable.item_force_self _ _ _
    have hpos := leaves_le_leavesOf hself
    simp only [WsfTable.insert, WsfTable.addValue_values]
    refine ⟨hfull.force (by omega) (by simp [WsfValue.Full]), by omega, ?_, ?_⟩
    · intro hroom
      simp only [RoomIn, WsfTable.value] at hroom
      rw [hroom, Option.elim_none] at hsum
      omega
    · intro hroom
      simp only [RoomIn, WsfTable.value] at hroom
      obtain ⟨v, hv⟩ := Option.ne_none_iff_exists'.mp hroom
      have hv' := (hfull.item hv).1
      rw [hv, Option.elim_some] at hsum
      omega
  | cons g gs ih =>
    set k32 := urlDecodedString uc k with hk32
    set child := childTable uc tb k32 n with hchild
    set k' := keyOrIndex g child with hk'
    set child' := WsfTable.insert uc aValue gs child (appendKey n k') k' with hchild'
    have hins : (WsfTable.insert uc aValue (g :: gs) tb n k).values =
        tb.values.force child'.toValue k32 := rfl
    have hslot : ∀ v, tb.value k32 = some v → 0 < v.leaves ∧ v.Full := fun v hv => hfull.item hv
    obtain ⟨hf, hp, hadd⟩ := ih child (appendKey n k') k'
      (fullEntries_taken (tb.value k32) (WsfTable.make uc n) rfl hslot)
    rw [← hchild'] at hf hp hadd
    have hsum := leavesOf_force tb.values child'.toValue k32
    have hself : HashTable.item (tb.values.force child'.toValue k32) k32 = some child'.toValue :=
      HashTable.item_force_self _ _ _
    have hle := leaves_le_leavesOf hself
    rw [WsfTable.leaves_toValue] at hsum hle
    rw [hins]
    refine ⟨hfull.force ?_ ((WsfTable.full_toValue _).mpr hf), by omega, ?_⟩
    · rwa [WsfTable.leaves_toValue]
    · exact added_of_slot (tb.value k32) (WsfTable.make uc n) rfl hslot hp hadd hsum

end Insert

/-! ## Names -/

/-- `[k]`. -/
def bracketed (k : String8) : String8 := ch '[' :: (k ++ [ch ']'])

/-- A parameter name `base`, `base[]` or `base[k1]…[kn]`; an empty key asks for the next index. -/
structure ParamName where
  /-- The text before the brackets. -/
  base : String8
  /-- The texts in the brackets. -/
  keys : List String8
  /-- The base has no bracket. -/
  base_plain : ch '[' ∉ base ∧ ch ']' ∉ base
  /-- No key has a bracket. -/
  keys_plain : ∀ k ∈ keys, ch '[' ∉ k ∧ ch ']' ∉ k

/-- The name as it is sent. -/
def ParamName.text (name : ParamName) : String8 := name.base ++ name.keys.flatMap bracketed

lemma adjust_flatMap_bracketed (ks : List String8) :
    adjust (ks.flatMap bracketed) = ks.flatMap bracketed := by
  rcases List.eq_nil_or_concat ks with rfl | ⟨ks, k, rfl⟩
  · rfl
  · have hend : (ks ++ [k]).flatMap bracketed =
        (ks.flatMap bracketed ++ ch '[' :: k) ++ [ch ']'] := by simp [bracketed]
    have hstart : Text.leftAdjust isSpace ((ks ++ [k]).flatMap bracketed) =
        (ks ++ [k]).flatMap bracketed := by
      rcases ks with _ | ⟨j, ks⟩ <;>
        simp [Text.leftAdjust, bracketed, not_isSpace_open]
    rw [List.concat_eq_append, adjust, hstart, hend, Text.rightAdjust]
    exact List.rdropWhile_concat_neg _ _ _ (by simp [not_isSpace_close])

lemma groups_flatMap_bracketed {ks : List String8} (h : ∀ k ∈ ks, ch '[' ∉ k ∧ ch ']' ∉ k) :
    Groups (ks.flatMap bracketed) ks := by
  induction ks with
  | nil => exact .nil
  | cons k ks ih =>
    have htail := ih fun j hj => h j (by simp [hj])
    rw [← adjust_flatMap_bracketed] at htail
    have hcons := Groups.cons (a := []) (by simp) (h k (by simp)).2 htail
    simpa [bracketed] using hcons

/-! ## One call -/

section Call

variable (uc : UnicodeConversion)

/-- There is room in the table for a value under the name. A flat name needs that no table is
stored under it, a name with keys needs room for its keys. -/
def Room (name : ParamName) (t : ValueTable) : Prop :=
  match name.keys with
  | [] => (t.item (urlDecodedString uc name.base)).bind WsfValue.asTable = none
  | g :: gs =>
    let tb := baseTable uc t name.base
    let k := keyOrIndex (adjust g) tb
    TableOrFree (t.item (urlDecodedString uc name.base)) ∧ RoomIn uc gs tb (appendKey name.base k) k

variable {uc}

/-- Storing a string flat adds one leaf unless it replaces a table. -/
lemma storeValue_leaves {t : ValueTable} (ht : FullEntries t) (s : WsfString) :
    FullEntries (storeValue t (.string s)) ∧
      Added ((t.item s.name).bind WsfValue.asTable = none) (leavesOf t)
        (leavesOf (storeValue t (.string s))) := by
  have hstr : (WsfValue.string s).leaves = 1 := by simp [WsfValue.leaves]
  have hname : (WsfValue.string s).name = s.name := rfl
  rcases hi : t.item s.name with _ | v
  · have hsum := leavesOf_force t (.string s) s.name
    rw [hi, Option.elim_none, hstr] at hsum
    have hst : storeValue t (.string s) = t.force (.string s) s.name := by
      simp [storeValue, hname, hi]
    rw [hst]
    exact ⟨ht.force (by omega) (by simp [WsfValue.Full]), fun _ => by omega, fun h => by simp at h⟩
  · have hv := (ht.item hi).1
    -- the string joins what is there; a table is dropped
    obtain ⟨l, m, hst, hl⟩ : ∃ l m, storeValue t (.string s) =
        t.force (.multipleString m (l ++ [s])) s.name ∧
          l.length = if v.asTable = none then v.leaves else 0 := by
      cases v with
      | string w =>
        exact ⟨[w], w.name, by simp [storeValue, hi, WsfValue.makeWithArray,
          WsfValue.addToMultiple, WsfValue.name], by simp [WsfValue.asTable, WsfValue.leaves]⟩
      | multipleString m l =>
        exact ⟨l, m, by simp [storeValue, hname, hi, WsfValue.addToMultiple],
          by simp [WsfValue.asTable, WsfValue.leaves]⟩
      | table m vs =>
        exact ⟨[], m, by simp [storeValue, hi, WsfValue.makeWithArray,
          WsfValue.addToMultiple, WsfValue.name], by simp [WsfValue.asTable]⟩
    have hmulti : (WsfValue.multipleString m (l ++ [s])).leaves = l.length + 1 := by
      simp [WsfValue.leaves]
    have hsum := leavesOf_force t (.multipleString m (l ++ [s])) s.name
    rw [hi, Option.elim_some, hmulti] at hsum
    rw [hst]
    refine ⟨ht.force (by omega) (by simp [WsfValue.Full]), fun h => ?_, fun h => ?_⟩
    · rw [Option.bind_some] at h
      rw [if_pos h] at hl
      omega
    · rw [Option.bind_some] at h
      rw [if_neg h] at hl
      omega

variable (uc) in
/-- Storing along the groups of a name adds one leaf if there is room. -/
lemma storeGroup_leaves {t : ValueTable} (ht : FullEntries t) (hn : TablesNamed t)
    (aValue b g : String8) (gs : List String8) :
    FullEntries (storeGroup uc aValue b g gs t) ∧
      Added (TableOrFree (t.item (urlDecodedString uc b)) ∧
          RoomIn uc gs (baseTable uc t b) (appendKey b (keyOrIndex (adjust g) (baseTable uc t b)))
            (keyOrIndex (adjust g) (baseTable uc t b)))
        (leavesOf t) (leavesOf (storeGroup uc aValue b g gs t)) := by
  set key := urlDecodedString uc b with hkey
  set tb := baseTable uc t b with htb
  set k := keyOrIndex (adjust g) tb with hk
  set tb' := WsfTable.insert uc aValue gs tb (appendKey b k) k with htb'
  have hslot : ∀ v, t.item key = some v → 0 < v.leaves ∧ v.Full := fun v hv => ht.item hv
  obtain ⟨hf, hp, hadd⟩ := insert_leaves uc aValue gs tb (appendKey b k) k
    (fullEntries_taken (t.item key) (WsfTable.make uc b) rfl hslot)
  rw [← htb'] at hf hp hadd
  have hname : tb'.name = key := by rw [htb', WsfTable.insert_name, htb, baseTable_name hn]
  have hstore : storeGroup uc aValue b g gs t = storeTable t key tb' := rfl
  rw [hstore, storeTable_eq hname]
  split
  · have hsum := leavesOf_force t tb'.toValue key
    rw [WsfTable.leaves_toValue] at hsum
    refine ⟨ht.force ?_ ((WsfTable.full_toValue _).mpr hf), ?_⟩
    · rwa [WsfTable.leaves_toValue]
    · exact added_of_slot (t.item key) (WsfTable.make uc b) rfl hslot hp hadd hsum
  · next h =>
    -- a string is stored under the base, and the call changes nothing
    refine ⟨ht, fun hroom => absurd ?_ h, fun _ => le_rfl⟩
    rcases hi : t.item key with _ | v
    · exact Or.inr rfl
    · left
      rw [Option.bind_some]
      exact hroom.1 v hi

variable (uc) in
/-- **One call** adds one leaf if there is room for the name, and none otherwise. -/
lemma addValueToTable_leaves (name : ParamName) (aValue : String8) {t : ValueTable}
    (ht : FullEntries t) (hn : TablesNamed t) :
    ∃ t', addValueToTable uc name.text aValue t = some t' ∧ FullEntries t' ∧ TablesNamed t' ∧
      Added (Room uc name t) (leavesOf t) (leavesOf t') := by
  obtain ⟨base, keys, hbase, hkeys⟩ := name
  rcases keys with _ | ⟨g, gs⟩
  · have hplain : ¬ HasGroup (ParamName.mk base [] hbase hkeys).text := by
      simpa [ParamName.text] using not_hasGroup_of_notMem hbase.1
    have htext : (ParamName.mk base [] hbase hkeys).text = base := by simp [ParamName.text]
    rw [htext] at hplain ⊢
    obtain ⟨hfull, hadd⟩ := storeValue_leaves ht (WsfString.make uc base aValue)
    exact ⟨_, addValueToTableWithin_plain hplain _ aValue t, hfull,
      (storeValue_keyAdded hn _).named, hadd⟩
  · have htext : (ParamName.mk base (g :: gs) hbase hkeys).text =
        base ++ ch '[' :: (g ++ ch ']' :: gs.flatMap bracketed) := by
      simp [ParamName.text, bracketed]
    have hgs : Groups (adjust (gs.flatMap bracketed)) gs := by
      rw [adjust_flatMap_bracketed]
      exact groups_flatMap_bracketed fun k hk => hkeys k (by simp [hk])
    have hparses : Parses (ParamName.mk base (g :: gs) hbase hkeys).text := by
      by_contra h
      have hnone := addValueToTableWithin_eq_none uc h
        (gs.flatMap bracketed).length aValue t
      rw [htext, addValueToTableWithin_group hbase.1 (hkeys g (by simp)).2 hgs le_rfl] at hnone
      simp at hnone
    obtain ⟨t', ht', hkey⟩ := keys_addValueToTable uc hparses aValue hn
    obtain ⟨hfull, hadd⟩ := storeGroup_leaves uc ht hn aValue base g gs
    have hrun : addValueToTable uc (ParamName.mk base (g :: gs) hbase hkeys).text aValue t =
        some (storeGroup uc aValue base g gs t) := by
      rw [htext]
      exact addValueToTableWithin_group hbase.1 (hkeys g (by simp)).2 hgs (by simp; omega) aValue t
    obtain rfl : storeGroup uc aValue base g gs t = t' := Option.some.inj (hrun.symm.trans ht')
    exact ⟨_, hrun, hfull, hkey.named, hadd⟩

end Call

/-! ## Sequences of calls -/

section Run

variable (uc : UnicodeConversion)

/-- The calls `add_value_to_table (name, value, t)`, in order. -/
def addCalls (calls : List (ParamName × String8)) (t : ValueTable) : Option ValueTable :=
  addPairs uc (calls.map fun c => (c.1.text, c.2)) t

/-- There is room at every step of a sequence of calls that starts with the table `t`. -/
def RoomyRun : List (ParamName × String8) → ValueTable → Prop
  | [], _ => True
  | c :: calls, t =>
    Room uc c.1 t ∧ ∀ t', addValueToTable uc c.1.text c.2 t = some t' → RoomyRun calls t'

variable {uc}

variable (uc) in
/-- The leaves after a sequence of calls, from any table that calls can lead to.

**Proof sketch.** Induction on the calls with `addValueToTable_leaves`. A call without room leaves
the count at least one short of the number of calls, and no later call makes up for it. -/
lemma addCalls_leaves (calls : List (ParamName × String8)) {t : ValueTable} (ht : FullEntries t)
    (hn : TablesNamed t) :
    ∃ t', addCalls uc calls t = some t' ∧ leavesOf t' ≤ leavesOf t + calls.length ∧
      (leavesOf t' = leavesOf t + calls.length ↔ RoomyRun uc calls t) := by
  induction calls generalizing t with
  | nil => exact ⟨t, rfl, by simp, by simp [RoomyRun]⟩
  | cons c calls ih =>
    obtain ⟨t₁, h₁, hfull, hnamed, hadd⟩ := addValueToTable_leaves uc c.1 c.2 ht hn
    obtain ⟨t₂, h₂, hle, hiff⟩ := ih hfull hnamed
    have hrun : addCalls uc (c :: calls) t = addCalls uc calls t₁ := by
      simp [addCalls, addPairs, h₁]
    have hroomy : RoomyRun uc (c :: calls) t ↔ Room uc c.1 t ∧ RoomyRun uc calls t₁ := by
      simp [RoomyRun, h₁]
    refine ⟨t₂, hrun.trans h₂, ?_⟩
    rw [hroomy, ← hiff, List.length_cons]
    by_cases hroom : Room uc c.1 t
    · have := hadd.1 hroom
      simp only [hroom, true_and]
      omega
    · have := hadd.2 hroom
      simp only [hroom, false_and, iff_false]
      omega

/-- **No string is lost exactly when there is room at every step.** After any sequence of calls
from the empty table, the number of strings that can be reached is the number of calls if and only
if every call found room for its name; it is never more. -/
theorem leaves_eq_length_iff (uc : UnicodeConversion) (calls : List (ParamName × String8)) :
    ∃ t, addCalls uc calls [] = some t ∧ leavesOf t ≤ calls.length ∧
      (leavesOf t = calls.length ↔ RoomyRun uc calls []) := by
  obtain ⟨t, ht, hle, hiff⟩ := addCalls_leaves uc calls
    (by simp [FullEntries] : FullEntries []) tablesNamed_nil
  have hzero : leavesOf [] = 0 := by simp [leavesOf]
  rw [hzero, Nat.zero_add] at hle hiff
  exact ⟨t, ht, hle, hiff⟩

end Run

/-- The forms `base`, `base[]` and `base[k1]…[kn]` with no empty key. -/
def ParamName.Listed (name : ParamName) : Prop := name.keys = [[]] ∨ ∀ k ∈ name.keys, k ≠ []

/-- Two names with the same explicit key path. -/
def ParamName.SamePath (a b : ParamName) : Prop :=
  a.keys ≠ [] ∧ (∀ k ∈ a.keys, k ≠ []) ∧ a.text = b.text

/-- The calls for `a[]=1` and `a=2`: the second replaces the table of the first. -/
theorem leaves_lost_flat_after_list :
    ¬ ∀ calls : List (ParamName × String8), (∀ c ∈ calls, c.1.Listed) →
      calls.Pairwise (fun c d => ¬ c.1.SamePath d.1) →
      ∀ t, addCalls standardConversion calls [] = some t → leavesOf t = calls.length := by
  intro hall
  let list : ParamName := ⟨str "a", [[]], by decide, by decide⟩
  let flat : ParamName := ⟨str "a", [], by decide, by decide⟩
  have hlisted : ∀ c ∈ [(list, str "1"), (flat, str "2")], c.1.Listed := by
    simp [ParamName.Listed, list, flat]
  have hpaths : [(list, str "1"), (flat, str "2")].Pairwise (fun c d => ¬ c.1.SamePath d.1) := by
    simp [ParamName.SamePath, list]
  obtain ⟨t, ht, -, hiff⟩ := addCalls_leaves standardConversion
    [(list, str "1"), (flat, str "2")] (by simp [FullEntries] : FullEntries []) tablesNamed_nil
  have hroomy := hiff.mp (by
    rw [hall _ hlisted hpaths t ht]
    simp [leavesOf])
  -- the table after the first call holds a table under the base
  have hfirst : addValueToTable standardConversion list.text (str "1") [] =
      some (storeGroup standardConversion (str "1") (str "a") [] [] []) :=
    addValueToTableWithin_group (b := str "a") (g := []) (r := []) (by decide)
      (by decide) .nil (by decide) _ _
  have hroom := (hroomy.2 _ hfirst).1
  simp [Room, flat, storeGroup, storeTable, baseTable, WsfTable.make, WsfTable.insert,
    WsfTable.addValue, WsfTable.toValue, HashTable.hasKey, HashTable.force, HashTable.item,
    WsfValue.asTable] at hroom

end EiffelWeb
