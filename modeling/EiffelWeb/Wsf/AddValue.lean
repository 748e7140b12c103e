import Mathlib.Data.List.Basic
import Mathlib.Tactic.Common
import EiffelWeb.Loop
import EiffelWeb.Wsf.Value

set_option relaxedAutoImplicit false
set_option autoImplicit false

/-!
# Adding a parameter to a table

The routine `add_value_to_table` of `WSF_REQUEST` and of `WSF_MIME_HANDLER_HELPER`, which have the
same text. A name `base[k1][k2]…` stores its value in tables inside tables, every other name is
stored flat, and a flat name that occurs again becomes a `WSF_MULTIPLE_STRING`.

The loop over the bracketed groups changes tables that are reachable from each other. Its state
keeps the tables it went through with the key each was left by; when the loop is over every table
is stored back into its parent.

## Main definitions

* `NameState`, `groupLoop` — the loop over the groups that follow the first one.
* `addValueToTableWithin`, `addValueToTable` — the routine.
* `Groups` — the groups of the remaining text, as a relation.
* `WsfTable.insert` — storing a value along a list of groups.
* `Parses` — the names on which the loop ends.

## Main results

* `groupLoop_run` — the loop stores the value along the groups.
* `addValueToTableWithin_plain`, `addValueToTableWithin_group` — the routine on the two kinds of
  names.
* `addValueToTable_terminates_iff` — when the routine returns.
-/

namespace EiffelWeb

/-- State of the loop of `add_value_to_table` over the groups after the first one. -/
structure NameState where
  /-- The tables the loop went through, the innermost first, with the key under which the next
  one is stored. -/
  parents : List (WsfTable × String32)
  /-- The local `tb`. -/
  tb : WsfTable
  /-- The local `n`: the name read so far. -/
  n : String8
  /-- The local `k`: the last key read. -/
  k : String8
  /-- The local `r`: the text to read. -/
  r : String8

/-- `n.append_character ('['); n.append (k); n.append_character (']')`. -/
def appendKey (n k : String8) : String8 := n ++ ch '[' :: (k ++ [ch ']'])

/-- `if k.is_empty then k.append_integer (tb.count + 1) end`. -/
def keyOrIndex (k : String8) (tb : WsfTable) : String8 :=
  if k.isEmpty then natOut (tb.count + 1) else k

section Routine

variable (uc : UnicodeConversion)

/-- The table stored in `ptb` under `k`, or a new one of name `n`. -/
def childTable (ptb : WsfTable) (k : String32) (n : String8) : WsfTable :=
  ((ptb.value k).bind WsfValue.asTable).getD (WsfTable.make uc n)

/-- The loop over the groups after the first one. A text with an opening bracket and no closing
bracket behind it is left as it is. -/
def groupLoop : Loop NameState where
  exit st := st.r.isEmpty
  body st :=
    let p := Text.indexOf st.r (ch '[') 1
    if 0 < p then
      let q := Text.indexOf st.r (ch ']') (p + 1)
      if p < q then
        let k32 := urlDecodedString uc st.k
        let tb := childTable uc st.tb k32 st.n
        let k := keyOrIndex (Text.substring st.r (p + 1) (q - 1)) tb
        some {
          parents := (st.tb, k32) :: st.parents
          tb := tb
          n := appendKey st.n k
          k := k
          r := adjust (Text.substring st.r (q + 1) st.r.length) }
      else some st
    else some { st with r := [] }

/-- Every table is stored back into its parent. -/
def closeTables : List (WsfTable × String32) → WsfTable → WsfTable
  | [], tb => tb
  | (ptb, k) :: parents, tb => closeTables parents (ptb.addValue tb.toValue k)

/-- The table `v` after the value was added, for a name that starts with `n[k]` and goes on with
`r`: the loop, then `tb.add_value (new_string_value (n, a_value), k)`. -/
def addToGroup (fuel : ℕ) (tb : WsfTable) (n k r aValue : String8) : Option WsfTable :=
  ((groupLoop uc).run fuel ⟨[], tb, appendKey n k, k, r⟩).map fun st =>
    closeTables st.parents
      (st.tb.addValue (.string (WsfString.make uc st.n aValue)) (asString32 st.k))

/-- The end of `add_value_to_table` for a flat value. -/
def storeValue (aTable : ValueTable) (v : WsfValue) : ValueTable :=
  match aTable.item v.name with
  | some (.multipleString n l) =>
    aTable.force (.multipleString n (WsfValue.addToMultiple l v)) v.name
  | some w => aTable.force (WsfValue.makeWithArray w v) v.name
  | none => aTable.force v v.name

/-- The end of `add_value_to_table` for a table `v` that was taken from `a_table` under `key` or
created. A table taken from there is changed in place; a created one is dropped if something is
stored under its name. -/
def storeTable (aTable : ValueTable) (key : String32) (v : WsfTable) : ValueTable :=
  let aTable :=
    if ((aTable.item key).bind WsfValue.asTable).isSome then aTable.force v.toValue key else aTable
  if aTable.hasKey v.name then aTable else aTable.force v.toValue v.name

/-- `add_value_to_table (a_name, a_value, a_table)` with at most `fuel` iterations of its loop:
the table afterwards, `none` if the loop is not over. -/
def addValueToTableWithin (fuel : ℕ) (aName aValue : String8) (aTable : ValueTable) :
    Option ValueTable :=
  let p := Text.indexOf aName (ch '[') 1
  let q := Text.indexOf aName (ch ']') (p + 1)
  if 0 < p ∧ p < q then
    let n := Text.substring aName 1 (p - 1)
    let r := adjust (Text.substring aName (q + 1) aName.length)
    let new := WsfTable.make uc n
    let tb := ((aTable.item new.name).bind WsfValue.asTable).getD new
    let k := keyOrIndex (adjust (Text.substring aName (p + 1) (q - 1))) tb
    (addToGroup uc fuel tb n k r aValue).map (storeTable aTable new.name)
  else some (storeValue aTable (.string (WsfString.make uc aName aValue)))

/-- `add_value_to_table (a_name, a_value, a_table)`; the loop runs at most once for each character
of the name. -/
def addValueToTable (aName aValue : String8) (aTable : ValueTable) : Option ValueTable :=
  addValueToTableWithin uc aName.length aName aValue aTable

end Routine

/-! ## The groups of a text -/

/-- The bracketed groups of the text `r` that the loop reads: the texts between an opening bracket
and the next closing bracket. What stands between two groups is ignored. -/
inductive Groups : String8 → List String8 → Prop
  /-- The text is read. -/
  | nil : Groups [] []
  /-- No group is left. -/
  | junk {r : String8} (hr : r ≠ []) (h : ch '[' ∉ r) : Groups r []
  /-- A group, and the groups of the rest. -/
  | cons {a g r : String8} {gs : List String8} (ha : ch '[' ∉ a) (hg : ch ']' ∉ g)
      (h : Groups (adjust r) gs) : Groups (a ++ ch '[' :: (g ++ ch ']' :: r)) (g :: gs)

lemma not_isSpace_open : isSpace (ch '[') = false := by decide

lemma not_isSpace_close : isSpace (ch ']') = false := by decide

/-- Adjusting a text does not change whether an opening bracket stands after the last closing
one. -/
lemma mem_afterLast_adjust (s : String8) :
    ch '[' ∈ Text.afterLast (ch ']') (adjust s) ↔ ch '[' ∈ Text.afterLast (ch ']') s := by
  obtain ⟨u, w, hs, hu, hw⟩ := Text.adjust_split isSpace s
  have hou : ch '[' ∉ u := fun h => absurd (hu _ h) (by simp [not_isSpace_open])
  have how : ch '[' ∉ w := fun h => absurd (hw _ h) (by simp [not_isSpace_open])
  have hcw : ch ']' ∉ w := fun h => absurd (hw _ h) (by simp [not_isSpace_close])
  rw [adjust]
  conv_rhs => rw [hs]
  exact (Text.mem_afterLast_middle hou hcw how).symm

/-- Behind a bracketed group, only the adjusted rest matters. -/
lemma mem_afterLast_group (a g r : String8) :
    ch '[' ∈ Text.afterLast (ch ']') (a ++ ch '[' :: (g ++ ch ']' :: r)) ↔
      ch '[' ∈ Text.afterLast (ch ']') (adjust r) := by
  rw [Text.afterLast_append_cons_append_cons, mem_afterLast_adjust]

lemma length_adjust_le (s : String8) : (adjust s).length ≤ s.length := by
  obtain ⟨u, w, hs, -, -⟩ := Text.adjust_split isSpace s
  rw [adjust]
  conv_rhs => rw [hs]
  simp only [List.length_append]
  omega

/-- A text with no opening bracket after the last closing one can be read to its end. -/
lemma exists_groups {r : String8} (h : ch '[' ∉ Text.afterLast (ch ']') r) :
    ∃ gs, Groups r gs := by
  induction hn : r.length using Nat.strong_induction_on generalizing r with
  | _ n ih =>
    rcases Text.notMem_or_split (ch '[') r with ho | ⟨a, s, rfl, ha⟩
    · by_cases hr : r = []
      · exact ⟨[], hr ▸ .nil⟩
      · exact ⟨[], .junk hr ho⟩
    · rcases Text.notMem_or_split (ch ']') s with hc | ⟨g, r', rfl, hg⟩
      · exact absurd (Text.mem_afterLast_of_notMem a (by decide) hc) h
      · rw [mem_afterLast_group] at h
        have hlt : (adjust r').length < n := by
          have := length_adjust_le r'
          simp only [List.length_append, List.length_cons] at hn
          omega
        obtain ⟨gs, hgs⟩ := ih _ hlt h rfl
        exact ⟨g :: gs, .cons ha hg hgs⟩

/-! ## The loop -/

section Loop

variable (uc : UnicodeConversion)

/-- Storing a value along the groups `gs`, in the table `tb` and for the name `n` whose last key
is `k`. -/
def WsfTable.insert (aValue : String8) :
    List String8 → WsfTable → (n k : String8) → WsfTable
  | [], tb, n, k => tb.addValue (.string (WsfString.make uc n aValue)) (asString32 k)
  | g :: gs, tb, n, k =>
    let k32 := urlDecodedString uc k
    let child := childTable uc tb k32 n
    let k' := keyOrIndex g child
    tb.addValue (insert aValue gs child (appendKey n k') k').toValue k32

@[simp] lemma WsfTable.insert_name (aValue : String8) (gs : List String8) (tb : WsfTable)
    (n k : String8) : (WsfTable.insert uc aValue gs tb n k).name = tb.name := by
  cases gs <;> rfl

variable {uc}

/-- The state after a group. -/
def NameState.enter (uc : UnicodeConversion) (st : NameState) (g r : String8) : NameState :=
  let k32 := urlDecodedString uc st.k
  let tb := childTable uc st.tb k32 st.n
  let k := keyOrIndex g tb
  ⟨(st.tb, k32) :: st.parents, tb, appendKey st.n k, k, adjust r⟩

lemma groupLoop_body_group (st : NameState) {a g r : String8} (ha : ch '[' ∉ a) (hg : ch ']' ∉ g)
    (hr : st.r = a ++ ch '[' :: (g ++ ch ']' :: r)) :
    (groupLoop uc).body st = some (st.enter uc g r) := by
  have hp : Text.indexOf st.r (ch '[') 1 = a.length + 1 := by rw [hr, Text.indexOf_one_eq _ _ ha]
  have hsplit : st.r = (a ++ [ch '[']) ++ (g ++ ch ']' :: r) := by simp [hr]
  have hq : Text.indexOf st.r (ch ']') (a.length + 1 + 1) = a.length + 1 + g.length + 1 := by
    rw [hsplit, Text.indexOf_eq _ _ _ (by simp) hg]
    simp
  have hk : Text.substring st.r (a.length + 1 + 1) (a.length + 1 + g.length + 1 - 1) = g := by
    rw [hsplit]
    exact Text.substring_eq _ _ _ (by simp) (by simp)
  have hrest : Text.substring st.r (a.length + 1 + g.length + 1 + 1) st.r.length = r := by
    have hsplit' : st.r = (a ++ ch '[' :: (g ++ [ch ']'])) ++ r := by simp [hr]
    rw [hsplit']
    exact Text.substring_suffix _ _ (by simp; omega) rfl
  simp only [groupLoop, hp, hq, hk, hrest]
  rw [if_pos (by omega), if_pos (by omega)]
  rfl

lemma groupLoop_body_junk (st : NameState) (h : ch '[' ∉ st.r) :
    (groupLoop uc).body st = some { st with r := [] } := by
  simp [groupLoop, Text.indexOf_one_eq_zero h]

/-- A text with an opening bracket and no closing bracket behind it stops the loop from making
progress. -/
lemma groupLoop_body_open (st : NameState) {a s : String8} (ha : ch '[' ∉ a) (hs : ch ']' ∉ s)
    (hr : st.r = a ++ ch '[' :: s) : (groupLoop uc).body st = some st := by
  have hp : Text.indexOf st.r (ch '[') 1 = a.length + 1 := by rw [hr, Text.indexOf_one_eq _ _ ha]
  have hsplit : st.r = (a ++ [ch '[']) ++ s := by simp [hr]
  have hq : Text.indexOf st.r (ch ']') (a.length + 1 + 1) = 0 := by
    rw [hsplit, Text.indexOf_eq_zero _ _ (by simp) hs]
  simp only [groupLoop, hp, hq]
  rw [if_pos (by omega), if_neg (by omega)]

/-- The tables after the loop and the final `add_value`. -/
def NameState.result (uc : UnicodeConversion) (aValue : String8) (st : NameState) : WsfTable :=
  closeTables st.parents
    (st.tb.addValue (.string (WsfString.make uc st.n aValue)) (asString32 st.k))

variable (uc) in
/-- **The loop stores the value along the groups**, within as many iterations as there are
characters.

**Proof sketch.** Induction on the groups. A group enters a table; by induction the loop stores the
value in it, and closing the new parent stores that table under the key it was left by, which is
the definition of `insert`. -/
lemma groupLoop_run (aValue : String8) {r : String8} {gs : List String8} (h : Groups r gs)
    (st : NameState)
    (hr : st.r = r) {fuel : ℕ} (hf : r.length ≤ fuel) :
    ∃ st', (groupLoop uc).run fuel st = some st' ∧
      st'.result uc aValue =
        closeTables st.parents (WsfTable.insert uc aValue gs st.tb st.n st.k) := by
  induction h generalizing st fuel with
  | nil => exact ⟨st, Loop.run_of_exit (by simp [groupLoop, hr]) _, rfl⟩
  | @junk r hne ho =>
    obtain ⟨fuel, rfl⟩ : ∃ m, fuel = m + 1 := ⟨fuel - 1, by
      have := List.length_pos_of_ne_nil hne
      omega⟩
    have he : (groupLoop uc).exit st = false := by simp [groupLoop, hr, hne]
    refine ⟨{ st with r := [] }, ?_, rfl⟩
    rw [Loop.run_succ he (groupLoop_body_junk st (hr ▸ ho)), Loop.run_of_exit rfl]
  | @cons a g r gs ha hg h ih =>
    have hlen := length_adjust_le r
    simp only [List.length_append, List.length_cons] at hf
    obtain ⟨fuel, rfl⟩ : ∃ m, fuel = m + 1 := ⟨fuel - 1, by omega⟩
    have he : (groupLoop uc).exit st = false := by simp [groupLoop, hr]
    obtain ⟨st', hrun, hres⟩ := ih (st.enter uc g r) rfl (show (adjust r).length ≤ fuel by omega)
    refine ⟨st', ?_, ?_⟩
    · rw [Loop.run_succ he (groupLoop_body_group st ha hg hr), hrun]
    · rw [hres]
      rfl

variable (uc) in
/-- The loop does not end on a text with an opening bracket after its last closing one.

**Proof sketch.** No group ends after the last closing bracket, so that the opening bracket is never
read: it keeps the text from being empty and from being discarded. -/
lemma groupLoop_not_terminates (st : NameState)
    (h : ch '[' ∈ Text.afterLast (ch ']') st.r) :
    ¬ (groupLoop uc).Terminates st := by
  refine Loop.not_terminates_of_invariant
    (fun st => ch '[' ∈ Text.afterLast (ch ']') st.r) (fun st hst => ?_) h
  have hmem : ch '[' ∈ st.r := Text.mem_of_mem_afterLast hst
  refine ⟨by simp [groupLoop, List.ne_nil_of_mem hmem], fun st' hb => ?_⟩
  obtain ⟨a, s, hr, ha⟩ := (Text.notMem_or_split (ch '[') st.r).resolve_left (not_not.mpr hmem)
  rcases Text.notMem_or_split (ch ']') s with hs | ⟨g, r, rfl, hg⟩
  · rw [groupLoop_body_open st ha hs hr, Option.some.injEq] at hb
    exact hb ▸ hst
  · rw [groupLoop_body_group st ha hg hr, Option.some.injEq] at hb
    rw [hr, mem_afterLast_group] at hst
    exact hb ▸ hst

end Loop

/-! ## The routine -/

/-- The name has a closing bracket after its first opening bracket. -/
def HasGroup (aName : String8) : Prop := ch ']' ∈ aName.dropWhile (· ≠ ch '[')

instance (aName : String8) : Decidable (HasGroup aName) :=
  inferInstanceAs (Decidable (_ ∈ _))

/-- The names on which the loop ends: those without a group, and those with no opening bracket
after the last closing one. -/
def Parses (aName : String8) : Prop :=
  ¬ HasGroup aName ∨ ch '[' ∉ Text.afterLast (ch ']') aName

instance (aName : String8) : Decidable (Parses aName) :=
  inferInstanceAs (Decidable (_ ∨ _))

lemma hasGroup_iff {aName : String8} : HasGroup aName ↔
    ∃ b g r, aName = b ++ ch '[' :: (g ++ ch ']' :: r) ∧ ch '[' ∉ b ∧ ch ']' ∉ g := by
  constructor
  · intro h
    rcases Text.notMem_or_split (ch '[') aName with ho | ⟨b, s, rfl, hb⟩
    · have hnil : aName.dropWhile (· ≠ ch '[') = [] := by
        rw [List.dropWhile_eq_nil_iff]
        intro c hc
        simpa using ne_of_mem_of_not_mem hc ho
      rw [HasGroup, hnil] at h
      exact absurd h List.not_mem_nil
    · rw [HasGroup, Text.dropWhile_ne hb] at h
      have hs : ch ']' ∈ s := by
        rcases List.mem_cons.mp h with he | hs
        · exact absurd he (by decide)
        · exact hs
      obtain ⟨g, r, rfl, hg⟩ := (Text.notMem_or_split (ch ']') s).resolve_left (not_not.mpr hs)
      exact ⟨b, g, r, rfl, hb, hg⟩
  · rintro ⟨b, g, r, rfl, hb, -⟩
    rw [HasGroup, Text.dropWhile_ne hb]
    simp

section Routine

variable (uc : UnicodeConversion)

/-- The table stored in `a_table` under the decoded `b`, or a new one. -/
def baseTable (aTable : ValueTable) (b : String8) : WsfTable :=
  ((aTable.item (urlDecodedString uc b)).bind WsfValue.asTable).getD (WsfTable.make uc b)

/-- Storing a value under the name with base `b`, first group `g` and further groups `gs`. -/
def storeGroup (aValue b g : String8) (gs : List String8) (aTable : ValueTable) : ValueTable :=
  let tb := baseTable uc aTable b
  let k := keyOrIndex (adjust g) tb
  storeTable aTable (urlDecodedString uc b) (WsfTable.insert uc aValue gs tb (appendKey b k) k)

variable {uc}

/-- A name without a group is stored flat. -/
lemma addValueToTableWithin_plain {aName : String8} (h : ¬ HasGroup aName) (fuel : ℕ)
    (aValue : String8) (aTable : ValueTable) :
    addValueToTableWithin uc fuel aName aValue aTable =
      some (storeValue aTable (.string (WsfString.make uc aName aValue))) := by
  rw [addValueToTableWithin]
  rcases Text.notMem_or_split (ch '[') aName with ho | ⟨b, s, hs, hb⟩
  · simp [Text.indexOf_one_eq_zero ho]
  · have hp : Text.indexOf aName (ch '[') 1 = b.length + 1 := by
      rw [hs, Text.indexOf_one_eq _ _ hb]
    have hsplit : aName = (b ++ [ch '[']) ++ s := by simp [hs]
    have hc : ch ']' ∉ s := fun hc => h (by
      rw [HasGroup, hs, Text.dropWhile_ne hb]
      exact List.mem_cons_of_mem _ hc)
    have hq : Text.indexOf aName (ch ']') (b.length + 1 + 1) = 0 := by
      rw [hsplit, Text.indexOf_eq_zero _ _ (by simp) hc]
    simp only [hp, hq]
    rw [if_neg (by omega)]

lemma addValueToTableWithin_eq {b g r : String8} (hb : ch '[' ∉ b) (hg : ch ']' ∉ g) (fuel : ℕ)
    (aValue : String8) (aTable : ValueTable) :
    addValueToTableWithin uc fuel (b ++ ch '[' :: (g ++ ch ']' :: r)) aValue aTable =
      (addToGroup uc fuel (baseTable uc aTable b) b
        (keyOrIndex (adjust g) (baseTable uc aTable b)) (adjust r) aValue).map
          (storeTable aTable (urlDecodedString uc b)) := by
  set aName := b ++ ch '[' :: (g ++ ch ']' :: r) with hs
  have hp : Text.indexOf aName (ch '[') 1 = b.length + 1 := Text.indexOf_one_eq _ _ hb
  have hsplit : aName = (b ++ [ch '[']) ++ (g ++ ch ']' :: r) := by simp [hs]
  have hsplit' : aName = (b ++ ch '[' :: (g ++ [ch ']'])) ++ r := by simp [hs]
  have hq : Text.indexOf aName (ch ']') (b.length + 1 + 1) = b.length + 1 + g.length + 1 := by
    rw [hsplit, Text.indexOf_eq _ _ _ (by simp) hg]
    simp
  have hn : Text.substring aName 1 (b.length + 1 - 1) = b := Text.substring_prefix _ _ (by simp)
  have hk : Text.substring aName (b.length + 1 + 1) (b.length + 1 + g.length + 1 - 1) = g := by
    rw [hsplit]
    exact Text.substring_eq _ _ _ (by simp) (by simp)
  have hr : Text.substring aName (b.length + 1 + g.length + 1 + 1) aName.length = r := by
    rw [hsplit']
    exact Text.substring_suffix _ _ (by simp; omega) rfl
  simp only [addValueToTableWithin, hp, hq, hn, hk, hr]
  rw [if_pos (by omega)]
  rfl

/-- **A name with groups** is stored along them. -/
lemma addValueToTableWithin_group {b g r : String8} {gs : List String8} (hb : ch '[' ∉ b)
    (hg : ch ']' ∉ g) (hgs : Groups (adjust r) gs) {fuel : ℕ} (hf : r.length ≤ fuel)
    (aValue : String8) (aTable : ValueTable) :
    addValueToTableWithin uc fuel (b ++ ch '[' :: (g ++ ch ']' :: r)) aValue aTable =
      some (storeGroup uc aValue b g gs aTable) := by
  rw [addValueToTableWithin_eq hb hg]
  set tb := baseTable uc aTable b with htb
  obtain ⟨st, hrun, hres⟩ := groupLoop_run uc aValue hgs
    ⟨[], tb, appendKey b (keyOrIndex (adjust g) tb), keyOrIndex (adjust g) tb, adjust r⟩ rfl
    ((length_adjust_le r).trans hf)
  have hadd : addToGroup uc fuel tb b (keyOrIndex (adjust g) tb) (adjust r) aValue =
      some (st.result uc aValue) := by
    rw [addToGroup, hrun]
    rfl
  rw [hadd, hres]
  rfl

variable (uc) in
/-- The routine returns on a name that parses, within as many iterations as the name has
characters. -/
lemma addValueToTableWithin_isSome {aName : String8} (h : Parses aName) {fuel : ℕ}
    (hf : aName.length ≤ fuel) (aValue : String8) (aTable : ValueTable) :
    (addValueToTableWithin uc fuel aName aValue aTable).isSome := by
  by_cases hn : HasGroup aName
  · obtain ⟨b, g, r, rfl, hb, hg⟩ := hasGroup_iff.mp hn
    have ho := h.resolve_left (not_not.mpr hn)
    rw [mem_afterLast_group] at ho
    obtain ⟨gs, hgs⟩ := exists_groups ho
    have hr : r.length ≤ fuel := by
      simp only [List.length_append, List.length_cons] at hf
      omega
    rw [addValueToTableWithin_group hb hg hgs hr]
    rfl
  · rw [addValueToTableWithin_plain hn]
    rfl

variable (uc) in
/-- The routine does not return on any other name. -/
lemma addValueToTableWithin_eq_none {aName : String8} (h : ¬ Parses aName) (fuel : ℕ)
    (aValue : String8) (aTable : ValueTable) :
    addValueToTableWithin uc fuel aName aValue aTable = none := by
  simp only [Parses, not_or, not_not] at h
  obtain ⟨b, g, r, rfl, hb, hg⟩ := hasGroup_iff.mp h.1
  have ho := h.2
  rw [mem_afterLast_group] at ho
  have hdiv := groupLoop_not_terminates uc
    ⟨[], baseTable uc aTable b, appendKey b (keyOrIndex (adjust g) (baseTable uc aTable b)),
      keyOrIndex (adjust g) (baseTable uc aTable b), adjust r⟩ ho
  have hnone := Option.not_isSome_iff_eq_none.mp (not_exists.mp hdiv fuel)
  rw [addValueToTableWithin_eq hb hg, addToGroup, hnone]
  rfl

variable (uc)

/-- A sequence of calls, as the loops over parameters, form fields and cookies make them. -/
def addValuesWithin (fuel : ℕ) (calls : List (String8 × String8)) (aTable : ValueTable) :
    Option ValueTable :=
  calls.foldlM (fun t c => addValueToTableWithin uc fuel c.1 c.2 t) aTable

variable {uc}

lemma addValuesWithin_isSome {fuel : ℕ} {calls : List (String8 × String8)}
    (h : ∀ c ∈ calls, Parses c.1 ∧ c.1.length ≤ fuel) (aTable : ValueTable) :
    (addValuesWithin uc fuel calls aTable).isSome := by
  induction calls generalizing aTable with
  | nil => rfl
  | cons c calls ih =>
    obtain ⟨hc, hf⟩ := h c (by simp)
    obtain ⟨t, ht⟩ := Option.isSome_iff_exists.mp
      (addValueToTableWithin_isSome uc hc hf c.2 aTable)
    simp only [addValuesWithin, List.foldlM_cons, ht, Option.bind_eq_bind, Option.bind_some]
    exact ih (fun d hd => h d (by simp [hd])) t

lemma parses_of_addValuesWithin {fuel : ℕ} {calls : List (String8 × String8)}
    {aTable : ValueTable} (h : (addValuesWithin uc fuel calls aTable).isSome) :
    ∀ c ∈ calls, Parses c.1 := by
  induction calls generalizing aTable with
  | nil => simp
  | cons c calls ih =>
    by_cases hc : Parses c.1
    · simp only [addValuesWithin, List.foldlM_cons, Option.bind_eq_bind] at h
      obtain ⟨t', ht'⟩ := Option.isSome_iff_exists.mp h
      obtain ⟨t, -, ht⟩ := Option.bind_eq_some_iff.mp ht'
      exact List.forall_mem_cons.mpr ⟨hc, ih (Option.isSome_iff_exists.mpr ⟨t', ht⟩)⟩
    · simp [addValuesWithin, addValueToTableWithin_eq_none uc hc] at h

/-- **Termination.** The routine returns exactly on the names that parse, whatever the value and
the table, and a sequence of calls exactly when all its names do. -/
theorem addValueToTable_terminates_iff (aName aValue : String8) (aTable : ValueTable)
    (calls : List (String8 × String8)) :
    ((∃ fuel, (addValueToTableWithin uc fuel aName aValue aTable).isSome) ↔ Parses aName) ∧
      ((∃ fuel, (addValuesWithin uc fuel calls aTable).isSome) ↔ ∀ c ∈ calls, Parses c.1) := by
  refine ⟨⟨?_, fun h => ⟨_, addValueToTableWithin_isSome uc h le_rfl aValue aTable⟩⟩,
    ⟨fun ⟨fuel, h⟩ => parses_of_addValuesWithin h, ?_⟩⟩
  · rintro ⟨fuel, hf⟩
    by_contra h
    simp [addValueToTableWithin_eq_none uc h] at hf
  · intro h
    obtain ⟨fuel, hf⟩ : ∃ fuel, ∀ c ∈ calls, c.1.length ≤ fuel :=
      ⟨(calls.map Prod.fst).flatten.length, fun c hc =>
        (List.sublist_flatten_of_mem (List.mem_map_of_mem hc)).length_le⟩
    exact ⟨fuel, addValuesWithin_isSome (fun c hc => ⟨h c hc, hf c hc⟩) aTable⟩

/-- The name `a[b][c` makes the routine run forever. -/
theorem not_terminates_open_bracket :
    ¬ ∃ fuel, (addValueToTableWithin standardConversion fuel (str "a[b][c") (str "1") []).isSome :=
  fun ⟨fuel, h⟩ => by
    have hp : ¬ Parses (str "a[b][c") := by decide
    simp [addValueToTableWithin_eq_none _ hp] at h

end Routine

end EiffelWeb
