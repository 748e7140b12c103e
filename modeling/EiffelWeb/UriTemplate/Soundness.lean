import Mathlib.Data.List.Basic
import Mathlib.Tactic.Common
import EiffelWeb.UriTemplate.Reading

set_option relaxedAutoImplicit false
set_option autoImplicit false

/-!
# What a match says about the URI

A URI that matches should be the template with the captured values filled in. The matcher passes
over text it does not capture in two places. Behind the last expression, the text left over is not
compared with the last literal if neither has more than one character. And `{/v}` takes any
character for the slash before a segment, and passes over one character when no segment follows.

## Main definitions

* `Pattern.fill` — the template with values filled in.
* `Pattern.Reads` — a reading of the URI that passes the end test.
* `Exact` — all the text passed over is captured.
* `Shifted` — the text passed over is the captured one, shifted by one character.

## Main results

* `stored_variableValue` — the tables hold what was captured.
* `reading_spec` — a reading accounts for the text.
* `matchUri_eq_some_iff` — the matcher returns what the reading captures.
* `matchUri_fill_iff` — exactly when a matching URI is the filled template.
* `eq_fill_of_matchUri` — templates for which every matching URI is.
-/

namespace EiffelWeb.UriTemplate

/-! ## The tables of a match -/

/-- The value a part leaves in the tables. -/
def Capture.value? : Capture → Option String8
  | skipped => none
  | value v => some v
  | segments ss => some (joined ss)

lemma Capture.value?_getD (c : Capture) : c.value?.getD [] = c.text := by
  cases c <;> rfl

/-- Names and keys of segments do not meet. -/
lemma ne_segmentKey {k : String8} (hk : ch '[' ∉ k) (vn : String8) (n : ℕ) :
    k ≠ segmentKey vn n := by
  rintro rfl
  exact hk (by simp [segmentKey])

lemma item_storeSegments {k : String8} (hk : ch '[' ∉ k) (vn : String8) (n : ℕ)
    (ss : List String8) (t : StringTable) :
    HashTable.item (storeSegments vn n ss t) k = HashTable.item t k := by
  induction ss generalizing n t with
  | nil => rfl
  | cons s ss ih =>
    rw [storeSegments, ih, HashTable.item_force_of_ne _ _ (ne_segmentKey hk vn _)]

/-- Storing a capture does not touch other names. -/
lemma Capture.item_store_of_ne {k vn : String8} (hne : k ≠ vn) (hk : ch '[' ∉ k) (c : Capture)
    (t : StringTable) : HashTable.item (c.store vn t) k = HashTable.item t k := by
  cases c with
  | skipped => rfl
  | value v => exact HashTable.item_force_of_ne t v hne
  | segments ss =>
    rw [Capture.store, HashTable.item_force_of_ne _ _ hne, item_storeSegments hk]

/-- A capture is stored under its name. -/
lemma Capture.item_store_self {vn : String8} (c : Capture) {t : StringTable}
    (ht : HashTable.item t vn = none) : HashTable.item (c.store vn t) vn = c.value? := by
  cases c with
  | skipped => exact ht
  | value v => exact HashTable.item_force_self t v vn
  | segments ss => exact HashTable.item_force_self _ _ vn

lemma variableValue_eq_none {r : MatchResult} {k : String8} :
    r.variableValue k = none ↔
      HashTable.item r.queryVariables k = none ∧ HashTable.item r.pathVariables k = none := by
  rw [MatchResult.variableValue, Option.or_eq_none_iff]

/-- Changing one table does not matter for a name whose item is kept. -/
lemma variableValue_update_of_keeps {r : MatchResult} {k : String8} (q : Bool)
    {f : StringTable → StringTable} (hf : ∀ t, HashTable.item (f t) k = HashTable.item t k) :
    (r.update q f).variableValue k = r.variableValue k := by
  cases q <;> simp [MatchResult.update, MatchResult.variableValue, hf]

lemma variableValue_update_self {r : MatchResult} {vn : String8} (q : Bool) (c : Capture)
    (hr : r.variableValue vn = none) :
    (r.update q (c.store vn)).variableValue vn = c.value? := by
  obtain ⟨hquery, hpath⟩ := variableValue_eq_none.mp hr
  cases q with
  | false => simp [MatchResult.update, MatchResult.variableValue, c.item_store_self hpath, hquery]
  | true => simp [MatchResult.update, MatchResult.variableValue, c.item_store_self hquery, hpath]

/-- A name that no capture touches keeps its value. -/
lemma stored_variableValue_of_keeps {k : String8} {parts : List Part} {ts : List Taken}
    (hkeep : ∀ p ∈ parts, ∀ t ∈ ts, ∀ u,
      HashTable.item (t.capture.store p.name u) k = HashTable.item u k)
    (inQuery : Bool) (lit : String8) (r : MatchResult) :
    (stored inQuery lit parts ts r).variableValue k = r.variableValue k := by
  induction parts generalizing ts inQuery lit r with
  | nil => rfl
  | cons p parts ih =>
    cases ts with
    | nil => rfl
    | cons t ts =>
      rw [stored, ih fun p' hp' t' ht' => hkeep p' (by simp [hp']) t' (by simp [ht'])]
      exact variableValue_update_of_keeps _ (hkeep p (by simp) t (by simp))

/-- **The tables hold what was captured**, each variable under its name. -/
lemma stored_variableValue {parts : List Part} {ts : List Taken}
    (hnames : ∀ p ∈ parts, ValidName p.name) (hnodup : (parts.map Part.name).Nodup)
    (hlen : ts.length = parts.length) (inQuery : Bool) (lit : String8) {r : MatchResult}
    (hr : ∀ p ∈ parts, r.variableValue p.name = none) :
    parts.map (fun p => (stored inQuery lit parts ts r).variableValue p.name) =
      ts.map fun t => t.capture.value? := by
  induction parts generalizing ts inQuery lit r with
  | nil =>
    cases ts with
    | nil => rfl
    | cons t ts => simp at hlen
  | cons p parts ih =>
    cases ts with
    | nil => simp at hlen
    | cons t ts =>
      simp only [List.map_cons, List.nodup_cons, List.mem_map, not_exists, not_and] at hnodup
      have hbracket : ∀ p' ∈ p :: parts, ch '[' ∉ p'.name := fun p' hp' =>
        (hnames p' hp').notMem (by decide)
      have hrest : ∀ p' ∈ parts, p'.name ≠ p.name := hnodup.1
      rw [List.map_cons, List.map_cons, stored]
      congr 1
      · rw [stored_variableValue_of_keeps fun p' hp' t' _ =>
          t'.capture.item_store_of_ne (hrest p' hp').symm (hbracket p (by simp))]
        exact variableValue_update_self _ _ (hr p (by simp))
      · refine ih (fun p' hp' => hnames p' (by simp [hp'])) hnodup.2 (by simpa using hlen) _ _ ?_
        intro p' hp'
        rw [variableValue_update_of_keeps _ fun u =>
          t.capture.item_store_of_ne (hrest p' hp') (hbracket p' (by simp [hp'])) u]
        exact hr p' (by simp [hp'])

/-! ## Texts along a template -/

/-- The template with values filled in for the variables. -/
def Pattern.fill (pat : Pattern) (f : String8 → String8) : String8 :=
  pat.lit ++ pat.parts.flatMap fun p => f p.name ++ p.lit

/-- The text up to the last expression, with the texts `ws` in the place of the expressions. -/
def body (lit : String8) : List Part → List String8 → String8
  | p :: parts, w :: ws => lit ++ (w ++ body p.lit parts ws)
  | _, _ => []

lemma body_append_lastLit (f : String8 → String8) (lit : String8) (parts : List Part) :
    body lit parts (parts.map fun p => f p.name) ++ lastLit lit parts =
      lit ++ parts.flatMap fun p => f p.name ++ p.lit := by
  induction parts generalizing lit with
  | nil => simp [body, lastLit]
  | cons p parts ih => simp [body, lastLit, ih]

/-- The text passed over for a part is as long as the captured text, or one longer. -/
def Taken.Bounded (t : Taken) : Prop :=
  t.raw.length = t.text.length ∨ t.raw.length = t.text.length + 1

lemma pathRead_bounded (separator : Option String8) (U : String8) :
    Taken.Bounded ⟨(pathRead separator U).1, .segments (pathRead separator U).2.1⟩ := by
  induction U using pathRead.induct separator with
  | case1 => exact Or.inl (by simp [pathRead, Taken.text, Capture.text, joined])
  | case2 c => exact Or.inl (by simp [pathRead, Taken.text, Capture.text, joined])
  | case3 c d r s hs =>
    rw [pathRead_blank (List.isEmpty_iff.mp hs)]
    exact Or.inr rfl
  | case4 c d r s hs ih =>
    have hne : s ≠ [] := fun h => hs (List.isEmpty_iff.mpr h)
    rw [pathRead_cons (s := s) rfl hne]
    simp only [Taken.Bounded, Taken.text, Capture.text, joined, List.flatMap_cons,
      List.length_append, List.length_cons] at ih ⊢
    omega

lemma takeText_spec {inQuery : Bool} {p : Part} {sep : Option String8} {U V : String8} {t : Taken}
    (h : takeText inQuery p sep U = some (t, V)) : U = t.raw ++ V ∧ t.Bounded := by
  rw [takeText] at h
  split at h
  · next hU =>
    split at h
    · simp only [Option.some.injEq, Prod.mk.injEq] at h
      obtain ⟨rfl, rfl⟩ := h
      exact ⟨hU, Or.inl rfl⟩
    · simp at h
  · split at h
    · simp only [Option.some.injEq, Prod.mk.injEq] at h
      obtain ⟨rfl, rfl⟩ := h
      exact ⟨(pathRead_append sep U).symm, pathRead_bounded sep U⟩
    · simp only [Option.some.injEq, Prod.mk.injEq] at h
      obtain ⟨rfl, rfl⟩ := h
      exact ⟨(segment_isPrefix sep U).symm, Or.inl rfl⟩

lemma takePart_spec {first inQuery : Bool} {lit : String8} {p : Part} {parts : List Part}
    {U V : String8} {t : Taken} (h : takePart first inQuery lit p parts U = some (t, V)) :
    U = lit ++ (t.raw ++ V) ∧ t.Bounded := by
  rw [takePart] at h
  split at h
  · simp at h
  · next hguard =>
    obtain ⟨r, rfl⟩ := not_not.mp (not_or.mp hguard).2
    rw [List.drop_left] at h
    obtain ⟨hr, hbounded⟩ := takeText_spec h
    exact ⟨congrArg (lit ++ ·) hr, hbounded⟩

/-- The reading of a first part. -/
lemma reading_cons {first inQuery : Bool} {lit : String8} {p : Part} {parts : List Part}
    {U V : String8} {ts : List Taken}
    (h : reading first inQuery lit (p :: parts) U = some (ts, V)) :
    ∃ t U' ts', takePart first (inQuery || decide (ch '?' ∈ lit)) lit p parts U = some (t, U') ∧
      reading false (inQuery || decide (ch '?' ∈ lit)) p.lit parts U' = some (ts', V) ∧
      ts = t :: ts' := by
  simp only [reading, Option.bind_eq_bind] at h
  obtain ⟨⟨t, U'⟩, htake, h⟩ := Option.bind_eq_some_iff.mp h
  obtain ⟨⟨ts', V'⟩, hread, h⟩ := Option.bind_eq_some_iff.mp h
  simp only [Option.some.injEq, Prod.mk.injEq] at h
  obtain ⟨rfl, rfl⟩ := h
  exact ⟨t, U', ts', htake, hread, rfl⟩

/-- **A reading accounts for the text**: the literals and what was passed over for each part make
up the text before the rest. -/
lemma reading_spec {first inQuery : Bool} {lit : String8} {parts : List Part} {U V : String8}
    {ts : List Taken} (h : reading first inQuery lit parts U = some (ts, V)) :
    ts.length = parts.length ∧ (∀ t ∈ ts, t.Bounded) ∧
      U = body lit parts (ts.map Taken.raw) ++ V := by
  induction parts generalizing first inQuery lit U ts with
  | nil =>
    simp only [reading, Option.some.injEq, Prod.mk.injEq] at h
    obtain ⟨rfl, rfl⟩ := h
    simp [body]
  | cons p parts ih =>
    obtain ⟨t, U', ts', htake, hread, rfl⟩ := reading_cons h
    obtain ⟨hU, hbounded⟩ := takePart_spec htake
    obtain ⟨hlen, hall, hU'⟩ := ih hread
    refine ⟨by simp [hlen], ?_, ?_⟩
    · intro t' ht'
      rcases List.mem_cons.mp ht' with rfl | ht'
      · exact hbounded
      · exact hall t' ht'
    · rw [hU, List.map_cons, body, List.append_assoc, List.append_assoc, ← hU']

/-! ## When the captures fill the template to the URI -/

/-- Every text passed over is the captured text. -/
def Exact (ts : List Taken) : Prop := ∀ t ∈ ts, t.raw = t.text

/-- One `{/v}` has passed over a character, and what follows reads the same one character further
on, with `x` behind it. -/
def Shifted (x : Character8) : List Part → List Taken → Prop
  | p :: parts, t :: ts =>
    (t.raw = t.text ∧ Shifted x parts ts) ∨
      ∃ c, t.raw = t.text ++ [c] ∧ c :: body p.lit parts (ts.map Taken.raw) =
        body p.lit parts (ts.map Taken.text) ++ [x]
  | _, _ => False

/-- Captured texts are not longer than those passed over. -/
lemma body_length_le (lit : String8) (parts : List Part) {ts : List Taken}
    (hb : ∀ t ∈ ts, t.Bounded) : (body lit parts (ts.map Taken.text)).length ≤
      (body lit parts (ts.map Taken.raw)).length := by
  induction parts generalizing ts lit with
  | nil => simp [body]
  | cons p parts ih =>
    cases ts with
    | nil => simp [body]
    | cons t ts =>
      have hbs : ∀ t' ∈ ts, t'.Bounded := fun t' ht' => hb t' (List.mem_cons_of_mem t ht')
      have hrest := ih p.lit hbs
      have ht := hb t (by simp)
      simp only [List.map_cons, body, List.length_append]
      rcases ht with ht | ht
      · omega
      · omega

/-- A text that is one character longer than the other leaves no room but for one character at the
end. -/
lemma append_eq_append_iff_shift {raw text B B' L V : String8} (hend : endTest L V)
    (hlen : raw.length = text.length + 1) (hB : B'.length ≤ B.length) :
    raw ++ (B ++ V) = text ++ (B' ++ L) ↔
      V = [] ∧ ∃ x, L = [x] ∧ ∃ c, raw = text ++ [c] ∧ c :: B = B' ++ [x] := by
  constructor
  · intro h
    have hlens := congrArg List.length h
    simp only [List.length_append] at hlens
    -- the last literal is longer than the text left over, so it was not compared with it
    have hshort : L.length < 2 ∧ V.length < 2 := by
      by_contra hlong
      have hVL := congrArg List.length (hend (by omega))
      omega
    have hV : V = [] := List.length_eq_zero_iff.mp (by omega)
    obtain ⟨x, rfl⟩ := List.length_eq_one_iff.mp (show L.length = 1 by omega)
    subst hV
    obtain ⟨c, hc⟩ : ∃ c, raw = text ++ [c] := by
      have hpre : text <+: raw :=
        List.prefix_of_prefix_length_le ⟨_, h.symm⟩ (List.prefix_append _ _) (by omega)
      obtain ⟨w, rfl⟩ := hpre
      obtain ⟨c, rfl⟩ := List.length_eq_one_iff.mp (show w.length = 1 by simpa using hlen)
      exact ⟨c, rfl⟩
    refine ⟨rfl, x, rfl, c, hc, ?_⟩
    rw [hc, List.append_assoc, List.append_nil] at h
    exact List.append_cancel_left h
  · rintro ⟨rfl, x, rfl, c, rfl, hshift⟩
    rw [← hshift]
    simp

/-- **Comparing what was passed over with what was captured.** The texts differ in length by the
characters that `{/v}` has passed over; the end test leaves at most one character to make up for
them.

**Proof sketch.** Induction on the parts. As long as the texts of a part have equal lengths, they
must be equal. If one is longer, the lengths leave room for only one more character, the last
literal, and the rest of the texts is shifted by it. -/
lemma body_append_eq_iff (lit : String8) {L V : String8} (hend : endTest L V) {parts : List Part}
    {ts : List Taken} (hlen : ts.length = parts.length) (hb : ∀ t ∈ ts, t.Bounded) :
    body lit parts (ts.map Taken.raw) ++ V = body lit parts (ts.map Taken.text) ++ L ↔
      (Exact ts ∧ V = L) ∨ (V = [] ∧ ∃ x, L = [x] ∧ Shifted x parts ts) := by
  induction parts generalizing lit ts with
  | nil =>
    obtain rfl := List.length_eq_zero_iff.mp hlen
    simp [body, Exact, Shifted]
  | cons p parts ih =>
    cases ts with
    | nil => simp at hlen
    | cons t ts =>
      have hbs : ∀ t' ∈ ts, t'.Bounded := fun t' ht' => hb t' (List.mem_cons_of_mem t ht')
      simp only [List.map_cons, body, List.append_assoc, List.append_cancel_left_eq]
      rcases hb t (by simp) with ht | ht
      · have hne : ∀ c, t.raw ≠ t.text ++ [c] := by
          intro c hc
          simp [hc] at ht
        have hsplit : ∀ B B', t.raw ++ B = t.text ++ B' ↔ t.raw = t.text ∧ B = B' := fun B B' =>
          ⟨fun h => List.append_inj h ht, fun h => by rw [h.1, h.2]⟩
        rw [hsplit, ih p.lit (by simpa using hlen) hbs]
        by_cases heq : t.raw = t.text
        · simp [Exact, Shifted, heq]
        · simp [Exact, Shifted, heq, hne]
      · have hne : t.raw ≠ t.text := by
          intro heq
          simp [heq] at ht
        rw [append_eq_append_iff_shift hend ht (body_length_le p.lit parts hbs)]
        simp [Exact, Shifted, hne]

/-! ## Matching and filling in -/

/-- The URI `u` is read along the template: `ts` is taken for the parts and `V` left over, and the
test on the text left over passes. -/
def Pattern.Reads (pat : Pattern) (u : String8) (ts : List Taken) (V : String8) : Prop :=
  reading true false pat.lit pat.parts u = some (ts, V) ∧
    endTest (lastLit pat.lit pat.parts) V ∧ (pat.parts = [] → V = pat.lit)

/-- **The matcher returns what the reading captures.** -/
lemma matchUri_eq_some_iff (pat : Pattern) (u : String8) (r : MatchResult) :
    matchUri pat.text u = some (some r) ↔
      ∃ ts V, pat.Reads u ts V ∧ r = stored false pat.lit pat.parts ts ⟨[], []⟩ := by
  rw [matchUri_text, Option.some.injEq]
  by_cases hparts : pat.parts = []
  · simp only [Pattern.Reads, hparts, if_true, reading, lastLit, stored, Option.some.injEq,
      Prod.mk.injEq, forall_const]
    constructor
    · intro h
      split at h
      · next hu => exact ⟨[], u, ⟨⟨rfl, rfl⟩, fun _ => hu, hu⟩, (Option.some.inj h).symm⟩
      · simp at h
    · rintro ⟨ts, V, ⟨⟨rfl, rfl⟩, -, hu⟩, rfl⟩
      rw [if_pos hu]
  · simp only [Pattern.Reads, hparts, if_false, false_implies, and_true]
    rcases reading true false pat.lit pat.parts u with _ | ⟨ts, V⟩
    · simp [outcome]
    · simp only [outcome, Option.some.injEq, Prod.mk.injEq]
      constructor
      · intro h
        split at h
        · next hend => exact ⟨ts, V, ⟨⟨rfl, rfl⟩, hend⟩, (Option.some.inj h).symm⟩
        · simp at h
      · rintro ⟨ts', V', ⟨⟨rfl, rfl⟩, hend⟩, rfl⟩
        rw [if_pos hend]

/-- The template filled with what was captured. -/
lemma fill_stored {pat : Pattern} {ts : List Taken} (hlen : ts.length = pat.parts.length) :
    (pat.fill fun v =>
      ((stored false pat.lit pat.parts ts ⟨[], []⟩).variableValue v).getD []) =
      body pat.lit pat.parts (ts.map Taken.text) ++ lastLit pat.lit pat.parts := by
  have hvalues := stored_variableValue pat.names_valid pat.names_nodup hlen false pat.lit
    (r := ⟨[], []⟩) fun p _ => rfl
  have htexts := congrArg (List.map fun o : Option String8 => o.getD []) hvalues
  simp only [List.map_map, Function.comp_def, Capture.value?_getD] at htexts
  have hbody := body_append_lastLit
    (fun v => ((stored false pat.lit pat.parts ts ⟨[], []⟩).variableValue v).getD []) pat.lit
    pat.parts
  rw [Pattern.fill, ← hbody, htexts]
  rfl

/-- A URI is the template filled with what was captured from it if its reading captures all the
text, or is shifted. -/
lemma Pattern.Reads.eq_fill_iff {pat : Pattern} {u V : String8} {ts : List Taken}
    (h : pat.Reads u ts V) :
    (u = pat.fill fun v =>
        ((stored false pat.lit pat.parts ts ⟨[], []⟩).variableValue v).getD []) ↔
      (Exact ts ∧ V = lastLit pat.lit pat.parts) ∨
        (V = [] ∧ ∃ x, lastLit pat.lit pat.parts = [x] ∧ Shifted x pat.parts ts) := by
  obtain ⟨hread, hend, -⟩ := h
  obtain ⟨hlen, hbounded, hu⟩ := reading_spec hread
  rw [fill_stored hlen, ← body_append_eq_iff pat.lit hend hlen hbounded, ← hu]

/-- **When a matching URI is the filled template**: exactly when its reading captures all the text
it passes over for the parts, and the text left over is the last literal. The only exception are
readings that make up for a missing last literal of one character by a character that `{/v}` has
passed over. -/
theorem matchUri_fill_iff (pat : Pattern) (u : String8) :
    (∀ r, matchUri pat.text u = some (some r) →
        u = pat.fill fun v => (r.variableValue v).getD []) ↔
      ∀ ts V, pat.Reads u ts V →
        (Exact ts ∧ V = lastLit pat.lit pat.parts) ∨
          (V = [] ∧ ∃ x, lastLit pat.lit pat.parts = [x] ∧ Shifted x pat.parts ts) := by
  constructor
  · intro h ts V hreads
    exact hreads.eq_fill_iff.mp (h _ ((matchUri_eq_some_iff pat u _).mpr ⟨ts, V, hreads, rfl⟩))
  · intro h r hr
    obtain ⟨ts, V, hreads, rfl⟩ := (matchUri_eq_some_iff pat u r).mp hr
    exact hreads.eq_fill_iff.mpr (h ts V hreads)

/-- The reading of `{v}` captures all it passes over. -/
lemma takePart_exact {first inQuery : Bool} {lit : String8} {p : Part} (hvar : p.isPath = false)
    {parts : List Part} {U V : String8} {t : Taken}
    (h : takePart first inQuery lit p parts U = some (t, V)) : t.raw = t.text := by
  rw [takePart] at h
  split at h
  · simp at h
  · rw [takeText] at h
    split at h
    · split at h
      · obtain ⟨rfl, -⟩ := Prod.mk.inj (Option.some.inj h)
        rfl
      · simp at h
    · simp only [hvar, Bool.false_eq_true, if_false, Option.some.injEq, Prod.mk.injEq] at h
      obtain ⟨rfl, -⟩ := h
      rfl

lemma reading_exact {first inQuery : Bool} {lit : String8} {parts : List Part}
    (hvars : ∀ p ∈ parts, p.isPath = false) {U V : String8} {ts : List Taken}
    (h : reading first inQuery lit parts U = some (ts, V)) : Exact ts := by
  induction parts generalizing first inQuery lit U ts with
  | nil =>
    simp only [reading, Option.some.injEq, Prod.mk.injEq] at h
    obtain ⟨rfl, -⟩ := h
    simp [Exact]
  | cons p parts ih =>
    obtain ⟨t, U', ts', htake, hread, rfl⟩ := reading_cons h
    intro t' ht'
    rcases List.mem_cons.mp ht' with rfl | ht'
    · exact takePart_exact (hvars p (by simp)) htake
    · exact ih (fun r hr => hvars r (List.mem_cons_of_mem p hr)) hread t' ht'

/-- **Templates on which every match is faithful**: those without `{/v}` whose last literal has more
than one character. -/
theorem eq_fill_of_matchUri (pat : Pattern) (hvars : ∀ p ∈ pat.parts, p.isPath = false)
    (hlit : 2 ≤ (lastLit pat.lit pat.parts).length) {u : String8} {r : MatchResult}
    (h : matchUri pat.text u = some (some r)) :
    u = pat.fill fun v => (r.variableValue v).getD [] := by
  obtain ⟨ts, V, hreads, rfl⟩ := (matchUri_eq_some_iff pat u r).mp h
  have hexact : Exact ts := reading_exact hvars hreads.1
  have hend : V = lastLit pat.lit pat.parts := hreads.2.1 (Or.inl hlit)
  exact hreads.eq_fill_iff.mpr (Or.inl ⟨hexact, hend⟩)

/-- The template `{v}` with `lit` behind it. -/
def Pattern.single (v lit : String8) (hv : ValidName v) (hlit : ch '{' ∉ lit) : Pattern where
  lit := []
  parts := [⟨false, v, lit⟩]
  lit_plain := List.not_mem_nil
  lits_plain := by simpa using hlit
  names_valid := by simpa using hv
  names_nodup := by simp

lemma validName_v : ValidName (str "v") := ⟨by decide, by decide, by decide⟩

/-- The template `{v}` matches `abc/`, with `abc` captured for `v`. -/
theorem matchUri_trailing_slash :
    (Pattern.single (str "v") [] validName_v List.not_mem_nil).text = str "{v}" ∧
      isValid (str "{v}") = true ∧
      ¬ ∀ r, matchUri (Pattern.single (str "v") [] validName_v List.not_mem_nil).text (str "abc/") =
          some (some r) →
        str "abc/" = (Pattern.single (str "v") [] validName_v List.not_mem_nil).fill fun v =>
          (r.variableValue v).getD [] := by
  refine ⟨rfl, by decide, fun h => ?_⟩
  have hmatch : matchUri (str "{v}") (str "abc/") = some (some ⟨[(str "v", str "abc")], []⟩) := rfl
  exact absurd (h _ hmatch) (by decide)

end EiffelWeb.UriTemplate
