import Mathlib.Data.List.Basic
import Mathlib.Tactic.Common
import EiffelWeb.Loop
import EiffelWeb.Encoder.Entity

set_option relaxedAutoImplicit false
set_option autoImplicit false

/-!
# Entities in arbitrary text

What the decoder of character entities does with text that no encoder has written. `next_entity`
reads on behind an ampersand as long as the characters may belong to an entity, and looks at one
character more, without looking for the end of the text. If that character is no semicolon, it
gives back the ampersand with what it read, and decoding goes on directly behind the ampersand.

The positions of the decoder are taken away first: decoding is a relation between a text and its
result, with one rule for a plain character and one for an ampersand.

## Main definitions

* `EntityEncoder.entityAt` — `next_entity` on the text behind an ampersand.
* `EntityEncoder.Decodes` — decoding as a relation.
* `EntityEncoder.AtAmpersands` — a property of the text behind every ampersand.
* `EntityEncoder.Bounded` — the reads of an entity stay inside the text.

## Main results

* `EntityEncoder.nextEntity_eq_entityAt`, `EntityEncoder.decodedString_eq_some_iff` — the positions
  are taken away.
* `EntityEncoder.decodedString_isSome_iff` — when the decoder stays inside the text.
-/

namespace EiffelWeb.EntityEncoder

/-! ## An entity without positions -/

/-- The kind of the entity behind whose ampersand the text stands, and the text at which its loop
starts. -/
def kindOf : String8 → EntityKind × String8
  | [] => (.named, [])
  | c :: r =>
    if c = ch '#' then
      match r with
      | [] => (.decimal, [])
      | d :: t => if d = ch 'x' then (.hexadecimal, t) else (.decimal, d :: t)
    else (.named, c :: r)

/-- `next_entity` on the text behind an ampersand: the result, the text that is left, and whether
`has_error` is set; `none` if it leaves the text, or reads the first character of an empty name. -/
def entityAt (r : String8) : Option (String32 × String8 × Bool) :=
  let (kind, t) := kindOf r
  let s := t.takeWhile kind.reads
  match t.dropWhile kind.reads with
  | [] => none
  | c :: rest =>
    if c = ch ';' then (entityValue s kind).map fun out => (out, rest, false)
    else some (asString32 (ch '&' :: s), r, true)

lemma EntityKind.reads_semicolon (kind : EntityKind) : kind.reads (ch ';') = false := by
  cases kind <;> decide

lemma EntityKind.reads_ampersand (kind : EntityKind) : kind.reads (ch '&') = false := by
  cases kind <;> decide

/-- A loop of `next_entity` reads the longest run of its characters. -/
lemma scanAux_eq {p : Character8 → Bool} (hp : p (ch ';') = false) (i : ℤ) (l : String8) :
    scanAux p i l =
      (l.dropWhile p).head?.map fun c => (l.takeWhile p, i + (l.takeWhile p).length, c) := by
  induction l generalizing i with
  | nil => rfl
  | cons c l ih =>
    cases hc : p c with
    | false => simp [scanAux, hc]
    | true =>
      have hne : c ≠ ch ';' := by
        rintro rfl
        rw [hp] at hc
        cases hc
      have hstop : ¬ (p c = false ∨ c = ch ';') := by simp [hc, hne]
      rw [scanAux, if_neg hstop, ih, List.dropWhile_cons_of_pos hc, List.takeWhile_cons_of_pos hc,
        Option.map_map]
      congr 1
      funext d
      simp only [Function.comp_apply, List.length_cons]
      congr 2
      push_cast
      ring

/-- The loop of an entity, and what follows. -/
lemma nextEntity_of_kind {b t : String8} {i j : ℤ} {kind : EntityKind}
    (hkind : entityKind (b ++ t) i = some (kind, j)) (hj : j = b.length + 1) :
    nextEntity (b ++ t) i =
      match t.dropWhile kind.reads with
      | [] => none
      | c :: rest =>
        if c = ch ';' then
          (entityValue (t.takeWhile kind.reads) kind).map fun out =>
            (out, ((b ++ t).length : ℤ) - rest.length + 1, false)
        else some (asString32 (ch '&' :: t.takeWhile kind.reads), i + 1, true) := by
  have hn : (j - 1).toNat = b.length := by omega
  rw [nextEntity, hkind]
  simp only [Option.bind_eq_bind, Option.bind_some]
  rw [scan, hn, List.drop_left, scanAux_eq kind.reads_semicolon]
  cases hdrop : t.dropWhile kind.reads with
  | nil => rfl
  | cons c rest =>
    simp only [List.head?_cons, Option.map_some, Option.bind_some]
    split
    · have hparts := congrArg List.length (@List.takeWhile_append_dropWhile _ kind.reads t)
      rw [hdrop, List.length_append, List.length_cons] at hparts
      have hend : j + ((t.takeWhile kind.reads).length : ℤ) + 1 =
          ((b ++ t).length : ℤ) - rest.length + 1 := by
        rw [List.length_append]
        omega
      rw [hend, Option.map_eq_bind]
      rfl
    · rfl

/-- Once the kind of the entity is known, the loop and what follows are those of `entityAt`. -/
lemma nextEntity_of_kindOf {a r b t : String8} {j : ℤ} {kind : EntityKind}
    (hsplit : a ++ ch '&' :: r = b ++ t)
    (hkind : entityKind (a ++ ch '&' :: r) (a.length + 1) = some (kind, j))
    (hof : kindOf r = (kind, t)) (hj : j = b.length + 1) :
    nextEntity (a ++ ch '&' :: r) (a.length + 1) =
      (entityAt r).map fun e =>
        (e.1, ((a ++ ch '&' :: r).length : ℤ) - e.2.1.length + 1, e.2.2) := by
  have hnext : (a.length : ℤ) + 1 + 1 = ((a ++ ch '&' :: r).length : ℤ) - r.length + 1 := by
    rw [List.length_append, List.length_cons]
    push_cast
    ring
  rw [hsplit] at hkind hnext ⊢
  rw [nextEntity_of_kind hkind hj]
  unfold entityAt
  simp only [hof]
  cases t.dropWhile kind.reads with
  | nil => rfl
  | cons c rest =>
    simp only
    split
    · rw [Option.map_map]
      rfl
    · simp only [Option.map_some, hnext]

lemma item?_eq_none {s : String8} {j : ℤ} (h : (s.length : ℤ) < j) : Text.item? s j = none := by
  unfold Text.item? Text.validIndex
  exact if_neg (by omega)

/-- **`next_entity` without positions.** -/
lemma nextEntity_eq_entityAt (a r : String8) :
    nextEntity (a ++ ch '&' :: r) (a.length + 1) =
      (entityAt r).map fun e =>
        (e.1, ((a ++ ch '&' :: r).length : ℤ) - e.2.1.length + 1, e.2.2) := by
  rcases r with _ | ⟨c, r⟩
  · have hnone : Text.item? (a ++ [ch '&']) (a.length + 1 + 1) = none :=
      item?_eq_none (by simp)
    simp only [nextEntity, entityKind, hnone, Option.bind_eq_bind, Option.bind_none]
    rfl
  have hc : Text.item? (a ++ ch '&' :: c :: r) (a.length + 1 + 1) = some c := by
    have hitem := @Text.item?_append_cons _ (a ++ [ch '&']) c r (a.length + 1 + 1) (by simp)
    rwa [List.append_assoc] at hitem
  by_cases hsharp : c = ch '#'
  swap
  · refine @nextEntity_of_kindOf a (c :: r) (a ++ [ch '&']) (c :: r) (a.length + 1 + 1) .named
      (by simp) ?_ ?_ (by simp)
    · simp only [entityKind, hc, Option.bind_eq_bind, Option.bind_some, hsharp, if_false]
    · simp only [kindOf, hsharp, if_false]
  subst hsharp
  rcases r with _ | ⟨d, t⟩
  · have hnone : Text.item? (a ++ [ch '&', ch '#']) (a.length + 1 + 2) = none :=
      item?_eq_none (by simp)
    simp only [nextEntity, entityKind, hc, hnone, Option.bind_eq_bind, Option.bind_some,
      Option.bind_none, if_true]
    rfl
  have hd : Text.item? (a ++ ch '&' :: ch '#' :: d :: t) (a.length + 1 + 2) = some d := by
    have hitem := @Text.item?_append_cons _ (a ++ [ch '&', ch '#']) d t (a.length + 1 + 2)
      (by simp; ring)
    rwa [List.append_assoc] at hitem
  by_cases hx : d = ch 'x'
  swap
  · refine @nextEntity_of_kindOf a (ch '#' :: d :: t) (a ++ [ch '&', ch '#']) (d :: t)
      (a.length + 1 + 2) .decimal (by simp) ?_ ?_ (by simp; ring)
    · simp only [entityKind, hc, hd, Option.bind_eq_bind, Option.bind_some, if_true, hx,
        if_false]
    · simp only [kindOf, if_true, hx, if_false]
  subst hx
  rcases t with _ | ⟨e, t⟩
  · have hnone : Text.item? (a ++ [ch '&', ch '#', ch 'x']) (a.length + 1 + 3) = none :=
      item?_eq_none (by simp)
    simp only [nextEntity, entityKind, hc, hd, hnone, Option.bind_eq_bind, Option.bind_some,
      Option.bind_none, if_true]
    rfl
  have he : Text.item? (a ++ ch '&' :: ch '#' :: ch 'x' :: e :: t) (a.length + 1 + 3) = some e := by
    have hitem := @Text.item?_append_cons _ (a ++ [ch '&', ch '#', ch 'x']) e t (a.length + 1 + 3)
      (by simp; ring)
    rwa [List.append_assoc] at hitem
  refine @nextEntity_of_kindOf a (ch '#' :: ch 'x' :: e :: t) (a ++ [ch '&', ch '#', ch 'x'])
    (e :: t) (a.length + 1 + 3) .hexadecimal (by simp) ?_ rfl (by simp; ring)
  simp only [entityKind, hc, hd, he, Option.bind_eq_bind, Option.bind_some, if_true]

/-! ## Decoding without positions -/

/-- Decoding: a text and its result. -/
inductive Decodes : String8 → String32 → Prop
  /-- The end of the text. -/
  | nil : Decodes [] []
  /-- A character other than an ampersand. -/
  | plain {c : Character8} {r : String8} {w : String32} (hc : c ≠ ch '&') (h : Decodes r w) :
      Decodes (c :: r) (c.toUInt32 :: w)
  /-- An ampersand. -/
  | entity {r rest : String8} {out w : String32} {err : Bool}
      (he : entityAt r = some (out, rest, err)) (h : Decodes rest w) :
      Decodes (ch '&' :: r) (out ++ w)

/-- The three kinds of entities: a name, digits behind `#`, and digits behind `#x`. -/
lemma kindOf_cases (r : String8) :
    (r.head? ≠ some (ch '#') ∧ kindOf r = (.named, r)) ∨
      (∃ t, r = ch '#' :: t ∧ t.head? ≠ some (ch 'x') ∧ kindOf r = (.decimal, t)) ∨
      ∃ t, r = ch '#' :: ch 'x' :: t ∧ kindOf r = (.hexadecimal, t) := by
  rcases r with _ | ⟨c, r⟩
  · exact Or.inl ⟨by simp, rfl⟩
  by_cases hsharp : c = ch '#'
  swap
  · exact Or.inl ⟨by simpa using hsharp, by simp [kindOf, hsharp]⟩
  subst hsharp
  rcases r with _ | ⟨d, t⟩
  · exact Or.inr (Or.inl ⟨[], rfl, by simp, rfl⟩)
  by_cases hx : d = ch 'x'
  · subst hx
    exact Or.inr (Or.inr ⟨t, rfl, rfl⟩)
  · exact Or.inr (Or.inl ⟨d :: t, rfl, by simpa using hx, by simp [kindOf, hx]⟩)

/-- A kind and the text of its loop: what is in front of this text has no ampersand. -/
lemma kindOf_split (r : String8) : ∃ x, r = x ++ (kindOf r).2 ∧ ch '&' ∉ x := by
  rcases kindOf_cases r with ⟨-, hk⟩ | ⟨t, rfl, -, hk⟩ | ⟨t, rfl, hk⟩
  · exact ⟨[], by rw [hk]; rfl, List.not_mem_nil⟩
  · exact ⟨[ch '#'], by rw [hk]; rfl, by decide⟩
  · exact ⟨[ch '#', ch 'x'], by rw [hk]; rfl, by decide⟩

/-- The run of an entity is the whole text, or it is followed by a character. -/
lemma run_cases (p : Character8 → Bool) (t : String8) :
    (∀ c ∈ t, p c = true) ∨
      ∃ s c rest, t = s ++ c :: rest ∧ (∀ c ∈ s, p c = true) ∧ p c = false := by
  induction t with
  | nil => exact Or.inl (by simp)
  | cons d t ih =>
    cases hd : p d with
    | false => exact Or.inr ⟨[], d, t, rfl, by simp, hd⟩
    | true =>
      rcases ih with h | ⟨s, c, rest, rfl, hs, hc⟩
      · exact Or.inl (List.forall_mem_cons.mpr ⟨hd, h⟩)
      · exact Or.inr ⟨d :: s, c, rest, rfl, List.forall_mem_cons.mpr ⟨hd, hs⟩, hc⟩

lemma takeWhile_run {p : Character8 → Bool} {s : String8} {c : Character8}
    (hs : ∀ d ∈ s, p d = true) (hc : p c = false) (rest : String8) :
    (s ++ c :: rest).takeWhile p = s ∧ (s ++ c :: rest).dropWhile p = c :: rest := by
  rw [List.takeWhile_append_of_pos hs, List.dropWhile_append_of_pos hs]
  simp [hc]

/-- An entity whose run is followed by a character. -/
lemma entityAt_eq {r s rest : String8} {c : Character8} {kind : EntityKind}
    (hk : kindOf r = (kind, s ++ c :: rest)) (hs : ∀ d ∈ s, kind.reads d = true)
    (hc : kind.reads c = false) :
    entityAt r =
      if c = ch ';' then (entityValue s kind).map fun out => (out, rest, false)
      else some (asString32 (ch '&' :: s), r, true) := by
  obtain ⟨htake, hdrop⟩ := takeWhile_run hs hc rest
  simp only [entityAt, hk, htake, hdrop]

/-- An entity whose run reaches the end of the text. -/
lemma entityAt_eq_none {r s : String8} {kind : EntityKind} (hk : kindOf r = (kind, s))
    (hs : ∀ d ∈ s, kind.reads d = true) : entityAt r = none := by
  have hdrop : s.dropWhile kind.reads = [] := List.dropWhile_eq_nil_iff.mpr hs
  simp only [entityAt, hk, hdrop]

lemma length_behind_entity (c : Character8) (x rest : String8) :
    rest.length < (c :: (x ++ rest)).length := by
  rw [List.length_cons, List.length_append]
  omega

/-- What an entity takes off the text has no ampersand. -/
lemma entityAt_split {r rest : String8} {out : String32} {err : Bool}
    (h : entityAt r = some (out, rest, err)) : ∃ x, r = x ++ rest ∧ ch '&' ∉ x := by
  obtain ⟨x, hx, hamp⟩ := kindOf_split r
  obtain ⟨kind, t, hk⟩ : ∃ kind t, kindOf r = (kind, t) := ⟨_, _, rfl⟩
  rw [hk] at hx
  rcases run_cases kind.reads t with hall | ⟨s, c, rest', rfl, hs, hc⟩
  · rw [entityAt_eq_none hk hall] at h
    cases h
  · have hrun : ch '&' ∉ s := fun hmem => by
      have hreads := hs _ hmem
      rw [EntityKind.reads_ampersand] at hreads
      cases hreads
    rw [entityAt_eq hk hs hc] at h
    split at h
    · next hsemi =>
      obtain ⟨out', -, heq⟩ := Option.map_eq_some_iff.mp h
      simp only [Prod.mk.injEq] at heq
      obtain ⟨-, rfl, -⟩ := heq
      refine ⟨x ++ s ++ [c], by rw [hx]; simp, ?_⟩
      rw [hsemi]
      simp only [List.mem_append, List.mem_singleton, not_or]
      exact ⟨⟨hamp, hrun⟩, by decide⟩
    · simp only [Option.some.injEq, Prod.mk.injEq] at h
      obtain ⟨-, rfl, -⟩ := h
      exact ⟨[], rfl, List.not_mem_nil⟩

lemma decodeLoop_exit_cons (a r : String8) (c : Character8) (st : String32 × Bool) :
    (decodeLoop (a ++ c :: r)).exit (a.length + 1, st) = false := by
  simp only [decodeLoop, decide_eq_false_iff_not, List.length_append, List.length_cons]
  omega

/-- An iteration at an ampersand. -/
lemma decodeLoop_ampersand (a r : String8) (result : String32) (hasError : Bool) :
    (decodeLoop (a ++ ch '&' :: r)).body (a.length + 1, result, hasError) =
      (entityAt r).map fun e =>
        (((a ++ ch '&' :: r).length : ℤ) - e.2.1.length + 1, result ++ e.1, hasError || e.2.2) := by
  have hitem : Text.item? (a ++ ch '&' :: r) (a.length + 1) = some (ch '&') :=
    Text.item?_append_cons a (ch '&') r rfl
  simp only [decodeLoop, hitem, Option.bind_eq_bind, Option.bind_some, if_true,
    nextEntity_eq_entityAt]
  cases entityAt r <;> rfl

/-- The position behind an entity. -/
lemma position_behind (a x rest : String8) :
    ((a ++ ch '&' :: (x ++ rest)).length : ℤ) - rest.length + 1 =
      (a ++ ch '&' :: x).length + 1 := by
  simp only [List.length_append, List.length_cons]
  push_cast
  ring

/-- The loop of `decoded_string` yields a result of the relation. -/
lemma Decodes.run {u : String8} {w : String32} (h : Decodes u w) (a : String8)
    (result : String32) (hasError : Bool) {n : ℕ} (hn : u.length ≤ n) :
    ∃ st, (decodeLoop (a ++ u)).run n (a.length + 1, result, hasError) = some st ∧
      st.2.1 = result ++ w := by
  induction h generalizing a result hasError n with
  | nil =>
    have hexit : (decodeLoop (a ++ [])).exit (a.length + 1, result, hasError) = true := by
      simp [decodeLoop]
    rw [Loop.run_of_exit hexit]
    exact ⟨_, rfl, (List.append_nil result).symm⟩
  | @plain c r w hc _ ih =>
    obtain ⟨n, rfl⟩ : ∃ k, n = k + 1 := ⟨n - 1, by simp only [List.length_cons] at hn; omega⟩
    rw [Loop.run_succ (decodeLoop_exit_cons a r c _) (decodeLoop_plain a r result hasError hc)]
    obtain ⟨st, hrun, hst⟩ := ih (a ++ [c]) (result ++ [c.toUInt32]) hasError
      (by simpa using hn)
    rw [List.append_assoc, List.length_append, List.length_singleton, Nat.cast_add,
      Nat.cast_one] at hrun
    exact ⟨st, hrun, by rw [hst, List.append_assoc]; rfl⟩
  | @entity r rest out w err he _ ih =>
    obtain ⟨n, rfl⟩ : ∃ k, n = k + 1 := ⟨n - 1, by simp only [List.length_cons] at hn; omega⟩
    obtain ⟨x, rfl, -⟩ := entityAt_split he
    have hbody := decodeLoop_ampersand a (x ++ rest) result hasError
    rw [he, Option.map_some, position_behind] at hbody
    rw [Loop.run_succ (decodeLoop_exit_cons a (x ++ rest) _ _) hbody]
    obtain ⟨st, hrun, hst⟩ := @ih (a ++ ch '&' :: x) (result ++ out) (hasError || err) n
      (by simp only [List.length_cons, List.length_append] at hn; omega)
    rw [List.append_assoc, List.cons_append] at hrun
    exact ⟨st, hrun, by rw [hst, List.append_assoc]⟩

/-- If the loop of `decoded_string` yields a result, the relation does. -/
lemma decodes_of_run {a u : String8} {result : String32} {hasError : Bool} {n : ℕ}
    {st : ℤ × String32 × Bool}
    (h : (decodeLoop (a ++ u)).run n (a.length + 1, result, hasError) = some st) :
    ∃ w, Decodes u w := by
  induction n generalizing a u result hasError with
  | zero =>
    rcases u with _ | ⟨c, r⟩
    · exact ⟨[], Decodes.nil⟩
    · simp [Loop.run, decodeLoop_exit_cons] at h
  | succ n ih =>
    rcases u with _ | ⟨c, r⟩
    · exact ⟨[], Decodes.nil⟩
    rw [Loop.run_succ_of_not_exit (decodeLoop_exit_cons a r c _)] at h
    by_cases hc : c = ch '&'
    · subst hc
      rw [decodeLoop_ampersand] at h
      cases he : entityAt r with
      | none =>
        rw [he] at h
        cases h
      | some e =>
        obtain ⟨out, rest, err⟩ := e
        obtain ⟨x, rfl, -⟩ := entityAt_split he
        have hsplit : a ++ ch '&' :: (x ++ rest) = (a ++ ch '&' :: x) ++ rest := by simp
        rw [he, Option.map_some, position_behind, Option.bind_some, hsplit] at h
        obtain ⟨w, hw⟩ := ih h
        exact ⟨out ++ w, Decodes.entity he hw⟩
    · have hsplit : a ++ c :: r = (a ++ [c]) ++ r := by simp
      have hpos : (a.length : ℤ) + 1 + 1 = (a ++ [c]).length + 1 := by simp
      rw [decodeLoop_plain a r result hasError hc, Option.bind_some, hsplit, hpos] at h
      obtain ⟨w, hw⟩ := ih h
      exact ⟨c.toUInt32 :: w, Decodes.plain hc hw⟩

lemma Decodes.decodedString_eq {v : String8} {w : String32} (h : Decodes v w) :
    (decodedString v).map Prod.fst = some w := by
  obtain ⟨st, hrun, hst⟩ := h.run [] [] false le_rfl
  have hdec : decodedString v = some st.2 := congrArg (Option.map Prod.snd) hrun
  rw [hdec, Option.map_some, hst, List.nil_append]

/-- **Decoding without positions.** -/
lemma decodedString_eq_some_iff {v : String8} {w : String32} :
    (decodedString v).map Prod.fst = some w ↔ Decodes v w := by
  refine ⟨fun h => ?_, Decodes.decodedString_eq⟩
  obtain ⟨res, hres, -⟩ := Option.map_eq_some_iff.mp h
  obtain ⟨st, hrun, -⟩ := Option.map_eq_some_iff.mp hres
  obtain ⟨w', hw'⟩ := @decodes_of_run [] v [] false v.length st hrun
  rw [← Option.some.inj (hw'.decodedString_eq.symm.trans h)]
  exact hw'

/-! ## Every ampersand -/

/-- The text behind every ampersand has the property. -/
def AtAmpersands (P : String8 → Prop) (v : String8) : Prop := ∀ a r, v = a ++ ch '&' :: r → P r

section AtAmpersands

variable {P : String8 → Prop}

lemma atAmpersands_of_notMem {v : String8} (h : ch '&' ∉ v) : AtAmpersands P v := by
  rintro a r rfl
  exact absurd (by simp) h

lemma atAmpersands_append {x : String8} (hx : ch '&' ∉ x) (r : String8) :
    AtAmpersands P (x ++ r) ↔ AtAmpersands P r := by
  constructor
  · rintro h a t rfl
    exact h (x ++ a) t (by rw [List.append_assoc])
  · intro h a t heq
    rcases List.append_eq_append_iff.mp heq with ⟨c, -, hr⟩ | ⟨c, rfl, hc⟩
    · exact h c t hr
    · -- the ampersand is not in `x`, so that `x` ends before it
      cases c with
      | nil => exact h [] t hc.symm
      | cons y c =>
        rw [List.cons_append, List.cons.injEq] at hc
        exact absurd (by rw [← hc.1]; simp) hx

lemma atAmpersands_cons_of_ne {c : Character8} (hc : c ≠ ch '&') (r : String8) :
    AtAmpersands P (c :: r) ↔ AtAmpersands P r :=
  @atAmpersands_append P [c] (by simpa using hc.symm) r

lemma atAmpersands_cons (r : String8) :
    AtAmpersands P (ch '&' :: r) ↔ P r ∧ AtAmpersands P r := by
  constructor
  · intro h
    exact ⟨h [] r rfl, fun a t heq => h (ch '&' :: a) t (by rw [heq]; rfl)⟩
  · rintro ⟨hr, h⟩ a t heq
    cases a with
    | nil =>
      rw [List.nil_append, List.cons.injEq] at heq
      exact heq.2 ▸ hr
    | cons c a =>
      rw [List.cons_append, List.cons.injEq] at heq
      exact h a t heq.2

end AtAmpersands

/-! ## Reads inside the text -/

/-- The entity behind an ampersand is not empty, and its run is followed by a character. -/
def Bounded (r : String8) : Prop :=
  (kindOf r).2.dropWhile (kindOf r).1.reads ≠ [] ∧ r.head? ≠ some (ch ';')

lemma resolveEntity_isSome_iff (s : String8) : (resolveEntity s).isSome = true ↔ s ≠ [] := by
  cases s with
  | nil => simp [resolveEntity, Text.item?, Text.validIndex]
  | cons c s => simp [resolveEntity, Text.item?, Text.validIndex]

/-- The entities that are read inside the text. -/
lemma entityAt_isSome_iff (r : String8) : (entityAt r).isSome = true ↔ Bounded r := by
  obtain ⟨kind, t, hk⟩ : ∃ kind t, kindOf r = (kind, t) := ⟨_, _, rfl⟩
  unfold Bounded
  rw [hk]
  rcases run_cases kind.reads t with hall | ⟨s, c, rest, rfl, hs, hc⟩
  · simp [entityAt_eq_none hk hall, List.dropWhile_eq_nil_iff.mpr hall]
  · rw [entityAt_eq hk hs hc, (takeWhile_run hs hc rest).2]
    have hcons : c :: rest ≠ [] := List.cons_ne_nil c rest
    rw [and_iff_right hcons]
    rcases kindOf_cases r with ⟨-, hk'⟩ | ⟨t, rfl, -, hk'⟩ | ⟨t, rfl, hk'⟩
    · obtain ⟨rfl, hr⟩ : EntityKind.named = kind ∧ r = s ++ c :: rest := by
        simpa [Prod.mk.injEq] using hk'.symm.trans hk
      -- the name is empty if the text starts with the semicolon
      subst hr
      cases s with
      | nil =>
        by_cases hsemi : c = ch ';'
        · have hnone : entityValue [] EntityKind.named = none := rfl
          simp [hsemi, hnone]
        · simp [hsemi]
      | cons d s =>
        have hd : d ≠ ch ';' := by
          rintro rfl
          have hreads := hs (ch ';') List.mem_cons_self
          rw [EntityKind.reads_semicolon] at hreads
          cases hreads
        have hsome := (resolveEntity_isSome_iff (d :: s)).mpr (List.cons_ne_nil d s)
        split
        · simp [entityValue, hsome, hd]
        · simp [hd]
    · obtain ⟨rfl, -⟩ : EntityKind.decimal = kind ∧ t = s ++ c :: rest := by
        simpa [Prod.mk.injEq] using hk'.symm.trans hk
      have hsharp : ch '#' ≠ ch ';' := by decide
      split <;> simp [entityValue, hsharp]
    · obtain ⟨rfl, -⟩ : EntityKind.hexadecimal = kind ∧ t = s ++ c :: rest := by
        simpa [Prod.mk.injEq] using hk'.symm.trans hk
      have hsharp : ch '#' ≠ ch ';' := by decide
      split <;> simp [entityValue, hsharp]

/-- Decoding has a result if every entity is read inside the text. -/
lemma exists_decodes_iff (v : String8) : (∃ w, Decodes v w) ↔ AtAmpersands Bounded v := by
  induction hlen : v.length using Nat.strong_induction_on generalizing v with
  | _ n ih =>
  subst hlen
  rcases v with _ | ⟨c, r⟩
  · exact iff_of_true ⟨[], Decodes.nil⟩ (atAmpersands_of_notMem List.not_mem_nil)
  by_cases hc : c = ch '&'
  swap
  · rw [atAmpersands_cons_of_ne hc, ← ih r.length (by simp) r rfl]
    constructor
    · rintro ⟨w, hw⟩
      cases hw with
      | plain _ h => exact ⟨_, h⟩
      | entity => exact absurd rfl hc
    · rintro ⟨w, hw⟩
      exact ⟨_, Decodes.plain hc hw⟩
  subst hc
  rw [atAmpersands_cons, ← entityAt_isSome_iff]
  cases he : entityAt r with
  | none =>
    refine iff_of_false ?_ (by simp)
    rintro ⟨w, hw⟩
    cases hw with
    | plain hc _ => exact hc rfl
    | entity he' _ =>
      rw [he] at he'
      cases he'
  | some e =>
    obtain ⟨out, rest, err⟩ := e
    obtain ⟨x, rfl, hx⟩ := entityAt_split he
    have hrest := ih rest.length (length_behind_entity _ x rest) rest rfl
    rw [atAmpersands_append hx, ← hrest]
    constructor
    · rintro ⟨w, hw⟩
      cases hw with
      | plain hc _ => exact absurd rfl hc
      | entity he' h =>
        rw [he] at he'
        simp only [Option.some.injEq, Prod.mk.injEq] at he'
        obtain ⟨-, rfl, -⟩ := he'
        exact ⟨rfl, _, h⟩
    · rintro ⟨-, w, hw⟩
      exact ⟨_, Decodes.entity he hw⟩

/-- **When the decoder stays inside the text.** For every text, `decoded_string` reads at valid
positions only if and only if behind every ampersand there is no semicolon, and the run of the
characters of the entity is followed by another character. -/
theorem decodedString_isSome_iff (v : String8) :
    (decodedString v).isSome = true ↔ AtAmpersands Bounded v := by
  rw [← exists_decodes_iff]
  simp only [← decodedString_eq_some_iff]
  rw [← Option.isSome_iff_exists, Option.isSome_map]

/-- A text that ends with an ampersand. -/
theorem not_decodedString_isSome_ampersand :
    ¬ ∀ v : String8, (decodedString v).isSome = true := by
  intro hall
  exact absurd (hall (str "&")) (by decide)

end EiffelWeb.EntityEncoder
