import Mathlib.Data.List.Basic
import Mathlib.Data.List.Count
import Mathlib.Tactic.Common
import EiffelWeb.Encoder.EntityErrors

set_option relaxedAutoImplicit false
set_option autoImplicit false

/-!
# Malformed entities

Text with malformed entities is meant to be copied by the decoder of character entities. Some kinds
are: an entity that is closed but unknown, and an ampersand that no entity follows. Others are not:
after an entity that is not closed, what was read of it comes twice, and a decimal reference that is
no number loses its `#`.

The result cannot be the text by coincidence: a part that comes twice is longer than it was, and one
that is lost or replaced makes the result fall behind, but the ampersands would have to stay where
they are.

## Main definitions

* `EntityEncoder.Kept` — the entities that are copied, by the text behind the ampersand.
* `EntityEncoder.FollowedByPlain`, `EntityEncoder.IsReference` — the runs that end inside the text,
  and the well-formed references.

## Main results

* `EntityEncoder.entityAt_of_kept` — the five kinds of entities that are copied.
* `EntityEncoder.not_decodes_shifted` — a text is not decoded to itself with other text before it.
* `EntityEncoder.decodedString_copies_iff` — which texts are copied.
-/

namespace EiffelWeb.EntityEncoder

/-- The names that `resolve_entity` knows. -/
def entityNames : List String8 := [str "amp", str "apos", str "quot", str "lt", str "gt"]

/-- The entities that are copied, by the text behind the ampersand. -/
inductive Kept : String8 → Prop
  /-- A name that is not known, with its semicolon. -/
  | unknown {n rest : String8} (hne : n ≠ []) (hn : ∀ c ∈ n, validEntityCharacter c = true)
      (hname : n.map lower ∉ entityNames) : Kept (n ++ ch ';' :: rest)
  /-- No entity at all. -/
  | bare {c : Character8} {rest : String8} (hc : validEntityCharacter c = false)
      (hsharp : c ≠ ch '#') (hsemi : c ≠ ch ';') : Kept (c :: rest)
  /-- A `#` without digits. -/
  | sharp {c : Character8} {rest : String8} (hc : isDigit c = false) (hx : c ≠ ch 'x')
      (hsemi : c ≠ ch ';') : Kept (ch '#' :: c :: rest)
  /-- A hexadecimal reference, with its semicolon. -/
  | hexadecimal {n rest : String8} (hn : ∀ c ∈ n, isHexaDigit c = true) :
      Kept (ch '#' :: ch 'x' :: (n ++ ch ';' :: rest))
  /-- A `#x` without digits. -/
  | sharpX {c : Character8} {rest : String8} (hc : isHexaDigit c = false) (hsemi : c ≠ ch ';') :
      Kept (ch '#' :: ch 'x' :: c :: rest)

/-! ## Entities that are copied -/

lemma asString32_cons (c : Character8) (s : String8) :
    asString32 (c :: s) = c.toUInt32 :: asString32 s := rfl

lemma asString32_append (s t : String8) : asString32 (s ++ t) = asString32 s ++ asString32 t :=
  List.map_append

/-- A name that is known stands for one character, any other one is kept. -/
lemma resolveEntity_cases {n : String8} (hne : n ≠ []) :
    (n.map lower ∈ entityNames ∧ ∃ c, resolveEntity n = some [c]) ∨
      (n.map lower ∉ entityNames ∧ resolveEntity n = some (ch '&' :: (n ++ [ch ';']))) := by
  obtain ⟨c, t, rfl⟩ := List.exists_cons_of_ne_nil hne
  have hitem : Text.item? (c :: t) 1 = some c := Text.item?_append_cons [] c t rfl
  unfold resolveEntity entityNames
  simp only [hitem, Option.bind_eq_bind, Option.bind_some]
  split_ifs with hamp hapos hquot hlt hgt
  · exact Or.inl ⟨by simp [hamp], _, rfl⟩
  · exact Or.inl ⟨by simp [hapos], _, rfl⟩
  · exact Or.inl ⟨by simp [hquot], _, rfl⟩
  · exact Or.inl ⟨by simp [hlt], _, rfl⟩
  · exact Or.inl ⟨by simp [hgt], _, rfl⟩
  · refine Or.inr ⟨?_, rfl⟩
    simp only [List.mem_cons, List.not_mem_nil, or_false, not_or]
    exact ⟨hamp, hapos, hquot, hlt, hgt⟩

/-- The kind of an entity with a name. -/
lemma kindOf_named {c : Character8} (hc : c ≠ ch '#') (r : String8) :
    kindOf (c :: r) = (.named, c :: r) := if_neg hc

lemma kindOf_decimal {c : Character8} (hc : c ≠ ch 'x') (r : String8) :
    kindOf (ch '#' :: c :: r) = (.decimal, c :: r) := if_neg hc

lemma kindOf_hexadecimal (r : String8) :
    kindOf (ch '#' :: ch 'x' :: r) = (.hexadecimal, r) := rfl

/-- **The five kinds of entities that are copied**: the ampersand, and what is taken off the
text. -/
lemma entityAt_of_kept {r : String8} (h : Kept r) :
    ∃ x rest err, r = x ++ rest ∧ entityAt r = some (asString32 (ch '&' :: x), rest, err) := by
  cases h with
  | @unknown n rest hne hn hname =>
    obtain ⟨c, t, rfl⟩ := List.exists_cons_of_ne_nil hne
    have hc : c ≠ ch '#' := by
      rintro rfl
      exact absurd (hn (ch '#') List.mem_cons_self) (by decide)
    have heq := @entityAt_eq (c :: t ++ ch ';' :: rest) (c :: t) rest (ch ';') .named
      (kindOf_named hc _) hn (EntityKind.reads_semicolon _)
    rcases resolveEntity_cases hne with ⟨hmem, -⟩ | ⟨-, hresolve⟩
    · exact absurd hmem hname
    · rw [if_pos rfl, entityValue, hresolve] at heq
      exact ⟨c :: t ++ [ch ';'], rest, false, by simp, heq⟩
  | @bare c rest hc hsharp hsemi =>
    have heq := @entityAt_eq (c :: rest) [] rest c .named (kindOf_named hsharp _)
      (fun _ h => absurd h List.not_mem_nil) hc
    rw [if_neg hsemi] at heq
    exact ⟨[], _, true, rfl, heq⟩
  | @sharp c rest hc hx hsemi =>
    have heq := @entityAt_eq (ch '#' :: c :: rest) [] rest c .decimal (kindOf_decimal hx _)
      (fun _ h => absurd h List.not_mem_nil) hc
    rw [if_neg hsemi] at heq
    exact ⟨[], _, true, rfl, heq⟩
  | @hexadecimal n rest hn =>
    have heq := @entityAt_eq (ch '#' :: ch 'x' :: (n ++ ch ';' :: rest)) n rest (ch ';')
      .hexadecimal (kindOf_hexadecimal _) hn (EntityKind.reads_semicolon _)
    rw [if_pos rfl] at heq
    exact ⟨str "#x" ++ n ++ [ch ';'], rest, false, by simp [str], heq⟩
  | @sharpX c rest hc hsemi =>
    have heq := @entityAt_eq (ch '#' :: ch 'x' :: c :: rest) [] rest c .hexadecimal
      (kindOf_hexadecimal _) (fun _ h => absurd h List.not_mem_nil) hc
    rw [if_neg hsemi] at heq
    exact ⟨[], _, true, rfl, heq⟩

/-- A text whose entities are copied is copied. -/
lemma decodes_self {v : String8} (h : AtAmpersands Kept v) : Decodes v (asString32 v) := by
  induction hlen : v.length using Nat.strong_induction_on generalizing v with
  | _ n ih =>
  subst hlen
  rcases v with _ | ⟨c, r⟩
  · exact Decodes.nil
  by_cases hc : c = ch '&'
  swap
  · rw [atAmpersands_cons_of_ne hc] at h
    exact Decodes.plain hc (ih r.length (by simp) h rfl)
  subst hc
  rw [atAmpersands_cons] at h
  obtain ⟨x, rest, err, rfl, he⟩ := entityAt_of_kept h.1
  obtain ⟨x', hx', hamp⟩ := entityAt_split he
  rw [List.append_cancel_right hx', atAmpersands_append hamp] at h
  have hrest := ih rest.length (length_behind_entity _ x rest) h.2 rfl
  have hdec := Decodes.entity he hrest
  rw [← asString32_append] at hdec
  exact hdec

/-! ## Ampersands of the result -/

/-- Plain text is copied. -/
lemma Decodes.of_append {x u : String8} {w : String32} (h : Decodes (x ++ u) w)
    (hx : ch '&' ∉ x) : ∃ w', w = asString32 x ++ w' ∧ Decodes u w' := by
  induction x generalizing w with
  | nil => exact ⟨w, rfl, h⟩
  | cons c x ih =>
    rw [List.mem_cons, not_or] at hx
    rw [List.cons_append] at h
    cases h with
    | plain _ h =>
      obtain ⟨w', rfl, hw'⟩ := ih h hx.2
      exact ⟨w', rfl, hw'⟩
    | entity _ _ => exact absurd rfl hx.1

/-- The result of an entity: one character, or an ampersand and plain text. -/
lemma entityAt_out {r rest : String8} {out : String32} {err : Bool}
    (h : entityAt r = some (out, rest, err)) :
    (∃ d, out = [d]) ∨ ∃ s, out = asString32 (ch '&' :: s) ∧ ch '&' ∉ s := by
  obtain ⟨kind, t, hk⟩ : ∃ kind t, kindOf r = (kind, t) := ⟨_, _, rfl⟩
  rcases run_cases kind.reads t with hall | ⟨s, c, rest', rfl, hs, hc⟩
  · rw [entityAt_eq_none hk hall] at h
    cases h
  have hrun : ch '&' ∉ s := fun hmem => by
    have hreads := hs _ hmem
    rw [EntityKind.reads_ampersand] at hreads
    cases hreads
  have hclosed : ch '&' ∉ s ++ [ch ';'] := by
    rw [List.mem_append, not_or]
    exact ⟨hrun, by decide⟩
  rw [entityAt_eq hk hs hc] at h
  split at h
  · obtain ⟨out', hvalue, heq⟩ := Option.map_eq_some_iff.mp h
    simp only [Prod.mk.injEq] at heq
    obtain ⟨rfl, -, -⟩ := heq
    cases kind with
    | named =>
      obtain ⟨t, ht, rfl⟩ := Option.map_eq_some_iff.mp hvalue
      have hne : s ≠ [] := (resolveEntity_isSome_iff s).mp (by rw [ht]; rfl)
      rcases resolveEntity_cases hne with ⟨-, d, hd⟩ | ⟨-, hkeep⟩
      · rw [ht, Option.some.injEq] at hd
        exact Or.inl ⟨d.toUInt32, by rw [hd]; rfl⟩
      · rw [ht, Option.some.injEq] at hkeep
        exact Or.inr ⟨_, by rw [hkeep], hclosed⟩
    | decimal =>
      rw [entityValue, Option.some.injEq] at hvalue
      split at hvalue
      · exact Or.inl ⟨_, hvalue.symm⟩
      · exact Or.inr ⟨_, hvalue.symm, hclosed⟩
    | hexadecimal =>
      rw [entityValue, Option.some.injEq] at hvalue
      refine Or.inr ⟨str "#x" ++ s ++ [ch ';'], hvalue.symm, ?_⟩
      simp only [List.mem_append, not_or]
      exact ⟨⟨by decide, hrun⟩, by decide⟩
  · simp only [Option.some.injEq, Prod.mk.injEq] at h
    exact Or.inr ⟨s, h.1.symm, hrun⟩

/-- The ampersand in a `STRING_32`. -/
def ampersand : Character32 := (ch '&').toUInt32

lemma toUInt32_eq_ampersand_iff (c : Character8) : c.toUInt32 = ampersand ↔ c = ch '&' := by
  constructor
  · intro h
    have hback := congrArg asCharacter8 h
    rw [ampersand, asCharacter8_toUInt32, asCharacter8_toUInt32] at hback
    exact hback
  · rintro rfl
    rfl

lemma ampersand_mem_iff {s : String8} : ampersand ∈ asString32 s ↔ ch '&' ∈ s := by
  unfold asString32
  rw [List.mem_map]
  constructor
  · rintro ⟨c, hc, heq⟩
    rw [← (toUInt32_eq_ampersand_iff c).mp heq]
    exact hc
  · intro h
    exact ⟨ch '&', h, rfl⟩

lemma count_asString32 (s : String8) : (asString32 s).count ampersand = s.count (ch '&') := by
  induction s with
  | nil => rfl
  | cons c s ih =>
    rw [asString32_cons, List.count_cons, List.count_cons, ih]
    by_cases hc : c = ch '&'
    · simp [hc, ampersand]
    · have hne : c.toUInt32 ≠ ampersand := fun h => hc ((toUInt32_eq_ampersand_iff c).mp h)
      simp [hc, hne]

/-- Decoding adds no ampersands. -/
lemma Decodes.count_le {u : String8} {w : String32} (h : Decodes u w) :
    w.count ampersand ≤ u.count (ch '&') := by
  induction h with
  | nil => exact le_rfl
  | @plain c r w hc _ ih =>
    have hne : c.toUInt32 ≠ ampersand := fun h => hc ((toUInt32_eq_ampersand_iff c).mp h)
    rw [List.count_cons_of_ne hne, List.count_cons_of_ne hc]
    exact ih
  | @entity r rest out w err he _ ih =>
    obtain ⟨x, rfl, hx⟩ := entityAt_split he
    have hout : out.count ampersand ≤ 1 := by
      rcases entityAt_out he with ⟨d, rfl⟩ | ⟨s, rfl, hs⟩
      · exact List.count_le_length
      · rw [count_asString32, List.count_cons_self, List.count_eq_zero_of_not_mem hs]
    rw [List.count_append, List.count_cons_self, List.count_append,
      List.count_eq_zero_of_not_mem hx]
    omega

/-- **A text is not decoded to itself with other text before it**: its first ampersand stays where
it is, or it is lost. -/
lemma not_decodes_shifted {y u : String8} (hne : y ≠ []) (hy : ch '&' ∉ y) :
    ¬ Decodes u (asString32 (y ++ u)) := by
  intro h
  rcases Text.notMem_or_split (ch '&') u with hu | ⟨q, t, rfl, hq⟩
  · have hall := decodes_self (@atAmpersands_of_notMem Kept u hu)
    have hsame := h.decodedString_eq.symm.trans hall.decodedString_eq
    have hlen := congrArg List.length (Option.some.inj hsame)
    have hpos := List.length_pos_of_ne_nil hne
    simp only [asString32, List.length_map, List.length_append] at hlen
    omega
  · obtain ⟨w, heq, hw⟩ := h.of_append hq
    -- the character of the result at the place of the first ampersand
    have hplace : w.head? ≠ some ampersand := by
      have hget := congrArg (fun l : String32 => l[q.length]?) heq
      have hlen : (asString32 q).length = q.length := List.length_map _
      have hhead : (asString32 q ++ w)[q.length]? = w.head? := by
        rw [List.getElem?_append_right (by omega), hlen, Nat.sub_self, List.head?_eq_getElem?]
      rw [← hhead, ← hget]
      intro hmem
      have hpos := List.length_pos_of_ne_nil hne
      have hsplit : asString32 (y ++ (q ++ ch '&' :: t)) =
          asString32 (y ++ q) ++ asString32 (ch '&' :: t) := by
        rw [← asString32_append, List.append_assoc]
      have hlt : q.length < (asString32 (y ++ q)).length := by
        simp only [asString32, List.length_map, List.length_append]
        omega
      rw [hsplit, List.getElem?_append_left hlt] at hmem
      have hin := ampersand_mem_iff.mp (List.mem_of_getElem? hmem)
      rcases List.mem_append.mp hin with h' | h'
      · exact hy h'
      · exact hq h'
    cases hw with
    | plain hc _ => exact hc rfl
    | @entity _ rest out w' err he hrest =>
      rcases entityAt_out he with ⟨d, rfl⟩ | ⟨s, rfl, -⟩
      · -- the ampersand is lost
        obtain ⟨x, rfl, hx⟩ := entityAt_split he
        have hd : d ≠ ampersand := fun h' => hplace (by rw [h']; rfl)
        have hcount := congrArg (List.count ampersand) heq
        have hle := hrest.count_le
        rw [count_asString32, List.count_append, List.count_append, List.count_append,
          count_asString32, List.count_append, List.count_singleton,
          beq_eq_false_iff_ne.mpr hd, List.count_cons_self, List.count_append,
          List.count_eq_zero_of_not_mem hq, List.count_eq_zero_of_not_mem hy,
          List.count_eq_zero_of_not_mem hx] at hcount
        simp only [Bool.false_eq_true, if_false] at hcount
        omega
      · exact hplace rfl

/-! ## Entities that are not copied -/

/-- A run that is not closed is decoded once more: the character behind it would have to be its
first one. -/
lemma not_decodes_repeated {p : Character8 → Bool} {s rest : String8} {c : Character8}
    (hne : s ≠ []) (hs : ∀ d ∈ s, p d = true) (hamp : ch '&' ∉ s) (hc : p c = false) :
    ¬ Decodes (s ++ c :: rest) (asString32 (c :: rest)) := by
  intro h
  obtain ⟨w, heq, -⟩ := h.of_append hamp
  obtain ⟨d, s, rfl⟩ := List.exists_cons_of_ne_nil hne
  have hhead := congrArg List.head? heq
  rw [asString32_cons, asString32_cons, List.cons_append, List.head?_cons, List.head?_cons,
    Option.some.injEq] at hhead
  have hcd : c = d := by
    have hback := congrArg asCharacter8 hhead
    rwa [asCharacter8_toUInt32, asCharacter8_toUInt32] at hback
  rw [hcd, hs d List.mem_cons_self] at hc
  cases hc

/-- A single character in the place of an entity is not followed by the text. -/
lemma not_decodes_single {d : Character32} {x rest : String8} {w : String32} (hne : x ≠ [])
    (hx : ch '&' ∉ x) (heq : asString32 (ch '&' :: (x ++ rest)) = [d] ++ w) :
    ¬ Decodes rest w := by
  rw [asString32_cons, List.singleton_append, List.cons.injEq] at heq
  rw [← heq.2]
  exact not_decodes_shifted hne hx

/-- The second characters of a text and of a result that starts with an ampersand. -/
lemma second_eq {x y : Character8} {r s : String8} {w : String32}
    (h : asString32 (ch '&' :: x :: r) = asString32 (ch '&' :: y :: s) ++ w) : x = y := by
  rw [asString32_cons, asString32_cons, asString32_cons, asString32_cons, List.cons_append,
    List.cons_append, List.cons.injEq, List.cons.injEq] at h
  have hback := congrArg asCharacter8 h.2.1
  rwa [asCharacter8_toUInt32, asCharacter8_toUInt32] at hback

/-- A name is copied if the text is. -/
lemma kept_of_named {s rest : String8} {c : Character8} {out w : String32} {rest' : String8}
    {err : Bool} (hk : kindOf (s ++ c :: rest) = (.named, s ++ c :: rest))
    (hsharp : (s ++ c :: rest).head? ≠ some (ch '#'))
    (hs : ∀ d ∈ s, validEntityCharacter d = true) (hc : validEntityCharacter c = false)
    (hamp : ch '&' ∉ s) (he : entityAt (s ++ c :: rest) = some (out, rest', err))
    (hw : Decodes rest' w) (heq : asString32 (ch '&' :: (s ++ c :: rest)) = out ++ w) :
    Kept (s ++ c :: rest) := by
  rw [entityAt_eq hk hs hc] at he
  split at he
  · next hsemi =>
    subst hsemi
    obtain ⟨out', hvalue, hparts⟩ := Option.map_eq_some_iff.mp he
    simp only [Prod.mk.injEq] at hparts
    obtain ⟨rfl, rfl, -⟩ := hparts
    obtain ⟨t, ht, rfl⟩ := Option.map_eq_some_iff.mp hvalue
    have hne : s ≠ [] := (resolveEntity_isSome_iff s).mp (by rw [ht]; rfl)
    rcases resolveEntity_cases hne with ⟨-, d, hd⟩ | ⟨hname, -⟩
    · rw [ht, Option.some.injEq] at hd
      have hx : ch '&' ∉ s ++ [ch ';'] := by
        rw [List.mem_append, not_or]
        exact ⟨hamp, by decide⟩
      have hsingle : asString32 (ch '&' :: (s ++ [ch ';'] ++ rest)) = [d.toUInt32] ++ w := by
        rw [List.append_assoc, List.singleton_append, heq, hd]
        rfl
      exact absurd hw (not_decodes_single (by simp) hx hsingle)
    · exact Kept.unknown hne hs hname
  · next hsemi =>
    simp only [Option.some.injEq, Prod.mk.injEq] at he
    obtain ⟨rfl, rfl, -⟩ := he
    cases s with
    | nil => exact Kept.bare hc (by simpa using hsharp) hsemi
    | cons d s =>
      have hrest : w = asString32 (c :: rest) := by
        rw [← List.cons_append, asString32_append] at heq
        exact (List.append_cancel_left heq).symm
      rw [hrest] at hw
      exact absurd hw (not_decodes_repeated (List.cons_ne_nil d s) hs hamp hc)

/-- A `#` without digits is copied, a decimal reference is not. -/
lemma kept_of_decimal {s rest : String8} {c : Character8} {out w : String32} {rest' : String8}
    {err : Bool} (hk : kindOf (ch '#' :: (s ++ c :: rest)) = (.decimal, s ++ c :: rest))
    (hx : (s ++ c :: rest).head? ≠ some (ch 'x'))
    (hs : ∀ d ∈ s, isDigit d = true) (hc : isDigit c = false)
    (hamp : ch '&' ∉ s) (he : entityAt (ch '#' :: (s ++ c :: rest)) = some (out, rest', err))
    (hw : Decodes rest' w) (heq : asString32 (ch '&' :: ch '#' :: (s ++ c :: rest)) = out ++ w) :
    Kept (ch '#' :: (s ++ c :: rest)) := by
  have hdigit : ∀ d ∈ s, ch '#' ≠ d := by
    rintro d hd rfl
    exact absurd (hs _ hd) (by decide)
  rw [entityAt_eq hk hs hc] at he
  split at he
  · next hsemi =>
    subst hsemi
    obtain ⟨out', hvalue, hparts⟩ := Option.map_eq_some_iff.mp he
    simp only [Prod.mk.injEq] at hparts
    obtain ⟨rfl, rfl, -⟩ := hparts
    rw [entityValue, Option.some.injEq] at hvalue
    split at hvalue
    · have hmem : ch '&' ∉ ch '#' :: (s ++ [ch ';']) := by
        simp only [List.mem_cons, List.mem_append, List.not_mem_nil, or_false, not_or]
        exact ⟨by decide, hamp, by decide⟩
      have hsingle : asString32 (ch '&' :: (ch '#' :: (s ++ [ch ';']) ++ rest)) =
          [UInt32.ofNat (decimalValue s)] ++ w := by
        rw [hvalue, ← heq]
        simp
      exact absurd hw (not_decodes_single (List.cons_ne_nil _ _) hmem hsingle)
    · -- the result has the first digit or the semicolon in the place of the `#`
      rw [← hvalue] at heq
      cases s with
      | nil => exact absurd (second_eq heq) (by decide)
      | cons d s => exact absurd (second_eq heq) (hdigit d List.mem_cons_self)
  · next hsemi =>
    simp only [Option.some.injEq, Prod.mk.injEq] at he
    obtain ⟨rfl, -, -⟩ := he
    cases s with
    | nil => exact Kept.sharp hc (by simpa using hx) hsemi
    | cons d s => exact absurd (second_eq heq) (hdigit d List.mem_cons_self)

/-- A hexadecimal reference is copied, or a `#x` without digits. -/
lemma kept_of_hexadecimal {s rest : String8} {c : Character8} {out w : String32} {rest' : String8}
    {err : Bool}
    (hk : kindOf (ch '#' :: ch 'x' :: (s ++ c :: rest)) = (.hexadecimal, s ++ c :: rest))
    (hs : ∀ d ∈ s, isHexaDigit d = true) (hc : isHexaDigit c = false)
    (he : entityAt (ch '#' :: ch 'x' :: (s ++ c :: rest)) = some (out, rest', err))
    (heq : asString32 (ch '&' :: ch '#' :: ch 'x' :: (s ++ c :: rest)) = out ++ w) :
    Kept (ch '#' :: ch 'x' :: (s ++ c :: rest)) := by
  rw [entityAt_eq hk hs hc] at he
  split at he
  · next hsemi =>
    subst hsemi
    exact Kept.hexadecimal hs
  · next hsemi =>
    simp only [Option.some.injEq, Prod.mk.injEq] at he
    obtain ⟨rfl, -, -⟩ := he
    cases s with
    | nil => exact Kept.sharpX hc hsemi
    | cons d s =>
      have hd : ch '#' = d := second_eq heq
      have hmem := hs d List.mem_cons_self
      rw [← hd] at hmem
      exact absurd hmem (by decide)

/-- What the relation says at an ampersand. -/
lemma Decodes.ampersand_cases {r : String8} {u : String32} (h : Decodes (ch '&' :: r) u) :
    ∃ rest out w err, entityAt r = some (out, rest, err) ∧ Decodes rest w ∧ u = out ++ w := by
  cases h with
  | plain hc _ => exact absurd rfl hc
  | entity he hw => exact ⟨_, _, _, _, he, hw, rfl⟩

/-- **If the text from an ampersand on is copied, the entity is.** -/
lemma kept_of_decodes {r : String8} (h : Decodes (ch '&' :: r) (asString32 (ch '&' :: r))) :
    Kept r := by
  obtain ⟨rest, out, w, err, he, hw, heq⟩ := h.ampersand_cases
  obtain ⟨kind, t, hk⟩ : ∃ kind t, kindOf r = (kind, t) := ⟨_, _, rfl⟩
  rcases run_cases kind.reads t with hall | ⟨s, c, rest', rfl, hs, hc⟩
  · rw [entityAt_eq_none hk hall] at he
    cases he
  have hamp : ch '&' ∉ s := fun hmem => by
    have hreads := hs _ hmem
    rw [EntityKind.reads_ampersand] at hreads
    cases hreads
  rcases kindOf_cases r with ⟨hsharp, hk'⟩ | ⟨t, rfl, hx, hk'⟩ | ⟨t, rfl, hk'⟩
  · obtain ⟨rfl, rfl⟩ : EntityKind.named = kind ∧ r = s ++ c :: rest' := by
      simpa [Prod.mk.injEq] using hk'.symm.trans hk
    exact kept_of_named hk hsharp hs hc hamp he hw heq
  · obtain ⟨rfl, rfl⟩ : EntityKind.decimal = kind ∧ t = s ++ c :: rest' := by
      simpa [Prod.mk.injEq] using hk'.symm.trans hk
    exact kept_of_decimal hk hx hs hc hamp he hw heq
  · obtain ⟨rfl, rfl⟩ : EntityKind.hexadecimal = kind ∧ t = s ++ c :: rest' := by
      simpa [Prod.mk.injEq] using hk'.symm.trans hk
    exact kept_of_hexadecimal hk hs hc he heq

/-- A text that is copied has only entities that are copied. -/
lemma atAmpersands_of_decodes {v : String8} (h : Decodes v (asString32 v)) :
    AtAmpersands Kept v := by
  induction hlen : v.length using Nat.strong_induction_on generalizing v with
  | _ n ih =>
  subst hlen
  rcases v with _ | ⟨c, r⟩
  · exact atAmpersands_of_notMem List.not_mem_nil
  by_cases hc : c = ch '&'
  swap
  · rw [atAmpersands_cons_of_ne hc]
    obtain ⟨w, heq, hw⟩ := @Decodes.of_append [c] r _ h (by simpa using Ne.symm hc)
    obtain ⟨-, rfl⟩ : c.toUInt32 = c.toUInt32 ∧ asString32 r = w := by simpa [asString32] using heq
    exact ih r.length (by simp) hw rfl
  subst hc
  have hkept := kept_of_decodes h
  rw [atAmpersands_cons]
  refine ⟨hkept, ?_⟩
  obtain ⟨x, rest, err, rfl, he⟩ := entityAt_of_kept hkept
  obtain ⟨x', hx', hamp⟩ := entityAt_split he
  rw [atAmpersands_append (List.append_cancel_right hx' ▸ hamp)]
  obtain ⟨rest', out, w, err', he', hw, heq⟩ := h.ampersand_cases
  rw [he, Option.some.injEq, Prod.mk.injEq, Prod.mk.injEq] at he'
  obtain ⟨rfl, rfl, -⟩ := he'
  rw [← List.cons_append, asString32_append] at heq
  rw [← List.append_cancel_left heq] at hw
  exact ih rest.length (length_behind_entity _ x rest) hw rfl

/-- **Which texts are copied.** For every text, `decoded_string` yields the text itself if and only
if behind every ampersand there is an unknown name with its semicolon, a hexadecimal reference, or
no entity at all.

**Proof sketch.** The result of such an entity is what was taken off the text. Any other entity
changes the result from its ampersand on: a character other than an ampersand takes its place, a
digit takes the place of the `#`, the name that is not closed comes again where another character
follows it, or the text would have to be decoded to itself with other text before it. -/
theorem decodedString_copies_iff (v : String8) :
    (decodedString v).map Prod.fst = some (asString32 v) ↔ AtAmpersands Kept v := by
  rw [decodedString_eq_some_iff]
  exact ⟨atAmpersands_of_decodes, decodes_self⟩

/-! ## References that are not closed -/

/-- The run behind an ampersand is followed by a character that is no ampersand. -/
def FollowedByPlain (r : String8) : Prop :=
  ∃ c rest, (kindOf r).2.dropWhile (kindOf r).1.reads = c :: rest ∧ c ≠ ch '&'

/-- The text between an ampersand and a semicolon is a well-formed reference. -/
def IsReference (n : String8) : Prop :=
  n.map lower ∈ entityNames ∨
    ∃ ds, n = ch '#' :: ds ∧ ds.all isDigit = true ∧ 1 ≤ ds.length ∧ ds.length ≤ 9

/-- The text `&b c` has no reference, and its result is `&bb c`. -/
theorem decodedString_repeats :
    (decodedString (str "&b c")).map Prod.fst = some (asString32 (str "&bb c")) ∧
    ¬ ∀ v : String8, AtAmpersands FollowedByPlain v →
      (∀ a n r, v = a ++ ch '&' :: (n ++ ch ';' :: r) → ¬ IsReference n) →
      (decodedString v).map Prod.fst = some (asString32 v) := by
  have hresult : (decodedString (str "&b c")).map Prod.fst = some (asString32 (str "&bb c")) := by
    decide
  refine ⟨hresult, fun hall => ?_⟩
  have hplain : AtAmpersands FollowedByPlain (str "&b c") := by
    have hsplit : str "&b c" = ch '&' :: str "b c" := rfl
    rw [hsplit, atAmpersands_cons]
    refine ⟨⟨ch ' ', str "c", by decide, by decide⟩, ?_⟩
    have hamp : ch '&' ∉ str "b c" := by decide
    exact atAmpersands_of_notMem hamp
  have hnone : ∀ a n r, str "&b c" = a ++ ch '&' :: (n ++ ch ';' :: r) → ¬ IsReference n := by
    intro a n r heq
    have hmem : ch ';' ∈ str "&b c" := by
      rw [heq]
      simp
    exact absurd hmem (by decide)
  have hself := hall (str "&b c") hplain hnone
  rw [hresult] at hself
  exact absurd hself (by decide)

end EiffelWeb.EntityEncoder
