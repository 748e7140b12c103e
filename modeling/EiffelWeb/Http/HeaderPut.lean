import Mathlib.Data.List.Basic
import Mathlib.Tactic.Common
import EiffelWeb.Text
import EiffelWeb.Character
import EiffelWeb.Http.Header

set_option relaxedAutoImplicit false
set_option autoImplicit false

/-!
# Putting headers by key

`put_header` replaces the line that starts with the name of the new one. The name is found by a
scanner that gives up on every character but letters, hyphens and the colon; then the line is added.
So a key that the scanner knows has at most one line, with the last value put for it, and any other
key has a line for every call.

## Main definitions

* `IsToken` — the tokens of RFC 2616.
* `HttpHeader.isNameCharacter` — the characters of the names that the scanner knows.
* `HttpHeader.keyOf` — the key of a line.
* `HttpHeader.putAll` — the header after a sequence of calls.

## Main results

* `HttpHeader.headerName_key` — which keys the scanner knows.
* `HttpHeader.filter_putHeaderKeyValue_of_ne` — the lines of other keys do not change.
* `HttpHeader.filter_putAll` — the lines of a key after a sequence of calls.
* `HttpHeader.putAll_unique_iff` — when every key has one line, with its last value.
-/

namespace EiffelWeb

/-- The separators of RFC 2616 but the blank and the tab. -/
def tokenSeparators : String8 := str "()<>@,;:\\\"/[]?=\x7b\x7d"

/-- A character of a token of RFC 2616: neither a control character nor a separator. -/
def isTokenCharacter (c : Character8) : Bool :=
  32 < c.toNat && c.toNat < 127 && !tokenSeparators.elem c

/-- A token of RFC 2616. -/
def IsToken (s : String8) : Prop := s ≠ [] ∧ s.all isTokenCharacter = true

instance (s : String8) : Decidable (IsToken s) := inferInstanceAs (Decidable (_ ∧ _))

lemma IsToken.colon_notMem {s : String8} (h : IsToken s) : ch ':' ∉ s := fun hmem =>
  absurd (List.all_eq_true.mp h.2 _ hmem) (by decide)

namespace HttpHeader

/-- The characters that `header_name` takes into a name. -/
def isNameCharacter (c : Character8) : Bool := c = ch '-' || isLower c || isUpper c

/-- The line of a key and a value. -/
def line (kv : String8 × String8) : String8 := kv.1 ++ str ": " ++ kv.2

/-- The key of a line: the text before its first colon. -/
def keyOf (l : String8) : String8 := l.takeWhile (· ≠ ch ':')

/-- The header after a sequence of `put_header_key_value` on a new one. -/
def putAll (kvs : List (String8 × String8)) : HttpHeader :=
  kvs.foldl (fun headers kv => headers.putHeaderKeyValue kv.1 kv.2) []

/-! ## Names -/

lemma line_eq (kv : String8 × String8) : line kv = kv.1 ++ ch ':' :: (ch ' ' :: kv.2) := by
  simp [line, str]

lemma keyOf_line {kv : String8 × String8} (h : ch ':' ∉ kv.1) : keyOf (line kv) = kv.1 := by
  rw [keyOf, line_eq, Text.takeWhile_ne h]

/-- **Which keys the scanner knows.** -/
lemma headerName_key {k : String8} (h : ch ':' ∉ k) (r : String8) :
    headerName (k ++ ch ':' :: r) =
      if k.all isNameCharacter then some (k ++ [ch ':']) else none := by
  induction k with
  | nil => simp [headerName]
  | cons c k ih =>
    rw [List.mem_cons, not_or] at h
    rw [List.cons_append, headerName, if_neg (Ne.symm h.1), ih h.2, List.all_cons]
    have hname : (c = ch '-' || isLower c || isUpper c) = isNameCharacter c := rfl
    rw [hname]
    cases isNameCharacter c <;> cases k.all isNameCharacter <;> rfl

/-- A line starts with a key and a colon if this is its key. -/
lemma key_isPrefix_iff {k l : String8} (hk : ch ':' ∉ k) (hl : ch ':' ∈ l) :
    k ++ [ch ':'] <+: l ↔ keyOf l = k := by
  constructor
  · rintro ⟨r, rfl⟩
    rw [keyOf, List.append_assoc, List.singleton_append, Text.takeWhile_ne hk]
  · intro hkey
    rcases Text.notMem_or_split (ch ':') l with h | ⟨a, b, rfl, ha⟩
    · exact absurd hl h
    · rw [keyOf, Text.takeWhile_ne ha] at hkey
      exact ⟨b, by rw [hkey]; simp⟩

/-! ## One call -/

/-- The lines of the key that is replaced: the new line takes the place of the first one. -/
lemma filter_replaceHeader_self {k h : String8} (hk : ch ':' ∉ k) (hh : keyOf h = k)
    {headers : HttpHeader} (hl : ∀ l ∈ headers, ch ':' ∈ l) :
    (replaceHeader (k ++ [ch ':']) h headers).filter (fun l => keyOf l = k) =
      h :: (headers.filter fun l => keyOf l = k).tail := by
  induction headers with
  | nil => simp [replaceHeader, addHeader, hh]
  | cons l headers ih =>
    have hcolon := hl l List.mem_cons_self
    rw [replaceHeader]
    by_cases hkey : keyOf l = k
    · rw [if_pos ((key_isPrefix_iff hk hcolon).mpr hkey)]
      simp [hh, hkey]
    · rw [if_neg fun hp => hkey ((key_isPrefix_iff hk hcolon).mp hp),
        List.filter_cons_of_neg (by simpa using hkey),
        List.filter_cons_of_neg (by simpa using hkey)]
      exact ih fun l' hl' => hl l' (List.mem_cons_of_mem l hl')

lemma filter_replaceHeader_of_ne {k h : String8} (hk : ch ':' ∉ k) (hh : keyOf h = k)
    {headers : HttpHeader} (hl : ∀ l ∈ headers, ch ':' ∈ l) :
    (replaceHeader (k ++ [ch ':']) h headers).filter (fun l => keyOf l ≠ k) =
      headers.filter fun l => keyOf l ≠ k := by
  induction headers with
  | nil => simp [replaceHeader, addHeader, hh]
  | cons l headers ih =>
    have hcolon := hl l List.mem_cons_self
    rw [replaceHeader]
    by_cases hkey : keyOf l = k
    · rw [if_pos ((key_isPrefix_iff hk hcolon).mpr hkey)]
      simp [hh, hkey]
    · rw [if_neg fun hp => hkey ((key_isPrefix_iff hk hcolon).mp hp),
        List.filter_cons_of_pos (by simpa using hkey),
        List.filter_cons_of_pos (by simpa using hkey)]
      rw [ih fun l' hl' => hl l' (List.mem_cons_of_mem l hl')]

/-- A call on a key that the scanner knows, and on one it does not know. -/
lemma putHeaderKeyValue_eq {kv : String8 × String8} (hk : ch ':' ∉ kv.1) (headers : HttpHeader) :
    headers.putHeaderKeyValue kv.1 kv.2 =
      if kv.1.all isNameCharacter then replaceHeader (kv.1 ++ [ch ':']) (line kv) headers
      else headers ++ [line kv] := by
  have hname : headerName (line kv) =
      if kv.1.all isNameCharacter then some (kv.1 ++ [ch ':']) else none := by
    rw [line_eq, headerName_key hk]
  have hput : headers.putHeaderKeyValue kv.1 kv.2 =
      forceHeaderByName headers (headerName (line kv)) (line kv) := rfl
  rw [hput, hname]
  split <;> rfl

/-- **The lines of other keys do not change.** -/
lemma filter_putHeaderKeyValue_of_ne {kv : String8 × String8} (hk : ch ':' ∉ kv.1)
    {headers : HttpHeader} (hl : ∀ l ∈ headers, ch ':' ∈ l) :
    (headers.putHeaderKeyValue kv.1 kv.2).filter (fun l => keyOf l ≠ kv.1) =
      headers.filter fun l => keyOf l ≠ kv.1 := by
  rw [putHeaderKeyValue_eq hk]
  split
  · exact filter_replaceHeader_of_ne hk (keyOf_line hk) hl
  · simp [keyOf_line hk]

/-- The lines of the key after a call. -/
lemma filter_putHeaderKeyValue_self {kv : String8 × String8} (hk : ch ':' ∉ kv.1)
    {headers : HttpHeader} (hl : ∀ l ∈ headers, ch ':' ∈ l) :
    (headers.putHeaderKeyValue kv.1 kv.2).filter (fun l => keyOf l = kv.1) =
      if kv.1.all isNameCharacter then line kv :: (headers.filter fun l => keyOf l = kv.1).tail
      else (headers.filter fun l => keyOf l = kv.1) ++ [line kv] := by
  rw [putHeaderKeyValue_eq hk]
  split
  · exact filter_replaceHeader_self hk (keyOf_line hk) hl
  · simp [keyOf_line hk]

/-- The lines of a key do not depend on calls for other keys. -/
lemma filter_putHeaderKeyValue_other {kv : String8 × String8} (hk : ch ':' ∉ kv.1) {k : String8}
    (hne : k ≠ kv.1) {headers : HttpHeader} (hl : ∀ l ∈ headers, ch ':' ∈ l) :
    (headers.putHeaderKeyValue kv.1 kv.2).filter (fun l => keyOf l = k) =
      headers.filter fun l => keyOf l = k := by
  have hsub : ∀ H : HttpHeader, H.filter (fun l => keyOf l = k) =
      (H.filter fun l => keyOf l ≠ kv.1).filter fun l => keyOf l = k := by
    intro H
    rw [List.filter_filter]
    refine List.filter_congr fun l _ => ?_
    by_cases hkey : keyOf l = k
    · simp [hkey, hne]
    · simp [hkey]
  rw [hsub, filter_putHeaderKeyValue_of_ne hk hl, ← hsub]

/-! ## A sequence of calls -/

lemma putAll_concat (kvs : List (String8 × String8)) (kv : String8 × String8) :
    putAll (kvs ++ [kv]) = (putAll kvs).putHeaderKeyValue kv.1 kv.2 := List.foldl_concat ..

lemma colon_mem_putAll (kvs : List (String8 × String8)) : ∀ l ∈ putAll kvs, ch ':' ∈ l := by
  intro l hl
  rcases mem_foldl_putHeaderKeyValue hl with ⟨kv, -, rfl⟩ | hl
  · simp [str]
  · cases hl

/-- **The lines of a key after a sequence of calls**: the last one for a key that the scanner knows,
else all of them. -/
lemma filter_putAll {kvs : List (String8 × String8)} (h : ∀ kv ∈ kvs, ch ':' ∉ kv.1) (k : String8) :
    (putAll kvs).filter (fun l => keyOf l = k) =
      if k.all isNameCharacter then (kvs.filter fun kv => kv.1 = k).getLast?.toList.map line
      else (kvs.filter fun kv => kv.1 = k).map line := by
  induction kvs using List.reverseRecOn with
  | nil => simp [putAll]
  | append_singleton kvs kv ih =>
    have hk := h kv (by simp)
    have hrest := ih fun kv' hkv' => h kv' (by simp [hkv'])
    rw [putAll_concat, List.filter_append]
    by_cases hkey : kv.1 = k
    · subst hkey
      rw [filter_putHeaderKeyValue_self hk (colon_mem_putAll kvs), hrest]
      split
      · -- the new line replaces the last one, which is the only one
        cases (kvs.filter fun kv' => kv'.1 = kv.1).getLast? <;> simp
      · simp
    · rw [filter_putHeaderKeyValue_other hk (Ne.symm hkey) (colon_mem_putAll kvs), hrest]
      simp [hkey]

/-- Every key that was put has one line, with the last value put for it, and no call changed the
lines of other keys. -/
structure UniqueByKey (kvs : List (String8 × String8)) : Prop where
  /-- The line of a key, with its last value. -/
  line_of_last : ∀ k v, (kvs.filter fun kv => kv.1 = k).getLast? = some (k, v) →
    (putAll kvs).filter (fun l => keyOf l = k) = [k ++ str ": " ++ v]
  /-- The lines of other keys. -/
  others : ∀ pre kv post, kvs = pre ++ kv :: post →
    (putAll (pre ++ [kv])).filter (fun l => keyOf l ≠ kv.1) =
      (putAll pre).filter fun l => keyOf l ≠ kv.1

/-- **When every key has one line, with its last value.** For every sequence of calls with tokens as
keys, this holds if and only if every key that is put more than once consists of letters and
hyphens.

**Proof sketch.** The calls for a key that the scanner knows keep its one line in place; the calls
for any other key add a line each. -/
theorem putAll_unique_iff (kvs : List (String8 × String8)) (h : ∀ kv ∈ kvs, IsToken kv.1) :
    UniqueByKey kvs ↔
      ∀ k, 2 ≤ (kvs.filter fun kv => kv.1 = k).length → k.all isNameCharacter = true := by
  have hcolon : ∀ kv ∈ kvs, ch ':' ∉ kv.1 := fun kv hkv => (h kv hkv).colon_notMem
  constructor
  · rintro ⟨hline, -⟩ k htwo
    by_contra hname
    obtain ⟨⟨k', v⟩, hlast⟩ : ∃ kv, (kvs.filter fun kv => kv.1 = k).getLast? = some kv := by
      refine Option.ne_none_iff_exists'.mp fun hnone => ?_
      rw [List.getLast?_eq_none_iff] at hnone
      rw [hnone] at htwo
      simp at htwo
    obtain rfl : k' = k := by
      simpa using (List.mem_filter.mp (List.mem_of_getLast? hlast)).2
    have hone := hline k' v hlast
    rw [filter_putAll hcolon, if_neg hname] at hone
    have hlength := congrArg List.length hone
    rw [List.length_map, List.length_singleton] at hlength
    omega
  · intro hnames
    constructor
    · intro k v hlast
      rw [filter_putAll hcolon]
      split
      · simp [hlast, line]
      · next hname =>
        -- a key the scanner does not know is put only once
        have hlt : (kvs.filter fun kv => kv.1 = k).length < 2 := by
          by_contra hge
          exact hname (hnames k (by omega))
        generalize (kvs.filter fun kv => kv.1 = k) = ks at hlast hlt ⊢
        rcases ks with _ | ⟨kv, _ | ⟨kv', ks⟩⟩
        · simp at hlast
        · rw [List.getLast?_singleton, Option.some.injEq] at hlast
          rw [hlast]
          rfl
        · simp only [List.length_cons] at hlt
          omega
    · rintro pre kv post rfl
      rw [putAll_concat]
      exact filter_putHeaderKeyValue_of_ne (hcolon kv (by simp)) (colon_mem_putAll pre)

/-- A key of letters that is put twice, and one with a digit that is put once. -/
theorem putAll_unique_length :
    UniqueByKey [(str "Content-Length", str "1"), (str "Content-MD5", str "Q2hlY2s="),
      (str "Content-Length", str "2")] := by
  refine (putAll_unique_iff _ (by decide +kernel)).mpr fun k htwo => ?_
  by_cases hlength : k = str "Content-Length"
  · rw [hlength]
    decide
  · by_cases hdigest : k = str "Content-MD5"
    · rw [hdigest] at htwo
      exact absurd htwo (by decide +kernel)
    · simp [Ne.symm hlength, Ne.symm hdigest] at htwo

/-- The key `Content-MD5` has a digit: put twice, it has two lines. -/
theorem not_unique_contentMD5 :
    (∀ kv ∈ [(str "Content-MD5", str "a"), (str "Content-MD5", str "b")], IsToken kv.1) ∧
    putAll [(str "Content-MD5", str "a"), (str "Content-MD5", str "b")] =
      [str "Content-MD5: a", str "Content-MD5: b"] ∧
    ¬ UniqueByKey [(str "Content-MD5", str "a"), (str "Content-MD5", str "b")] := by
  have hlines : putAll [(str "Content-MD5", str "a"), (str "Content-MD5", str "b")] =
      [str "Content-MD5: a", str "Content-MD5: b"] := by
    decide +kernel
  refine ⟨by decide +kernel, hlines, fun h => ?_⟩
  have hone := h.line_of_last (str "Content-MD5") (str "b") (by decide +kernel)
  exact absurd hone (by decide +kernel)

end HttpHeader

end EiffelWeb
