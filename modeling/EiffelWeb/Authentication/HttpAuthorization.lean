import Mathlib.Data.List.Basic
import Mathlib.Tactic.Common
import EiffelWeb.Encoder.Base64

set_option relaxedAutoImplicit false
set_option autoImplicit false

/-!
# Basic authorization

`HTTP_AUTHORIZATION` is created from a login and a password, which it writes into the text of the
header, or from the text of the header, which it takes apart. A `check` instruction compares the
text with the one written again; it is not monitored, and the model keeps its outcome.

## Main definitions

* `HttpAuthorization`, `HttpAuthorization.make`
* `HttpAuthorization.makeCustomAuth`, `HttpAuthorization.makeBasicAuth`

## Main results

* `HttpAuthorization.make_basicText` — the text of a basic authorization is taken apart.
* `HttpAuthorization.make_makeBasicAuth` — login and password come back.
* `HttpAuthorization.check_make` — the `check` instruction fails whenever it is reached.
-/

namespace EiffelWeb

/-- `HTTP_AUTHORIZATION`. -/
structure HttpAuthorization where
  /-- `type`. -/
  type : Option String8 := none
  /-- `login`. -/
  login : Option String32 := none
  /-- `password`. -/
  password : Option String32 := none
  /-- `http_authorization`. -/
  httpAuthorization : Option String32 := none
  deriving DecidableEq

namespace HttpAuthorization

/-- `make_custom_auth (u, p, a_type)`. `BASE64` encodes a `STRING_8`. -/
def makeCustomAuth (u p : String32) (aType : String8) : HttpAuthorization :=
  let t := adjust (asLower aType)
  { login := some u
    password := some p
    type := some t
    httpAuthorization :=
      if t = str "basic" then
        some (asString32 (str "Basic " ++
          Base64.encodedString (asString8 (u ++ asString32 (str ":") ++ p))))
      else none }

/-- `make_basic_auth (u, p)`. -/
def makeBasicAuth (u p : String32) : HttpAuthorization := makeCustomAuth u p (str "basic")

/-- The branch of `make` for the type `"basic"`: the decoded text is split at its first colon. The
second component is the outcome of the `check` instruction. -/
def makeBasic (t v : String8) : Option (HttpAuthorization × Bool) := do
  let s ← Base64.decodedString v
  let i := Text.indexOf s (ch ':') 1
  if 0 < i then
    let u := asString32 (Text.substring s 1 (i - 1))
    let p := asString32 (Text.substring s (i + 1) s.length)
    let current : HttpAuthorization := { type := some t, login := some u, password := some p }
    some (current, (makeCustomAuth u p t).httpAuthorization = current.httpAuthorization)
  else some ({ type := some t }, true)

/-- `make (a_http_authorization)`: the object, and whether the `check` instruction held. A read
outside a string makes the creation fail. -/
def make (aHttpAuthorization : Option String32) : Option (HttpAuthorization × Bool) := do
  let some lAuth := aHttpAuthorization | some ({}, true)
  let s := asString8 lAuth
  if s = [] then some ({}, true)
  else
    let c ← Text.item? s 1
    let i := Text.indexOf s (ch ' ') (if c = ch ' ' then 2 else 1)
    if 0 < i then
      let t := Text.leftAdjust isSpace
        (Text.rightAdjust isSpace (asLower (Text.substring s 1 (i - 1))))
      if t = str "basic" then makeBasic t (Text.substring s (i + 1) s.length)
      else some ({ type := some t }, true)
    else some ({}, true)

lemma makeCustomAuth_basic (u p : String32) :
    (makeCustomAuth u p (str "basic")).httpAuthorization =
      some (asString32 (str "Basic " ++
        Base64.encodedString (asString8 (u ++ asString32 (str ":") ++ p)))) :=
  rfl

/-- Text with a colon is split at the first one. -/
lemma makeBasic_eq {v a b : String8} (t : String8)
    (hv : Base64.decodedString v = some (a ++ ch ':' :: b)) (ha : ch ':' ∉ a) :
    makeBasic t v =
      some ({ type := some t, login := some (asString32 a), password := some (asString32 b) },
        decide ((makeCustomAuth (asString32 a) (asString32 b) t).httpAuthorization = none)) := by
  have hindex := Text.indexOf_one_eq a b ha
  have hlogin : Text.substring (a ++ ch ':' :: b) 1 (a.length + 1 - 1) = a :=
    Text.substring_prefix a _ (by omega)
  have hpassword : Text.substring (a ++ ch ':' :: b) (a.length + 1 + 1)
      (a ++ ch ':' :: b).length = b := Text.substring_behind a _ b (by omega) rfl
  rw [makeBasic, hv, Option.bind_eq_bind, Option.bind_some]
  simp only [hindex, hlogin, hpassword]
  rw [if_pos (by omega)]

/-- **The text of a basic authorization is taken apart.** -/
lemma make_basicText (v : String8) :
    make (some (asString32 (str "Basic " ++ v))) = makeBasic (str "basic") v := by
  have hindex : Text.indexOf (str "Basic " ++ v) (ch ' ') 1 = 6 :=
    Text.indexOf_one_eq (str "Basic") v (by decide)
  have htype : Text.substring (str "Basic " ++ v) 1 (6 - 1) = str "Basic" :=
    Text.substring_prefix (str "Basic") (ch ' ' :: v) rfl
  have hcode : Text.substring (str "Basic " ++ v) (6 + 1) (str "Basic " ++ v).length = v :=
    Text.substring_suffix (str "Basic ") v rfl rfl
  have hitem : Text.item? (str "Basic " ++ v) 1 = some (ch 'B') :=
    Text.item?_append_cons [] (ch 'B') _ rfl
  simp only [make, asString8_asString32]
  rw [if_neg (by simp [str]), hitem]
  simp only [Option.bind_eq_bind, Option.bind_some]
  rw [show (if ch 'B' = ch ' ' then (2 : ℤ) else 1) = 1 by decide, hindex, if_pos (by decide),
    htype, hcode]
  rfl

/-- **Round trip**: the text written for a login without a colon and a password is taken apart
into them. -/
theorem make_makeBasicAuth (u p : String32) (hu : ∀ c ∈ u, c.toNat ≤ 255)
    (hp : ∀ c ∈ p, c.toNat ≤ 255) (hcolon : (ch ':').toUInt32 ∉ u) :
    ∃ a ok, make (makeBasicAuth u p).httpAuthorization = some (a, ok) ∧
      a.type = some (str "basic") ∧ a.login = some u ∧ a.password = some p := by
  have htext : asString8 (u ++ asString32 (str ":") ++ p) =
      asString8 u ++ ch ':' :: asString8 p := by
    simp [asString8, asString32, str, asCharacter8_toUInt32]
  have hdecoded := Base64.decodedString_encodedString (asString8 u ++ ch ':' :: asString8 p)
  have hnot : ch ':' ∉ asString8 u := by
    intro hmem
    have hmem' : (ch ':').toUInt32 ∈ asString32 (asString8 u) := List.mem_map_of_mem hmem
    rw [asString32_asString8 hu] at hmem'
    exact hcolon hmem'
  rw [makeBasicAuth, makeCustomAuth_basic, htext, make_basicText, makeBasic_eq _ hdecoded hnot,
    asString32_asString8 hu, asString32_asString8 hp]
  exact ⟨_, _, rfl, rfl, rfl, rfl⟩

/-- An empty login, and a password with a colon. -/
theorem make_makeBasicAuth_colon :
    ∃ a ok, make (makeBasicAuth [] (asString32 (str "a:b"))).httpAuthorization = some (a, ok) ∧
      a.type = some (str "basic") ∧ a.login = some [] ∧
        a.password = some (asString32 (str "a:b")) := by
  have hall : (asString32 (str "a:b")).all (fun c => decide (c.toNat ≤ 255)) = true := by decide
  exact make_makeBasicAuth [] (asString32 (str "a:b")) (by simp)
    (fun c hc => of_decide_eq_true (List.all_eq_true.mp hall c hc)) (by simp)

/-- `make` does not set `http_authorization`, with which the `check` instruction compares. -/
lemma check_makeBasic {v : String8} {a : HttpAuthorization} {ok : Bool}
    (h : makeBasic (str "basic") v = some (a, ok)) : ok = !a.login.isSome := by
  obtain ⟨s, -, h⟩ := Option.bind_eq_some_iff.mp h
  simp only at h
  split at h
  · simp only [makeCustomAuth_basic, Option.some.injEq, Prod.mk.injEq] at h
    obtain ⟨rfl, rfl⟩ := h
    rfl
  · simp only [Option.some.injEq, Prod.mk.injEq] at h
    obtain ⟨rfl, rfl⟩ := h
    rfl

/-- **The `check` instruction fails whenever it is reached**, which is when a login is found. -/
theorem check_make {x : Option String32} {a : HttpAuthorization} {ok : Bool}
    (h : make x = some (a, ok)) : ok = !a.login.isSome := by
  rcases x with _ | lAuth
  · obtain ⟨rfl, rfl⟩ := Prod.mk.inj (Option.some.inj h)
    rfl
  · simp only [make] at h
    split at h
    · obtain ⟨rfl, rfl⟩ := Prod.mk.inj (Option.some.inj h)
      rfl
    · obtain ⟨c, -, h⟩ := Option.bind_eq_some_iff.mp h
      generalize (if c = ch ' ' then (2 : ℤ) else 1) = i at h
      split at h
      · split at h
        · next ht =>
          rw [ht] at h
          exact check_makeBasic h
        · obtain ⟨rfl, rfl⟩ := Prod.mk.inj (Option.some.inj h)
          rfl
      · obtain ⟨rfl, rfl⟩ := Prod.mk.inj (Option.some.inj h)
        rfl

end HttpAuthorization

end EiffelWeb
