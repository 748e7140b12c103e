import Mathlib.Data.List.Basic
import Mathlib.Tactic.Common
import EiffelWeb.Loop
import EiffelWeb.Router.Entry

set_option relaxedAutoImplicit false
set_option autoImplicit false

/-!
# Arrays of request methods

The loops of `REQUEST_ROUTER` over an array of method names: `formatted_request_methods` prepares
the array a route is registered with, and `is_matching_request_methods` looks for the method of a
request in it. An array has an arbitrary lower index, and the two loops do not start at the same
one.

Both loops are refinements of the functions on lists with which the routers are described. From
there, `matching_ignores_case_iff` says for which arrays the letter case of the registration does
not matter.

## Main definitions

* `MethodArray` — an array with its lower index.
* `MethodArray.matchingLoop`, `MethodArray.isMatching` — `is_matching_request_methods`.
* `MethodArray.formattingLoop`, `MethodArray.formatted` — `formatted_request_methods`.
* `IsUpperCase`, `EqIgnoringCase` — names in upper case, and names equal up to letter case.

## Main results

* `MethodArray.isMatching_eq`, `MethodArray.formatted_eq` — the loops compute the functions on
  lists, and no index is out of bounds.
* `MethodArray.matching_ignores_case_iff`
-/

namespace EiffelWeb

/-- An `ARRAY [READABLE_STRING_8]`. -/
structure MethodArray where
  /-- The field `lower`. -/
  lower : ℤ
  /-- The items, from the index `lower` on. -/
  area : List String8

namespace MethodArray

/-- The field `upper`. -/
def upper (a : MethodArray) : ℤ := a.lower + a.area.length - 1

/-- `a [i]`, `none` for an index that is not valid. -/
def item (a : MethodArray) (i : ℤ) : Option String8 :=
  if i < a.lower then none else a.area[(i - a.lower).toNat]?

/-- `a [i] := v`, `none` for an index that is not valid. -/
def put (a : MethodArray) (v : String8) (i : ℤ) : Option MethodArray :=
  if a.lower ≤ i ∧ i ≤ a.upper then some { a with area := a.area.set (i - a.lower).toNat v }
  else none

/-- `create Result.make_filled (v, l, u)`. -/
def makeFilled (v : String8) (l u : ℤ) : MethodArray := ⟨l, List.replicate (u + 1 - l).toNat v⟩

/-! ## The loops -/

/-- The loop of `is_matching_request_methods`, over the index and `Result`. -/
def matchingLoop (rqstMethods : MethodArray) (m : String8) : Loop (ℤ × Bool) where
  exit s := decide (rqstMethods.upper < s.1) || s.2
  body s := do
    let m' ← rqstMethods.item s.1
    pure (s.1 + 1, decide (m = m'))

/-- `is_matching_request_methods (a_request_method, rqst_methods)`. -/
def isMatching (aRequestMethod : String8) (rqstMethods : Option MethodArray) : Option Bool :=
  match rqstMethods with
  | some a =>
    if a.area = [] then some true
    else ((matchingLoop a aRequestMethod).run a.area.length (a.lower, false)).map Prod.snd
  | none => some true

/-- The loop of `formatted_request_methods`, over the index and `Result`. -/
def formattingLoop (rqstMethods : MethodArray) : Loop (ℤ × MethodArray) where
  exit s := decide (rqstMethods.upper < s.1)
  body s := do
    let m ← rqstMethods.item s.1
    let result ← s.2.put (m.map EiffelWeb.upper) s.1
    pure (s.1 + 1, result)

/-- `formatted_request_methods (rqst_methods)`: the outer `none` for a fault, the inner one for
`Void`. The loop starts behind the first method. -/
def formatted (rqstMethods : Option MethodArray) : Option (Option MethodArray) :=
  match rqstMethods with
  | some a =>
    if a.area = [] then some none
    else do
      let first ← a.item a.lower
      let s ← (formattingLoop a).run a.area.length
        (a.lower + 1, makeFilled first a.lower a.upper)
      pure (some s.2)
  | none => some none

/-! ## Refinement -/

lemma item_add (a : MethodArray) (k : ℕ) : a.item (a.lower + k) = a.area[k]? := by
  unfold item
  rw [if_neg (by omega)]
  congr 1
  omega

lemma put_add {a : MethodArray} {k : ℕ} (hk : k < a.area.length) (v : String8) :
    a.put v (a.lower + k) = some { a with area := a.area.set k v } := by
  unfold put
  rw [if_pos (by unfold upper; omega)]
  congr 3
  omega

/-- An index behind the last item. -/
lemma upper_lt_iff (a : MethodArray) (k : ℕ) : a.upper < a.lower + k ↔ a.area.length ≤ k := by
  unfold upper
  omega

/-- The matching loop from an index on looks at the methods from there on. -/
lemma matchingLoop_run (a : MethodArray) (m : String8) {k n : ℕ} (hn : a.area.length - k ≤ n) :
    ((matchingLoop a m).run n (a.lower + k, false)).map Prod.snd =
      some ((a.area.drop k).any fun m' => m = m') := by
  have hexit (j : ℕ) : (matchingLoop a m).exit (a.lower + j, false) =
      decide (a.area.length ≤ j) := by
    simp only [matchingLoop, Bool.or_false, upper_lt_iff]
  by_cases hk : a.area.length ≤ k
  · rw [Loop.run_of_exit ((hexit k).trans (decide_eq_true hk)), List.drop_eq_nil_of_le hk]
    rfl
  · induction n generalizing k with
    | zero => omega
    | succ n ih =>
      have hlt : k < a.area.length := by omega
      have hbody : (matchingLoop a m).body (a.lower + k, false) =
          some (a.lower + (k + 1 : ℕ), decide (m = a.area[k])) := by
        have hnext : a.lower + k + 1 = a.lower + (k + 1 : ℕ) := by omega
        simp only [matchingLoop, item_add, List.getElem?_eq_getElem hlt, hnext]
        rfl
      rw [Loop.run_succ ((hexit k).trans (decide_eq_false hk)) hbody,
        List.drop_eq_getElem_cons hlt, List.any_cons]
      by_cases hm : m = a.area[k]
      · have hfound : (matchingLoop a m).exit (a.lower + (k + 1 : ℕ), decide (m = a.area[k])) =
            true := by
          simp [matchingLoop, hm]
        rw [Loop.run_of_exit hfound]
        simp [hm]
      · rw [decide_eq_false hm, Bool.false_or]
        by_cases hnext : a.area.length ≤ k + 1
        · rw [Loop.run_of_exit ((hexit _).trans (decide_eq_true hnext)),
            List.drop_eq_nil_of_le hnext]
          rfl
        · exact ih (by omega) hnext

/-- **The search for the method of a request.** -/
lemma isMatching_eq (m : String8) (rqstMethods : Option MethodArray) :
    isMatching m rqstMethods =
      some (isMatchingRequestMethods m (rqstMethods.map MethodArray.area)) := by
  match rqstMethods with
  | none => rfl
  | some a =>
    have hrun := @matchingLoop_run a m 0 a.area.length (by omega)
    rw [Nat.cast_zero, add_zero, List.drop_zero] at hrun
    by_cases hnil : a.area = []
    · simp [isMatching, isMatchingRequestMethods, hnil]
    · obtain ⟨m', ms, harea⟩ := List.exists_cons_of_ne_nil hnil
      simp only [isMatching, if_neg hnil, hrun, Option.map_some]
      rw [harea]
      rfl

/-- The formatting loop from an index on: the methods from there on in upper case, the others as
they are. -/
lemma formattingLoop_run (a : MethodArray) {k n : ℕ} (hk : k ≤ a.area.length)
    (hn : a.area.length - k ≤ n) {done rest : List String8} (hdone : done.length = k)
    (hrest : rest.length = a.area.length - k) :
    (formattingLoop a).run n (a.lower + k, ⟨a.lower, done ++ rest⟩) =
      some (a.lower + a.area.length,
        ⟨a.lower, done ++ (a.area.drop k).map fun m => m.map EiffelWeb.upper⟩) := by
  have hexit (j : ℕ) (r : MethodArray) : (formattingLoop a).exit (a.lower + j, r) =
      decide (a.area.length ≤ j) := by
    simp only [formattingLoop, upper_lt_iff]
  induction n generalizing k done rest with
  | zero =>
    obtain rfl : k = a.area.length := by omega
    obtain rfl : rest = [] := List.eq_nil_of_length_eq_zero (by omega)
    rw [Loop.run_of_exit ((hexit _ _).trans (decide_eq_true le_rfl)), List.drop_length,
      List.map_nil]
  | succ n ih =>
    rcases hk.eq_or_lt with rfl | hlt
    · obtain rfl : rest = [] := List.eq_nil_of_length_eq_zero (by omega)
      rw [Loop.run_of_exit ((hexit _ _).trans (decide_eq_true le_rfl)), List.drop_length,
        List.map_nil]
    · obtain ⟨r, rest, rfl⟩ : ∃ r rest', rest = r :: rest' :=
        List.exists_cons_of_length_pos (by omega)
      rw [List.length_cons] at hrest
      have hput : MethodArray.put ⟨a.lower, done ++ r :: rest⟩
          (a.area[k].map EiffelWeb.upper) (a.lower + k) =
          some ⟨a.lower, (done ++ [a.area[k].map EiffelWeb.upper]) ++ rest⟩ := by
        have hin : k < (done ++ r :: rest).length := by
          simp only [List.length_append, List.length_cons]
          omega
        have hset : (done ++ r :: rest).set k (a.area[k].map EiffelWeb.upper) =
            (done ++ [a.area[k].map EiffelWeb.upper]) ++ rest := by
          rw [List.set_append_right _ _ (by omega), hdone, Nat.sub_self, List.set_cons_zero,
            List.append_assoc, List.singleton_append]
        have hadd := @put_add ⟨a.lower, done ++ r :: rest⟩ k hin (a.area[k].map EiffelWeb.upper)
        rw [hset] at hadd
        exact hadd
      have hbody : (formattingLoop a).body (a.lower + k, ⟨a.lower, done ++ r :: rest⟩) =
          some (a.lower + (k + 1 : ℕ),
            ⟨a.lower, (done ++ [a.area[k].map EiffelWeb.upper]) ++ rest⟩) := by
        have hnext : a.lower + k + 1 = a.lower + (k + 1 : ℕ) := by omega
        simp only [formattingLoop, item_add, List.getElem?_eq_getElem hlt, Option.bind_eq_bind,
          Option.bind_some, hput, hnext]
        rfl
      rw [Loop.run_succ ((hexit _ _).trans (decide_eq_false (by omega))) hbody,
        ih (by omega) (by omega) (by rw [List.length_append, List.length_singleton]; omega)
          (by omega),
        List.drop_eq_getElem_cons hlt, List.map_cons, List.append_assoc, List.singleton_append]

/-- **The array of a registration**, with the lower index it is given with. -/
lemma formatted_eq (rqstMethods : Option MethodArray) :
    formatted rqstMethods =
      some (rqstMethods.bind fun a =>
        (formattedRequestMethods (some a.area)).map fun ms => ⟨a.lower, ms⟩) := by
  match rqstMethods with
  | none => rfl
  | some ⟨l, []⟩ => rfl
  | some ⟨l, m :: ms⟩ =>
    have hfirst : MethodArray.item ⟨l, m :: ms⟩ l = some m := by
      have hzero := item_add ⟨l, m :: ms⟩ 0
      rw [Nat.cast_zero, add_zero] at hzero
      exact hzero
    have hfilled : makeFilled m l (upper ⟨l, m :: ms⟩) =
        ⟨l, [m] ++ List.replicate ms.length m⟩ := by
      have hcount : (upper ⟨l, m :: ms⟩ + 1 - l).toNat = ms.length + 1 := by
        simp only [upper, List.length_cons]
        omega
      rw [makeFilled, hcount, List.replicate_succ, List.singleton_append]
    have hrun := @formattingLoop_run ⟨l, m :: ms⟩ 1 (m :: ms).length (by simp) (by simp)
      [m] (List.replicate ms.length m) (by simp) (by simp)
    simp only [formatted, reduceCtorEq, if_false, hfirst, hfilled, Option.bind_eq_bind,
      Option.bind_some]
    rw [Nat.cast_one] at hrun
    rw [hrun]
    rfl

end MethodArray

/-! ## Letter case -/

/-- `s.as_upper` is `s`. -/
def IsUpperCase (s : String8) : Prop := s.map upper = s

/-- `s.is_case_insensitive_equal (t)`. -/
def EqIgnoringCase (s t : String8) : Prop := s.map lower = t.map lower

instance (s : String8) : Decidable (IsUpperCase s) := inferInstanceAs (Decidable (_ = _))

instance (s t : String8) : Decidable (EqIgnoringCase s t) := inferInstanceAs (Decidable (_ = _))

lemma upper_lower (c : Character8) : upper (lower c) = upper c :=
  forall_character8 (P := fun c => upper (lower c) = upper c) (by decide +kernel) c

lemma lower_upper (c : Character8) : lower (upper c) = lower c :=
  forall_character8 (P := fun c => lower (upper c) = lower c) (by decide +kernel) c

lemma upper_upper (c : Character8) : upper (upper c) = upper c :=
  forall_character8 (P := fun c => upper (upper c) = upper c) (by decide +kernel) c

lemma isUpperCase_upper (s : String8) : IsUpperCase (s.map upper) := by
  unfold IsUpperCase
  rw [List.map_map, Function.comp_def]
  exact List.map_congr_left fun c _ => upper_upper c

/-- A name in upper case is equal to another one, ignoring case, if it is the other one in upper
case. -/
lemma eqIgnoringCase_iff {s t : String8} (ht : IsUpperCase t) :
    EqIgnoringCase s t ↔ t = s.map upper := by
  have hupper : (fun c : Character8 => upper (lower c)) = upper := funext upper_lower
  have hlower : (fun c : Character8 => lower (upper c)) = lower := funext lower_upper
  constructor
  · intro h
    have hmap := congrArg (List.map upper) h
    simp only [List.map_map, Function.comp_def, hupper] at hmap
    exact ht.symm.trans hmap.symm
  · intro h
    unfold EqIgnoringCase
    rw [h, List.map_map, Function.comp_def, hlower]

namespace MethodArray

/-- The array is prepared, and the search in it finds the method `m`. -/
def Registered (m : String8) (rqstMethods : MethodArray) : Prop :=
  ∃ ms, formatted (some rqstMethods) = some ms ∧ isMatching m ms = some true

/-- The first method is looked up as it is given, the others in upper case. -/
lemma registered_iff {l : ℤ} {m r : String8} {ms : List String8} :
    Registered r ⟨l, m :: ms⟩ ↔ r = m ∨ ∃ m' ∈ ms, r = m'.map EiffelWeb.upper := by
  unfold Registered
  rw [formatted_eq]
  simp [isMatching_eq, formattedRequestMethods, isMatchingRequestMethods]

/-- **Letter case of registered methods.** A non-empty array of methods is searched for the method
of a request, a name in upper case, without regard to the letter case of the registration, for
every request, if and only if the first method of the array is in upper case, or equal to another
one of the array ignoring case. -/
theorem matching_ignores_case_iff (l : ℤ) (m : String8) (ms : List String8) :
    (∀ r, IsUpperCase r → (Registered r ⟨l, m :: ms⟩ ↔ ∃ m' ∈ m :: ms, EqIgnoringCase m' r)) ↔
      IsUpperCase m ∨ ∃ m' ∈ ms, EqIgnoringCase m' m := by
  have hothers : (∃ m' ∈ ms, EqIgnoringCase m' m) ↔
      ∃ m' ∈ ms, m.map EiffelWeb.upper = m'.map EiffelWeb.upper := by
    have hiff (m' : String8) :
        EqIgnoringCase m' m ↔ m.map EiffelWeb.upper = m'.map EiffelWeb.upper := by
      rw [← eqIgnoringCase_iff (isUpperCase_upper m)]
      unfold EqIgnoringCase
      rw [List.map_map, Function.comp_def, funext lower_upper]
    simp only [hiff]
  rw [hothers]
  constructor
  · intro h
    have hself := (h (m.map EiffelWeb.upper) (isUpperCase_upper m)).mpr
      ⟨m, List.mem_cons_self, (eqIgnoringCase_iff (isUpperCase_upper m)).mpr rfl⟩
    rcases registered_iff.mp hself with heq | hmem
    · exact Or.inl heq
    · exact Or.inr hmem
  · intro h r hr
    rw [registered_iff]
    constructor
    · rintro (rfl | ⟨m', hm', heq⟩)
      · exact ⟨r, List.mem_cons_self, rfl⟩
      · exact ⟨m', List.mem_cons_of_mem _ hm', (eqIgnoringCase_iff hr).mpr heq⟩
    · rintro ⟨m', hm', heq⟩
      rw [eqIgnoringCase_iff hr] at heq
      rcases List.mem_cons.mp hm' with rfl | hm'
      · rcases h with hup | ⟨m'', hm'', heq'⟩
        · exact Or.inl (heq.trans hup)
        · exact Or.inr ⟨m'', hm'', heq.trans heq'⟩
      · exact Or.inr ⟨m', hm', heq⟩

/-- The method `GET` is not found in the array with the only method `get`. -/
theorem not_matching_lower_case :
    ¬ ∀ (l : ℤ) (m : String8) (ms : List String8) (r : String8), IsUpperCase r →
      (Registered r ⟨l, m :: ms⟩ ↔ ∃ m' ∈ m :: ms, EqIgnoringCase m' r) := by
  intro hall
  have hget := (hall 1 (str "get") [] (str "GET") (by decide)).mpr
    ⟨str "get", List.mem_cons_self, by decide⟩
  rcases registered_iff.mp hget with heq | ⟨m', hm', -⟩
  · exact absurd heq (by decide)
  · exact absurd hm' List.not_mem_nil

end MethodArray

end EiffelWeb
