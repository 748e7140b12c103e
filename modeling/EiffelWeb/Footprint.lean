import EiffelWeb.Arrays

set_option relaxedAutoImplicit false
set_option autoImplicit false

/-!
# Footprints

A routine that works on several arrays, or on several parts of one array, writes only some items.
Two heaps that agree outside a set of items (`SameOutside`) have the same items in every part that
is apart from it. Routines one behind the other are dealt with by widening the footprint of each to
the footprint of the whole.

## Main definitions

* `Arrays.region` — the items of a part of an array.
* `Arrays.Apart` — two parts without a common item.
* `Arrays.SameOutside` — two heaps agree outside a set of items.
* `Arrays.KeptBelow` — the same for the arrays that were there before.
* `Arrays.KeepsLengths` — a routine that may fail leaves the lengths of arrays alone.

## Main results

* `Arrays.SameOutside.trans`, `Arrays.SameOutside.mono`
* `Arrays.SameOutside.segment` — a part apart from the footprint.
* `Arrays.sameOutside_store` — the footprint of writing.
* `Arrays.SameOutside.eq_store` — a heap is known from what was written.
* `Arrays.KeepsLengths.bind` — one routine after the other.
-/

namespace Arrays

open Special

variable {α : Type*}

/-- The `n` items of an array from index `i` on: the array and the index of each. -/
def region (a i n : ℕ) : ℕ → ℕ → Prop := fun b k => b = a ∧ i ≤ k ∧ k < i + n

/-- Two parts of arrays have no item in common. -/
def Apart (a i m b j n : ℕ) : Prop := a = b → i + m ≤ j ∨ j + n ≤ i

namespace Apart

variable {a i m b j n i' m' j' n' : ℕ}

lemma symm (h : Apart a i m b j n) : Apart b j n a i m := fun he => (h he.symm).symm

lemma of_le (h : i + m ≤ j) : Apart a i m b j n := fun _ => Or.inl h

/-- Parts of parts that are apart. -/
lemma sub (h : Apart a i m b j n) (h₁ : i ≤ i') (h₂ : i' + m' ≤ i + m) (h₃ : j ≤ j')
    (h₄ : j' + n' ≤ j + n) : Apart a i' m' b j' n' := fun he => by
  have := h he
  omega

/-- A part of the first one. -/
lemma left (h : Apart a i m b j n) (h₁ : i ≤ i') (h₂ : i' + m' ≤ i + m) : Apart a i' m' b j n :=
  h.sub h₁ h₂ le_rfl le_rfl

/-- A part of the second one. -/
lemma right (h : Apart a i m b j n) (h₃ : j ≤ j') (h₄ : j' + n' ≤ j + n) : Apart a i m b j' n' :=
  h.sub le_rfl le_rfl h₃ h₄

end Apart

/-- The two heaps agree outside the items in `W`. -/
structure SameOutside (W : ℕ → ℕ → Prop) (h h' : Arrays α) : Prop where
  /-- The arrays have their lengths. -/
  length : ∀ b, (h' b).length = (h b).length
  /-- The other items are the same. -/
  item : ∀ b k, ¬ W b k → h'.item b k = h.item b k

namespace SameOutside

variable {W W' : ℕ → ℕ → Prop} {h h' h'' : Arrays α}

lemma refl (W : ℕ → ℕ → Prop) (h : Arrays α) : SameOutside W h h :=
  ⟨fun _ => rfl, fun _ _ _ => rfl⟩

lemma trans (hs : SameOutside W h h') (hs' : SameOutside W h' h'') : SameOutside W h h'' :=
  ⟨fun b => (hs'.length b).trans (hs.length b),
    fun b k hk => (hs'.item b k hk).trans (hs.item b k hk)⟩

/-- A larger footprint. -/
lemma mono (hs : SameOutside W h h') (hW : ∀ b k, W b k → W' b k) : SameOutside W' h h' :=
  ⟨hs.length, fun b k hk => hs.item b k fun hw => hk (hW b k hw)⟩

/-- A part of one array is written, which lies in another one. -/
lemma within {a i m k l : ℕ} (hs : SameOutside (region a i m) h h') (hi : k ≤ i ∧ i + m ≤ k + l) :
    SameOutside (region a k l) h h' := by
  refine hs.mono fun b j hj => ⟨hj.1, ?_⟩
  have := hj.2
  omega

/-- Two parts of one array are written, which lie in a third one. -/
lemma join {a i m j n k l : ℕ} (hs : SameOutside (region a i m) h h')
    (hs' : SameOutside (region a j n) h' h'') (hi : k ≤ i ∧ i + m ≤ k + l)
    (hj : k ≤ j ∧ j + n ≤ k + l) : SameOutside (region a k l) h h'' :=
  (hs.within hi).trans (hs'.within hj)

/-- **A part that is apart from the footprint** is unchanged. -/
lemma segment (hs : SameOutside W h h') {b j n : ℕ}
    (hd : ∀ k, j ≤ k → k < j + n → ¬ W b k) : h'.segment b j n = h.segment b j n := by
  apply List.ext_getElem?
  intro k
  rw [Arrays.segment, Arrays.segment, slice, slice, List.getElem?_take, List.getElem?_take,
    List.getElem?_drop, List.getElem?_drop]
  split
  · next hk => exact hs.item b (j + k) (hd (j + k) (by omega) (by omega))
  · rfl

/-- A part that is apart from the only part that was written. -/
lemma segment_apart {a i m b j n : ℕ} (hs : SameOutside (region a i m) h h')
    (hd : Apart a i m b j n) : h'.segment b j n = h.segment b j n := by
  refine hs.segment fun k hk hk' hw => ?_
  have := hd hw.1.symm
  have := hw.2
  omega

end SameOutside

/-- **Writing** changes the items written. -/
lemma sameOutside_store {h : Arrays α} {a i : ℕ} {u : List α} (hu : i + u.length ≤ (h a).length) :
    SameOutside (region a i u.length) h (h.store a i u) := by
  refine ⟨fun b => length_store hu b, fun b k hk => ?_⟩
  by_cases hb : b = a
  · subst hb
    have hlen : (List.take i (h b)).length = i := by
      rw [List.length_take]
      omega
    have hlen' : (List.take i (h b) ++ u).length = i + u.length := by
      rw [List.length_append, hlen]
    rw [Arrays.item, Arrays.item, store_apply_self, write]
    by_cases hki : k < i
    · rw [List.append_assoc, List.getElem?_append_left (by omega), List.getElem?_take_of_lt hki]
    · have hki' : i + u.length ≤ k := by
        by_contra hlt
        exact hk ⟨rfl, by omega, by omega⟩
      rw [List.getElem?_append_right (by omega), hlen', List.getElem?_drop]
      congr 1
      omega
  · rw [Arrays.item, Arrays.item, store_apply_of_ne hb]

/-- **A heap is known** from the part that was written and the heap before. -/
lemma SameOutside.eq_store {h h' : Arrays α} {a i n : ℕ} (hs : SameOutside (region a i n) h h')
    (hn : i + n ≤ (h a).length) : h' = h.store a i (h'.segment a i n) := by
  have hlen : (h'.segment a i n).length = n := length_segment (by rw [hs.length]; exact hn)
  have hstored : i + (h'.segment a i n).length ≤ (h a).length := by rwa [hlen]
  have hfoot := sameOutside_store hstored
  have hread := segment_store_self hstored
  rw [hlen] at hfoot hread
  funext b
  apply List.ext_getElem?
  intro k
  by_cases hk : region a i n b k
  · obtain ⟨rfl, hik, hki⟩ := hk
    obtain ⟨j, rfl⟩ := Nat.exists_eq_add_of_le hik
    have hj : j < n := by omega
    exact (item_eq_segment h' hj).trans ((congrArg (·[j]?) hread).symm.trans
      (item_eq_segment _ hj).symm)
  · exact (hs.item b k hk).trans (hfoot.item b k hk).symm

/-! ## New arrays -/

/-- The arrays with references below `free` agree outside the items in `W`. A routine may create
arrays with other references. -/
structure KeptBelow (free : ℕ) (W : ℕ → ℕ → Prop) (h h' : Arrays α) : Prop where
  /-- The arrays have their lengths. -/
  length : ∀ b < free, (h' b).length = (h b).length
  /-- The other items are the same. -/
  item : ∀ b < free, ∀ k, ¬ W b k → h'.item b k = h.item b k

lemma SameOutside.keptBelow {W : ℕ → ℕ → Prop} {h h' : Arrays α} (hs : SameOutside W h h')
    (free : ℕ) : KeptBelow free W h h' :=
  ⟨fun b _ => hs.length b, fun b _ k hk => hs.item b k hk⟩

/-- Creating an array. -/
lemma keptBelow_update {free fresh : ℕ} (hf : free ≤ fresh) (W : ℕ → ℕ → Prop) (h : Arrays α)
    (u : List α) : KeptBelow free W h (Function.update h fresh u) := by
  refine ⟨fun b hb => ?_, fun b hb k _ => ?_⟩
  · rw [Function.update_of_ne (by omega)]
  · rw [Arrays.item, Function.update_of_ne (by omega), Arrays.item]

namespace KeptBelow

variable {free : ℕ} {W W' : ℕ → ℕ → Prop} {h h' h'' : Arrays α}

lemma trans (hk : KeptBelow free W h h') (hk' : KeptBelow free W h' h'') :
    KeptBelow free W h h'' :=
  ⟨fun b hb => (hk'.length b hb).trans (hk.length b hb),
    fun b hb k hw => (hk'.item b hb k hw).trans (hk.item b hb k hw)⟩

/-- A larger footprint below `free`. -/
lemma mono (hk : KeptBelow free W h h') (hW : ∀ b < free, ∀ k, W b k → W' b k) :
    KeptBelow free W' h h' :=
  ⟨hk.length, fun b hb k hw => hk.item b hb k fun hw' => hw (hW b hb k hw')⟩

/-- Fewer arrays. -/
lemma lower {free' : ℕ} (hk : KeptBelow free W h h') (hf : free' ≤ free) : KeptBelow free' W h h' :=
  ⟨fun b hb => hk.length b (hb.trans_le hf), fun b hb => hk.item b (hb.trans_le hf)⟩

/-- A part of an array below `free` that is apart from the footprint. -/
lemma segment (hk : KeptBelow free W h h') {b j n : ℕ} (hb : b < free)
    (hd : ∀ k, j ≤ k → k < j + n → ¬ W b k) : h'.segment b j n = h.segment b j n := by
  apply List.ext_getElem?
  intro k
  rw [Arrays.segment, Arrays.segment, slice, slice, List.getElem?_take, List.getElem?_take,
    List.getElem?_drop, List.getElem?_drop]
  split
  · next hkn => exact hk.item b hb (j + k) (hd (j + k) (by omega) (by omega))
  · rfl

/-- A part that is apart from the only part that was written. -/
lemma segment_apart {a i m b j n : ℕ} (hk : KeptBelow free (region a i m) h h') (hb : b < free)
    (hd : Apart a i m b j n) : h'.segment b j n = h.segment b j n := by
  refine hk.segment hb fun k hj hj' hw => ?_
  have := hd hw.1.symm
  have := hw.2
  omega

end KeptBelow

section Lengths

variable {β γ : Type*} {free : ℕ}

/-- If a routine returns, the arrays below `free` have the lengths that they have in `h`. -/
def KeepsLengths (free : ℕ) (h : Arrays α) (out : β → Arrays α) (x : Option β) : Prop :=
  ∀ y, x = some y → ∀ b < free, (out y b).length = (h b).length

namespace KeepsLengths

variable {h : Arrays α} {out : β → Arrays α} {out' : γ → Arrays α}

lemma none : KeepsLengths free h out none := fun _ hy => nomatch hy

/-- Returning with the same arrays. -/
lemma pure {y : β} (g : Arrays α) (hy : out y = g) : KeepsLengths free g out (some y) := by
  rintro z hz b -
  rw [← Option.some.inj hz, hy]

lemma some (g : Arrays α) : KeepsLengths free g id (some g) := .pure g rfl

/-- Reading. -/
lemma read (g : Arrays α) (x : Option β) : KeepsLengths free g (fun _ => g) x :=
  fun _ _ _ _ => rfl

/-- The lengths are those of another heap. -/
lemma trans {g : Arrays α} {x : Option β} (hg : ∀ b < free, (g b).length = (h b).length)
    (hx : KeepsLengths free g out x) : KeepsLengths free h out x :=
  fun y hy b hb => (hx y hy b hb).trans (hg b hb)

/-- **One routine after the other.** -/
lemma bind {x : Option β} {f : β → Option γ} (hx : KeepsLengths free h out x)
    (hf : ∀ y, KeepsLengths free (out y) out' (f y)) : KeepsLengths free h out' (x.bind f) := by
  intro z hz b hb
  obtain ⟨y, hy, hz⟩ := Option.bind_eq_some_iff.mp hz
  rw [hf y z hz b hb, hx y hy b hb]

end KeepsLengths

lemma keepsLengths_put (h : Arrays α) {a i : ℕ} {v : α} : KeepsLengths free h id (h.put a i v) := by
  intro g hg b _
  rw [put] at hg
  split at hg
  · rw [← Option.some.inj hg, id]
    by_cases hb : b = a
    · rw [hb, Function.update_self, List.length_set]
    · rw [Function.update_of_ne hb]
  · cases hg

lemma keepsLengths_zipLoop {σ : Type*} {f : σ → α → α → α × σ} {t a b n i j k : ℕ} {c : σ}
    (h : Arrays α) : KeepsLengths free h Prod.snd (zipLoop f t a b n i j k c h) := by
  induction n generalizing i j k c h with
  | zero => exact .pure h rfl
  | succ n ih =>
    exact (KeepsLengths.read h _).bind fun u => (KeepsLengths.read h _).bind fun v =>
      (keepsLengths_put h).bind fun g => ih g

end Lengths

end Arrays
