import Mathlib.Data.List.Basic
import Mathlib.Tactic.Common
import EiffelWeb.Crypto.Digest.ShaFunctions

set_option relaxedAutoImplicit false
set_option autoImplicit false

/-!
# Digest objects that are used again

What `SHA256`, `SHA1` and `MD5` have in common as objects: they are created, fed, finished by
`do_final`, which resets them, and reset on demand. Two objects that stand for the same bytes give
the same results for every next message when their byte counters agree modulo `2 ^ 61`, since
nothing but the bit count `byte_count |<< 3` goes into the padding.

## Main definitions

* `DigestClass` — creation, resetting and output, over `ShaFunctions`.
* `DigestOp`, `DigestClass.step` — the operations of an object.
* `Resets` — what the classes have to satisfy.

## Main results

* `ShaFunctions.padding_congr` — the padding depends on the bit count only.
* `Resets.doFinal_eq` — objects that stand for the same bytes.
* `Resets.represents_run` — what holds after every sequence of operations.
-/

namespace EiffelWeb

open Special MerkleDamgard

/-! ## Objects -/

/-- A digest class: what it defines for `SHA_FUNCTIONS`, and its own routines. -/
structure DigestClass (η : Type*) extends ShaFunctions η where
  /-- `make`. -/
  make : ShaState η
  /-- `reset`. -/
  reset : ShaState η → ShaState η
  /-- What `do_final` writes, from the chaining words. -/
  output : η → List Natural8 → ℕ → List Natural8

/-- The operations of a digest object. -/
inductive DigestOp where
  /-- A feeding routine. -/
  | sink (s : Sink)
  /-- `update_word (in)`. -/
  | updateWord (w : Natural32)
  /-- `do_final (output, offset)`. -/
  | doFinal (output : List Natural8) (offset : ℕ)
  /-- `reset`. -/
  | reset
  /-- `current_final (output, offset)`, which works on a copy. -/
  | currentFinal (output : List Natural8) (offset : ℕ)

namespace DigestClass

variable {η : Type*} (d : DigestClass η)

/-- `do_final (output, offset)`: the object and the array written. -/
def doFinal (st : ShaState η) (output : List Natural8) (offset : ℕ) : ShaState η × List Natural8 :=
  let st := d.finish st
  (d.reset st, d.output st.chain output offset)

lemma doFinal_fst (st : ShaState η) (output : List Natural8) (offset : ℕ) :
    (d.doFinal st output offset).1 = d.reset (d.finish st) := rfl

/-- The object behind an operation. -/
def step (st : ShaState η) : DigestOp → ShaState η
  | .sink s => d.sink st s
  | .updateWord w => d.updateWord st w
  | .doFinal output offset => (d.doFinal st output offset).1
  | .reset => d.reset st
  | .currentFinal _ _ => st

/-- A new object behind a sequence of operations. -/
def run (l : List DigestOp) : ShaState η := l.foldl d.step d.make

/-- What `do_final` writes when the routines `l` feed a message before it. -/
def resultOf (st : ShaState η) (l : List Sink) (output : List Natural8) (offset : ℕ) :
    List Natural8 :=
  (d.doFinal (l.foldl d.sink st) output offset).2

end DigestClass

/-! ## The padding depends on the bit count -/

lemma padBytes_congr {n n' : Natural64} (h : n <<< 3 = n' <<< 3) :
    padBytes (n + 1) = padBytes (n' + 1) := by
  obtain ⟨hmod, hlt⟩ := padBytes_spec (n + 1)
  obtain ⟨hmod', hlt'⟩ := padBytes_spec (n' + 1)
  have hbits : n.toNat * 8 % 2 ^ 64 = n'.toNat * 8 % 2 ^ 64 := by
    have hnat := congrArg BitVec.toNat h
    rwa [BitVec.toNat_shiftLeft, BitVec.toNat_shiftLeft, Nat.shiftLeft_eq, Nat.shiftLeft_eq] at hnat
  have hsucc (x : Natural64) : (x + 1).toNat = (x.toNat + 1) % 2 ^ 64 := BitVec.toNat_add x 1
  rw [hsucc] at hmod hmod'
  omega

namespace ShaFunctions

variable {η : Type*} (c : ShaFunctions η)

/-- **The padding depends on the bit count only.** -/
lemma padding_congr {n n' : Natural64} (h : n <<< 3 = n' <<< 3) : c.padding n = c.padding n' := by
  rw [padding, padding, padBytes_congr h, h]

end ShaFunctions

/-! ## Objects that stand for the same bytes -/

section

variable {η θ : Type*} (d : DigestClass η) (count : ℕ) (view : η → θ)

/-- What creation, resetting and output have to satisfy: a new object and one that was reset stand
for nothing fed to the initial chaining value, and the output depends on the chaining value only. -/
structure Resets (compress : List Natural32 → θ → θ) (initial : θ) : Prop where
  compresses : Compresses d.toShaFunctions count view compress
  make : Represents d.toShaFunctions count view d.make ⟨initial, []⟩
  reset {st : ShaState η} {a : Absorbed θ Natural8} : Represents d.toShaFunctions count view st a →
    Represents d.toShaFunctions count view (d.reset st) ⟨initial, []⟩
  output {x x' : η} : view x = view x' → d.output x = d.output x'

end

namespace Resets

variable {η θ : Type*} {d : DigestClass η} {count : ℕ} {view : η → θ}
  {compress : List Natural32 → θ → θ} {initial : θ} {st st' : ShaState η}
  {a : Absorbed θ Natural8}

/-- **Objects that stand for the same bytes**, with the same bit count, give the same result for
every next message. -/
theorem doFinal_eq (hd : Resets d count view compress initial)
    (h : Represents d.toShaFunctions count view st a)
    (h' : Represents d.toShaFunctions count view st' a)
    (hcount : st.byteCount <<< 3 = st'.byteCount <<< 3) (l : List Sink) (output : List Natural8)
    (offset : ℕ) : d.resultOf st l output offset = d.resultOf st' l output offset := by
  have hpadding : d.padding (d.feed st (l.flatMap Sink.bytes)).byteCount =
      d.padding (d.feed st' (l.flatMap Sink.bytes)).byteCount := by
    apply d.padding_congr
    rw [byteCount_feed, byteCount_feed, BitVec.shiftLeft_add_distrib, hcount,
      ← BitVec.shiftLeft_add_distrib]
  have hfinish := (h.feed hd.compresses (l.flatMap Sink.bytes)).feed hd.compresses
    (d.padding (d.feed st (l.flatMap Sink.bytes)).byteCount)
  have hfinish' := (h'.feed hd.compresses (l.flatMap Sink.bytes)).feed hd.compresses
    (d.padding (d.feed st' (l.flatMap Sink.bytes)).byteCount)
  rw [← hpadding] at hfinish'
  rw [DigestClass.resultOf, DigestClass.resultOf, d.foldl_sink, d.foldl_sink]
  simp only [DigestClass.doFinal]
  rw [d.finish_eq, d.finish_eq, ← hpadding]
  exact congrFun (congrFun (hd.output (hfinish.view_chain.trans hfinish'.view_chain.symm)) _) _

/-- **Every operation** leaves an object that stands for some bytes. -/
lemma represents_step (hd : Resets d count view compress initial)
    (h : Represents d.toShaFunctions count view st a) (op : DigestOp) :
    ∃ a', Represents d.toShaFunctions count view (d.step st op) a' := by
  cases op with
  | sink s => exact ⟨_, h.feed hd.compresses _⟩
  | updateWord w => exact ⟨_, h.feed hd.compresses _⟩
  | doFinal output offset =>
    rw [DigestClass.step, d.doFinal_fst, d.finish_eq]
    exact ⟨_, hd.reset (h.feed hd.compresses _)⟩
  | reset => exact ⟨_, hd.reset h⟩
  | currentFinal output offset => exact ⟨a, h⟩

/-- **After every sequence of operations** an object stands for some bytes. -/
lemma represents_run (hd : Resets d count view compress initial) (l : List DigestOp) :
    ∃ a, Represents d.toShaFunctions count view (d.run l) a := by
  have hfold : ∀ (l : List DigestOp) (st : ShaState η),
      (∃ a, Represents d.toShaFunctions count view st a) →
      ∃ a, Represents d.toShaFunctions count view (l.foldl d.step st) a := by
    intro l
    induction l with
    | nil => exact fun st h => h
    | cons op l ih =>
      rintro st ⟨a, h⟩
      exact ih _ (hd.represents_step h op)
  exact hfold l d.make ⟨_, hd.make⟩

/-- **Reuse after `reset`**, when the bit count is that of a new object. -/
theorem reset_run (hd : Resets d count view compress initial) (l : List DigestOp)
    (hcount : (d.reset (d.run l)).byteCount <<< 3 = d.make.byteCount <<< 3) (m : List Sink)
    (output : List Natural8) (offset : ℕ) :
    d.resultOf (d.reset (d.run l)) m output offset = d.resultOf d.make m output offset := by
  obtain ⟨a, h⟩ := hd.represents_run l
  exact hd.doFinal_eq (hd.reset h) hd.make hcount m output offset

/-- **Reuse after `do_final`**, when the bit count is that of a new object. -/
theorem doFinal_run (hd : Resets d count view compress initial) (l : List DigestOp)
    (out : List Natural8) (off : ℕ)
    (hcount : (d.doFinal (d.run l) out off).1.byteCount <<< 3 = d.make.byteCount <<< 3)
    (m : List Sink) (output : List Natural8) (offset : ℕ) :
    d.resultOf (d.doFinal (d.run l) out off).1 m output offset =
      d.resultOf d.make m output offset := by
  obtain ⟨a, h⟩ := hd.represents_run l
  have hfinish : Represents d.toShaFunctions count view (d.doFinal (d.run l) out off).1
      ⟨initial, []⟩ := by
    rw [d.doFinal_fst, d.finish_eq]
    exact hd.reset (h.feed hd.compresses _)
  exact hd.doFinal_eq hfinish hd.make hcount m output offset

end Resets

end EiffelWeb
