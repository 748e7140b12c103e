import EiffelWeb.Footprint
import EiffelWeb.Crypto.Modes

set_option relaxedAutoImplicit false
set_option autoImplicit false

/-!
# Modes of operation on the arrays of the caller

The classes `CBC_DECRYPTION`, `CFB_ENCRYPTION` and `CFB_DECRYPTION` again, with all conditions on
the arrays that they are given: an item outside an array makes a call fail, and the array that is
written may be the one that is read. Only the array `last` is the object's own. The caller may do
with its arrays what it likes between two calls, so that every call has a heap of its own.

## Main definitions

* `CbcDecryption` — an object, its creation and its calls.
* `CfbMode` — an object of one of the `CFB` classes.
* `Delivery`, `CfbMode.Exchanges` — segments that are encrypted, delivered and decrypted.

## Main results

* `CbcDecryption.make_iff` — when an initialisation vector inside an array is taken.
* `CfbMode.exchanges_iff` — for which segments the `CFB` classes keep to their places.
-/

namespace EiffelWeb

open Special

/-- Arrays of bytes. -/
abbrev ByteHeap := Arrays Natural8

/-- The arguments of a call that reads one block or segment and writes another one. -/
structure BlockCall where
  /-- `in`. -/
  input : ℕ
  /-- `in_offset`. -/
  inOffset : ℕ
  /-- `out_array`. -/
  outArray : ℕ
  /-- `out_offset`. -/
  outOffset : ℕ

/-- The require clauses of a call for `n` bytes, at least one: the indexes from `in_offset` and from
`out_offset` on are valid. -/
def BlockCall.Allowed (c : BlockCall) (n : ℕ) (h : ByteHeap) : Prop :=
  c.inOffset + n ≤ (h c.input).length ∧ c.outOffset + n ≤ (h c.outArray).length

instance (c : BlockCall) (n : ℕ) (h : ByteHeap) : Decidable (c.Allowed n h) :=
  inferInstanceAs (Decidable (_ ∧ _))

/-- The bytes that are read and the bytes that are written are different ones. -/
def BlockCall.Apart (c : BlockCall) (n : ℕ) : Prop :=
  Arrays.Apart c.outArray c.outOffset n c.input c.inOffset n

/-- `array_xor` with an array of the caller as the destination; it fails outside an array. -/
def xorInto (source1 : XorSource) (source1Offset : ℕ) (source2 : XorSource) (source2Offset : ℕ)
    (destination destinationOffset count : ℕ) (h : ByteHeap) : Option ByteHeap :=
  if source1Offset + count ≤ (source1.items (h destination)).length ∧
      source2Offset + count ≤ (source2.items (h destination)).length ∧
      destinationOffset + count ≤ (h destination).length then
    some (Function.update h destination (arrayXor source1 source1Offset source2 source2Offset
      (h destination) destinationOffset count))
  else none

namespace BlockTarget

variable (t : BlockTarget)

/-- `decrypt_block (in, in_offset, out_array, out_offset)` on the arrays of the caller. -/
def decryptInto (c : BlockCall) (h : ByteHeap) : Option ByteHeap :=
  if c.Allowed t.blockSize h then
    some (Function.update h c.outArray
      (t.decryptBlock (h c.input) c.inOffset (h c.outArray) c.outOffset))
  else none

/-- The require clauses of `encrypt_block (last, 0, out_array, out_offset)`. -/
def Accepts (last : List Natural8) (outArray outOffset : ℕ) (h : ByteHeap) : Prop :=
  t.blockSize ≤ last.length ∧ outOffset + t.blockSize ≤ (h outArray).length

instance (last : List Natural8) (outArray outOffset : ℕ) (h : ByteHeap) :
    Decidable (t.Accepts last outArray outOffset h) :=
  inferInstanceAs (Decidable (_ ∧ _))

/-- `encrypt_block (last, 0, out_array, out_offset)`, for an array `last` of the object. -/
def encryptInto (last : List Natural8) (outArray outOffset : ℕ) (h : ByteHeap) : Option ByteHeap :=
  if t.Accepts last outArray outOffset h then
    some (Function.update h outArray (t.encryptBlock last 0 (h outArray) outOffset))
  else none

end BlockTarget

/-! ## Cipher block chaining -/

/-- An object of class `CBC_DECRYPTION`. -/
structure CbcDecryption where
  /-- `last`. -/
  last : List Natural8
  /-- `target`. -/
  target : BlockTarget

namespace CbcDecryption

/-- The invariant of the class. -/
def Invariant (d : CbcDecryption) : Prop := d.last.length = d.target.blockSize

/-- `make (target_a, iv, iv_offset)`. -/
def make (target : BlockTarget) (iv : List Natural8) (ivOffset : ℕ) : Option CbcDecryption := do
  let last := List.replicate iv.length 0
  let last ← copyDataWithin last iv ivOffset 0 last.length
  return ⟨last, target⟩

/-- `decrypt_block (in, in_offset, out_array, out_offset)`. -/
def decryptBlock (d : CbcDecryption) (c : BlockCall) (h : ByteHeap) :
    Option (CbcDecryption × ByteHeap) := do
  let h ← d.target.decryptInto c h
  let h ← xorInto (.other d.last) 0 .destination c.outOffset c.outArray c.outOffset
    d.target.blockSize h
  let last ← copyDataWithin d.last (h c.input) c.inOffset 0 d.target.blockSize
  return ({ d with last := last }, h)

/-- The arrays after each call of a sequence. -/
def decryptBlocks : CbcDecryption → List (BlockCall × ByteHeap) → Option (List ByteHeap)
  | _, [] => some []
  | d, (c, h) :: l => do
    let (d, h) ← d.decryptBlock c h
    let hs ← d.decryptBlocks l
    return h :: hs

/-- Two objects with the same target and the same first block of `last`. -/
structure Alike (d d' : CbcDecryption) : Prop where
  /-- The targets are the same. -/
  target : d'.target = d.target
  /-- The first array has a block. -/
  room : d.target.blockSize ≤ d.last.length
  /-- The second array has a block. -/
  room' : d.target.blockSize ≤ d'.last.length
  /-- The blocks are the same. -/
  block : slice d'.last 0 d.target.blockSize = slice d.last 0 d.target.blockSize

/-- The exclusive disjunction depends on the first block of `last` only. -/
lemma Alike.xorInto {d d' : CbcDecryption} (hd : d.Alike d') (a i : ℕ) (h : ByteHeap) :
    xorInto (.other d'.last) 0 .destination i a i d.target.blockSize h =
      xorInto (.other d.last) 0 .destination i a i d.target.blockSize h := by
  by_cases hroom : i + d.target.blockSize ≤ (h a).length
  · have h₁ : 0 + d.target.blockSize ≤ ((XorSource.other d.last).items (h a)).length := by
      simpa only [XorSource.items, Nat.zero_add] using hd.room
    have h₂ : 0 + d.target.blockSize ≤ ((XorSource.other d'.last).items (h a)).length := by
      simpa only [XorSource.items, Nat.zero_add] using hd.room'
    rw [EiffelWeb.xorInto, EiffelWeb.xorInto, if_pos ⟨h₂, hroom, hroom⟩,
      if_pos ⟨h₁, hroom, hroom⟩,
      arrayXor_eq (XorSource.aligned_other _ _ _) (XorSource.aligned_destination _) hroom h₂ hroom,
      arrayXor_eq (XorSource.aligned_other _ _ _) (XorSource.aligned_destination _) hroom h₁ hroom]
    simp only [XorSource.items, hd.block]
  · rw [EiffelWeb.xorInto, EiffelWeb.xorInto, if_neg fun hall => hroom hall.2.2,
      if_neg fun hall => hroom hall.2.2]

/-- A block that was copied to the start of an array. -/
lemma slice_copyDataWithin {a other u : List Natural8} {i n : ℕ}
    (h : copyDataWithin a other i 0 n = some u) :
    n ≤ u.length ∧ slice u 0 n = slice other i n := by
  rw [copyDataWithin] at h
  split at h
  · next hroom =>
    obtain rfl := Option.some.inj h
    have hlen : (slice other i n).length = n := length_slice hroom.1
    have hread := slice_write (a := a) (u := slice other i n) (i := 0)
      (by rw [hlen]; exact hroom.2)
    rw [hlen] at hread
    refine ⟨?_, hread⟩
    have := hroom.2
    rw [copyData, length_write (by rw [hlen]; exact hroom.2)]
    omega
  · cases h

/-- **One call** of two such objects fails for both, or leaves the same arrays and two such
objects. -/
lemma Alike.decryptBlock {d d' : CbcDecryption} (hd : d.Alike d') (c : BlockCall) (h : ByteHeap) :
    (d.decryptBlock c h = none ∧ d'.decryptBlock c h = none) ∨
      ∃ e e' g, d.decryptBlock c h = some (e, g) ∧ d'.decryptBlock c h = some (e', g) ∧
        e.Alike e' := by
  obtain ⟨last, t⟩ := d
  obtain ⟨last', t'⟩ := d'
  obtain rfl : t' = t := hd.target
  have hxor := hd.xorInto c.outArray c.outOffset
  simp only [CbcDecryption.decryptBlock, Option.bind_eq_bind] at hxor ⊢
  cases hdecrypt : t'.decryptInto c h with
  | none => exact Or.inl ⟨rfl, rfl⟩
  | some f =>
    simp only [Option.bind_some, hxor]
    cases EiffelWeb.xorInto (.other last) 0 .destination c.outOffset c.outArray c.outOffset
        t'.blockSize f with
    | none => exact Or.inl ⟨rfl, rfl⟩
    | some g =>
      simp only [Option.bind_some]
      by_cases hread : c.inOffset + t'.blockSize ≤ (g c.input).length
      · have hroom : 0 + t'.blockSize ≤ last.length := by
          rw [Nat.zero_add]
          exact hd.room
        have hroom' : 0 + t'.blockSize ≤ last'.length := by
          rw [Nat.zero_add]
          exact hd.room'
        have hcopy : copyDataWithin last (g c.input) c.inOffset 0 t'.blockSize =
            some (copyData last (g c.input) c.inOffset 0 t'.blockSize) := if_pos ⟨hread, hroom⟩
        have hcopy' : copyDataWithin last' (g c.input) c.inOffset 0 t'.blockSize =
            some (copyData last' (g c.input) c.inOffset 0 t'.blockSize) := if_pos ⟨hread, hroom'⟩
        obtain ⟨hlen, hblock⟩ := slice_copyDataWithin hcopy
        obtain ⟨hlen', hblock'⟩ := slice_copyDataWithin hcopy'
        rw [hcopy, hcopy']
        exact Or.inr ⟨_, _, g, rfl, rfl, rfl, hlen, hlen', hblock'.trans hblock.symm⟩
      · have hfail (a : List Natural8) :
            copyDataWithin a (g c.input) c.inOffset 0 t'.blockSize = none :=
          if_neg fun hall => hread hall.1
        rw [hfail, hfail]
        exact Or.inl ⟨rfl, rfl⟩

/-- **All calls** of two such objects leave the same arrays. -/
lemma Alike.decryptBlocks {d d' : CbcDecryption} (hd : d.Alike d')
    (l : List (BlockCall × ByteHeap)) : d.decryptBlocks l = d'.decryptBlocks l := by
  induction l generalizing d d' with
  | nil => rfl
  | cons p l ih =>
    obtain ⟨c, h⟩ := p
    rw [CbcDecryption.decryptBlocks, CbcDecryption.decryptBlocks]
    rcases hd.decryptBlock c h with ⟨hfail, hfail'⟩ | ⟨e, e', g, hrun, hrun', hnext⟩
    · rw [hfail, hfail']
    · rw [hrun, hrun']
      simp only [Option.bind_eq_bind, Option.bind_some, ih hnext]

/-- What `make` leaves: the whole array, which must begin with the vector. -/
lemma make_eq (t : BlockTarget) (iv : List Natural8) (ivOffset : ℕ) :
    make t iv ivOffset = if ivOffset = 0 then some ⟨iv, t⟩ else none := by
  rw [make, List.length_replicate, copyDataWithin, List.length_replicate]
  by_cases h0 : ivOffset = 0
  · have hcopy : copyData (List.replicate iv.length 0) iv 0 0 iv.length = iv := by
      rw [copyData, slice_zero_length, write_all (List.length_replicate).symm]
    rw [if_pos h0, h0, if_pos ⟨by omega, by omega⟩, hcopy]
    rfl
  · rw [if_neg h0, if_neg fun hall => h0 (by omega)]
    rfl

/-- **An initialisation vector inside an array** that the require clauses allow: `make` returns an
object that satisfies the class invariant, and decrypts every sequence of blocks like the object
made from the vector alone, exactly if the array has nothing but the vector. Wherever `make` returns
an object, it does decrypt like that one. -/
theorem make_iff (t : BlockTarget) (iv : List Natural8) (ivOffset : ℕ)
    (hiv : ivOffset + t.blockSize ≤ iv.length) :
    ((∃ d d', make t iv ivOffset = some d ∧ make t (slice iv ivOffset t.blockSize) 0 = some d' ∧
        d.Invariant ∧ ∀ l, d.decryptBlocks l = d'.decryptBlocks l) ↔ iv.length = t.blockSize) ∧
    ∀ d d', make t iv ivOffset = some d → make t (slice iv ivOffset t.blockSize) 0 = some d' →
      ∀ l, d.decryptBlocks l = d'.decryptBlocks l := by
  have halike : ∀ d d', make t iv ivOffset = some d →
      make t (slice iv ivOffset t.blockSize) 0 = some d' →
      ∀ l, d.decryptBlocks l = d'.decryptBlocks l := by
    intro d d' hd hd'
    rw [make_eq] at hd hd'
    split at hd
    · next h0 =>
      subst h0
      obtain rfl := Option.some.inj hd
      obtain rfl := Option.some.inj hd'
      have hlen : (slice iv 0 t.blockSize).length = t.blockSize := length_slice hiv
      have hsame : Alike ⟨iv, t⟩ ⟨slice iv 0 t.blockSize, t⟩ :=
        ⟨rfl, by simpa using hiv, hlen.ge, slice_last hlen⟩
      exact hsame.decryptBlocks
    · exact nomatch hd
  refine ⟨⟨?_, fun hlen => ?_⟩, halike⟩
  · rintro ⟨d, d', hd, -, hinv, -⟩
    rw [make_eq] at hd
    split at hd
    · obtain rfl := Option.some.inj hd
      exact hinv
    · exact nomatch hd
  · obtain rfl : ivOffset = 0 := by omega
    have hd : make t iv 0 = some ⟨iv, t⟩ := by rw [make_eq, if_pos rfl]
    have hd' : make t (slice iv 0 t.blockSize) 0 = some ⟨slice iv 0 t.blockSize, t⟩ := by
      rw [make_eq, if_pos rfl]
    exact ⟨_, _, hd, hd', hlen, halike _ _ hd hd'⟩

/-- An AES key and a vector of sixteen bytes. -/
theorem make_iff_aes :
    let t := (AesKey.make (List.replicate 16 7) (by decide)).target
    ∃ d d', make t (List.replicate 16 9) 0 = some d ∧
      make t (slice (List.replicate 16 9) 0 t.blockSize) 0 = some d' ∧ d.Invariant ∧
      ∀ l, d.decryptBlocks l = d'.decryptBlocks l :=
  ((make_iff (AesKey.make (List.replicate 16 7) (by decide)).target (List.replicate 16 9) 0
    (by decide)).1).mpr rfl

/-- The vector is behind sixteen other bytes of the array, where no object is made. -/
theorem not_make :
    ¬ ∀ (t : BlockTarget) (iv : List Natural8) (ivOffset : ℕ),
      ivOffset + t.blockSize ≤ iv.length →
      ∃ d d', make t iv ivOffset = some d ∧ make t (slice iv ivOffset t.blockSize) 0 = some d' ∧
        d.Invariant ∧ ∀ l, d.decryptBlocks l = d'.decryptBlocks l := by
  intro hall
  obtain ⟨d, -, hd, -⟩ := hall (AesKey.make (List.replicate 16 7) (by decide)).target
    (List.replicate 32 9) 16 (by decide)
  rw [make_eq, if_neg (by decide)] at hd
  exact nomatch hd

end CbcDecryption

/-! ## Cipher feedback -/

/-- An object of class `CFB_ENCRYPTION` or `CFB_DECRYPTION`. -/
structure CfbMode where
  /-- `last`. -/
  last : List Natural8
  /-- `target`. -/
  target : BlockTarget
  /-- `select_block_size`. -/
  selectBlockSize : ℕ

/-- The way of a segment: it is encrypted from one array into another one, delivered, and decrypted
from the array in which it arrives. -/
structure Delivery where
  /-- The arrays of the sender. -/
  sent : ByteHeap
  /-- The call of `encrypt_block`. -/
  sending : BlockCall
  /-- The arrays of the receiver. -/
  received : ByteHeap
  /-- The call of `decrypt_block`. -/
  receiving : BlockCall

/-- The require clauses of both calls for segments of `n` bytes. -/
def Delivery.Allowed (p : Delivery) (n : ℕ) : Prop :=
  p.sending.Allowed n p.sent ∧ p.receiving.Allowed n p.received

/-- No call reads bytes that it writes. -/
def Delivery.Apart (p : Delivery) (n : ℕ) : Prop := p.sending.Apart n ∧ p.receiving.Apart n

namespace CfbMode

/-- `make (target_a, iv, iv_offset, select_block_size_a)` of both classes. -/
def make (target : BlockTarget) (iv : List Natural8) (ivOffset selectBlockSize : ℕ) :
    Option CfbMode := do
  let last := List.replicate target.blockSize 0
  let last ← copyDataWithin last iv ivOffset 0 last.length
  return ⟨last, target, selectBlockSize⟩

/-- The argument `in` of `array_xor`, which may be the array that is written. -/
def source (h : ByteHeap) (c : BlockCall) : XorSource :=
  if c.input = c.outArray then .destination else .other (h c.input)

/-- `{CFB_ENCRYPTION}.encrypt_block (in, in_offset, out_array, out_offset)`. -/
def encryptBlock (m : CfbMode) (c : BlockCall) (h : ByteHeap) : Option (CfbMode × ByteHeap) := do
  let h ← m.target.encryptInto m.last c.outArray c.outOffset h
  let h ← xorInto .destination c.outOffset (source h c) c.inOffset c.outArray c.outOffset
    m.selectBlockSize h
  let last := overlappingMove m.last m.selectBlockSize 0 (m.target.blockSize - m.selectBlockSize)
  let last ← copyDataWithin last (h c.outArray) c.outOffset
    (m.target.blockSize - m.selectBlockSize) m.selectBlockSize
  return ({ m with last := last }, h)

/-- `{CFB_DECRYPTION}.decrypt_block (in, in_offset, out_array, out_offset)`. -/
def decryptBlock (m : CfbMode) (c : BlockCall) (h : ByteHeap) : Option (CfbMode × ByteHeap) := do
  let h ← m.target.encryptInto m.last c.outArray c.outOffset h
  let last := overlappingMove m.last m.selectBlockSize 0 (m.target.blockSize - m.selectBlockSize)
  let last ← copyDataWithin last (h c.input) c.inOffset
    (m.target.blockSize - m.selectBlockSize) m.selectBlockSize
  let h ← xorInto .destination c.outOffset (source h c) c.inOffset c.outArray c.outOffset
    m.selectBlockSize h
  return ({ m with last := last }, h)

/-- A call keeps to its place: the require clauses of the target's `encrypt_block` are satisfied,
the call returns, and it has written the segment of `out_array` only. -/
def KeepsPlace (m : CfbMode) (c : BlockCall) (h : ByteHeap) (r : Option (CfbMode × ByteHeap))
    (m' : CfbMode) (h' : ByteHeap) : Prop :=
  m.target.Accepts m.last c.outArray c.outOffset h ∧ r = some (m', h') ∧
    Arrays.SameOutside (Arrays.region c.outArray c.outOffset m.selectBlockSize) h h'

/-- All calls for a sequence of segments keep to their places, and every segment that is delivered
is decrypted to the original one. -/
def Exchanges (sender receiver : CfbMode) : List Delivery → Prop
  | [] => True
  | p :: l => ∃ sender' g,
    KeepsPlace sender p.sending p.sent (sender.encryptBlock p.sending p.sent) sender' g ∧
    (p.received.segment p.receiving.input p.receiving.inOffset sender.selectBlockSize =
        g.segment p.sending.outArray p.sending.outOffset sender.selectBlockSize →
      ∃ receiver' f,
        KeepsPlace receiver p.receiving p.received (receiver.decryptBlock p.receiving p.received)
          receiver' f ∧
        f.segment p.receiving.outArray p.receiving.outOffset sender.selectBlockSize =
          p.sent.segment p.sending.input p.sending.inOffset sender.selectBlockSize ∧
        Exchanges sender' receiver' l)

/-- The exclusive disjunction with another part of the destination. -/
lemma arrayXor_destination {s₁ : XorSource} {o₁ o₂ doff n : ℕ} {d e : List Natural8}
    (hapart : doff + n ≤ o₂ ∨ o₂ + n ≤ doff) (he : ∀ j < n, item d (o₂ + j) = item e (o₂ + j)) :
    arrayXor s₁ o₁ .destination o₂ d doff n = arrayXor s₁ o₁ (.other e) o₂ d doff n := by
  induction n generalizing d with
  | zero => rfl
  | succ n ih =>
    simp only [arrayXor, XorSource.items]
    rw [he n (Nat.lt_succ_self n)]
    refine ih (by omega) fun j hj => ?_
    rw [← he j (by omega)]
    simp only [item, List.getD_eq_getElem?_getD]
    rw [List.getElem?_set_ne (by omega)]

/-- What `make` leaves. -/
lemma make_eq {t : BlockTarget} {iv : List Natural8} {ivOffset : ℕ}
    (hiv : ivOffset + t.blockSize ≤ iv.length) (s : ℕ) :
    make t iv ivOffset s = some ⟨slice iv ivOffset t.blockSize, t, s⟩ := by
  have hcopy : copyData (List.replicate t.blockSize 0) iv ivOffset 0 t.blockSize =
      slice iv ivOffset t.blockSize := by
    rw [copyData, write_all (by rw [length_slice hiv, List.length_replicate])]
  rw [make, List.length_replicate, copyDataWithin,
    if_pos ⟨hiv, by rw [List.length_replicate, Nat.zero_add]⟩, hcopy]
  rfl

section Block

variable {t : BlockTarget} {m : CfbMode} {c : BlockCall} {h : ByteHeap} {n : ℕ}

/-- A block that was written is added to a block that is not in its place. -/
lemma xorInto_store {u : List Natural8} (hu : u.length = n) (hc : c.Allowed n h)
    (hapart : c.Apart n) :
    xorInto .destination c.outOffset (source (h.store c.outArray c.outOffset u) c) c.inOffset
        c.outArray c.outOffset n (h.store c.outArray c.outOffset u) =
      some (h.store c.outArray c.outOffset (xorBlock u (h.segment c.input c.inOffset n))) := by
  obtain ⟨hin, hout⟩ := hc
  have hstored : c.outOffset + u.length ≤ (h c.outArray).length := by rwa [hu]
  set g := h.store c.outArray c.outOffset u with hg
  have hlen (b : ℕ) : (g b).length = (h b).length := Arrays.length_store hstored b
  have hgout : g c.outArray = write (h c.outArray) c.outOffset u := Arrays.store_apply_self
  have hseg : slice (g c.input) c.inOffset n = h.segment c.input c.inOffset n :=
    Arrays.segment_store_apart hstored fun he => by
      have := hapart he.symm
      omega
  have hread : slice (g c.outArray) c.outOffset n = u := by
    rw [hgout, ← hu]
    exact slice_write hstored
  have hitems : (source g c).items (g c.outArray) = g c.input := by
    rw [source]
    split
    · next he => rw [he, XorSource.items]
    · rfl
  -- the array that is read is taken as another one
  have hother : arrayXor .destination c.outOffset (source g c) c.inOffset (g c.outArray)
      c.outOffset n = arrayXor .destination c.outOffset (.other (g c.input)) c.inOffset
        (g c.outArray) c.outOffset n := by
    rw [source]
    split
    · next he =>
      rw [he]
      exact arrayXor_destination (hapart he.symm) fun _ _ => rfl
    · rfl
  have hxor : arrayXor .destination c.outOffset (.other (g c.input)) c.inOffset (g c.outArray)
      c.outOffset n = write (h c.outArray) c.outOffset
        (xorBlock u (h.segment c.input c.inOffset n)) := by
    have hblock : (xorBlock u (h.segment c.input c.inOffset n)).length = n :=
      length_xorBlock hu (length_slice hin)
    rw [arrayXor_eq (XorSource.aligned_destination _) (XorSource.aligned_other _ _ _)
      (by rw [hlen]; exact hout) (by simp only [XorSource.items]; rw [hlen]; exact hout)
      (by simp only [XorSource.items]; rw [hlen]; exact hin)]
    simp only [XorSource.items]
    rw [hread, hseg, hgout]
    exact write_write_same (hblock.trans hu.symm) hstored
  rw [xorInto, hitems, if_pos ⟨by simp only [XorSource.items]; rw [hlen]; exact hout,
    by rw [hlen]; exact hin, by rw [hlen]; exact hout⟩, hother, hxor, hg, Arrays.store,
    Function.update_idem]
  rfl

/-- The keystream of a call. -/
lemma encryptInto_eq (hlast : m.last.length = m.target.blockSize)
    (hout : c.outOffset + m.target.blockSize ≤ (h c.outArray).length) :
    m.target.encryptInto m.last c.outArray c.outOffset h =
      some (h.store c.outArray c.outOffset (m.target.encrypt m.last)) := by
  rw [BlockTarget.encryptInto, if_pos ⟨hlast.ge, hout⟩, BlockTarget.encryptBlock, slice_last hlast]
  rfl

/-- A block replaces the whole array `last`. -/
lemma copyDataWithin_overlappingMove {last other : List Natural8} {i : ℕ}
    (hlast : last.length = t.blockSize) (hi : i + t.blockSize ≤ other.length) :
    copyDataWithin (overlappingMove last t.blockSize 0 (t.blockSize - t.blockSize)) other i
      (t.blockSize - t.blockSize) t.blockSize = some (slice other i t.blockSize) := by
  have hlen : (overlappingMove last t.blockSize 0 (t.blockSize - t.blockSize)).length =
      t.blockSize := by
    simp [overlappingMove, slice, hlast]
  rw [copyDataWithin, if_pos ⟨hi, by omega⟩, copyData_overlappingMove hlast hi]

section

variable (hlast : m.last.length = m.target.blockSize)
  (hsel : m.selectBlockSize = m.target.blockSize)
  (hc : c.Allowed m.selectBlockSize h) (hapart : c.Apart m.selectBlockSize)

include hlast hsel hc hapart

/-- `{CFB_ENCRYPTION}.encrypt_block` with segments of a whole block. -/
lemma encryptBlock_eq :
    m.encryptBlock c h =
      some (⟨xorBlock (m.target.encrypt m.last)
          (h.segment c.input c.inOffset m.target.blockSize), m.target, m.selectBlockSize⟩,
        h.store c.outArray c.outOffset (xorBlock (m.target.encrypt m.last)
          (h.segment c.input c.inOffset m.target.blockSize))) := by
  rw [hsel] at hc hapart
  have hkey := m.target.length_encrypt _ hlast
  have hblock := length_xorBlock hkey (length_slice hc.1)
  have hstored : c.outOffset + (xorBlock (m.target.encrypt m.last)
      (slice (h c.input) c.inOffset m.target.blockSize)).length ≤ (h c.outArray).length := by
    rw [hblock]
    exact hc.2
  have hread := Arrays.segment_store_self hstored
  rw [hblock] at hread
  simp only [encryptBlock, Option.bind_eq_bind]
  rw [encryptInto_eq hlast hc.2, Option.bind_some, hsel, xorInto_store hkey hc hapart,
    Option.bind_some, copyDataWithin_overlappingMove hlast
      (by rw [Arrays.segment, Arrays.length_store hstored]; exact hc.2), Option.bind_some]
  simp only [Arrays.segment] at hread ⊢
  rw [hread]
  rfl

/-- `{CFB_DECRYPTION}.decrypt_block` with segments of a whole block. -/
lemma decryptBlock_eq :
    m.decryptBlock c h =
      some (⟨h.segment c.input c.inOffset m.target.blockSize, m.target, m.selectBlockSize⟩,
        h.store c.outArray c.outOffset (xorBlock (m.target.encrypt m.last)
          (h.segment c.input c.inOffset m.target.blockSize))) := by
  rw [hsel] at hc hapart
  have hkey := m.target.length_encrypt _ hlast
  have hstored : c.outOffset + (m.target.encrypt m.last).length ≤ (h c.outArray).length := by
    rw [hkey]
    exact hc.2
  have hseg : slice (h.store c.outArray c.outOffset (m.target.encrypt m.last) c.input) c.inOffset
      m.target.blockSize = h.segment c.input c.inOffset m.target.blockSize :=
    Arrays.segment_store_apart hstored fun he => by
      have := hapart he.symm
      omega
  simp only [decryptBlock, Option.bind_eq_bind]
  rw [encryptInto_eq hlast hc.2, Option.bind_some, hsel, copyDataWithin_overlappingMove hlast
    (by rw [Arrays.length_store hstored]; exact hc.1), Option.bind_some, hseg,
    xorInto_store hkey hc hapart, Option.bind_some]
  rfl

end

/-- **The calls for one segment** of a whole block, by two objects with the same `last`: both keep
to their places, the segment is decrypted, and both objects have the encrypted segment in `last`
afterwards. -/
lemma exchange_step {p : Delivery} {u : List Natural8} (hu : u.length = t.blockSize)
    (hp : p.Allowed t.blockSize) (hapart : p.Apart t.blockSize) :
    ∃ v g, v.length = t.blockSize ∧
      KeepsPlace ⟨u, t, t.blockSize⟩ p.sending p.sent
        (encryptBlock ⟨u, t, t.blockSize⟩ p.sending p.sent) ⟨v, t, t.blockSize⟩ g ∧
      (p.received.segment p.receiving.input p.receiving.inOffset t.blockSize =
          g.segment p.sending.outArray p.sending.outOffset t.blockSize →
        ∃ f, KeepsPlace ⟨u, t, t.blockSize⟩ p.receiving p.received
            (decryptBlock ⟨u, t, t.blockSize⟩ p.receiving p.received) ⟨v, t, t.blockSize⟩ f ∧
          f.segment p.receiving.outArray p.receiving.outOffset t.blockSize =
            p.sent.segment p.sending.input p.sending.inOffset t.blockSize) := by
  have hkey := t.length_encrypt u hu
  have hplain : (p.sent.segment p.sending.input p.sending.inOffset t.blockSize).length =
      t.blockSize := length_slice hp.1.1
  set v := xorBlock (t.encrypt u)
    (p.sent.segment p.sending.input p.sending.inOffset t.blockSize) with hv
  have hvlen : v.length = t.blockSize := length_xorBlock hkey hplain
  have hroom : p.sending.outOffset + v.length ≤ (p.sent p.sending.outArray).length := by
    rw [hvlen]
    exact hp.1.2
  have hfoot := Arrays.sameOutside_store hroom
  have hread := Arrays.segment_store_self hroom
  rw [hvlen] at hfoot hread
  refine ⟨v, _, hvlen, ⟨⟨hu.ge, hp.1.2⟩, encryptBlock_eq hu rfl hp.1 hapart.1, hfoot⟩,
    fun hdelivered => ?_⟩
  rw [hread] at hdelivered
  have hback : xorBlock (t.encrypt u) v =
      p.sent.segment p.sending.input p.sending.inOffset t.blockSize :=
    xorBlock_xorBlock (hkey.trans hplain.symm)
  have hrun := decryptBlock_eq (m := ⟨u, t, t.blockSize⟩) hu rfl hp.2 hapart.2
  simp only [hdelivered, hback] at hrun
  have hroom' : p.receiving.outOffset +
      (p.sent.segment p.sending.input p.sending.inOffset t.blockSize).length ≤
        (p.received p.receiving.outArray).length := by
    rw [hplain]
    exact hp.2.2
  have hfoot' := Arrays.sameOutside_store hroom'
  have hread' := Arrays.segment_store_self hroom'
  rw [hplain] at hfoot' hread'
  exact ⟨_, ⟨⟨hu.ge, hp.2.2⟩, hrun, hfoot'⟩, hread'⟩

/-- **The calls for a sequence of segments** of a whole block. -/
lemma exchanges_run {l : List Delivery}
    (hl : ∀ p ∈ l, p.Allowed t.blockSize ∧ p.Apart t.blockSize) {u : List Natural8}
    (hu : u.length = t.blockSize) :
    Exchanges ⟨u, t, t.blockSize⟩ ⟨u, t, t.blockSize⟩ l := by
  induction l generalizing u with
  | nil => trivial
  | cons p l ih =>
    obtain ⟨hp, hapart⟩ := hl p List.mem_cons_self
    obtain ⟨v, g, hv, hsent, hback⟩ := exchange_step hu hp hapart
    refine ⟨_, g, hsent, fun hdelivered => ?_⟩
    obtain ⟨f, hreceived, hplain⟩ := hback hdelivered
    exact ⟨_, f, hreceived, hplain, ih (fun q hq => hl q (List.mem_cons_of_mem p hq)) hv⟩

/-- A segment that is to be written into an array that ends with it. -/
def tightDelivery (n : ℕ) : Delivery where
  sent := fun _ => List.replicate n 0
  sending := ⟨0, 0, 1, 0⟩
  received := fun _ => List.replicate n 0
  receiving := ⟨0, 0, 1, 0⟩

lemma tightDelivery_allowed (n : ℕ) : (tightDelivery n).Allowed n ∧ (tightDelivery n).Apart n := by
  have hroom : 0 + n ≤ (List.replicate n (0 : Natural8)).length := by
    rw [List.length_replicate, Nat.zero_add]
  exact ⟨⟨⟨hroom, hroom⟩, hroom, hroom⟩, fun h => absurd h Nat.one_ne_zero,
    fun h => absurd h Nat.one_ne_zero⟩

/-- Segments shorter than a block are not written in such an array. -/
lemma blockSize_le_of_exchanges {receiver : CfbMode} {n : ℕ}
    (h : Exchanges m receiver [tightDelivery n]) : m.target.blockSize ≤ n := by
  obtain ⟨-, -, ⟨⟨-, hroom⟩, -⟩, -⟩ := h
  simpa [tightDelivery] using hroom

end Block

/-- **Cipher feedback with the arrays of the caller**: `make` returns an object for every
initialisation vector and size of segments that the require clauses allow. All calls that do not
read bytes that they write keep to their places, and decrypt to the original segments, exactly if a
segment is a whole block. -/
theorem exchanges_iff (t : BlockTarget) (iv : List Natural8) (ivOffset s : ℕ)
    (hiv : ivOffset + t.blockSize ≤ iv.length) (hs : s ≤ t.blockSize) :
    ∃ m, make t iv ivOffset s = some m ∧
      ((∀ l : List Delivery, (∀ p ∈ l, p.Allowed s ∧ p.Apart s) → Exchanges m m l) ↔
        s = t.blockSize) := by
  refine ⟨_, make_eq hiv s, fun hall => ?_, ?_⟩
  · have htight := hall [tightDelivery s] fun p hp => by
      rw [List.mem_singleton.mp hp]
      exact tightDelivery_allowed s
    exact Nat.le_antisymm hs (blockSize_le_of_exchanges htight)
  · rintro rfl l hl
    exact exchanges_run hl (length_slice hiv)

/-- An AES key and segments of sixteen bytes. -/
theorem exchanges_iff_aes :
    let t := (AesKey.make (List.replicate 16 7) (by decide)).target
    ∃ m, make t (List.replicate 16 9) 0 16 = some m ∧
      ((∀ l : List Delivery, (∀ p ∈ l, p.Allowed 16 ∧ p.Apart 16) → Exchanges m m l) ↔
        16 = t.blockSize) :=
  exchanges_iff (AesKey.make (List.replicate 16 7) (by decide)).target (List.replicate 16 9) 0 16
    (by decide) (by decide)

/-- Segments of one byte, where the block of the keystream is not written into an array of one
byte. -/
theorem not_exchanges :
    ¬ ∀ (t : BlockTarget) (iv : List Natural8) (ivOffset s : ℕ),
      ivOffset + t.blockSize ≤ iv.length → 0 < s → s ≤ t.blockSize →
      ∃ m, make t iv ivOffset s = some m ∧
        ∀ l : List Delivery, (∀ p ∈ l, p.Allowed s) → Exchanges m m l := by
  intro hall
  obtain ⟨m, hm, hex⟩ := hall (AesKey.make (List.replicate 16 7) (by decide)).target
    (List.replicate 16 9) 0 1 (by decide) (by decide) (by decide)
  have htight := hex [tightDelivery 1] fun p hp => by
    rw [List.mem_singleton.mp hp]
    exact (tightDelivery_allowed 1).1
  have hle := blockSize_le_of_exchanges htight
  rw [make_eq (by decide)] at hm
  obtain rfl := Option.some.inj hm
  exact absurd hle (by decide)

end CfbMode

end EiffelWeb
