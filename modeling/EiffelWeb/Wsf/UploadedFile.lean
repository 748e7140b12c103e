import EiffelWeb.HashTable
import EiffelWeb.Wsf.Multipart

set_option relaxedAutoImplicit false
set_option autoImplicit false

/-!
# Saving uploaded files

`save_uploaded_file` and `safe_filename` of `WSF_REQUEST`, with the files they work on. The name of
the file is made safe, and numbers are put before it until no file of that name exists; after a
thousand and one numbers the search ends. The test behind the loop accepts a file that exists if it
is writable, so the last name may be that of a file of somebody else.

The files are a table from full names to their contents. How a full name is made from the name of
the directory and that of the file is a parameter. Opening a file for writing, which is tested
before, is taken to succeed, so the `rescue` clause plays no part.

## Main definitions

* `Upload.safeFilename`, `Upload.saveUploadedFile`
* `Upload.candidate` — the names that are tried.

## Main results

* `Upload.isSafe_safeFilename` — a safe name has safe characters only.
* `Upload.nameLoop_run` — the first free name, or the last one.
* `Upload.saveUploadedFile_keeps_iff` — when saving keeps the contents of all files.
-/

namespace EiffelWeb.Upload

/-! ## Names -/

/-- The characters of a safe name. -/
def isSafe (c : Character8) : Bool := c = ch '.' || c = ch '-' || c = ch '_' || isAlphaNumeric c

/-- What `safe_filename` writes for a character: accented letters lose their accent, other
characters become a dash. -/
def safeCharacter (c : Character8) : Character8 :=
  let n := c.toNat
  if isSafe c then c
  else if 192 ≤ n ∧ n ≤ 197 then ch 'A'
  else if n = 199 then ch 'C'
  else if 200 ≤ n ∧ n ≤ 203 then ch 'E'
  else if 204 ≤ n ∧ n ≤ 207 then ch 'I'
  else if 210 ≤ n ∧ n ≤ 214 then ch 'O'
  else if 217 ≤ n ∧ n ≤ 220 then ch 'U'
  else if n = 221 then ch 'Y'
  else if 224 ≤ n ∧ n ≤ 229 then ch 'a'
  else if n = 231 then ch 'c'
  else if 232 ≤ n ∧ n ≤ 235 then ch 'e'
  else if 236 ≤ n ∧ n ≤ 239 then ch 'i'
  else if n = 240 ∨ 242 ≤ n ∧ n ≤ 246 then ch 'o'
  else if 249 ≤ n ∧ n ≤ 252 then ch 'u'
  else if n = 253 ∨ n = 255 then ch 'y'
  else ch '-'

/-- `safe_filename (fn)`. -/
def safeFilename (fn : String8) : String8 := fn.map safeCharacter

/-- The base name with the number `n`; there is no number in the first. -/
def candidate (safeName : String8) (n : ℕ) : String8 :=
  if n = 0 then str "tmp-" ++ safeName else str "tmp-" ++ (natOut n ++ ch '-' :: safeName)

lemma candidate_succ (safeName : String8) (n : ℕ) :
    candidate safeName (n + 1) = str "tmp-" ++ (natOut (n + 1) ++ ch '-' :: safeName) :=
  if_neg (Nat.succ_ne_zero n)

/-- **A safe name has safe characters only**; in particular it does not leave the directory. -/
theorem isSafe_safeFilename (fn : String8) : ∀ c ∈ safeFilename fn, isSafe c = true := by
  intro c hc
  obtain ⟨d, -, rfl⟩ := List.mem_map.mp hc
  exact forall_character8 (P := fun d => isSafe (safeCharacter d) = true) (by decide +kernel) d

/-! ## Saving -/

/-- A file. -/
structure FileEntry where
  /-- Its content. -/
  content : String8
  /-- `is_writable`. -/
  isWritable : Bool

/-- What saving changes: the files, the attributes of the `WGI_UPLOADED_FILE_DATA` that tell where
the file is, and the errors of `error_handler`. -/
structure SaveState where
  /-- The files, under their full names. -/
  files : HashTable FileEntry String8
  /-- `tmp_name`. -/
  tmpName : Option String8
  /-- `tmp_basename`. -/
  tmpBasename : Option String8
  /-- `error`. -/
  error : ℤ
  /-- The errors of the error handler. -/
  errors : List CustomError

section

variable (fileName : String8 → String8 → String8)

/-- State of the loop that looks for a free name. -/
structure NameState where
  /-- The local `bn`. -/
  bn : String8
  /-- The local `n`. -/
  n : ℕ

/-- The loop that looks for a free name. -/
def nameLoop (files : HashTable FileEntry String8) (dn safeName : String8) : Loop NameState where
  exit st := (files.item (fileName dn st.bn)).isNone || decide (1000 < st.n)
  body st := some ⟨str "tmp-" ++ (natOut (st.n + 1) ++ ch '-' :: safeName), st.n + 1⟩

/-- `open_write`, `put_string` and `close`: the file is created or its content replaced. -/
def SaveState.write (st : SaveState) (f bn aContent : String8) : SaveState :=
  { st with
    files := st.files.force ⟨aContent, true⟩ f
    tmpName := some f
    tmpBasename := some bn }

/-- `save_uploaded_file (a_content, a_up_fn_info)`: `none` if the loop does not end. -/
def saveUploadedFile (dir : WorkingDirectory) (aContent : String8) (info : UploadedFileData)
    (st : SaveState) : Option SaveState :=
  if dir.isWritable then do
    let safeName := safeFilename info.name
    let r ← (nameLoop fileName st.files dir.name safeName).run 1001 ⟨str "tmp-" ++ safeName, 0⟩
    let f := fileName dir.name r.bn
    match st.files.item f with
    | none => some (st.write f r.bn aContent)
    | some e =>
      if e.isWritable then some (st.write f r.bn aContent) else some { st with error := -1 }
  else some { st with
    errors := st.errors ++ [⟨0, str "Directory not writable", asString32
      (str "Can not create file in directory \"" ++ dir.name ++ str "\"")⟩] }

/-- The file of a name that is tried. -/
def tried (st : SaveState) (dir : WorkingDirectory) (info : UploadedFileData) (n : ℕ) :
    Option FileEntry :=
  st.files.item (fileName dir.name (candidate (safeFilename info.name) n))

variable {fileName}

/-- **The loop ends at the first free name**, or at the last one.

**Proof sketch.** The name is the candidate of the number, and no candidate before it is free; the
number grows up to 1001. -/
lemma nameLoop_run (files : HashTable FileEntry String8) (dn safeName : String8) :
    ∃ n ≤ 1001, (nameLoop fileName files dn safeName).run 1001 ⟨str "tmp-" ++ safeName, 0⟩ =
        some ⟨candidate safeName n, n⟩ ∧
      (∀ m < n, files.item (fileName dn (candidate safeName m)) ≠ none) ∧
      (files.item (fileName dn (candidate safeName n)) = none ∨ n = 1001) := by
  let I : NameState → Prop := fun st => st.bn = candidate safeName st.n ∧ st.n ≤ 1001 ∧
    ∀ m < st.n, files.item (fileName dn (candidate safeName m)) ≠ none
  have hstep : ∀ st, I st → (nameLoop fileName files dn safeName).exit st = false →
      ∃ st', (nameLoop fileName files dn safeName).body st = some st' ∧ I st' ∧
        1001 - st'.n < 1001 - st.n := by
    rintro ⟨bn, n⟩ ⟨hbn, hn, hbefore⟩ hexit
    simp only at hbn hn hbefore
    subst hbn
    simp only [nameLoop, Bool.or_eq_false_iff, decide_eq_false_iff_not, Option.isNone_eq_false_iff,
      Option.isSome_iff_ne_none] at hexit
    refine ⟨_, rfl, ⟨?_, by dsimp only; omega, ?_⟩, by dsimp only; omega⟩
    · exact (candidate_succ safeName n).symm
    · intro m hm
      rcases Nat.lt_succ_iff_lt_or_eq.mp hm with hlt | rfl
      · exact hbefore m hlt
      · exact hexit.1
  have hstart : I ⟨str "tmp-" ++ safeName, 0⟩ := ⟨rfl, by dsimp only; omega, by simp⟩
  obtain ⟨⟨bn, n⟩, hrun, ⟨hbn, hn, hbefore⟩, hexit⟩ :=
    Loop.run_of_variant I (fun st => 1001 - st.n) hstep (n := 1001) hstart (Nat.sub_le _ _)
  simp only at hbn hn hbefore
  subst hbn
  refine ⟨n, hn, hrun, hbefore, ?_⟩
  simp only [nameLoop, Bool.or_eq_true, Option.isNone_iff_eq_none, decide_eq_true_eq] at hexit
  exact hexit.imp_right fun h => by omega

/-- The contents of the files of `st` are kept in `st'`. -/
def Keeps (st st' : SaveState) : Prop :=
  ∀ path e, st.files.item path = some e →
    ∃ e', st'.files.item path = some e' ∧ e'.content = e.content

lemma Keeps.of_files {st st' : SaveState} (h : st'.files = st.files) : Keeps st st' := by
  intro path e he
  exact ⟨e, by rw [h, he], rfl⟩

/-- Writing keeps the contents if and only if the file is new or had the content that is written. -/
lemma keeps_write_iff (st : SaveState) (f bn aContent : String8) :
    Keeps st (st.write f bn aContent) ↔ ∀ e, st.files.item f = some e → e.content = aContent := by
  constructor
  · intro h e he
    obtain ⟨e', he', hcontent⟩ := h f e he
    rw [SaveState.write, HashTable.item_force_self, Option.some.injEq] at he'
    rw [← hcontent, ← he']
  · intro h path e he
    by_cases hpath : path = f
    · subst hpath
      exact ⟨_, HashTable.item_force_self _ _ _, (h e he).symm⟩
    · exact ⟨e, by rw [SaveState.write, HashTable.item_force_of_ne _ _ hpath, he], rfl⟩

variable {dir : WorkingDirectory} {aContent : String8} {info : UploadedFileData} {st : SaveState}

/-- With a free name a new file is written. -/
lemma saveUploadedFile_free (hdir : dir.isWritable = true)
    (hfree : ∃ n ≤ 1001, tried fileName st dir info n = none) :
    ∃ f bn, st.files.item f = none ∧
      saveUploadedFile fileName dir aContent info st = some (st.write f bn aContent) := by
  obtain ⟨n, hn, hrun, hbefore, hlast⟩ :=
    @nameLoop_run fileName st.files dir.name (safeFilename info.name)
  have hnone : st.files.item (fileName dir.name (candidate (safeFilename info.name) n)) = none := by
    rcases hlast with hnone | rfl
    · exact hnone
    · obtain ⟨m, hm, hfree⟩ := hfree
      rcases Nat.lt_or_eq_of_le hm with hlt | rfl
      · exact absurd hfree (hbefore m hlt)
      · exact hfree
  refine ⟨_, candidate (safeFilename info.name) n, hnone, ?_⟩
  simp only [saveUploadedFile, hdir, if_true, hrun, Option.bind_eq_bind, Option.bind_some, hnone]

/-- Without a free name the file of the last one is overwritten if it is writable. -/
lemma saveUploadedFile_taken (hdir : dir.isWritable = true)
    (htaken : ∀ n ≤ 1001, tried fileName st dir info n ≠ none) {e : FileEntry}
    (he : tried fileName st dir info 1001 = some e) :
    saveUploadedFile fileName dir aContent info st = some
      (if e.isWritable then
        st.write (fileName dir.name (candidate (safeFilename info.name) 1001))
          (candidate (safeFilename info.name) 1001) aContent
      else { st with error := -1 }) := by
  obtain ⟨n, hn, hrun, -, hlast⟩ :=
    @nameLoop_run fileName st.files dir.name (safeFilename info.name)
  obtain rfl : n = 1001 := hlast.resolve_left (htaken n hn)
  simp only [tried] at he
  simp only [saveUploadedFile, hdir, if_true, hrun, Option.bind_eq_bind, Option.bind_some, he]
  split <;> rfl

/-- Saving adds an error if and only if the directory is not writable, as the analysis of a form
takes it. -/
lemma saveUploadedFile_errors {st' : SaveState}
    (h : saveUploadedFile fileName dir aContent info st = some st') (form : FormState)
    (hform : form.errors = st.errors) :
    st'.errors = (form.saveUploadedFile dir).errors := by
  cases hdir : dir.isWritable with
  | false =>
    simp only [saveUploadedFile, hdir, Bool.false_eq_true, if_false, Option.some.injEq] at h
    subst h
    simp [FormState.saveUploadedFile, hdir, FormState.addCustomError, hform]
  | true =>
    have hsame : (form.saveUploadedFile dir).errors = st.errors := by
      simp [FormState.saveUploadedFile, hdir, hform]
    rw [hsame]
    by_cases hfree : ∃ n ≤ 1001, tried fileName st dir info n = none
    · obtain ⟨f, bn, -, hsave⟩ := @saveUploadedFile_free fileName dir aContent info st hdir hfree
      rw [hsave, Option.some.injEq] at h
      rw [← h]
      rfl
    · push Not at hfree
      obtain ⟨e, he⟩ := Option.ne_none_iff_exists'.mp (hfree 1001 le_rfl)
      rw [saveUploadedFile_taken hdir hfree he, Option.some.injEq] at h
      rw [← h]
      split <;> rfl

/-- **When saving keeps the contents of all files**: if and only if the directory is not writable,
or one of the 1002 names is free, or the file of the last name is not writable or has the content
that is saved. -/
theorem saveUploadedFile_keeps_iff (fileName : String8 → String8 → String8) (dir : WorkingDirectory)
    (aContent : String8) (info : UploadedFileData) (st : SaveState) :
    ∃ st', saveUploadedFile fileName dir aContent info st = some st' ∧
      (Keeps st st' ↔ dir.isWritable = false ∨
        (∃ n ≤ 1001, tried fileName st dir info n = none) ∨
        ∃ e, tried fileName st dir info 1001 = some e ∧
          (e.isWritable = false ∨ e.content = aContent)) := by
  cases hdir : dir.isWritable with
  | false =>
    refine ⟨_, by rw [saveUploadedFile, hdir]; rfl, ?_⟩
    exact iff_of_true (Keeps.of_files rfl) (Or.inl rfl)
  | true =>
    by_cases hfree : ∃ n ≤ 1001, tried fileName st dir info n = none
    · obtain ⟨f, bn, hnone, hsave⟩ :=
        @saveUploadedFile_free fileName dir aContent info st hdir hfree
      refine ⟨_, hsave, iff_of_true ?_ (Or.inr (Or.inl hfree))⟩
      rw [keeps_write_iff, hnone]
      intro e he
      cases he
    · have htaken : ∀ n ≤ 1001, tried fileName st dir info n ≠ none := by
        intro n hn hnone
        exact hfree ⟨n, hn, hnone⟩
      obtain ⟨e, he⟩ := Option.ne_none_iff_exists'.mp (htaken 1001 le_rfl)
      refine ⟨_, saveUploadedFile_taken hdir htaken he, ?_⟩
      cases hwritable : e.isWritable with
      | false =>
        rw [if_neg Bool.false_ne_true]
        exact iff_of_true (Keeps.of_files rfl) (Or.inr (Or.inr ⟨e, he, Or.inl hwritable⟩))
      | true =>
        have hitem : st.files.item (fileName dir.name
            (candidate (safeFilename info.name) 1001)) = some e := he
        rw [if_pos rfl, keeps_write_iff, hitem]
        simp [hfree, he, hwritable]

/-- The state before saving, with files of the text `old` under the first `k` names for `a`. -/
def takenState (k : ℕ) : SaveState where
  files := (List.range k).map fun n => (candidate (str "a") n, ⟨str "old", true⟩)
  tmpName := none
  tmpBasename := none
  error := 0
  errors := []

lemma item_map_const {V K E : Type} [DecidableEq K] (key : E → K) (v : V) {l : List E} {x : E}
    (hx : x ∈ l) : HashTable.item (l.map fun y => (key y, v)) (key x) = some v := by
  induction l with
  | nil => cases hx
  | cons y l ih =>
    rw [List.map_cons, HashTable.item]
    split
    · rfl
    · next hne =>
      refine ih ((List.mem_cons.mp hx).resolve_left ?_)
      rintro rfl
      exact hne rfl

lemma tried_takenState {k n : ℕ} (hn : n < k) :
    tried (fun _ bn => bn) (takenState k) ⟨[], true⟩ ⟨str "a", [], 3⟩ n =
      some ⟨str "old", true⟩ := by
  have hname : safeFilename (str "a") = str "a" := by decide +kernel
  rw [tried, hname]
  exact item_map_const (candidate (str "a")) _ (List.mem_range.mpr hn)

lemma takenState_not_keeps {k : ℕ} (hk : 1001 < k) :
    ∃ st', saveUploadedFile (fun _ bn => bn) ⟨[], true⟩ (str "new") ⟨str "a", [], 3⟩
        (takenState k) = some st' ∧ ¬ Keeps (takenState k) st' := by
  have htried : ∀ n ≤ 1001, tried (fun _ bn => bn) (takenState k) ⟨[], true⟩ ⟨str "a", [], 3⟩ n =
      some ⟨str "old", true⟩ := fun n hn => tried_takenState (by omega)
  refine ⟨_, saveUploadedFile_taken rfl (fun n hn => by simp [htried n hn])
    (htried 1001 le_rfl), ?_⟩
  rw [if_pos rfl, keeps_write_iff]
  intro h
  have hcontent := h _ (htried 1001 le_rfl)
  revert hcontent
  decide

/-- When all names are taken, the file of the last one is overwritten. -/
theorem not_saveUploadedFile_keeps :
    ∃ st', saveUploadedFile (fun _ bn => bn) ⟨[], true⟩ (str "new") ⟨str "a", [], 3⟩
        (takenState 1002) = some st' ∧ ¬ Keeps (takenState 1002) st' :=
  takenState_not_keeps (by decide)

end

end EiffelWeb.Upload
