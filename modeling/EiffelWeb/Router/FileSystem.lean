import Mathlib.Data.List.Basic
import Mathlib.Tactic.Common
import EiffelWeb.Text
import EiffelWeb.Character
import EiffelWeb.Directory

set_option relaxedAutoImplicit false
set_option autoImplicit false

/-!
# The file system handler

The class `REQUEST_FILE_SYSTEM_HANDLER`, on platforms other than Windows. The name of the file that
is served is the document root with the value of the path variable behind it, without slashes at
the end. Nothing looks at the segments of the value, and nothing is put between the two texts.

File names are resolved from a working directory, without symbolic links.

## Main definitions

* `FileSystemHandler.realFilename`, `FileSystemHandler.resourceFilename`
* `resolve` — the directory or file that a file name denotes.
* `FileSystemHandler.Returns` — the value climbs over no name of the root but those it comes back
  by.

## Main results

* `FileSystemHandler.exists_of_realFilename` — only slashes at the end of a name are removed.
* `FileSystemHandler.resolve_resourceFilename` — what the file name of a resource denotes.
* `FileSystemHandler.resourceFilename_below_iff` — when a resource is below the document root.
-/

namespace EiffelWeb

/-! ## File names -/

/-- The move that a segment of a file name stands for. -/
def segmentMove (s : String8) : Directory.Move String8 :=
  if s = [] ∨ s = str "." then .stay else if s = str ".." then .up else .down s

/-- The moves that a file name stands for. -/
def pathMoves (path : String8) : List (Directory.Move String8) :=
  (path.splitOn (ch '/')).map segmentMove

/-- Where a file name starts: at the root of the file system, or in the working directory. -/
def pathStart (cwd : List String8) (path : String8) : List String8 :=
  if path.head? = some (ch '/') then [] else cwd

/-- The directory or file that a file name denotes, with its `.` and `..` resolved. -/
def resolve (cwd : List String8) (path : String8) : List String8 :=
  Directory.walk (pathStart cwd path) (pathMoves path)

lemma pathMoves_append_cons (a b : String8) :
    pathMoves (a ++ ch '/' :: b) = pathMoves a ++ pathMoves b := by
  rw [pathMoves, List.splitOn_append_cons_self, List.map_append]
  rfl

lemma pathMoves_of_notMem {s : String8} (h : ch '/' ∉ s) : pathMoves s = [segmentMove s] := by
  rw [pathMoves, List.splitOn_eq_singleton h]
  rfl

/-- The start does not depend on what stands behind the first character. -/
lemma pathStart_append (cwd : List String8) {a : String8} (ha : a ≠ []) (b : String8) :
    pathStart cwd (a ++ b) = pathStart cwd a := by
  obtain ⟨c, a, rfl⟩ := List.exists_cons_of_ne_nil ha
  rfl

/-- A slash at the end does not change what a file name denotes. -/
lemma resolve_concat_slash (cwd : List String8) {a : String8} (ha : a ≠ []) :
    resolve cwd (a ++ [ch '/']) = resolve cwd a := by
  rw [resolve, pathStart_append cwd ha, pathMoves_append_cons, Directory.walk_append]
  rfl

namespace FileSystemHandler

/-! ## The handler -/

/-- `real_filename (fn)`: one slash at the end is removed. -/
def realFilename (fn : String8) : String8 :=
  if fn.getLast? = some (ch '/') then fn.dropLast else fn

/-- `resource_filename (uri)`, for the attribute `document_root`. -/
def resourceFilename (documentRoot uri : String8) : String8 :=
  realFilename (documentRoot ++ realFilename uri)

/-- The part of the document root up to its last slash. -/
def rootDirectory (documentRoot : String8) : String8 :=
  documentRoot.take (documentRoot.length - (Text.afterLast (ch '/') documentRoot).length)

/-- Of the names of the document root, the value climbs only over those that it comes back by. The
value is read together with the last name of the root, in front of which the last slash of the root
stands. -/
def Returns (cwd : List String8) (documentRoot uri : String8) : Prop :=
  let c := Directory.climb (pathMoves (Text.afterLast (ch '/') documentRoot ++ uri))
  (resolve cwd documentRoot).drop
    ((resolve cwd (rootDirectory documentRoot)).length - c.1) <+: c.2

instance (cwd : List String8) (documentRoot uri : String8) :
    Decidable (Returns cwd documentRoot uri) :=
  inferInstanceAs (Decidable (_ <+: _))

/-! ## The file that is opened -/

lemma exists_of_realFilename (fn : String8) :
    realFilename fn = fn ∨ fn = realFilename fn ++ [ch '/'] := by
  rw [realFilename]
  split
  · next h =>
    right
    exact (List.dropLast_append_getLast? _ h).symm
  · exact Or.inl rfl

/-- **What the file name of a resource denotes**: slashes at the end do not matter, unless the
document root is the root of the file system. -/
lemma resolve_resourceFilename (cwd : List String8) {documentRoot : String8}
    (hne : documentRoot ≠ []) (uri : String8) :
    resolve cwd (resourceFilename documentRoot uri) = resolve cwd (documentRoot ++ uri) ∨
      documentRoot = str "/" := by
  have hnames : ∀ u : String8, documentRoot ++ u ≠ [] := fun u h =>
    hne (List.append_eq_nil_iff.mp h).1
  have huri : resolve cwd (documentRoot ++ realFilename uri) =
      resolve cwd (documentRoot ++ uri) := by
    rcases exists_of_realFilename uri with h | h
    · rw [h]
    · conv_rhs => rw [h, ← List.append_assoc]
      exact (resolve_concat_slash cwd (hnames _)).symm
  rw [← huri, resourceFilename]
  rcases exists_of_realFilename (documentRoot ++ realFilename uri) with h | h
  · exact Or.inl (by rw [h])
  · by_cases hnil : realFilename (documentRoot ++ realFilename uri) = []
    · -- a single slash is left of the root and the value
      right
      rw [hnil, List.nil_append] at h
      have hlength := congrArg List.length h
      have hpos := List.length_pos_of_ne_nil hne
      rw [List.length_append, List.length_singleton] at hlength
      have hempty : realFilename uri = [] := List.length_eq_zero_iff.mp (by omega)
      rw [hempty, List.append_nil] at h
      exact h
    · left
      conv_rhs => rw [h]
      exact (resolve_concat_slash cwd hnil).symm

/-- The document root, and a text behind it, from the part of the root up to its last slash. -/
lemma resolve_root (cwd : List String8) {documentRoot : String8} (hne : documentRoot ≠ [])
    (uri : String8) :
    resolve cwd documentRoot = Directory.move (resolve cwd (rootDirectory documentRoot))
      (segmentMove (Text.afterLast (ch '/') documentRoot)) ∧
    resolve cwd (documentRoot ++ uri) = Directory.walk (resolve cwd (rootDirectory documentRoot))
      (pathMoves (Text.afterLast (ch '/') documentRoot ++ uri)) := by
  by_cases hslash : ch '/' ∈ documentRoot
  · obtain ⟨a, t, rfl, ht⟩ := Text.exists_last_split hslash
    have hlast : Text.afterLast (ch '/') (a ++ ch '/' :: t) = t := by
      rw [Text.afterLast_append_cons, Text.afterLast_of_notMem ht]
    have hdir : rootDirectory (a ++ ch '/' :: t) = a ++ [ch '/'] := by
      have hlength : (a ++ ch '/' :: t).length - t.length = (a ++ [ch '/']).length := by
        simp
        omega
      have hsplit : a ++ ch '/' :: t = (a ++ [ch '/']) ++ t := by simp
      rw [rootDirectory, hlast, hlength, hsplit, List.take_left]
    have hstart : ∀ u, pathStart cwd (a ++ ch '/' :: u) = pathStart cwd (a ++ [ch '/']) := by
      intro u
      rw [← pathStart_append cwd (a := a ++ [ch '/']) (by simp) u]
      simp
    have hbase : resolve cwd (a ++ [ch '/']) =
        Directory.walk (pathStart cwd (a ++ [ch '/'])) (pathMoves a) := by
      rw [resolve, pathMoves_append_cons, Directory.walk_append]
      rfl
    rw [hlast, hdir, hbase]
    constructor
    · rw [resolve, hstart, pathMoves_append_cons, Directory.walk_append, pathMoves_of_notMem ht]
      rfl
    · rw [resolve, List.append_assoc, List.cons_append, hstart, pathMoves_append_cons,
        Directory.walk_append]
  · have hlast := Text.afterLast_of_notMem hslash
    have hdir : rootDirectory documentRoot = [] := by simp [rootDirectory, hlast]
    have hstart : pathStart cwd documentRoot = cwd := by
      obtain ⟨c, r, rfl⟩ := List.exists_cons_of_ne_nil hne
      rw [List.mem_cons, not_or] at hslash
      simp [pathStart, Ne.symm hslash.1]
    have hbase : resolve cwd [] = cwd := rfl
    rw [hlast, hdir, hbase]
    constructor
    · rw [resolve, hstart, pathMoves_of_notMem hslash]
      rfl
    · rw [resolve, pathStart_append cwd hne, hstart]

/-- **When a resource is below the document root.** For every working directory, every document root
that is not the empty text, and every value, the file name of the resource denotes the document root
or something below it if and only if the value climbs over no name of the root but those that it
comes back by.

**Proof sketch.** From the last slash of the root on, the root is one segment, and the file name is
that segment joined with the value. The normal form of the walk from there decides. -/
theorem resourceFilename_below_iff (cwd : List String8) (documentRoot uri : String8)
    (hne : documentRoot ≠ []) :
    resolve cwd documentRoot <+: resolve cwd (resourceFilename documentRoot uri) ↔
      Returns cwd documentRoot uri := by
  rcases resolve_resourceFilename cwd hne uri with hresolve | rfl
  · obtain ⟨hroot, hfile⟩ := resolve_root cwd hne uri
    rw [hresolve, Returns, hroot, hfile]
    exact Directory.prefix_walk_iff _ _ _
  · have hempty : resolve cwd (str "/") = [] := rfl
    simp [Returns, hempty]

lemma up_notMem_pathMoves {u : String8} (h : str ".." ∉ u.splitOn (ch '/')) :
    Directory.Move.up ∉ pathMoves u := by
  intro hmem
  obtain ⟨s, hs, hmove⟩ := List.mem_map.mp hmem
  rw [segmentMove] at hmove
  split_ifs at hmove with hstay hup
  exact h (hup ▸ hs)

/-- A value that starts with a slash and has no segment `..` denotes something below the document
root. -/
theorem below_of_no_up (cwd : List String8) {documentRoot : String8} (hne : documentRoot ≠ [])
    {u : String8} (hup : str ".." ∉ u.splitOn (ch '/')) :
    resolve cwd documentRoot <+: resolve cwd (resourceFilename documentRoot (ch '/' :: u)) := by
  rcases resolve_resourceFilename cwd hne (ch '/' :: u) with hresolve | rfl
  · obtain ⟨hroot, hfile⟩ := resolve_root cwd hne (ch '/' :: u)
    have hlast : ch '/' ∉ Text.afterLast (ch '/') documentRoot := by
      by_cases hslash : ch '/' ∈ documentRoot
      · obtain ⟨a, t, rfl, ht⟩ := Text.exists_last_split hslash
        rwa [Text.afterLast_append_cons, Text.afterLast_of_notMem ht]
      · rwa [Text.afterLast_of_notMem hslash]
    rw [hresolve, hfile, pathMoves_append_cons, Directory.walk_append, pathMoves_of_notMem hlast,
      Directory.walk_cons, Directory.walk_nil, ← hroot, Directory.walk_eq, Directory.reached,
      Directory.climb_of_no_up (up_notMem_pathMoves hup)]
    simp
  · exact List.nil_prefix

/-- The file `/srv/www/index.html` is below the document root `/srv/www`. -/
theorem resourceFilename_below_index :
    str "/srv/www" ≠ [] ∧
    resolve [] (str "/srv/www") <+: resolve [] (resourceFilename (str "/srv/www")
      (str "/index.html")) :=
  ⟨by decide, (resourceFilename_below_iff [] (str "/srv/www") (str "/index.html") (by decide)).mpr
    (by decide +kernel)⟩

/-- The value `/../../etc/passwd` leads to the file `/etc/passwd`, which is not below the document
root `/srv/www`. -/
theorem resourceFilename_escapes :
    resolve [] (resourceFilename (str "/srv/www") (str "/../../etc/passwd")) =
      [str "etc", str "passwd"] ∧
    ¬ resolve [] (str "/srv/www") <+:
      resolve [] (resourceFilename (str "/srv/www") (str "/../../etc/passwd")) := by
  decide +kernel

end FileSystemHandler

end EiffelWeb
