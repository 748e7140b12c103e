import EiffelWeb.HashTable
import EiffelWeb.Loop
import EiffelWeb.StartingSlash
import EiffelWeb.Text
import EiffelWeb.UriTemplate.Expression

set_option relaxedAutoImplicit false
set_option autoImplicit false

/-!
# Requests made from a table of meta variables

The creation of a `WGI_REQUEST_FROM_TABLE`: the table is copied, the attributes of the request are
read from it, and `update_path_info` takes the name of the script off the path, which one server
needs and the others do not. The name is taken off wherever the path starts with it as a text, so
the cut may fall inside a segment of the path.

The input and the connector are stored only. A position outside its string makes the result `none`.

## Main definitions

* `WgiRequestFromTable`, `WgiRequestFromTable.make`
* `WgiRequestFromTable.singleSlashStartingString`
* `IsPathInfo` — the grammar of `PATH_INFO`.
* `SegmentCut` — a path is cut between two segments.

## Main results

* `WgiRequestFromTable.one_starting_slash` — one slash for those at the start.
* `WgiRequestFromTable.pathInfo_make` — the path of a request.
* `WgiRequestFromTable.make_keepsPathInfo_iff` — when the path keeps its grammar.
-/

namespace EiffelWeb

/-! ## The names of the variables -/

namespace WgiMetaNames

/-- `{WGI_META_NAMES}.request_uri`. -/
def requestUri : String8 := str "REQUEST_URI"

/-- `{WGI_META_NAMES}.request_method`. -/
def requestMethod : String8 := str "REQUEST_METHOD"

/-- `{WGI_META_NAMES}.query_string`. -/
def queryString : String8 := str "QUERY_STRING"

/-- `{WGI_META_NAMES}.content_type`. -/
def contentType : String8 := str "CONTENT_TYPE"

/-- `{WGI_META_NAMES}.content_length`. -/
def contentLength : String8 := str "CONTENT_LENGTH"

/-- `{WGI_META_NAMES}.path_info`. -/
def pathInfo : String8 := str "PATH_INFO"

/-- `{WGI_META_NAMES}.remote_host`. -/
def remoteHost : String8 := str "REMOTE_HOST"

/-- `{WGI_META_NAMES}.remote_addr`. -/
def remoteAddr : String8 := str "REMOTE_ADDR"

/-- `{WGI_META_NAMES}.script_name`. -/
def scriptName : String8 := str "SCRIPT_NAME"

/-- `{WGI_META_NAMES}.server_name`. -/
def serverName : String8 := str "SERVER_NAME"

/-- `{WGI_META_NAMES}.server_port`. -/
def serverPort : String8 := str "SERVER_PORT"

/-- `{WGI_META_NAMES}.orig_path_info`. -/
def origPathInfo : String8 := str "ORIG_PATH_INFO"

end WgiMetaNames

/-- `WGI_REQUEST_FROM_TABLE`. -/
structure WgiRequestFromTable where
  /-- `meta_variables`. -/
  metaVariables : HashTable String8 String8
  /-- `query_string`. -/
  queryString : String8
  /-- `request_method`. -/
  requestMethod : String8
  /-- `content_type`. -/
  contentType : Option String8
  /-- `content_length`. -/
  contentLength : Option String8
  /-- `path_info`. -/
  pathInfo : String8
  /-- `server_name`. -/
  serverName : String8
  /-- `server_port`. -/
  serverPort : ℤ
  /-- `script_name`. -/
  scriptName : String8
  /-- `remote_addr`. -/
  remoteAddr : String8
  /-- `remote_host`. -/
  remoteHost : String8
  /-- `request_uri`. -/
  requestUri : String8
  /-- `orig_path_info`. -/
  origPathInfo : Option String8

namespace WgiRequestFromTable

/-! ## One starting slash -/

/-- The loop of `single_slash_starting_string`, over `i` and `n`. -/
def slashLoop (s : String8) : Loop (ℤ × ℤ) where
  exit st := decide (st.2 < st.1)
  body st := do
    let c ← Text.item? s st.1
    -- `n := 0` leaves the loop
    return if c ≠ ch '/' then (st.1, 0) else (st.1 + 1, st.2)

/-- `single_slash_starting_string (s)`. -/
def singleSlashStartingString (s : String8) : Option String8 :=
  let n : ℤ := s.length
  if n > 1 then do
    let c ← Text.item? s 1
    if c ≠ ch '/' then
      return ch '/' :: s
    else do
      let c ← Text.item? s 2
      if c = ch '/' then do
        let st ← (slashLoop s).run s.length (3, n)
        return Text.substring s (st.1 - 1) s.length
      else
        return s
  else if n = 1 then do
    let c ← Text.item? s 1
    return if c = ch '/' then s else ch '/' :: s
  else
    some [ch '/']

/-- **One slash for those at the start**; no position is outside the string. -/
theorem singleSlashStartingString_eq (s : String8) :
    singleSlashStartingString s = some (ch '/' :: s.dropWhile (· = ch '/')) :=
  StartingSlash.singleSlashStartingString_eq s

/-- **One starting slash** in both classes: the result is a slash and the string without the slashes
at its start, every position read is in the string, and the result stays as it is. -/
theorem one_starting_slash (s : String8) (t : String32) :
    (singleSlashStartingString s = some (ch '/' :: s.dropWhile (· = ch '/')) ∧
      (singleSlashStartingString s).bind singleSlashStartingString =
        singleSlashStartingString s) ∧
    (WsfRequest.singleSlashStartingString t =
        some ((ch '/').toUInt32 :: t.dropWhile (· = (ch '/').toUInt32)) ∧
      (WsfRequest.singleSlashStartingString t).bind WsfRequest.singleSlashStartingString =
        WsfRequest.singleSlashStartingString t) :=
  ⟨⟨singleSlashStartingString_eq s, StartingSlash.singleSlashStartingString_idem s⟩,
    StartingSlash.singleSlashStartingString_eq t, StartingSlash.singleSlashStartingString_idem t⟩

/-! ## The creation of a request -/

/-- `meta_string_variable (a_name)`, for the table `metaVariables`. -/
def metaStringVariable (metaVariables : HashTable String8 String8) (aName : String8) :
    Option String8 :=
  metaVariables.item aName

/-- `meta_string_variable_or_default (a_name, a_default, use_default_when_empty)`, for the table
`metaVariables`. -/
def metaStringVariableOrDefault (metaVariables : HashTable String8 String8)
    (aName aDefault : String8) (useDefaultWhenEmpty : Bool) : String8 :=
  match metaStringVariable metaVariables aName with
  | some val => if useDefaultWhenEmpty && val.isEmpty then aDefault else val
  | none => aDefault

/-- `set_meta_variables (a_vars)`, from which the creation starts. -/
def setMetaVariables (aVars : HashTable String8 String8) : Option WgiRequestFromTable := do
  let table := aVars.foldl (fun t e => HashTable.force t e.2 e.1) []
  let lQueryString := metaStringVariableOrDefault table WgiMetaNames.queryString [] false
  let scriptName := metaStringVariableOrDefault table WgiMetaNames.scriptName [] false
  let lRequestUri :=
    match metaStringVariable table WgiMetaNames.requestUri with
    | some s => s
    | none => if lQueryString.isEmpty then scriptName else scriptName ++ ch '?' :: lQueryString
  let requestUri ← singleSlashStartingString lRequestUri
  return {
    metaVariables := table
    queryString := lQueryString
    requestMethod := metaStringVariableOrDefault table WgiMetaNames.requestMethod [] false
    contentType := (metaStringVariable table WgiMetaNames.contentType).filter (!·.isEmpty)
    contentLength := metaStringVariable table WgiMetaNames.contentLength
    pathInfo := metaStringVariableOrDefault table WgiMetaNames.pathInfo [] false
    serverName := metaStringVariableOrDefault table WgiMetaNames.serverName [] false
    serverPort :=
      match metaStringVariable table WgiMetaNames.serverPort with
      | some s => (ExpressionVariable.toInteger? s).getD 80
      | none => 80
    scriptName := scriptName
    remoteAddr := metaStringVariableOrDefault table WgiMetaNames.remoteAddr [] false
    remoteHost := metaStringVariableOrDefault table WgiMetaNames.remoteHost [] false
    requestUri := requestUri
    origPathInfo := none }

/-- `set_orig_path_info (s)`. -/
def setOrigPathInfo (rq : WgiRequestFromTable) (s : String8) : WgiRequestFromTable :=
  { rq with
    origPathInfo := some s
    metaVariables := rq.metaVariables.force s WgiMetaNames.origPathInfo }

/-- `unset_orig_path_info`. -/
def unsetOrigPathInfo (rq : WgiRequestFromTable) : WgiRequestFromTable :=
  { rq with
    origPathInfo := none
    metaVariables := rq.metaVariables.remove WgiMetaNames.origPathInfo }

/-- `update_path_info`. -/
def updatePathInfo (rq : WgiRequestFromTable) : WgiRequestFromTable :=
  let lPathInfo := rq.pathInfo
  if lPathInfo.isEmpty then rq.unsetOrigPathInfo
  else if rq.scriptName.isPrefixOf lPathInfo then
    { rq.setOrigPathInfo lPathInfo with
      pathInfo := Text.substring lPathInfo (rq.scriptName.length + 1) lPathInfo.length }
  else rq.setOrigPathInfo lPathInfo

/-- `make (a_vars, a_input, a_wgi_connector)`. -/
def make (aVars : HashTable String8 String8) : Option WgiRequestFromTable :=
  (setMetaVariables aVars).map updatePathInfo

/-- `ORIG_PATH_INFO` is the same in the attribute and in the table. -/
theorem origPathInfo_updatePathInfo (rq : WgiRequestFromTable) :
    rq.updatePathInfo.origPathInfo =
      metaStringVariable rq.updatePathInfo.metaVariables WgiMetaNames.origPathInfo := by
  unfold updatePathInfo
  dsimp only
  split
  · exact (HashTable.item_remove_self _ _).symm
  · split
    · exact (HashTable.item_force_self _ _ _).symm
    · exact (HashTable.item_force_self _ _ _).symm

/-! ## The path -/

/-- The value that a table has for a name; it is empty if there is none. -/
def given (aVars : HashTable String8 String8) (aName : String8) : String8 :=
  (aVars.item aName).getD []

lemma metaStringVariableOrDefault_nil (aVars : HashTable String8 String8) (aName : String8) :
    metaStringVariableOrDefault aVars aName [] false = given aVars aName := by
  rw [metaStringVariableOrDefault, metaStringVariable, given]
  cases aVars.item aName <;> rfl

/-- The name of the script is taken off a path that starts with it. -/
lemma pathInfo_updatePathInfo (rq : WgiRequestFromTable) :
    rq.updatePathInfo.pathInfo =
      if rq.scriptName <+: rq.pathInfo then rq.pathInfo.drop rq.scriptName.length
      else rq.pathInfo := by
  unfold updatePathInfo
  dsimp only
  by_cases hempty : rq.pathInfo.isEmpty = true
  · rw [if_pos hempty]
    have hnil : rq.pathInfo = [] := List.isEmpty_iff.mp hempty
    simp [unsetOrigPathInfo, hnil]
  · rw [if_neg hempty]
    by_cases hpre : rq.scriptName <+: rq.pathInfo
    · obtain ⟨r, hr⟩ := hpre
      have hcut : Text.substring rq.pathInfo (rq.scriptName.length + 1) rq.pathInfo.length = r := by
        rw [← hr]
        exact Text.substring_suffix _ _ rfl rfl
      rw [if_pos (List.isPrefixOf_iff_prefix.mpr ⟨r, hr⟩), if_pos ⟨r, hr⟩]
      change Text.substring rq.pathInfo (rq.scriptName.length + 1) rq.pathInfo.length = _
      rw [hcut, ← hr, List.drop_left]
    · rw [if_neg fun h => hpre (List.isPrefixOf_iff_prefix.mp h), if_neg hpre]
      rfl

/-- **The path of a request**, and that the creation stays inside its strings. -/
lemma pathInfo_make {aVars : HashTable String8 String8} (hkeys : aVars.keys.Nodup) :
    ∃ rq, make aVars = some rq ∧
      rq.pathInfo =
        if given aVars WgiMetaNames.scriptName <+: given aVars WgiMetaNames.pathInfo then
          (given aVars WgiMetaNames.pathInfo).drop (given aVars WgiMetaNames.scriptName).length
        else given aVars WgiMetaNames.pathInfo := by
  have hset : ∃ rq, setMetaVariables aVars = some rq ∧
      rq.scriptName = given aVars WgiMetaNames.scriptName ∧
      rq.pathInfo = given aVars WgiMetaNames.pathInfo := by
    unfold setMetaVariables
    dsimp only
    rw [singleSlashStartingString_eq, HashTable.foldl_force_self hkeys]
    refine ⟨_, rfl, ?_, ?_⟩
    · exact metaStringVariableOrDefault_nil aVars _
    · exact metaStringVariableOrDefault_nil aVars _
  obtain ⟨rq, hrq, hscript, hpath⟩ := hset
  refine ⟨rq.updatePathInfo, by rw [make, hrq, Option.map_some], ?_⟩
  rw [pathInfo_updatePathInfo, hscript, hpath]

/-! ## The grammar of the path -/

/-- `PATH_INFO = "" | ( "/" path )`, where a `path` has segments of any characters. -/
def IsPathInfo (s : String8) : Prop := s = [] ∨ s.head? = some (ch '/')

instance (s : String8) : Decidable (IsPathInfo s) := inferInstanceAs (Decidable (_ ∨ _))

/-- The path `a ++ b` is cut between two segments, or at one of its ends. -/
def SegmentCut (a b : String8) : Prop :=
  a = [] ∨ b = [] ∨ a.getLast? = some (ch '/') ∨ b.head? = some (ch '/')

/-- The request has a path of the grammar, and what was removed from the given path, if anything,
ends at the boundary of a segment. -/
def KeepsPathInfo (aVars : HashTable String8 String8) : Prop :=
  ∃ rq, make aVars = some rq ∧ IsPathInfo rq.pathInfo ∧
    ∀ removed, given aVars WgiMetaNames.pathInfo = removed ++ rq.pathInfo →
      SegmentCut removed rq.pathInfo

/-- The text `q` at the start of a path is followed by nothing or by a slash. -/
def EndsSegment (q p : String8) : Prop := ∀ c, q ++ [c] <+: p → c = ch '/'

lemma endsSegment_of_not_startsWith {q p : String8} (h : ¬ q <+: p) : EndsSegment q p :=
  fun c hc => absurd ((List.prefix_append q [c]).trans hc) h

lemma endsSegment_append {q r : String8} : EndsSegment q (q ++ r) ↔ IsPathInfo r := by
  unfold EndsSegment IsPathInfo
  simp only [List.prefix_append_right_inj]
  cases r with
  | nil => simp
  | cons d r => simp [List.cons_prefix_cons]

/-- A path of the grammar has been cut between two segments. -/
lemma keepsPathInfo_iff {aVars : HashTable String8 String8} {rq : WgiRequestFromTable}
    (hmake : make aVars = some rq) : KeepsPathInfo aVars ↔ IsPathInfo rq.pathInfo := by
  constructor
  · rintro ⟨rq', hmake', hinfo, -⟩
    rw [hmake, Option.some.injEq] at hmake'
    exact hmake' ▸ hinfo
  · intro hinfo
    refine ⟨rq, hmake, hinfo, fun removed _ => ?_⟩
    rcases hinfo with hnil | hslash
    · exact Or.inr (Or.inl hnil)
    · exact Or.inr (Or.inr (Or.inr hslash))

/-- **When the path keeps its grammar**: the given path does not go on inside a segment behind the
name of the script.

**Proof sketch.** The path of the request is the rest behind the name (`pathInfo_make`), and the
rest is of the grammar iff it is empty or starts with a slash (`endsSegment_append`). -/
theorem make_keepsPathInfo_iff {aVars : HashTable String8 String8} (hkeys : aVars.keys.Nodup)
    (hpath : IsPathInfo (given aVars WgiMetaNames.pathInfo)) :
    KeepsPathInfo aVars ↔
      EndsSegment (given aVars WgiMetaNames.scriptName) (given aVars WgiMetaNames.pathInfo) := by
  obtain ⟨rq, hmake, hrest⟩ := pathInfo_make hkeys
  rw [keepsPathInfo_iff hmake, hrest]
  split
  · next hpre =>
    obtain ⟨r, hr⟩ := hpre
    rw [← hr, List.drop_left, endsSegment_append]
  · next hpre => exact iff_of_true hpath (endsSegment_of_not_startsWith hpre)

/-- The variables of a server that puts the name of the script before the path. -/
def iisVars : HashTable String8 String8 :=
  [(str "SCRIPT_NAME", str "/sample.exe"), (str "PATH_INFO", str "/sample.exe/foo/bar")]

/-- The name `/sample.exe` is taken off `/sample.exe/foo/bar`. -/
theorem make_keepsPathInfo_sample : KeepsPathInfo iisVars := by
  refine (make_keepsPathInfo_iff (by decide +kernel) (by decide +kernel)).mpr fun c hc => ?_
  exact forall_character8
    (P := fun c => str "/sample.exe" ++ [c] <+: str "/sample.exe/foo/bar" → c = ch '/')
    (by decide +kernel) c hc

/-- The variables of the request for `/foo/foobar` to the script `/foo`, from a server that does
not put the name of the script before the path. -/
def apacheVars : HashTable String8 String8 :=
  [(str "SCRIPT_NAME", str "/foo"), (str "PATH_INFO", str "/foobar")]

/-- The path `/foobar` of the script `/foo` becomes `bar`. -/
theorem not_make_keepsPathInfo_foobar :
    ¬ ∀ aVars : HashTable String8 String8, aVars.keys.Nodup →
      IsPathInfo (given aVars WgiMetaNames.pathInfo) →
      IsPathInfo (given aVars WgiMetaNames.scriptName) → KeepsPathInfo aVars := by
  intro hall
  obtain ⟨rq, hmake, hinfo, -⟩ :=
    hall apacheVars (by decide +kernel) (by decide +kernel) (by decide +kernel)
  have hbar : (make apacheVars).map pathInfo = some (str "bar") := by decide +kernel
  rw [hmake, Option.map_some, Option.some.injEq] at hbar
  rw [hbar] at hinfo
  exact absurd hinfo (by decide +kernel)

end WgiRequestFromTable

end EiffelWeb
