import Aoox.PathWalk
import Aoox.Table
import Aoox.VolumeNames

/-! # Mounts that come from an import file

A member may import a project file, and its mounts become binds of containers on the
host.  The request that adds a mount has its name and paths checked by patterns; the
file has not.  The import leaves out bind mounts for members and entries of an unknown
type, collapses slashes of the container path, and takes the name as it is.

A bind is text: `source:path` or `source:path:ro`.  It means what was asked for exactly
when neither part holds a colon, and a file stays in its owner's files volume exactly
when its name, worked out segment by segment, does not lead out of it
(`PathWalk.isPrefix_walk_iff`).  Nothing in the import sees to either; what is imported
is confined exactly when the names and paths of the file are
(`imported_confined_iff`).
-/
open List Option
namespace Aoox.ImportedMounts

open JsString Volumes

/-! ## Rows and binds -/

inductive MountType where
  | volume | bind | file
  deriving DecidableEq, Repr

/-- A row of `mounts`. -/
structure Mount where
  type : MountType
  /-- The service of a stack the mount belongs to. -/
  (service name hostPath content : Option JsString)
  containerPath : JsString
  readOnly : Bool
  deriving DecidableEq

/-- A text that is missing or empty counts as not given. -/
def given : Option JsString → Option JsString
  | some (c :: cs) => some (c :: cs)
  | _ => none

theorem given_eq_some {value : Option JsString} {text : JsString} :
    given value = some text ↔ value = some text ∧ text ≠ [] := by
  unfold given
  split
  · constructor
    · rintro h
      obtain rfl := some.inj h
      exact ⟨rfl, cons_ne_nil _ _⟩
    · exact And.left
  · rename_i hnot
    constructor
    · intro h
      cases h
    · rintro ⟨rfl, hne⟩
      obtain ⟨c, cs, rfl⟩ := exists_cons_of_ne_nil hne
      exact absurd rfl (hnot c cs)

/-- Named volume for a `volume` mount. -/
def volumeNameFor (o : Owner) (m : Mount) : JsString :=
  prefixFor o ++ cu '_' ::
    (((given m.service).map fun s => underscored s ++ [cu '_']).getD [] ++ underscored (m.name.getD []))

/-- Path of a `file` mount inside the shared files volume. -/
def filePath (m : Mount) : JsString :=
  match given m.service with
  | some s => s ++ cu '/' :: m.name.getD (js "null")
  | none => m.name.getD []

def colonRo (readOnly : Bool) : JsString := if readOnly then js ":ro" else []

def bindFor (o : Owner) (filesMountpoint : Option JsString) (m : Mount) : Option JsString :=
  match m.type with
  | .volume => some (volumeNameFor o m ++ cu ':' :: (m.containerPath ++ colonRo m.readOnly))
  | .bind => some (m.hostPath.getD (js "null") ++ cu ':' :: (m.containerPath ++ colonRo m.readOnly))
  | .file =>
    (given filesMountpoint).map fun dir =>
      dir ++ cu '/' :: (filePath m ++ cu ':' :: (m.containerPath ++ js ":ro"))

def bindsFor (o : Owner) (mounts : List Mount) (filesMountpoint : Option JsString) : List JsString :=
  mounts.filterMap (bindFor o filesMountpoint)

/-- What preparing the mounts returns: the files volume is looked up when there are files. -/
def preparedMountpoint (mounts : List Mount) (mountpoint : JsString) : Option JsString :=
  if mounts.any fun m => m.type = .file then some mountpoint else none

/-! ## The import -/

/-- A mount as the file holds it. -/
structure ExportedMount where
  type : JsString
  (containerPath hostPath name content : Option JsString)
  readOnly : Option Bool

def mountType (text : JsString) : Option MountType :=
  if text = js "volume" then some .volume
  else if text = js "bind" then some .bind
  else if text = js "file" then some .file
  else none

/-- `/\/+/g` replaced by one slash. -/
def collapseSlashes : JsString → JsString
  | [] => []
  | c :: cs => if c = cu '/' ∧ cs.head? = some (cu '/') then collapseSlashes cs else c :: collapseSlashes cs

/-- What `.` in a pattern does not match. -/
def isLineTerminator (c : CodeUnit) : Bool := c = 0x0A || c = 0x0D || c = 0x2028 || c = 0x2029

/-- `/(.)\/$/`: a slash at the end goes when something stands before it. -/
def withoutLastSlash (p : JsString) : JsString :=
  match p.getLast?, p.dropLast.getLast? with
  | some c, some d => if c = cu '/' ∧ isLineTerminator d = false then p.dropLast else p
  | _, _ => p

def normalizePath (p : JsString) : JsString :=
  (given (some (withoutLastSlash (collapseSlashes (trim p))))).getD (js "/")

/-- `path.split('/').pop()`. -/
def baseName (path : JsString) : JsString := ((split path (js "/")).getLast?).getD []

/-- The name of an imported volume or file. -/
def mountName (name : Option JsString) (path : JsString) : JsString :=
  ((given name).or (given (some (baseName path)))).getD (js "file")

inductive Outcome where
  | skipped (warning : JsString)
  | row (m : Mount)

/-- Only these two bring bind mounts along. -/
def mayBind (role : JsString) : Bool := role = js "owner" || role = js "admin"

def rowFor (t : MountType) (m : ExportedMount) (path : JsString) : Mount where
  type := t
  service := none
  name := if t = .bind then none else some (mountName m.name (normalizePath path))
  hostPath := if t = .bind then some (normalizePath (m.hostPath.getD (js "/"))) else none
  content := if t = .file then some (m.content.getD []) else none
  containerPath := normalizePath path
  readOnly := if t = .file then true else m.readOnly.getD false

def importMount (role place : JsString) (m : ExportedMount) : Outcome :=
  if m.type = js "bind" ∧ mayBind role = false then
    .skipped (place ++ js ": bind mount " ++ m.containerPath.getD (js "undefined") ++
      js " skipped (owner/admin only)")
  else
    match mountType m.type, given m.containerPath with
    | some t, some path => .row (rowFor t m path)
    | _, _ => .skipped (place ++ js ": invalid mount skipped")

structure Report where
  saved : List Mount
  warnings : List JsString
  /-- A row of the same owner had the container path: the database refused it, and that
  ended the import. -/
  failed : Bool

def importMounts (role place : JsString) : List Mount → List ExportedMount → Report
  | saved, [] => ⟨saved, [], false⟩
  | saved, m :: ms =>
    match importMount role place m with
    | .skipped w =>
      let rest := importMounts role place saved ms
      { rest with warnings := w :: rest.warnings }
    | .row x =>
      if x.containerPath ∈ saved.map Mount.containerPath then ⟨saved, [], true⟩
      else importMounts role place (saved ++ [x]) ms

/-- The slug of an imported row: the one of the file when it has the form of one and is
free here, else a generated one. -/
def freeSlug (wanted : Option JsString) (taken : Bool) (generated : Slug) : Slug :=
  match given wanted with
  | none => generated
  | some w =>
    if h : w.length ≤ 64 ∧ w ≠ [] ∧ w.all isSlugUnit = true then
      if taken then generated else ⟨w, h.2⟩
    else generated

/-- An application, database or stack of the file, with what the import met: whether its
slug is taken, and the slug that would be generated. -/
structure Entry where
  kind : Kind
  wantedSlug : Option JsString
  slugTaken : Bool
  generated : Slug
  place : JsString
  mounts : List ExportedMount

def Entry.owner (e : Entry) : Owner := ⟨e.kind, freeSlug e.wantedSlug e.slugTaken e.generated⟩

/-- Mounts of a stack are not imported at all. -/
def importEntry (role : JsString) (e : Entry) : Report :=
  match e.kind with
  | .compose => ⟨[], [], false⟩
  | .app | .db => importMounts role e.place [] e.mounts

/-- The owners an import leaves behind, with their mounts: applications, databases and
stacks in the order of the file, up to where it fails. -/
def importProject (role : JsString) : List Entry → List (Owner × List Mount)
  | [] => []
  | e :: es =>
    let r := importEntry role e
    (e.owner, r.saved) :: if r.failed then [] else importProject role es

/-! ## What is asked of a bind -/

/-- What Docker promises of the directory of a volume. -/
structure Mountpoint where
  text : JsString
  absolute : text.head? = some (cu '/')
  noColon : cu ':' ∉ text

open PathWalk in
def segmentOf (s : JsString) : Segment JsString :=
  if s = [] ∨ s = js "." then .here else if s = js ".." then .up else .into s

open PathWalk in
def segmentsOf (path : JsString) : List (Segment JsString) := (split path (js "/")).map segmentOf

/-- The directories a path leads through from the root. -/
def location (path : JsString) : List JsString := PathWalk.walk [] (segmentsOf path)

/-- The path is the directory or below it. -/
def Inside (dir path : JsString) : Prop := location dir <+: location path

/-- The bind of a mount says source, container path and whether it is read-only, and its
source is a volume of the owner or inside the owner's files. -/
def Confined (o : Owner) (dir : JsString) (m : Mount) (b : JsString) : Prop :=
  ∃ source, split b [cu ':'] = source :: m.containerPath :: (if m.readOnly then [js "ro"] else []) ∧
    ((∃ v : VolumeMount, v.owner = o ∧ source = Volumes.volumeNameFor v) ∨ Inside dir source)

/-! ## What is asked of the file -/

def pathOf (m : ExportedMount) : JsString := m.containerPath.getD []

/-- The name the file gives, or else the last segment of the container path. -/
def nameOf (m : ExportedMount) : JsString := mountName m.name (normalizePath (pathOf m))

/-- Worked out, the name goes up some directories and then down through names that begin
with the directories it left; a name that never goes above the directory is the case of
none. -/
def StaysIn (dir name : JsString) : Prop :=
  let n := PathWalk.normal (segmentsOf name)
  (location dir).drop ((location dir).length - n.1) <+: n.2

instance (dir name : JsString) : Decidable (StaysIn dir name) :=
  inferInstanceAs (Decidable (_ <+: _))

/-- The condition on a mount of the file. -/
def Acceptable (dir : JsString) (m : ExportedMount) : Prop :=
  cu ':' ∉ pathOf m ∧ cu ':' ∉ nameOf m ∧ (m.type = js "file" → StaysIn dir (nameOf m))

instance (dir : JsString) (m : ExportedMount) : Decidable (Acceptable dir m) :=
  inferInstanceAs (Decidable (_ ∧ _ ∧ (_ → _)))

/-- The mounts a member's import keeps. -/
def kept (m : ExportedMount) : Bool :=
  (m.type = js "volume" || m.type = js "file") && (given m.containerPath).isSome

/-- Those that are saved: a container path that was there already ends the import. -/
def reachedMounts (ms : List ExportedMount) : List ExportedMount :=
  Table.accepted (fun m => normalizePath (pathOf m)) [] (ms.filter kept)

def stops (e : Entry) : Bool :=
  e.kind ≠ .compose && (reachedMounts e.mounts).length < (e.mounts.filter kept).length

/-- The entries the import comes to. -/
def reached : List Entry → List Entry
  | [] => []
  | e :: es => e :: if stops e then [] else reached es

/-! ## Colons -/

variable {c : CodeUnit}

theorem mem_trim (hc : isSpace c = false) (text : JsString) : c ∈ trim text ↔ c ∈ text := by
  have hdrop : ∀ l : JsString, c ∈ l.dropWhile isSpace ↔ c ∈ l := by
    intro l
    induction l with
    | nil => rfl
    | cons x l ih =>
      rw [dropWhile_cons]
      split
      · rename_i hx
        have hne : c ≠ x := by
          rintro rfl
          rw [hc] at hx
          cases hx
        simp [ih, hne]
      · rfl
  unfold trim trimEnd trimStart List.rdropWhile
  rw [mem_reverse, hdrop, mem_reverse, hdrop]

theorem mem_collapseSlashes (hc : c ≠ cu '/') (text : JsString) :
    c ∈ collapseSlashes text ↔ c ∈ text := by
  induction text with
  | nil => rfl
  | cons x text ih =>
    rw [collapseSlashes]
    split
    · rename_i hx
      rw [ih, mem_cons, hx.1]
      simp [hc]
    · rw [mem_cons, mem_cons, ih]

theorem mem_withoutLastSlash (hc : c ≠ cu '/') (text : JsString) :
    c ∈ withoutLastSlash text ↔ c ∈ text := by
  unfold withoutLastSlash
  split
  · rename_i x d hx _
    split
    · rename_i hslash
      have hsplit : text.dropLast ++ [x] = text := dropLast_append_getLast? x hx
      conv_rhs => rw [← hsplit]
      rw [mem_append, mem_singleton, hslash.1]
      simp [hc]
    · rfl
  · rfl

/-- Normalizing a path neither adds a colon nor takes one away. -/
theorem colon_mem_normalizePath (p : JsString) : cu ':' ∈ normalizePath p ↔ cu ':' ∈ p := by
  have hslash : cu ':' ≠ cu '/' := by decide
  have hinner : cu ':' ∈ withoutLastSlash (collapseSlashes (trim p)) ↔ cu ':' ∈ p := by
    rw [mem_withoutLastSlash hslash, mem_collapseSlashes hslash, mem_trim (by decide)]
  unfold normalizePath
  cases hq : withoutLastSlash (collapseSlashes (trim p)) with
  | nil =>
    rw [hq] at hinner
    exact iff_of_false (by decide) (fun h => not_mem_nil (hinner.mpr h))
  | cons c cs =>
    rw [hq] at hinner
    exact hinner

theorem colon_mem_underscored (text : JsString) : cu ':' ∈ underscored text ↔ cu ':' ∈ text := by
  have hunit : ∀ c : CodeUnit, (if c = cu '-' then cu '_' else c) = cu ':' ↔ c = cu ':' := by
    intro c
    by_cases hc : c = cu '-'
    · subst hc
      decide
    · rw [if_neg hc]
  simp only [underscored, List.mem_map, hunit, exists_eq_right]

theorem not_colon_of_isSlugUnit (h : isSlugUnit c = true) : c ≠ cu ':' := by
  rintro rfl
  revert h
  decide

theorem colon_not_mem_prefixFor (o : Owner) : cu ':' ∉ prefixFor o := by
  intro h
  unfold prefixFor at h
  rcases mem_append.mp h with h | h
  · revert h
    decide
  · rw [colon_mem_underscored, mem_append, mem_cons] at h
    rcases h with h | h | h
    · revert h
      cases o.kind <;> decide
    · revert h
      decide
    · exact not_colon_of_isSlugUnit (all_eq_true.mp o.slug.valid.2 _ h) rfl

variable {source path : JsString}

/-- **A bind's text has exactly its parts** when neither the source nor the path has a colon,
and only then. -/
theorem split_bind_iff {ro : Bool} :
    (∃ head, split (source ++ cu ':' :: (path ++ colonRo ro)) [cu ':'] =
        head :: path :: (if ro then [js "ro"] else [])) ↔
      cu ':' ∉ source ∧ cu ':' ∉ path := by
  constructor
  · rintro ⟨head, h⟩
    have hlen := congrArg List.length h
    rw [length_split_unit] at hlen
    have hro : (colonRo ro).count (cu ':') = if ro then 1 else 0 := by cases ro <;> decide
    have hparts : (head :: path :: (if ro then [js "ro"] else [])).length = if ro then 3 else 2 := by
      cases ro <;> rfl
    rw [hparts, count_append, count_cons_self, count_append, hro] at hlen
    rw [← count_eq_zero, ← count_eq_zero]
    cases ro <;> simp at hlen <;> omega
  · rintro ⟨hsource, hpath⟩
    refine ⟨source, ?_⟩
    rw [split_append_unit, split_of_not_mem hsource]
    cases ro with
    | false => simp [colonRo, split_of_not_mem hpath]
    | true =>
      have hro : colonRo true = cu ':' :: js "ro" := by decide
      rw [hro, split_append_unit, split_of_not_mem hpath]
      rfl

theorem head_of_split_bind {source path head : JsString} {ro : Bool} (hsource : cu ':' ∉ source)
    {rest : List JsString}
    (h : split (source ++ cu ':' :: (path ++ colonRo ro)) [cu ':'] = head :: rest) : head = source := by
  rw [split_append_unit, split_of_not_mem hsource] at h
  exact (List.cons.inj h).1.symm

/-! ## Sources -/

theorem mountName_ne_nil (name : Option JsString) (path : JsString) : mountName name path ≠ [] := by
  have hgiven : ∀ {o : Option JsString} {t : JsString}, given o = some t → t ≠ [] := by
    intro o t h
    unfold given at h
    split at h
    · exact some.inj h ▸ cons_ne_nil _ _
    · cases h
  unfold mountName
  cases h : given name with
  | some t => exact hgiven h
  | none =>
    cases h' : given (some (baseName path)) with
    | some t => exact hgiven h'
    | none => decide

variable {o : Owner}

/-- The volume of an application's or database's row. -/
theorem volumeNameFor_eq (ho : o.kind ≠ .compose) {m : Mount} {name : JsString}
    (hservice : m.service = none) (hname : m.name = some name) (hne : name ≠ []) :
    ∃ v : VolumeMount, v.owner = o ∧ volumeNameFor o m = Volumes.volumeNameFor v := by
  refine ⟨⟨o, none, name, by simpa using ho, hne, by simp⟩, rfl, ?_⟩
  simp [volumeNameFor, Volumes.volumeNameFor, hservice, hname, given]

theorem head_volumeNameFor (v : VolumeMount) : (Volumes.volumeNameFor v).head? = some (cu 'a') := rfl

theorem segmentsOf_append (dir path : JsString) :
    segmentsOf (dir ++ cu '/' :: path) = segmentsOf dir ++ segmentsOf path := by
  have hsep : js "/" = [cu '/'] := by decide
  unfold segmentsOf
  rw [hsep, split_append_unit, map_append]

/-- A name below a directory, worked out. -/
theorem inside_iff (dir name : JsString) :
    Inside dir (dir ++ cu '/' :: name) ↔ StaysIn dir name := by
  unfold Inside
  have hwalk : location (dir ++ cu '/' :: name) = PathWalk.walk (location dir) (segmentsOf name) := by
    unfold location
    rw [segmentsOf_append, PathWalk.walk_append]
  rw [hwalk, PathWalk.isPrefix_walk_iff]
  rfl

/-! ## One mount -/

def rowOf (m : ExportedMount) : Mount :=
  rowFor (if m.type = js "file" then .file else .volume) m (pathOf m)

variable {role place : JsString}

theorem importMount_kept {m : ExportedMount} (h : kept m = true) :
    importMount role place m = .row (rowOf m) := by
  simp only [kept, Bool.and_eq_true, Bool.or_eq_true, decide_eq_true_eq] at h
  obtain ⟨htype, hpath⟩ := h
  obtain ⟨path, hpath⟩ := isSome_iff_exists.mp hpath
  have hpathOf : pathOf m = path := by
    unfold given at hpath
    split at hpath
    · rename_i hcp
      unfold pathOf
      rw [hcp]
      exact some.inj hpath
    · cases hpath
  unfold importMount rowOf
  rw [hpathOf]
  rcases htype with htype | htype
  · have hnotBind : ¬ (m.type = js "bind" ∧ mayBind role = false) := by
      rw [htype]
      exact fun h => absurd h.1 (by decide)
    have hnotFile : ¬ m.type = js "file" := by
      rw [htype]
      decide
    have hmountType : mountType m.type = some .volume := by
      rw [htype]
      decide
    simp only [if_neg hnotBind, hmountType, hpath, if_neg hnotFile]
  · have hnotBind : ¬ (m.type = js "bind" ∧ mayBind role = false) := by
      rw [htype]
      exact fun h => absurd h.1 (by decide)
    have hmountType : mountType m.type = some .file := by
      rw [htype]
      decide
    simp only [if_neg hnotBind, hmountType, hpath, if_pos htype]

theorem importMount_skipped (hrole : mayBind role = false) {m : ExportedMount}
    (h : kept m = false) : ∃ w, importMount role place m = .skipped w := by
  unfold importMount
  by_cases hbind : m.type = js "bind"
  · exact ⟨_, if_pos ⟨hbind, hrole⟩⟩
  · rw [if_neg fun hb => hbind hb.1]
    cases htype : mountType m.type with
    | none => exact ⟨_, rfl⟩
    | some t =>
      cases hpath : given m.containerPath with
      | none => exact ⟨_, rfl⟩
      | some path =>
        simp only [kept, hpath, isSome_some, Bool.and_true, Bool.or_eq_false_iff,
          decide_eq_false_iff_not] at h
        simp [mountType, h.1, h.2, hbind] at htype

/-- **The bind of a volume or file mount is confined exactly when the mount is acceptable.** -/
theorem row_confined_iff (ho : o.kind ≠ .compose) (dir : Mountpoint) (m : ExportedMount) :
    (∀ b, bindFor o (some dir.text) (rowOf m) = some b → Confined o dir.text (rowOf m) b) ↔
      Acceptable dir.text m := by
  have hpath : (rowOf m).containerPath = normalizePath (pathOf m) := rfl
  unfold Acceptable
  rw [← colon_mem_normalizePath (pathOf m), ← hpath]
  by_cases hfile : m.type = js "file"
  · -- a file: the source is a path below the files volume
    have htype : (rowOf m).type = .file := by simp [rowOf, rowFor, hfile]
    have hro : (rowOf m).readOnly = true := by simp [rowOf, rowFor, hfile]
    have hname : filePath (rowOf m) = nameOf m := by
      simp [filePath, rowOf, rowFor, hfile, given, nameOf]
    have hdir : given (some dir.text) = some dir.text := by
      cases htext : dir.text with
      | nil =>
        have := dir.absolute
        rw [htext] at this
        cases this
      | cons c cs => rfl
    have hcolon : cu ':' ∉ dir.text ++ cu '/' :: nameOf m ↔ cu ':' ∉ nameOf m := by
      simp [dir.noColon, show ¬ cu ':' = cu '/' by decide]
    have hbind : bindFor o (some dir.text) (rowOf m) =
        some ((dir.text ++ cu '/' :: nameOf m) ++ cu ':' :: ((rowOf m).containerPath ++ colonRo true)) := by
      simp [bindFor, htype, hdir, hname, colonRo]
    rw [hbind]
    constructor
    · intro h
      obtain ⟨source, hsplit, hsource⟩ := h _ rfl
      rw [hro] at hsplit
      obtain ⟨hs, hp⟩ := split_bind_iff.mp ⟨source, hsplit⟩
      obtain rfl := head_of_split_bind hs hsplit
      refine ⟨hp, hcolon.mp hs, fun _ => (inside_iff _ _).mp ?_⟩
      rcases hsource with ⟨v, -, hv⟩ | hin
      · have hhead := congrArg List.head? hv
        rw [head_volumeNameFor, List.head?_append, dir.absolute, some_or] at hhead
        exact absurd hhead (by decide)
      · exact hin
    · rintro ⟨hp, hn, hstays⟩ b hb
      obtain rfl := some.inj hb
      obtain ⟨source, hsplit⟩ := (@split_bind_iff _ _ true).mpr ⟨hcolon.mpr hn, hp⟩
      obtain rfl := head_of_split_bind (hcolon.mpr hn) hsplit
      exact ⟨_, hro ▸ hsplit, Or.inr ((inside_iff _ _).mpr (hstays hfile))⟩
  · -- a volume
    have htype : (rowOf m).type = .volume := by simp [rowOf, rowFor, hfile]
    have hname : (rowOf m).name = some (nameOf m) := by simp [rowOf, rowFor, hfile, nameOf]
    obtain ⟨v, hv, hvol⟩ := volumeNameFor_eq ho (m := rowOf m) rfl hname (mountName_ne_nil _ _)
    have hcolon : cu ':' ∉ volumeNameFor o (rowOf m) ↔ cu ':' ∉ nameOf m := by
      have hservice : (rowOf m).service = none := rfl
      simp [volumeNameFor, hname, hservice, given, colon_not_mem_prefixFor, colon_mem_underscored,
        show ¬ cu ':' = cu '_' by decide]
    have hbind : bindFor o (some dir.text) (rowOf m) = some (volumeNameFor o (rowOf m) ++
        cu ':' :: ((rowOf m).containerPath ++ colonRo (rowOf m).readOnly)) := by
      simp [bindFor, htype]
    rw [hbind]
    constructor
    · intro h
      obtain ⟨source, hsplit, -⟩ := h _ rfl
      obtain ⟨hs, hp⟩ := split_bind_iff.mp ⟨source, hsplit⟩
      exact ⟨hp, hcolon.mp hs, fun hf => absurd hf hfile⟩
    · rintro ⟨hp, hn, -⟩ b hb
      obtain rfl := some.inj hb
      obtain ⟨source, hsplit⟩ := (@split_bind_iff _ _ (rowOf m).readOnly).mpr ⟨hcolon.mpr hn, hp⟩
      obtain rfl := head_of_split_bind (hcolon.mpr hn) hsplit
      exact ⟨_, hsplit, Or.inl ⟨v, hv, hvol⟩⟩

/-! ## The whole file -/

theorem importMounts_eq (hrole : mayBind role = false) (saved : List Mount)
    (ms : List ExportedMount) :
    let new := Table.accepted Mount.containerPath (saved.map Mount.containerPath)
      ((ms.filter kept).map rowOf)
    (importMounts role place saved ms).saved = saved ++ new ∧
      (importMounts role place saved ms).failed = decide (new.length < (ms.filter kept).length) := by
  induction ms generalizing saved with
  | nil => simp [importMounts, Table.accepted]
  | cons m ms ih =>
    cases hm : kept m with
    | false =>
      obtain ⟨w, hw⟩ := @importMount_skipped role place hrole m hm
      have hfilter : (m :: ms).filter kept = ms.filter kept := by simp [hm]
      simp only [importMounts, hw, hfilter]
      exact ih saved
    | true =>
      have hfilter : (m :: ms).filter kept = m :: ms.filter kept := by simp [hm]
      simp only [importMounts, importMount_kept hm, hfilter, map_cons, Table.accepted]
      split
      · simp
      · obtain ⟨hsaved, hfailed⟩ := ih (saved ++ [rowOf m])
        rw [map_append, map_singleton] at hsaved hfailed
        rw [hsaved, hfailed]
        simp

variable {e : Entry}

theorem importEntry_eq (he : e.kind ≠ .compose) :
    importEntry role e = importMounts role e.place [] e.mounts := by
  unfold importEntry
  split
  · contradiction
  · rfl
  · rfl

theorem accepted_rows (ms : List ExportedMount) :
    Table.accepted Mount.containerPath (([] : List Mount).map Mount.containerPath)
      ((ms.filter kept).map rowOf) = (reachedMounts ms).map rowOf :=
  Table.accepted_map rowOf [] (ms.filter kept)

theorem importEntry_saved (hrole : mayBind role = false)
    (he : e.kind ≠ .compose) : (importEntry role e).saved = (reachedMounts e.mounts).map rowOf := by
  rw [importEntry_eq he, (importMounts_eq hrole [] e.mounts).1, nil_append, accepted_rows]

theorem importEntry_failed (hrole : mayBind role = false) (e : Entry) :
    (importEntry role e).failed = stops e := by
  by_cases hstack : e.kind = .compose
  · simp [importEntry, stops, hstack]
  · have hkind : decide (e.kind ≠ .compose) = true := decide_eq_true hstack
    rw [importEntry_eq hstack, (importMounts_eq hrole [] e.mounts).2, accepted_rows, length_map,
      stops, hkind, Bool.true_and]

theorem importProject_eq (hrole : mayBind role = false) (file : List Entry) :
    importProject role file =
      (reached file).map fun e => (e.owner, (importEntry role e).saved) := by
  induction file with
  | nil => rfl
  | cons e es ih =>
    simp only [importProject, reached, importEntry_failed hrole e]
    split <;> simp [ih]

/-- Where a file is among the mounts, its volume was looked up. -/
theorem bindFor_prepared {mounts : List Mount} {x : Mount} (hx : x ∈ mounts) (o : Owner)
    (dir : JsString) :
    bindFor o (preparedMountpoint mounts dir) x = bindFor o (some dir) x := by
  cases htype : x.type with
  | volume => simp [bindFor, htype]
  | bind => simp [bindFor, htype]
  | file =>
    have hany : (mounts.any fun m => m.type = .file) = true :=
      any_eq_true.mpr ⟨x, hx, by simp [htype]⟩
    unfold preparedMountpoint
    rw [if_pos hany]

/-- **Every bind of a member's import is confined exactly when the mounts of the file are
acceptable**: no colon in a name or container path, and no file name that leads out of the
directory of its owner's files. -/
theorem imported_confined_iff (role : JsString) (hrole : mayBind role = false) (file : List Entry)
    (mountpoint : Owner → Mountpoint) :
    (∀ i ∈ importProject role file, ∀ x ∈ i.2,
      ∀ b ∈ bindFor i.1 (preparedMountpoint i.2 (mountpoint i.1).text) x,
        Confined i.1 (mountpoint i.1).text x b) ↔
      ∀ e ∈ reached file, e.kind ≠ .compose → ∀ m ∈ reachedMounts e.mounts,
        Acceptable (mountpoint e.owner).text m := by
  rw [importProject_eq hrole, List.forall_mem_map]
  refine forall_congr' fun e => imp_congr_right fun _ => ?_
  by_cases hstack : e.kind = .compose
  · have hnone : (importEntry role e).saved = [] := by simp [importEntry, hstack]
    simp [hnone, hstack]
  · simp only [importEntry_saved hrole hstack, List.forall_mem_map, ne_eq, hstack, not_false_eq_true,
      forall_true_left]
    refine forall_congr' fun m => imp_congr_right fun hm => ?_
    have howner : e.owner.kind ≠ .compose := hstack
    rw [← row_confined_iff howner (mountpoint e.owner) m,
      bindFor_prepared (List.mem_map_of_mem hm)]
    rfl

/-- A member's file that brings a data volume, a configuration file under its own name, and a
bind mount of the host's root, which is left out. -/
def sampleFile : List Entry :=
  [⟨.app, some (js "shop"), false, ⟨js "app-x", by decide⟩, js "shop",
    [⟨js "volume", some (js "/data/"), none, some (js "data"), none, none⟩,
      ⟨js "file", some (js "/etc/app.conf"), none, none, some (js "a"), none⟩,
      ⟨js "bind", some (js "/host"), some (js "/"), none, none, none⟩]⟩]

/-- Where Docker keeps the volume of the samples. -/
def sampleMountpoint : Mountpoint where
  text := js "/var/lib/docker/volumes/aoox_app_shop_files/_data"
  absolute := by decide
  noColon := by decide

theorem imported_confined_sample :
    mayBind (js "member") = false ∧
      ∀ i ∈ importProject (js "member") sampleFile, ∀ x ∈ i.2,
        ∀ b ∈ bindFor i.1 (preparedMountpoint i.2 sampleMountpoint.text) x,
          Confined i.1 sampleMountpoint.text x b :=
  ⟨by decide, (imported_confined_iff (js "member") (by decide) sampleFile fun _ => sampleMountpoint).mpr
    (by decide)⟩

/-- A file mount called `../../../../../../etc/shadow`: the container gets the host's file. -/
theorem imported_name_leaves :
    ¬ ∀ (role : JsString) (file : List Entry) (mountpoint : Owner → Mountpoint), mayBind role = false →
      ∀ i ∈ importProject role file, ∀ x ∈ i.2,
        ∀ b ∈ bindFor i.1 (preparedMountpoint i.2 (mountpoint i.1).text) x,
          Confined i.1 (mountpoint i.1).text x b := by
  intro h
  let m : ExportedMount :=
    ⟨js "file", some (js "/x"), none, some (js "../../../../../../../etc/shadow"), none, none⟩
  let e : Entry := ⟨.app, some (js "shop"), false, ⟨js "app-x", by decide⟩, js "shop", [m]⟩
  have hall := h (js "member") [e] (fun _ => sampleMountpoint) (by decide)
    (e.owner, [rowOf m]) (by decide) (rowOf m) (List.mem_singleton_self _)
  rw [bindFor_prepared (List.mem_singleton_self _)] at hall
  have hacceptable := (row_confined_iff (by decide : e.owner.kind ≠ .compose) sampleMountpoint m).mp hall
  revert hacceptable
  decide

end Aoox.ImportedMounts
