import Aoox.ImageReferences
import Aoox.TarArchive

/-! # Mounts that are added by a request

`ABSOLUTE_PATH` is to keep `..` out of the paths of a mount.  It looks for `/..` behind the first
slash, and only up to the first line break: a path may begin with `/../`, and may go up behind a
line break.  What is stored is the trimmed path, so a blank behind the last `..` is gone by then.
Colons are let through, and the bind is text in which they separate the parts.

With none of this in its paths, an accepted mount is what was asked for, and only then
(`added_sound_iff`).
-/
namespace Aoox.AddedMounts
open JsString Volumes ImportedMounts List

/-! ## The request -/

/-- `\.\.(\/|$)` at the beginning of a text. -/
def isUp (t : JsString) : Bool := t.take 2 = js ".." && (t.drop 2).head?.all (· = cu '/')

/-- What the lookahead of `ABSOLUTE_PATH` finds behind the first slash.  There `^` matches nowhere. -/
def climbs : JsString → Bool
  | [] => false
  | c :: t => (c = cu '/' && isUp t) || (!isLineTerminator c && climbs t)

/-- `ABSOLUTE_PATH`. -/
def isAbsolutePath : JsString → Bool
  | [] => false
  | c :: rest => c = cu '/' && !climbs rest && !rest.contains 0

structure AddMountDto where
  type : MountType
  (name hostPath content : Option JsString)
  containerPath : JsString
  readOnly : Option Bool

def accepts (dto : AddMountDto) : Bool :=
  dto.name.all TarArchive.isMountName &&
    dto.hostPath.all (fun h => countedLength h ≤ 1000 && isAbsolutePath h) &&
    dto.content.all (fun c => countedLength c ≤ 200000) &&
    countedLength dto.containerPath ≤ 1000 && isAbsolutePath dto.containerPath

inductive MountError where
  | badRequest (message : JsString)
  | forbidden (message : JsString)
  deriving DecidableEq

/-- The row of a request. -/
def mountFields (dto : AddMountDto) (role : JsString) : Except MountError Mount :=
  let base : Mount :=
    { type := dto.type
      service := none
      name := none
      hostPath := none
      content := none
      containerPath := normalizePath dto.containerPath
      readOnly := dto.readOnly.getD false }
  match dto.type with
  | .volume =>
    match given dto.name with
    | none => .error (.badRequest (js "name is required"))
    | some name => .ok { base with name := some name }
  | .bind =>
    if mayBind role = false then .error (.forbidden (js "Only owners/admins can add bind mounts"))
    else
      match given dto.hostPath with
      | none => .error (.badRequest (js "hostPath is required"))
      | some hostPath => .ok { base with hostPath := some (normalizePath hostPath) }
  | .file =>
    .ok
      { base with
        name := some (dto.name.getD (baseName base.containerPath))
        content := some (dto.content.getD [])
        readOnly := true }

/-! ## What is asked of a mount -/

/-- A path from the root with no segment `..`. -/
def Rooted (p : JsString) : Prop := p.head? = some (cu '/') ∧ js ".." ∉ split p (js "/")

def sourceOf (o : Owner) (dir : JsString) (m : Mount) : JsString :=
  match m.type with
  | .volume => volumeNameFor o m
  | .bind => m.hostPath.getD []
  | .file => dir ++ cu '/' :: m.name.getD []

/-- The paths, of the request and of the row, lead down from the root, and the bind is read as the
source, the container path and whether it is read-only. -/
structure Sound (o : Owner) (dir : JsString) (dto : AddMountDto) (m : Mount) : Prop where
  asked : Rooted dto.containerPath ∧ ∀ h, dto.hostPath = some h → Rooted h
  stored : Rooted m.containerPath ∧ ∀ h, m.hostPath = some h → Rooted h
  bind : ∀ b, bindFor o (some dir) m = some b → split b [cu ':'] =
    sourceOf o dir m :: m.containerPath :: (if m.readOnly then [js "ro"] else [])

/-! ## Where the pattern does not look -/

/-- The first segment is not `..`, and there is none behind a line break. -/
structure Straight (p : JsString) : Prop where
  first : (split p (js "/"))[1]? ≠ some (js "..")
  behindBreak : js ".." ∉ split (p.dropWhile fun c => !isLineTerminator c) (js "/")

/-- The last segment is not `..` and blanks. -/
def EndsStraight (p : JsString) : Prop := trimEnd (baseName p) ≠ js ".."

/-- What a request has to leave out. -/
structure Clear (dto : AddMountDto) : Prop where
  containerPath : Straight dto.containerPath ∧ EndsStraight dto.containerPath ∧
    cu ':' ∉ dto.containerPath
  hostPath : ∀ h, dto.hostPath = some h →
    Straight h ∧ (dto.type = .bind → EndsStraight h ∧ cu ':' ∉ h)

/-! ## Segments -/

theorem tail_split_unit (c x : CodeUnit) (t : JsString) :
    (split (x :: t) [c]).tail = if x = c then split t [c] else (split t [c]).tail := by
  rw [split_unit_cons]
  by_cases hx : x = c
  · rw [if_pos hx, if_pos hx, tail_cons]
  · obtain ⟨p, ps, hps⟩ := exists_cons_of_ne_nil (splitGo_ne_nil [c] 0 t)
    have hsplit : split t [c] = p :: ps := hps
    rw [if_neg hx, if_neg hx, hsplit, consFirst, tail_cons, tail_cons]

variable {d : JsString}

theorem mem_split_iff (c : CodeUnit) (t : JsString) :
    d ∈ split t [c] ↔ (split t [c]).head? = some d ∨ d ∈ (split t [c]).tail := by
  obtain ⟨p, ps, hps⟩ := exists_cons_of_ne_nil (splitGo_ne_nil [c] 0 t)
  have hsplit : split t [c] = p :: ps := hps
  rw [hsplit, mem_cons, List.head?_cons, tail_cons, Option.some_inj, eq_comm]

theorem slash : js "/" = [cu '/'] := by decide

theorem up : js ".." = [cu '.', cu '.'] := by decide

theorem isUp_iff {t : JsString} : isUp t = true ↔ (split t (js "/")).head? = some (js "..") := by
  have hdot : cu '.' ≠ cu '/' := by decide
  rw [slash, head_split_unit, Option.some_inj, isUp, up]
  rcases t with _ | ⟨a, _ | ⟨b, t⟩⟩
  · simp
  · by_cases ha : a = cu '/' <;> simp [ha]
  · by_cases hab : a = cu '.' ∧ b = cu '.'
    · obtain ⟨rfl, rfl⟩ := hab
      cases t with
      | nil => simp [hdot]
      | cons c t => by_cases hc : c = cu '/' <;> simp [hdot, hc]
    · refine iff_of_false (by simp_all) fun h => hab ?_
      rw [takeWhile_cons] at h
      split at h
      · rw [takeWhile_cons] at h
        split at h
        · simp only [List.cons.injEq] at h
          exact ⟨h.1, h.2.1⟩
        · cases h
      · cases h

variable {c : CodeUnit}

/-- A segment in which a line break stands is not `..`. -/
theorem head_ne_up (h : isLineTerminator c = true) (t : JsString) :
    (split (c :: t) (js "/")).head? ≠ some (js "..") := by
  rw [slash, head_split_unit, up]
  rw [takeWhile_cons]
  split
  · intro heq
    obtain rfl := (List.cons.inj (Option.some.inj heq)).1
    revert h
    decide
  · intro heq
    cases Option.some.inj heq

/-- **What the pattern looks for**: a segment `..` behind the second slash or a later one, up to the
first line break. -/
theorem up_mem_tail_iff (t : JsString) : js ".." ∈ (split t (js "/")).tail ↔ climbs t = true ∨
      js ".." ∈ split (t.dropWhile fun c => !isLineTerminator c) (js "/") := by
  induction t with
  | nil => decide
  | cons c t ih =>
    by_cases hc : isLineTerminator c = true
    · have hslash : c ≠ cu '/' := by
        rintro rfl
        revert hc
        decide
      rw [climbs, hc, dropWhile_cons_of_neg (by simp [hc]), slash, mem_split_iff, ← slash]
      simp [hslash, head_ne_up hc]
    · rw [climbs, dropWhile_cons_of_pos (by simp [hc]), slash, tail_split_unit, ← slash]
      by_cases hslash : c = cu '/'
      · rw [if_pos hslash]
        conv_lhs => rw [slash, mem_split_iff, ← slash]
        rw [← isUp_iff, ih]
        subst hslash
        simp [hc, or_assoc]
      · rw [if_neg hslash, ih]
        simp [hslash, hc]

theorem split_rooted (rest : JsString) :
    split (cu '/' :: rest) (js "/") = [] :: split rest (js "/") := by
  rw [slash, split_unit_cons, if_pos rfl]

variable {p : JsString}

theorem exists_of_isAbsolutePath (h : isAbsolutePath p = true) :
    ∃ rest, p = cu '/' :: rest ∧ climbs rest = false := by
  rcases p with _ | ⟨c, rest⟩
  · cases h
  · simp only [isAbsolutePath, Bool.and_eq_true, decide_eq_true_eq, Bool.not_eq_true'] at h
    exact ⟨rest, h.1.1 ▸ rfl, h.1.2⟩

/-- **An accepted path leads down from the root** unless it goes up at once or behind a line
break. -/
theorem rooted_iff_straight (h : isAbsolutePath p = true) : Rooted p ↔ Straight p := by
  obtain ⟨rest, rfl, hclimbs⟩ := exists_of_isAbsolutePath h
  have hterm : isLineTerminator (cu '/') = false := by decide
  have hmem : js ".." ∈ split (cu '/' :: rest) (js "/") ↔
      (split (cu '/' :: rest) (js "/"))[1]? = some (js "..") ∨
        js ".." ∈ split ((cu '/' :: rest).dropWhile fun c => !isLineTerminator c) (js "/") := by
    have hne : js ".." ≠ [] := by decide
    rw [split_rooted, mem_cons, or_iff_right hne, List.getElem?_cons_succ,
      ← List.head?_eq_getElem?, dropWhile_cons_of_pos (by simp [hterm])]
    conv_lhs => rw [slash, mem_split_iff, ← slash]
    rw [up_mem_tail_iff, hclimbs]
    simp
  constructor
  · rintro ⟨-, hdown⟩
    rw [hmem, not_or] at hdown
    exact ⟨hdown.1, hdown.2⟩
  · rintro ⟨hfirst, hbreak⟩
    exact ⟨rfl, fun hup => (hmem.mp hup).elim hfirst hbreak⟩

/-! ## Normalizing -/

theorem head_collapseSlashes (t : JsString) : (collapseSlashes t).head? = t.head? := by
  induction t with
  | nil => rfl
  | cons c t ih =>
    rw [collapseSlashes]
    split
    · rename_i h
      rw [ih, h.2, h.1, List.head?_cons]
    · rfl

/-- Collapsing slashes leaves out empty segments only. -/
theorem split_collapseSlashes (hd : d ≠ []) (t : JsString) :
    (split (collapseSlashes t) (js "/")).head? = (split t (js "/")).head? ∧
      (d ∈ (split (collapseSlashes t) (js "/")).tail ↔ d ∈ (split t (js "/")).tail) := by
  induction t with
  | nil => exact ⟨rfl, Iff.rfl⟩
  | cons c t ih =>
    obtain ⟨hhead, htail⟩ := ih
    rw [slash] at hhead htail ⊢
    rw [collapseSlashes]
    by_cases hc : c = cu '/'
    · split
      · -- the slash goes, and with it the empty segment behind it
        rename_i hslashes
        obtain ⟨t, rfl⟩ : ∃ t', t = cu '/' :: t' := List.head?_eq_some_iff.mp hslashes.2
        refine ⟨?_, ?_⟩
        · rw [hhead, head_split_unit, head_split_unit, hc]
          rfl
        · have hempty : (split (cu '/' :: t) [cu '/']).head? ≠ some d := by
            rw [head_split_unit]
            simpa using Ne.symm hd
          rw [htail, tail_split_unit (cu '/') c, if_pos hc, mem_split_iff, or_iff_right hempty]
      · refine ⟨?_, ?_⟩
        · rw [head_split_unit, head_split_unit, hc]
          rfl
        · rw [tail_split_unit, tail_split_unit, if_pos hc, if_pos hc, mem_split_iff, mem_split_iff,
            hhead, htail]
    · rw [if_neg fun h => hc h.1]
      refine ⟨?_, ?_⟩
      · rw [head_split_unit, head_split_unit, Option.some_inj] at hhead ⊢
        rw [takeWhile_cons_of_pos (by simpa using hc),
          takeWhile_cons_of_pos (by simpa using hc), hhead]
      · rw [tail_split_unit, tail_split_unit, if_neg hc, if_neg hc, htail]

theorem mem_split_collapseSlashes (hd : d ≠ []) (t : JsString) :
    d ∈ split (collapseSlashes t) (js "/") ↔ d ∈ split t (js "/") := by
  obtain ⟨hhead, htail⟩ := split_collapseSlashes hd t
  rw [slash] at hhead htail ⊢
  rw [mem_split_iff, mem_split_iff, hhead, htail]

theorem mem_split_withoutLastSlash (hd : d ≠ []) (t : JsString) :
    d ∈ split (withoutLastSlash t) (js "/") ↔ d ∈ split t (js "/") := by
  unfold withoutLastSlash
  split
  · rename_i x y hx hy
    split
    · rename_i hslash
      have hsplit : t.dropLast ++ [x] = t := dropLast_append_getLast? x hx
      conv_rhs => rw [← hsplit, hslash.1, slash, split_append_unit, ← slash]
      have hempty : split [] (js "/") = [[]] := rfl
      rw [hempty, mem_append, mem_singleton, or_iff_left hd]
    · rfl
  · rfl

theorem head_withoutLastSlash (t : JsString) : (withoutLastSlash t).head? = t.head? := by
  unfold withoutLastSlash
  split
  · rename_i x y hx hy
    split
    · obtain ⟨a, b, t, rfl⟩ : ∃ a b t', t = a :: b :: t' := by
        rcases t with _ | ⟨a, _ | ⟨b, t⟩⟩
        · cases hx
        · cases hy
        · exact ⟨a, b, t, rfl⟩
      rfl
    · rfl
  · rfl

theorem trimEnd_append_cons (h : isSpace c = false) (a b : JsString) :
    trimEnd (a ++ c :: b) = a ++ c :: trimEnd b := by
  have hrev : (a ++ c :: b).reverse = b.reverse ++ c :: a.reverse := by simp
  have hstop : (c :: a.reverse).dropWhile isSpace = c :: a.reverse :=
    dropWhile_cons_of_neg (by simp [h])
  rw [trimEnd, trimEnd, List.rdropWhile, List.rdropWhile, hrev, dropWhile_append, hstop]
  split
  · rename_i hblank
    rw [List.isEmpty_iff.mp hblank]
    simp
  · simp

/-- **Trimming changes the last segment only.** -/
theorem trim_rooted (h : p.head? = some (cu '/')) :
    ∃ a b, cu '/' ∉ b ∧ p = a ++ cu '/' :: b ∧ trim p = a ++ cu '/' :: trimEnd b := by
  have hspace : isSpace (cu '/') = false := by decide
  obtain ⟨rest, rfl⟩ := List.head?_eq_some_iff.mp h
  obtain ⟨a, b, hab, hb⟩ := (ImageReferences.exists_last (cu '/') (cu '/' :: rest)).resolve_left
    (by simp)
  refine ⟨a, b, hb, hab, ?_⟩
  rw [trim, trimStart, dropWhile_cons_of_neg (by simp [hspace]), hab,
    trimEnd_append_cons hspace]

theorem rooted_normalizePath_iff (h : Rooted p) : Rooted (normalizePath p) ↔ EndsStraight p := by
  have hne : js ".." ≠ [] := by decide
  obtain ⟨hhead, hdown⟩ := h
  obtain ⟨a, b, hb, rfl, htrim⟩ := trim_rooted hhead
  have hb' : cu '/' ∉ trimEnd b := fun hmem => hb ((List.rdropWhile_prefix _ _).mem hmem)
  have hhead' : (trim (a ++ cu '/' :: b)).head? = some (cu '/') := by
    rw [htrim]
    cases a with
    | nil => rfl
    | cons x a => exact hhead
  have hnormal : normalizePath (a ++ cu '/' :: b) =
      withoutLastSlash (collapseSlashes (trim (a ++ cu '/' :: b))) := by
    have hfirst := head_withoutLastSlash (collapseSlashes (trim (a ++ cu '/' :: b)))
    rw [head_collapseSlashes, hhead'] at hfirst
    obtain ⟨rest, hrest⟩ := List.head?_eq_some_iff.mp hfirst
    rw [normalizePath, hrest]
    rfl
  rw [slash, split_append_unit, split_of_not_mem hb, mem_append, not_or] at hdown
  have hmem : js ".." ∈ split (normalizePath (a ++ cu '/' :: b)) (js "/") ↔ trimEnd b = js ".." := by
    rw [hnormal, mem_split_withoutLastSlash hne, mem_split_collapseSlashes hne, htrim, slash,
      split_append_unit, split_of_not_mem hb', mem_append, or_iff_right hdown.1,
      mem_singleton, eq_comm]
  have hbase : baseName (a ++ cu '/' :: b) = b := by
    rw [baseName, slash, split_append_unit, split_of_not_mem hb]
    simp
  rw [Rooted, hmem, hnormal, head_withoutLastSlash, head_collapseSlashes, hhead', EndsStraight, hbase]
  simp

/-! ## The row -/

/-- What the row of a request holds. -/
structure Fields (dto : AddMountDto) (m : Mount) : Prop where
  type : m.type = dto.type
  service : m.service = none
  containerPath : m.containerPath = normalizePath dto.containerPath
  hostPath : m.hostPath = if dto.type = .bind then dto.hostPath.map normalizePath else none
  given : dto.type = .bind → dto.hostPath ≠ none
  name : m.name = match dto.type with
    | .volume => dto.name
    | .bind => none
    | .file => some (dto.name.getD (baseName (normalizePath dto.containerPath)))
  readOnly : m.type = .file → m.readOnly = true

theorem fields_of_ok {dto : AddMountDto} {role : JsString} {m : Mount}
    (h : mountFields dto role = .ok m) : Fields dto m := by
  unfold mountFields at h
  split at h
  · rename_i htype
    split at h
    · cases h
    · rename_i name hname
      cases h
      exact ⟨htype ▸ rfl, rfl, rfl, by simp [htype], by simp [htype],
        by simp [htype, (given_eq_some.mp hname).1], by simp [htype]⟩
  · rename_i htype
    split at h
    · cases h
    · split at h
      · cases h
      · rename_i hostPath hpath
        cases h
        exact ⟨htype ▸ rfl, rfl, rfl, by simp [htype, (given_eq_some.mp hpath).1],
          by simp [(given_eq_some.mp hpath).1], by simp [htype], by simp [htype]⟩
  · rename_i htype
    cases h
    exact ⟨htype ▸ rfl, rfl, rfl, by simp [htype], by simp [htype], by simp [htype],
      fun _ => rfl⟩

section
variable {dto : AddMountDto} {m : Mount} {o : Owner} {dir : Mountpoint}

theorem bindFor_eq (h : Fields dto m) : bindFor o (some dir.text) m =
    some (sourceOf o dir.text m ++ cu ':' :: (m.containerPath ++ colonRo m.readOnly)) := by
  have hdir : given (some dir.text) = some dir.text := by
    refine given_eq_some.mpr ⟨rfl, fun hempty => ?_⟩
    have habsolute := dir.absolute
    rw [hempty] at habsolute
    cases habsolute
  unfold bindFor sourceOf
  cases htype : m.type with
  | volume => rfl
  | bind =>
    rw [h.type] at htype
    obtain ⟨p, hp⟩ := Option.ne_none_iff_exists'.mp (h.given htype)
    simp [h.hostPath, htype, hp]
  | file =>
    have hro : colonRo true = js ":ro" := rfl
    have hservice : given (none : Option JsString) = none := rfl
    simp [hdir, filePath, h.service, hservice, h.readOnly htype, hro]

theorem colon_not_mem_of_isMountName {name : JsString} (h : TarArchive.isMountName name = true) :
    cu ':' ∉ name := by
  have hclosed : ∀ c : CodeUnit, c = cu ':' → (isLetter c || isDigit c || c = cu '.' || c = cu '_' ||
      c = cu '-') = false := by
    rintro c rfl
    decide
  rcases name with _ | ⟨c, cs⟩
  · simp
  · simp only [TarArchive.isMountName, Bool.and_eq_true, all_eq_true] at h
    intro hmem
    rcases mem_cons.mp hmem with rfl | hmem
    · exact absurd h.1.1 (by decide)
    · exact Bool.false_ne_true ((hclosed _ rfl).symm.trans (h.2 _ hmem))

theorem colon_of_mem_baseName (h : cu ':' ∈ baseName p) : cu ':' ∈ p := by
  unfold baseName at h
  cases hlast : (split p (js "/")).getLast? with
  | none => simp [hlast] at h
  | some piece =>
    rw [hlast, Option.getD_some] at h
    exact mem_of_mem_splitGo (List.mem_of_getLast? hlast) h

/-- **The colons of a bind's parts** are those of the request's paths. -/
theorem colons_iff (haccepts : accepts dto = true) (h : Fields dto m) :
    cu ':' ∉ sourceOf o dir.text m ∧ cu ':' ∉ m.containerPath ↔ cu ':' ∉ dto.containerPath ∧
        ∀ p, dto.hostPath = some p → dto.type = .bind → cu ':' ∉ p := by
  have hname : ∀ name, dto.name = some name → cu ':' ∉ name := by
    intro name hsome
    simp only [accepts, Bool.and_eq_true, hsome, Option.all_some] at haccepts
    exact colon_not_mem_of_isMountName haccepts.1.1.1.1
  rw [h.containerPath, colon_mem_normalizePath, and_comm]
  refine and_congr_right fun hpath => ?_
  unfold sourceOf
  rw [h.type]
  cases htype : dto.type with
  | volume =>
    refine iff_of_true (fun hmem => ?_) (by simp)
    have hservice : given (none : Option JsString) = none := rfl
    simp only [ImportedMounts.volumeNameFor, h.service, hservice, h.name, htype, Option.map_none,
      Option.getD_none, nil_append, mem_append, mem_cons, colon_mem_underscored] at hmem
    rcases hmem with hmem | hmem | hmem
    · exact colon_not_mem_prefixFor o hmem
    · exact absurd hmem (by decide)
    · cases hdto : dto.name with
      | none => simp [hdto] at hmem
      | some name => exact hname name hdto (by simpa [hdto] using hmem)
  | bind =>
    obtain ⟨p, hp⟩ := Option.ne_none_iff_exists'.mp (h.given htype)
    simp [h.hostPath, htype, hp, colon_mem_normalizePath]
  | file =>
    refine iff_of_true (fun hmem => ?_) (by simp)
    simp only [h.name, htype, Option.getD_some, mem_append, mem_cons] at hmem
    rcases hmem with hmem | hmem | hmem
    · exact dir.noColon hmem
    · exact absurd hmem (by decide)
    · cases hdto : dto.name with
      | none =>
        rw [hdto, Option.getD_none] at hmem
        exact hpath ((colon_mem_normalizePath _).mp (colon_of_mem_baseName hmem))
      | some name => exact hname name hdto (by simpa [hdto] using hmem)

theorem split_iff (h : Fields dto m) :
    (∀ b, bindFor o (some dir.text) m = some b → split b [cu ':'] =
      sourceOf o dir.text m :: m.containerPath :: (if m.readOnly then [js "ro"] else [])) ↔
      cu ':' ∉ sourceOf o dir.text m ∧ cu ':' ∉ m.containerPath := by
  rw [← @split_bind_iff _ _ m.readOnly, bindFor_eq h]
  constructor
  · exact fun hsplit => ⟨_, hsplit _ rfl⟩
  · rintro ⟨head, hsplit⟩ b hb
    obtain rfl := Option.some.inj hb
    have hsource := (split_bind_iff.mp ⟨head, hsplit⟩).1
    rw [hsplit, head_of_split_bind hsource hsplit]

end

/-- **A mount that the request accepts is sound** when its paths neither go up at once, nor behind a
line break, nor with blanks behind, and have no colon in them, and only then. -/
theorem added_sound_iff (o : Owner) (dir : Mountpoint) (dto : AddMountDto) (role : JsString)
    (m : Mount) (haccepts : accepts dto = true) (hok : mountFields dto role = .ok m) :
    Sound o dir.text dto m ↔ Clear dto := by
  have hfields := fields_of_ok hok
  have hcontainer : isAbsolutePath dto.containerPath = true := by
    simp only [accepts, Bool.and_eq_true] at haccepts
    exact haccepts.2
  have hhost : ∀ p, dto.hostPath = some p → isAbsolutePath p = true := by
    intro p hp
    simp only [accepts, hp, Option.all_some, Bool.and_eq_true] at haccepts
    exact haccepts.1.1.1.2.2
  have hstored : ∀ p, m.hostPath = some p ↔
      dto.type = .bind ∧ ∃ q, dto.hostPath = some q ∧ normalizePath q = p := by
    intro p
    rw [hfields.hostPath]
    by_cases htype : dto.type = .bind <;> simp [htype]
  constructor
  · rintro ⟨⟨hasked, haskedHost⟩, ⟨hrow, hrowHost⟩, hbind⟩
    obtain ⟨hcolon, hcolons⟩ := (colons_iff haccepts hfields).mp ((split_iff hfields).mp hbind)
    rw [hfields.containerPath, rooted_normalizePath_iff hasked] at hrow
    refine ⟨⟨(rooted_iff_straight hcontainer).mp hasked, hrow, hcolon⟩, fun p hp => ?_⟩
    have hrooted := haskedHost p hp
    refine ⟨(rooted_iff_straight (hhost p hp)).mp hrooted, fun htype => ⟨?_, hcolons p hp htype⟩⟩
    exact (rooted_normalizePath_iff hrooted).mp (hrowHost _ ((hstored _).mpr ⟨htype, p, hp, rfl⟩))
  · rintro ⟨⟨hstraight, hends, hcolon⟩, hclear⟩
    have hasked := (rooted_iff_straight hcontainer).mpr hstraight
    have haskedHost : ∀ p, dto.hostPath = some p → Rooted p := fun p hp =>
      (rooted_iff_straight (hhost p hp)).mpr (hclear p hp).1
    refine ⟨⟨hasked, haskedHost⟩, ⟨?_, fun p hp => ?_⟩, (split_iff hfields).mpr
      ((colons_iff haccepts hfields).mpr ⟨hcolon, fun p hp htype => ((hclear p hp).2 htype).2⟩)⟩
    · rw [hfields.containerPath, rooted_normalizePath_iff hasked]
      exact hends
    · obtain ⟨htype, q, hq, rfl⟩ := (hstored p).mp hp
      rw [rooted_normalizePath_iff (haskedHost q hq)]
      exact ((hclear q hq).2 htype).1

theorem shop_valid : js "shop" ≠ [] ∧ (js "shop").all isSlugUnit = true :=
  ⟨List.cons_ne_nil _ _, rfl⟩

def shop : Owner := ⟨.app, ⟨js "shop", shop_valid⟩⟩

/-- A directory of the host that the containers of an application see. -/
def uploads : AddMountDto :=
  ⟨.bind, none, some (js "/srv/uploads/"), none, js "/app//uploads", some true⟩

theorem added_sound_uploads :
    accepts uploads = true ∧
      (Sound shop sampleMountpoint.text uploads
          ⟨.bind, none, none, some (js "/srv/uploads"), none, js "/app/uploads", true⟩ ↔
        Clear uploads) :=
  ⟨by decide, added_sound_iff shop sampleMountpoint uploads (js "owner") _
    (by decide) (by decide)⟩

/-- `/../etc` is an absolute path to the pattern. -/
theorem added_goes_up :
    ¬ ∀ (o : Owner) (dir : Mountpoint) (dto : AddMountDto) (role : JsString) (m : Mount),
      accepts dto = true → mountFields dto role = .ok m → Sound o dir.text dto m := by
  intro h
  have hsound := h shop sampleMountpoint
    ⟨.bind, none, some (js "/../etc"), none, js "/data", none⟩ (js "owner") _
    (by decide) rfl
  exact (hsound.asked.2 _ rfl).2 (by decide)

end Aoox.AddedMounts
