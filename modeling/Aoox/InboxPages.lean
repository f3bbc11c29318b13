import Aoox.JsString
import Aoox.KeysetPages

/-! # The pages of the inbox

Events are created to the microsecond.  A page is read behind the `createdAt` of the last item of
the page before, and that is a `Date`, which knows milliseconds only.  What is left of the
millisecond in which a page ends is passed over: the pages hold every event when no page ends
inside a millisecond of the events, and only then (`inbox_pages_iff`).
-/
namespace Aoox.InboxPages
open JsString Option

/-! ## The feed -/

structure InboxEvent (Params : Type) where
  (id event level title summary : JsString)
  params : Option Params
  (link projectId : Option JsString)
  /-- In microseconds, as the column has it. -/
  createdAt : Nat
  deriving DecidableEq

structure InboxItemDto (Params : Type) where
  (id event level title summary : JsString)
  params : Option Params
  (link projectId : Option JsString)
  /-- In milliseconds; the ISO text has three decimals. -/
  createdAt : Nat

structure InboxPageDto (Params : Type) where
  items : List (InboxItemDto Params)
  unread : Nat

/-- `accessibleProjectIds`. -/
inductive Access where
  | all
  | projects (ids : List JsString)

def INBOX_MAX_LIMIT : Int := 50
def INBOX_DEFAULT_LIMIT : Int := 20

/-- The size of a page. -/
def take (limit : Option Int) : Nat :=
  let limit := limit.getD INBOX_DEFAULT_LIMIT
  (min (max (if limit = 0 then 1 else limit) 1) INBOX_MAX_LIMIT).toNat

/-- The `Date` of a time stamp. -/
def milliseconds (createdAt : Nat) : Nat := createdAt / 1000

section
variable {Params : Type}

/-- What `visible` lets through. -/
def visible (access : Access) (e : InboxEvent Params) : Bool :=
  match access with
  | .all => true
  | .projects ids => e.projectId.any ids.contains

def itemOf (e : InboxEvent Params) : InboxItemDto Params where
  id := e.id
  event := e.event
  level := e.level
  title := e.title
  summary := e.summary
  params := e.params
  link := e.link
  projectId := e.projectId
  createdAt := milliseconds e.createdAt

variable (events : List (InboxEvent Params)) (access : Access) (limit : Option Int)

/-- The rows `list` reads.  Events of the same time come in any order. -/
def Reads (before : Option Nat) (rows : List (InboxEvent Params)) : Prop :=
  ∃ l : List (InboxEvent Params),
    l.Perm (events.filter fun e =>
      visible access e && before.all fun before => e.createdAt < 1000 * before) ∧
    l.Pairwise (fun e e' => e'.createdAt ≤ e.createdAt) ∧ rows = l.take (take limit)

/-- What `list` answers with. -/
def list (marker : Nat) (rows : List (InboxEvent Params)) : InboxPageDto Params where
  items := rows.map itemOf
  unread := events.countP fun e => visible access e && 1000 * marker < e.createdAt

/-- Pages that are not empty, each asked for with the `createdAt` of the last item before. -/
inductive Paging : Option Nat → List (List (InboxEvent Params)) → Option Nat → Prop
  | start (before : Option Nat) : Paging before [] before
  | page {before last : Option Nat} {rows : List (InboxEvent Params)} {marker : Nat}
      {item : InboxItemDto Params} {pages : List (List (InboxEvent Params))}
      (h : Reads events access limit before rows)
      (hlast : (list events access marker rows).items.getLast? = some item)
      (more : Paging (some item.createdAt) pages last) : Paging before (rows :: pages) last

/-- Every visible event is there once, the newest first. -/
structure Complete (pages : List (List (InboxEvent Params))) : Prop where
  once : (pages.flatten.map itemOf).Perm ((events.filter (visible access)).map itemOf)
  order : pages.flatten.Pairwise fun e e' => e'.createdAt ≤ e.createdAt

/-- No page ends inside a millisecond: at each multiple of the page size, no millisecond has events
on both sides. -/
def Undivided : Prop :=
  KeysetPages.Undivided InboxEvent.createdAt milliseconds (take limit)
    (events.filter (visible access))

variable {events access limit}

theorem take_pos : 0 < take limit := by
  unfold take INBOX_MAX_LIMIT
  dsimp only
  omega

theorem reads_iff {before : Option Nat} {rows : List (InboxEvent Params)} :
    Reads events access limit before rows ↔ KeysetPages.IsPage InboxEvent.createdAt milliseconds
      (take limit) (events.filter (visible access)) before rows := by
  have hbehind : events.filter (fun e =>
      visible access e && before.all fun before => e.createdAt < 1000 * before) =
      KeysetPages.behind InboxEvent.createdAt milliseconds before
        (events.filter (visible access)) := by
    rw [KeysetPages.behind, List.filter_filter]
    refine List.filter_congr fun e _ => ?_
    cases before with
    | none => simp
    | some m =>
      rw [all_some, all_some, Bool.and_comm]
      have hunit : e.createdAt < 1000 * m ↔ milliseconds e.createdAt < m := by
        rw [milliseconds, Nat.div_lt_iff_lt_mul (by decide), Nat.mul_comm]
      simp [hunit]
  rw [Reads, hbehind]
  rfl

theorem pages_of_paging {before last : Option Nat} {pages : List (List (InboxEvent Params))}
    (h : Paging events access limit before pages last) :
    KeysetPages.Pages InboxEvent.createdAt milliseconds (take limit)
      (events.filter (visible access)) before pages last := by
  induction h with
  | start before => exact .start before
  | @page before last rows marker item pages h hlast _ ih =>
    rw [list, List.getLast?_map, map_eq_some_iff] at hlast
    obtain ⟨e, he, rfl⟩ := hlast
    obtain ⟨front, rfl⟩ := List.getLast?_eq_some_iff.mp he
    exact .page (reads_iff.mp h) ih

end

/-- **The pages of the inbox** come to an end.  They hold every visible event when no page ends inside
a millisecond, and only then. -/
theorem inbox_pages_iff {Params : Type} (events : List (InboxEvent Params)) (access : Access)
    (limit : Option Int) (pages : List (List (InboxEvent Params))) (last : Option Nat)
    (h : Paging events access limit none pages last) :
    pages.length ≤ (events.filter (visible access)).length ∧
      (Reads events access limit last [] →
        (Complete events access pages ↔ Undivided events access limit)) := by
  have hmono : Monotone milliseconds := fun _ _ hle => Nat.div_le_div_right hle
  have hpages := pages_of_paging h
  have hbehind : KeysetPages.behind InboxEvent.createdAt milliseconds none
      (events.filter (visible access)) = events.filter (visible access) :=
    List.filter_eq_self.mpr fun _ _ => rfl
  obtain ⟨hsub, horder⟩ := KeysetPages.pages_subperm hmono hpages
  rw [hbehind] at hsub
  refine ⟨(KeysetPages.length_pages_le hpages).trans hsub.length_le, fun hend => ?_⟩
  have hiff := KeysetPages.pages_perm_iff hmono take_pos hpages (reads_iff.mp hend)
  rw [hbehind] at hiff
  rw [Undivided, ← hiff]
  constructor
  · intro hcomplete
    have hlen := hcomplete.once.length_eq
    rw [List.length_map, List.length_map] at hlen
    exact hsub.perm_of_length_le hlen.ge
  · exact fun hall => ⟨hall.map itemOf, horder⟩

/-- Five events, the third and the fourth in one millisecond. -/
def deployments : List (InboxEvent Unit) :=
  [7000000, 6000000, 5000600, 5000200, 4000000].map fun createdAt =>
    ⟨js (toString createdAt), js "deploymentFailure", js "failure", js "Deployment failed", [], none,
      none, some (js "p"), createdAt⟩

theorem reads_deployments {limit before : Option Nat} (l : List (InboxEvent Unit))
    (hl : l = deployments.filter fun e =>
      visible .all e && before.all fun before => e.createdAt < 1000 * before)
    (hsorted : l.Pairwise fun e e' => e'.createdAt ≤ e.createdAt) :
    Reads deployments .all (limit.map Int.ofNat) before (l.take (take (limit.map Int.ofNat))) :=
  ⟨l, hl ▸ List.Perm.refl _, hsorted, rfl⟩

theorem inbox_pages_deployments :
    [deployments.take 2, (deployments.drop 2).take 2, deployments.drop 4].length ≤
        (deployments.filter (visible .all)).length ∧
      (Reads deployments .all (some 2) (some 4000) [] →
        (Complete deployments .all
          [deployments.take 2, (deployments.drop 2).take 2, deployments.drop 4] ↔
            Undivided deployments .all (some 2))) := by
  refine inbox_pages_iff deployments .all (some 2) _ (some 4000) ?_
  refine @Paging.page _ _ _ _ _ _ _ 0 _ _ (@reads_deployments (some 2) none deployments rfl
    (by decide)) rfl ?_
  refine @Paging.page _ _ _ _ _ _ _ 0 _ _ (@reads_deployments (some 2) (some 6000)
    (deployments.drop 2) (by decide) (by decide)) rfl ?_
  exact @Paging.page _ _ _ _ _ _ _ 0 _ _ (@reads_deployments (some 2) (some 5000)
    (deployments.drop 4) (by decide) (by decide)) rfl (.start _)

/-- With pages of three, the older event of that millisecond is on none. -/
theorem inbox_event_lost :
    ¬ ∀ (events : List (InboxEvent Unit)) (access : Access) (limit : Option Int)
      (pages : List (List (InboxEvent Unit))) (last : Option Nat),
      Paging events access limit none pages last → Reads events access limit last [] →
        Complete events access pages := by
  intro h
  have hcomplete := h deployments .all (some 3) [deployments.take 3, deployments.drop 4] (some 4000)
    (@Paging.page _ _ _ _ _ _ _ 0 _ _ (@reads_deployments (some 3) none deployments rfl
      (by decide)) rfl
      (@Paging.page _ _ _ _ _ _ _ 0 _ _ (@reads_deployments (some 3) (some 5000)
        (deployments.drop 4) (by decide) (by decide)) rfl (.start _)))
    (@reads_deployments (some 3) (some 4000) [] (by decide) .nil)
  exact absurd hcomplete.once.length_eq (by decide)

end Aoox.InboxPages
