import Aoox.JsString

/-! # The cursors of the error watcher

Every minute the watcher reads of each container's log what was written since its cursor, the second
of the check before.  The cursor moves on before the log is fetched, and a fetch that fails counts as
an empty log.

The seconds a failed fetch was for are not asked for again.  What was written since the baseline has
been read by the time of a successful check when nothing was written in them, and only then
(`lines_read_iff`).
-/
namespace Aoox.ErrorCursors
open JsString List Option

/-! ## The watcher -/

/-- Docker stamps lines to the nanosecond; all times are in nanoseconds. -/
def SECOND : Nat := 1000000000

structure Line where
  time : Nat
  text : JsString

section
variable {Id : Type} [DecidableEq Id]

/-- `checkApp` comes to a container.  If the fetch succeeds, the answer goes up to a time. -/
structure Visit (Id : Type) where
  id : Id
  now : Nat
  answered : Option Nat

/-- An application in a tick: its containers can not be found out, or are visited in turn. -/
inductive Check (Id : Type) where
  | failed
  | visited (visits : List (Visit Id))

/-- The applications that run and whose logs are not ignored. -/
abbrev Tick (Id : Type) := List (Check Id)

def Check.visits : Check Id → List (Visit Id)
  | .failed => []
  | .visited visits => visits

/-- The visits of a tick; those are the containers that are added to `activeContainers`. -/
def visitsOf (tick : Tick Id) : List (Visit Id) := tick.flatMap Check.visits

/-- `cursorSeconds`. -/
abbrev Cursors (Id : Type) := Id → Option Nat

structure Fetch where
  (since now : Nat)
  answered : Option Nat

/-- What comes of a visit. -/
inductive Happening (Id : Type) where
  | baseline (id : Id) (now : Nat)
  | fetch (id : Id) (f : Fetch)

def happening (cursors : Cursors Id) (v : Visit Id) : Happening Id :=
  match cursors v.id with
  | none => .baseline v.id v.now
  | some since => .fetch v.id ⟨since, v.now, v.answered⟩

def moved (cursors : Cursors Id) (v : Visit Id) : Cursors Id :=
  Function.update cursors v.id (some (v.now / SECOND))

def visitAll (cursors : Cursors Id) : List (Visit Id) → Cursors Id × List (Happening Id)
  | [] => (cursors, [])
  | v :: vs =>
    let rest := visitAll (moved cursors v) vs
    (rest.1, happening cursors v :: rest.2)

/-- `tick`: in the end the cursors of the containers that were not visited are deleted. -/
def tick (cursors : Cursors Id) (t : Tick Id) : Cursors Id × List (Happening Id) :=
  let visits := visitsOf t
  let after := visitAll cursors visits
  (fun id => if id ∈ visits.map (·.id) then after.1 id else none, after.2)

def run (cursors : Cursors Id) : List (Tick Id) → List (Happening Id)
  | [] => []
  | t :: ts => (tick cursors t).2 ++ run (tick cursors t).1 ts

/-- The lines a fetch hands on to `detectLogErrors`: `.catch(() => '')` makes a failure an empty
text. -/
def fetched (log : List Line) (f : Fetch) : List Line :=
  match f.answered with
  | none => []
  | some upTo => log.filter fun l => f.since * SECOND ≤ l.time && l.time ≤ upTo

/-! ## Since the baseline -/

def sinceBaseline (id : Id) (hs : List (Happening Id)) : Option (Nat × List Fetch) :=
  hs.foldl (fun acc h =>
    match h with
    | .baseline id' now => if id' = id then some (now, []) else acc
    | .fetch id' f => if id' = id then acc.map fun (b, fs) => (b, fs ++ [f]) else acc) none

/-- **Nothing is lost**: what was written since the baseline and before a successful check is handed
on by one of the fetches. -/
def Covered (log : List Line) (b : Nat) (fs : List Fetch) : Prop :=
  ∀ r ∈ fs, r.answered ≠ none → ∀ l ∈ log, b ≤ l.time → l.time < r.now →
    ∃ f ∈ fs, l ∈ fetched log f

/-- A fetch that fails while later ones succeed has nothing between its cursor and its own second,
save what an earlier answer went up to. -/
def Spared (log : List Line) (b : Nat) (fs : List Fetch) : Prop :=
  ∀ front f rest, fs = front ++ f :: rest → f.answered = none → (∃ r ∈ rest, r.answered ≠ none) →
    ∀ l ∈ log, b ≤ l.time → f.since * SECOND ≤ l.time → l.time < f.now / SECOND * SECOND →
      ∃ g ∈ front, ∃ upTo, g.answered = some upTo ∧ l.time ≤ upTo

/-- What holds of the visits of a run: they come one after another, and an answer takes time. -/
structure Timely (visits : List (Visit Id)) : Prop where
  ordered : visits.Pairwise fun v v' => v.now ≤ v'.now
  answers : ∀ v ∈ visits, ∀ upTo, v.answered = some upTo → v.now ≤ upTo

end

/-! ## A chain of fetches -/

/-- Each fetch begins at the second of the one before. -/
def Chained : Nat → List Fetch → Prop
  | _, [] => True
  | t, f :: fs => f.since = t / SECOND ∧ t ≤ f.now ∧ (∀ upTo, f.answered = some upTo → f.now ≤ upTo) ∧
      Chained f.now fs

def lastTime : Nat → List Fetch → Nat
  | t, [] => t
  | _, f :: fs => lastTime f.now fs

theorem lastTime_concat (t : Nat) (fs : List Fetch) (f : Fetch) : lastTime t (fs ++ [f]) = f.now := by
  induction fs generalizing t with
  | nil => rfl
  | cons g fs ih => exact ih g.now

variable {fs : List Fetch}

variable {t : Nat} {f : Fetch}

theorem Chained.concat (h : Chained t fs) (hsince : f.since = lastTime t fs / SECOND)
    (hnow : lastTime t fs ≤ f.now)
    (hanswered : ∀ upTo, f.answered = some upTo → f.now ≤ upTo) : Chained t (fs ++ [f]) := by
  induction fs generalizing t with
  | nil => exact ⟨hsince, hnow, hanswered, trivial⟩
  | cons g fs ih => exact ⟨h.1, h.2.1, h.2.2.1, ih h.2.2.2 hsince hnow⟩

theorem Chained.later (h : Chained t fs) {g : Fetch} (hg : g ∈ fs) :
    t / SECOND ≤ g.since ∧ t ≤ g.now := by
  induction fs generalizing t with
  | nil => cases hg
  | cons f fs ih =>
    obtain ⟨hsince, hnow, -, hrest⟩ := h
    rcases mem_cons.mp hg with rfl | hg
    · exact ⟨hsince.ge, hnow⟩
    · have hlater := ih hrest hg
      exact ⟨(Nat.div_le_div_right hnow).trans hlater.1, hnow.trans hlater.2⟩

theorem Chained.suffix {front rest : List Fetch}
    (h : Chained t (front ++ f :: rest)) : Chained f.now rest ∧ ∀ g ∈ front, g.since ≤ f.since := by
  induction front generalizing t with
  | nil => exact ⟨h.2.2.2, fun g hg => by cases hg⟩
  | cons g front ih =>
    obtain ⟨hsince, hnow, -, hrest⟩ := h
    refine ⟨(ih hrest).1, fun g' hg' => ?_⟩
    rcases mem_cons.mp hg' with rfl | hg'
    · have hlater := (hrest.later (mem_append_right front mem_cons_self)).1
      rw [hsince]
      exact (Nat.div_le_div_right hnow).trans hlater
    · exact (ih hrest).2 g' hg'

variable {log : List Line} {l : Line}

theorem mem_fetched : l ∈ fetched log f ↔
      ∃ upTo, f.answered = some upTo ∧ l ∈ log ∧ f.since * SECOND ≤ l.time ∧ l.time ≤ upTo := by
  unfold fetched
  cases hf : f.answered with
  | none => simp
  | some upTo => simp [mem_filter]

/-- A line that is not passed over is read on the way to a fetch that succeeds. -/
theorem read_on_the_way {b : Nat} (hchain : Chained b fs) (hspared : Spared log b fs) (hl : l ∈ log)
    (hb : b ≤ l.time) {r : Fetch} (hr : r.answered ≠ none) (hbefore : l.time < r.now)
    (todo : List Fetch) (front : List Fetch) (hfs : fs = front ++ todo) (htodo : Chained t todo)
    (ht : t / SECOND * SECOND ≤ l.time) (hmem : r ∈ todo) : ∃ f ∈ fs, l ∈ fetched log f := by
  induction todo generalizing t front with
  | nil => cases hmem
  | cons f todo ih =>
    obtain ⟨hsince, hnow, hanswered, hrest⟩ := htodo
    have hf : f ∈ fs := hfs ▸ mem_append_right front mem_cons_self
    have hfloor : f.now / SECOND * SECOND ≤ f.now := Nat.div_mul_le_self f.now SECOND
    rcases mem_cons.mp hmem with rfl | hmem
    · obtain ⟨upTo, hupTo⟩ := ne_none_iff_exists'.mp hr
      exact ⟨r, hf, mem_fetched.mpr ⟨upTo, hupTo, hl, hsince ▸ ht,
        hbefore.le.trans (hanswered upTo hupTo)⟩⟩
    · by_cases hpast : l.time < f.now / SECOND * SECOND
      · cases hans : f.answered with
        | some upTo =>
          exact ⟨f, hf, mem_fetched.mpr ⟨upTo, hans, hl, hsince ▸ ht,
            (hpast.le.trans hfloor).trans (hanswered upTo hans)⟩⟩
        | none =>
          obtain ⟨g, hg, upTo, hupTo, hle⟩ := hspared front f todo hfs hans ⟨r, hmem, hr⟩ l hl hb
            (hsince ▸ ht) hpast
          have hearlier := (hfs ▸ hchain).suffix.2 g hg
          refine ⟨g, hfs ▸ mem_append_left _ hg, mem_fetched.mpr ⟨upTo, hupTo, hl, ?_, hle⟩⟩
          exact (Nat.mul_le_mul_right SECOND (hearlier.trans hsince.le)).trans ht
      · exact ih (front ++ [f]) (by simp [hfs]) hrest (not_lt.mp hpast) hmem

/-- **A chain of fetches** reads every line when no failed fetch passes over one, and only then. -/
theorem covered_iff_spared {b : Nat} (h : Chained b fs) : Covered log b fs ↔ Spared log b fs := by
  constructor
  · rintro hcovered front f rest rfl hfailed ⟨r, hr, hanswered⟩ l hl hb hsince hpast
    have hrest := h.suffix.1
    have hbefore : l.time < r.now :=
      (hpast.trans_le (Nat.div_mul_le_self f.now SECOND)).trans_le (hrest.later hr).2
    obtain ⟨g, hg, hread⟩ := hcovered r (by simp [hr]) hanswered l hl hb hbefore
    obtain ⟨upTo, hupTo, -, hfrom, hle⟩ := mem_fetched.mp hread
    rcases mem_append.mp hg with hg | hg
    · exact ⟨g, hg, upTo, hupTo, hle⟩
    · rcases mem_cons.mp hg with rfl | hg
      · rw [hfailed] at hupTo
        cases hupTo
      · have hlater := Nat.mul_le_mul_right SECOND (hrest.later hg).1
        exact absurd (hlater.trans hfrom) (not_le.mpr hpast)
  · intro hspared r hr hanswered l hl hb hbefore
    exact read_on_the_way h hspared hl hb hanswered hbefore fs [] rfl h
      ((Nat.div_mul_le_self b SECOND).trans hb) hr

/-! ## Runs -/

section
variable {Id : Type} [DecidableEq Id]

theorem sinceBaseline_baseline (id id' : Id) (hs : List (Happening Id)) (now : Nat) :
    sinceBaseline id (hs ++ [.baseline id' now]) =
      if id' = id then some (now, []) else sinceBaseline id hs := by
  rw [sinceBaseline, foldl_append]
  rfl

theorem sinceBaseline_fetch (id id' : Id) (hs : List (Happening Id)) (f : Fetch) :
    sinceBaseline id (hs ++ [.fetch id' f]) =
      if id' = id then (sinceBaseline id hs).map fun (b, fs) => (b, fs ++ [f])
      else sinceBaseline id hs := by
  rw [sinceBaseline, foldl_append]
  rfl

/-- The cursors after some happenings, up to a time. -/
structure Inv (cursors : Cursors Id) (hs : List (Happening Id)) (now : Nat) : Prop where
  chained : ∀ id b fs, sinceBaseline id hs = some (b, fs) → Chained b fs
  cursor : ∀ id c, cursors id = some c → ∃ b fs, sinceBaseline id hs = some (b, fs) ∧
    c = lastTime b fs / SECOND ∧ lastTime b fs ≤ now

variable {cursors : Cursors Id} {hs : List (Happening Id)}

variable {now : Nat}

theorem inv_visit (h : Inv cursors hs now) {v : Visit Id} (hnow : now ≤ v.now)
    (hanswers : ∀ upTo, v.answered = some upTo → v.now ≤ upTo) :
    Inv (moved cursors v) (hs ++ [happening cursors v]) v.now := by
  have hothers : ∀ id c, id ≠ v.id → moved cursors v id = some c →
      ∃ b fs, sinceBaseline id hs = some (b, fs) ∧ c = lastTime b fs / SECOND ∧
        lastTime b fs ≤ v.now := by
    intro id c hne hc
    rw [moved, Function.update_of_ne hne] at hc
    obtain ⟨b, fs, hsince, hlast, hle⟩ := h.cursor id c hc
    exact ⟨b, fs, hsince, hlast, hle.trans hnow⟩
  have hmoved : moved cursors v v.id = some (v.now / SECOND) := Function.update_self _ _ _
  unfold happening
  cases hcursor : cursors v.id with
  | none =>
    refine ⟨fun id b fs hsince => ?_, fun id c hc => ?_⟩
    · rw [sinceBaseline_baseline] at hsince
      split at hsince
      · cases hsince
        trivial
      · exact h.chained id b fs hsince
    · rw [sinceBaseline_baseline]
      by_cases hid : id = v.id
      · subst hid
        rw [hmoved] at hc
        exact ⟨v.now, [], if_pos rfl, (some.inj hc).symm, le_refl _⟩
      · rw [if_neg (Ne.symm hid)]
        exact hothers id c hid hc
  | some since =>
    obtain ⟨b, fs, hsince, hlast, hle⟩ := h.cursor v.id since hcursor
    have hconcat : Chained b (fs ++ [⟨since, v.now, v.answered⟩]) :=
      (h.chained v.id b fs hsince).concat hlast (hle.trans hnow) hanswers
    refine ⟨fun id b' fs' hsince' => ?_, fun id c hc => ?_⟩
    · rw [sinceBaseline_fetch] at hsince'
      by_cases hid : v.id = id
      · subst hid
        rw [if_pos rfl, hsince] at hsince'
        cases hsince'
        exact hconcat
      · rw [if_neg hid] at hsince'
        exact h.chained id b' fs' hsince'
    · rw [sinceBaseline_fetch]
      by_cases hid : id = v.id
      · subst hid
        rw [hmoved] at hc
        rw [if_pos rfl, hsince]
        refine ⟨b, _, rfl, ?_, ?_⟩
        · rw [lastTime_concat]
          exact (some.inj hc).symm
        · rw [lastTime_concat]
      · rw [if_neg (Ne.symm hid)]
        exact hothers id c hid hc

theorem inv_visitAll {vs : List (Visit Id)} (h : Inv cursors hs now) (htimely : Timely vs)
    (hnow : ∀ v ∈ vs, now ≤ v.now) :
    ∃ last, (last = now ∨ ∃ v ∈ vs, last = v.now) ∧
      Inv (visitAll cursors vs).1 (hs ++ (visitAll cursors vs).2) last := by
  induction vs generalizing cursors hs now with
  | nil => exact ⟨now, .inl rfl, by rwa [visitAll, append_nil]⟩
  | cons v vs ih =>
    obtain ⟨hfirst, hordered⟩ := pairwise_cons.mp htimely.ordered
    have hvisit := inv_visit h (hnow v mem_cons_self) (htimely.answers v mem_cons_self)
    obtain ⟨last, hlast, hinv⟩ := ih hvisit
      ⟨hordered, fun w hw => htimely.answers w (mem_cons_of_mem v hw)⟩ hfirst
    refine ⟨last, .inr ?_, ?_⟩
    · rcases hlast with rfl | ⟨w, hw, rfl⟩
      · exact ⟨v, mem_cons_self, rfl⟩
      · exact ⟨w, mem_cons_of_mem v hw, rfl⟩
    · rwa [append_assoc] at hinv

theorem inv_run {ts : List (Tick Id)} (h : Inv cursors hs now)
    (htimely : Timely (ts.flatMap visitsOf)) (hnow : ∀ v ∈ ts.flatMap visitsOf, now ≤ v.now) :
    ∀ id b fs, sinceBaseline id (hs ++ run cursors ts) = some (b, fs) → Chained b fs := by
  induction ts generalizing cursors hs now with
  | nil =>
    rw [run, append_nil]
    exact h.chained
  | cons t ts ih =>
    rw [flatMap_cons] at htimely hnow
    obtain ⟨hordered, hlater, hbetween⟩ := pairwise_append.mp htimely.ordered
    obtain ⟨last, hlast, hinv⟩ := inv_visitAll h
      ⟨hordered, fun v hv => htimely.answers v (mem_append_left _ hv)⟩
      (fun v hv => hnow v (mem_append_left _ hv))
    -- what is deleted in the end is not a cursor any more
    have hdeleted : Inv (tick cursors t).1 (hs ++ (tick cursors t).2) last := by
      refine ⟨hinv.chained, fun id c hc => ?_⟩
      have hcursor : (tick cursors t).1 id = if id ∈ (visitsOf t).map (·.id)
          then (visitAll cursors (visitsOf t)).1 id else none := rfl
      rw [hcursor] at hc
      split at hc
      · exact hinv.cursor id c hc
      · cases hc
    rw [run, ← append_assoc]
    refine ih hdeleted ⟨hlater, fun v hv => htimely.answers v (mem_append_right _ hv)⟩
      fun v hv => ?_
    rcases hlast with rfl | ⟨w, hw, rfl⟩
    · exact hnow v (mem_append_right _ hv)
    · exact hbetween w hw v hv

end

/-- **What the containers log is read** when no failed fetch passes over a line, and only then. -/
theorem lines_read_iff {Id : Type} [DecidableEq Id] (ticks : List (Tick Id))
    (htimely : Timely (ticks.flatMap visitsOf)) (id : Id) (log : List Line) (b : Nat) (fs : List Fetch)
    (h : sinceBaseline id (run (fun _ => none) ticks) = some (b, fs)) :
    Covered log b fs ↔ Spared log b fs := by
  have hstart : Inv (fun _ : Id => none) [] 0 :=
    { chained := fun id b fs hnone => by cases hnone
      cursor := fun id c hnone => by cases hnone }
  exact covered_iff_spared (inv_run hstart htimely (fun _ _ => Nat.zero_le _) id b fs h)

/-- A container that is visited every minute; the second fetch fails. -/
def minutes : List (Tick Unit) :=
  [(0, none), (60, some 60), (120, none), (180, some 180)].map fun (now, answered) =>
    [.visited [⟨(), now * SECOND, answered.map (· * SECOND)⟩]]

def fetches : List Fetch :=
  [⟨0, 60 * SECOND, some (60 * SECOND)⟩, ⟨60, 120 * SECOND, none⟩,
    ⟨120, 180 * SECOND, some (180 * SECOND)⟩]

def logged : List Line := [⟨70 * SECOND, js "FATAL: db unreachable"⟩]

theorem lines_read_minutes : Covered logged 0 fetches ↔ Spared logged 0 fetches :=
  lines_read_iff minutes ⟨by decide, by decide⟩ () logged 0 fetches rfl

/-- The line of the minute that could not be fetched is in no fetch. -/
theorem line_passed_over :
    ¬ ∀ (ticks : List (Tick Unit)) (id : Unit) (log : List Line) (b : Nat) (fs : List Fetch),
      Timely (ticks.flatMap visitsOf) →
        sinceBaseline id (run (fun _ => none) ticks) = some (b, fs) → Covered log b fs := by
  intro h
  have hcovered := h minutes () logged 0 fetches ⟨by decide, by decide⟩ rfl
  have hread := hcovered ⟨120, 180 * SECOND, some (180 * SECOND)⟩ (by simp [fetches]) (by simp)
    ⟨70 * SECOND, js "FATAL: db unreachable"⟩ (by simp [logged]) (Nat.zero_le _) (by decide)
  obtain ⟨f, hf, hl⟩ := hread
  obtain ⟨upTo, hupTo, -, hfrom, hle⟩ := mem_fetched.mp hl
  simp only [fetches, List.mem_cons, List.not_mem_nil, or_false] at hf
  rcases hf with rfl | rfl | rfl
  · cases hupTo
    revert hle
    decide
  · cases hupTo
  · revert hfrom
    decide

end Aoox.ErrorCursors
