import Aoox.Runs

/-! # Writing a row back from a copy

Several operations share one row.  Each reads it, gives some columns values of
its own, may read some columns again, and later writes columns of its copy back;
a plain update is the special case that writes only the columns it sets.  A
column of a copy is *stale* once another operation has set it since it was read.

An operation that reports success has set certain columns to certain values.
They are *kept* when each still has its value or was set by an operation that
started later.  `Inv.write` is the one real step: a write that covers no stale
column of others' making and comes behind no later operation loses nothing.
-/
open Option
namespace WriteBack
variable {κ ν : Type}

/-- What an operation holds. -/
structure Copy (κ ν : Type) where
  start : Nat
  values : κ → ν
  /-- The columns it gives values of its own. -/
  sets : κ → Bool
  /-- The columns others have set since it read them. -/
  stale : κ → Bool
  /-- The columns it has set and written. -/
  done : κ → Bool

/-- The row, who holds a copy of it, who has set which column, and what the
operations that reported success have set. -/
structure Table (κ ν : Type) where
  row : κ → ν
  clock : Nat
  held : Nat → Option (Copy κ ν)
  wrote : κ → List Nat
  succeeded : List (Nat × (κ → Option ν))

/-- A row nobody has touched yet. -/
def Table.initial (row : κ → ν) : Table κ ν := ⟨row, 0, fun _ => none, fun _ => [], []⟩

/-- Operation `p` reads the row and sets columns of its copy. -/
def Table.start (s : Table κ ν) (p : Nat) (own : κ → ν) (sets : κ → Bool) : Table κ ν :=
  { s with
    clock := s.clock + 1
    held := Function.update s.held p (some
      { start := s.clock
        values := fun c => if sets c then own c else s.row c
        sets := sets
        stale := fun _ => false
        done := fun _ => false }) }

/-- Columns of the copy are read again and further ones set. -/
def Copy.reread (k : Copy κ ν) (row : κ → ν) (cols : κ → Bool) (own : κ → ν) (sets : κ → Bool) :
    Copy κ ν :=
  { k with
    values := fun c => if sets c then own c else if cols c then row c else k.values c
    sets := fun c => if sets c then true else if cols c then false else k.sets c
    stale := fun c => k.stale c && !cols c
    done := fun c => k.done c && !cols c && !sets c }

/-- Operation `p` reads columns again and sets further ones. -/
def Table.reread (s : Table κ ν) (p : Nat) (k : Copy κ ν) (cols : κ → Bool) (own : κ → ν)
    (sets : κ → Bool) : Table κ ν :=
  { s with held := Function.update s.held p (some (k.reread s.row cols own sets)) }

/-- Operation `p` writes columns of its copy. -/
def Table.write (s : Table κ ν) (p : Nat) (k : Copy κ ν) (cols : κ → Bool) : Table κ ν :=
  { s with
    row := fun c => if cols c then k.values c else s.row c
    held := fun q =>
      if q = p then some { k with done := fun c => k.done c || (cols c && k.sets c) }
      else (s.held q).map fun k' => { k' with stale := fun c => k'.stale c || (cols c && k.sets c) }
    wrote := fun c => if cols c && k.sets c then k.start :: s.wrote c else s.wrote c }

/-- Operation `p` is over; a success is on record. -/
def Table.finish (s : Table κ ν) (p : Nat) (k : Copy κ ν) (ok : Bool) : Table κ ν :=
  { s with
    held := Function.update s.held p none
    succeeded :=
      if ok then (k.start, fun c => if k.done c then some (k.values c) else none) :: s.succeeded
      else s.succeeded }

/-- Every column set by an operation that reported success still has that value,
or an operation that started later has set it. -/
def Table.Kept (s : Table κ ν) : Prop :=
  ∀ e ∈ s.succeeded, ∀ c v, e.2 c = some v → s.row c = v ∨ ∃ t ∈ s.wrote c, e.1 < t

/-- The columns about to be written are set by the operation or still as it read
them, and no operation that started later has set one it sets. -/
structure Copy.Fresh (s : Table κ ν) (k : Copy κ ν) (cols : κ → Bool) : Prop where
  read : ∀ c, cols c = true → k.sets c = false → k.stale c = false
  order : ∀ c, cols c = true → k.sets c = true → ∀ t ∈ s.wrote c, t ≤ k.start

structure Copy.Sound (s : Table κ ν) (k : Copy κ ν) : Prop where
  started : k.start < s.clock
  fresh : ∀ c, k.sets c = false → k.stale c = false → k.values c = s.row c
  wrote : ∀ c, k.done c = true → k.start ∈ s.wrote c
  kept : ∀ c, k.done c = true → s.row c = k.values c ∨ ∃ t ∈ s.wrote c, k.start < t

/-- The invariant. -/
structure Inv (s : Table κ ν) : Prop where
  held : ∀ p k, s.held p = some k → k.Sound s
  apart : ∀ p q k k', s.held p = some k → s.held q = some k' → p ≠ q → k.start ≠ k'.start
  past : ∀ c, ∀ t ∈ s.wrote c, t < s.clock
  ended : ∀ e ∈ s.succeeded, e.1 < s.clock ∧ ∀ p k, s.held p = some k → k.start ≠ e.1
  wrote : ∀ e ∈ s.succeeded, ∀ c, (e.2 c).isSome → e.1 ∈ s.wrote c
  kept : s.Kept

theorem inv_initial (row : κ → ν) : Inv (Table.initial row) where
  held p k h := by cases h
  apart p q k k' h := by cases h
  past c t h := by cases h
  ended e h := by cases h
  wrote e h := by cases h
  kept e h := by cases h

variable {s : Table κ ν}

variable {k : Copy κ ν}

/-- What is sound stays so when the clock goes on. -/
theorem Copy.Sound.tick {s' : Table κ ν} (h : k.Sound s) (hrow : s'.row = s.row)
    (hwrote : s'.wrote = s.wrote) (hclock : s.clock ≤ s'.clock) : k.Sound s' where
  started := Nat.lt_of_lt_of_le h.started hclock
  fresh c hset hstale := by rw [hrow]; exact h.fresh c hset hstale
  wrote c hdone := by rw [hwrote]; exact h.wrote c hdone
  kept c hdone := by rw [hrow, hwrote]; exact h.kept c hdone

theorem Inv.start (h : Inv s) (p : Nat) (own : κ → ν) (sets : κ → Bool) :
    Inv (s.start p own sets) := by
  have hnew : ∀ {q k}, (s.start p own sets).held q = some k →
      (q = p ∧ k.start = s.clock) ∨ (q ≠ p ∧ s.held q = some k) := by
    intro q k hk
    rcases Runs.update_eq_some hk with ⟨hq, hk⟩ | hold
    · exact Or.inl ⟨hq, by rw [← some.inj hk]⟩
    · exact Or.inr hold
  refine ⟨?_, ?_, ?_, ?_, h.wrote, h.kept⟩
  · intro q k hk
    rcases Runs.update_eq_some hk with ⟨-, hk⟩ | ⟨-, hk⟩
    · obtain rfl := some.inj hk
      refine ⟨Nat.lt_succ_self _, ?_, ?_, ?_⟩
      · intro c hset _
        show (if sets c then own c else s.row c) = s.row c
        rw [show sets c = false from hset]
        simp
      · intro c hdone
        cases hdone
      · intro c hdone
        cases hdone
    · exact (h.held q k hk).tick rfl rfl (Nat.le_succ _)
  · intro q q' k k' hk hk' hne
    rcases hnew hk with ⟨rfl, hstart⟩ | ⟨_, hold⟩ <;> rcases hnew hk' with ⟨rfl, hstart'⟩ | ⟨_, hold'⟩
    · exact absurd rfl hne
    · have := (h.held q' k' hold').started
      omega
    · have := (h.held q k hold).started
      omega
    · exact h.apart q q' k k' hold hold' hne
  · intro c t ht
    exact Nat.lt_succ_of_lt (h.past c t ht)
  · intro e he
    refine ⟨Nat.lt_succ_of_lt (h.ended e he).1, fun q k hk => ?_⟩
    rcases hnew hk with ⟨rfl, hstart⟩ | ⟨_, hold⟩
    · have := (h.ended e he).1
      omega
    · exact (h.ended e he).2 q k hold

variable {p : Nat}

/-- Replacing the copy of one operation by a sound one with the same start. -/
theorem Inv.replace {k' : Copy κ ν} (h : Inv s) (hk : s.held p = some k)
    (hstart : k'.start = k.start) (hsound : k'.Sound s) :
    Inv { s with held := Function.update s.held p (some k') } := by
  have hold : ∀ {q j}, Function.update s.held p (some k') q = some j →
      j.Sound s ∧ ∃ j', s.held q = some j' ∧ j'.start = j.start := by
    intro q j hj
    rcases Runs.update_eq_some hj with ⟨rfl, hnew⟩ | ⟨-, hkept⟩
    · obtain rfl := some.inj hnew
      exact ⟨hsound, k, hk, hstart.symm⟩
    · exact ⟨h.held q j hkept, j, hkept, rfl⟩
  refine ⟨?_, ?_, h.past, ?_, h.wrote, h.kept⟩
  · intro q j hj
    exact (hold hj).1.tick rfl rfl (Nat.le_refl _)
  · intro q q' j j' hj hj' hne
    obtain ⟨-, i, hi, his⟩ := hold hj
    obtain ⟨-, i', hi', his'⟩ := hold hj'
    rw [← his, ← his']
    exact h.apart q q' i i' hi hi' hne
  · intro e he
    refine ⟨(h.ended e he).1, fun q j hj => ?_⟩
    obtain ⟨-, i, hi, his⟩ := hold hj
    rw [← his]
    exact (h.ended e he).2 q i hi

theorem Inv.reread (h : Inv s) (hk : s.held p = some k) (cols : κ → Bool) (own : κ → ν)
    (sets : κ → Bool) : Inv (s.reread p k cols own sets) := by
  have hsound := h.held p k hk
  refine h.replace hk rfl ⟨hsound.started, ?_, ?_, ?_⟩
  · intro c hset hstale
    simp only [Copy.reread] at hset hstale ⊢
    cases hs : sets c with
    | true => simp [hs] at hset
    | false =>
      cases hc : cols c with
      | true => simp
      | false =>
        simp only [hs, hc, Bool.false_eq_true, if_false] at hset ⊢
        exact hsound.fresh c hset (by simpa [hc] using hstale)
  · intro c hdone
    simp only [Copy.reread, Bool.and_eq_true] at hdone
    exact hsound.wrote c hdone.1.1
  · intro c hdone
    simp only [Copy.reread, Bool.and_eq_true, Bool.not_eq_true'] at hdone
    simp only [Copy.reread, hdone.2, hdone.1.2, Bool.false_eq_true, if_false]
    exact hsound.kept c hdone.1.1

variable {cols : κ → Bool}

theorem mem_wrote_write {c : κ} {t : Nat} : t ∈ (s.write p k cols).wrote c ↔
      t ∈ s.wrote c ∨ (cols c = true ∧ k.sets c = true ∧ t = k.start) := by
  show t ∈ (if cols c && k.sets c then k.start :: s.wrote c else s.wrote c) ↔ _
  cases hc : cols c <;> cases hs : k.sets c <;> simp [or_comm]

/-- What a fresh write does to a column: it is set and comes last, or nothing
changes. -/
theorem row_write (hk : k.Sound s) (hfresh : k.Fresh s cols) (c : κ) :
    (cols c = true ∧ k.sets c = true ∧ (s.write p k cols).row c = k.values c) ∨
      ((cols c && k.sets c) = false ∧ (s.write p k cols).row c = s.row c) := by
  show _ ∨ _ ∧ (if cols c then k.values c else s.row c) = s.row c
  cases hc : cols c with
  | false => exact Or.inr ⟨rfl, by simp⟩
  | true =>
    cases hs : k.sets c with
    | true => exact Or.inl ⟨rfl, rfl, by simp [Table.write, hc]⟩
    | false => exact Or.inr ⟨rfl, by simpa using hk.fresh c hs (hfresh.read c hc hs)⟩

/-- A value set before a fresh write is kept by it: the write leaves the column
alone, or the writer started later. -/
theorem keeps_write {t : Nat} {c : κ} {v : ν} (hk : k.Sound s) (hfresh : k.Fresh s cols)
    (hwrote : t ∈ s.wrote c) (hne : t ≠ k.start) (hkept : s.row c = v ∨ ∃ t' ∈ s.wrote c, t < t') :
    (s.write p k cols).row c = v ∨ ∃ t' ∈ (s.write p k cols).wrote c, t < t' := by
  rcases row_write (p := p) hk hfresh c with ⟨hc, hs, -⟩ | ⟨-, hrow⟩
  · have hle := hfresh.order c hc hs t hwrote
    exact Or.inr ⟨k.start, mem_wrote_write.mpr (Or.inr ⟨hc, hs, rfl⟩), by omega⟩
  · rw [hrow]
    refine hkept.imp_right ?_
    rintro ⟨t', ht', hlt⟩
    exact ⟨t', mem_wrote_write.mpr (Or.inl ht'), hlt⟩

theorem Copy.Sound.written (hk : k.Sound s) (hfresh : k.Fresh s cols) :
    Copy.Sound (s.write p k cols) { k with done := fun c => k.done c || (cols c && k.sets c) } := by
  refine ⟨hk.started, ?_, ?_, ?_⟩
  · intro c hset hstale
    rcases row_write (p := p) hk hfresh c with ⟨-, hs, -⟩ | ⟨-, hrow⟩
    · rw [show k.sets c = false from hset] at hs
      cases hs
    · rw [hrow]
      exact hk.fresh c hset hstale
  · intro c hdone
    rcases Bool.or_eq_true_iff.mp hdone with hdone | hdone
    · exact mem_wrote_write.mpr (Or.inl (hk.wrote c hdone))
    · obtain ⟨hc, hs⟩ := Bool.and_eq_true_iff.mp hdone
      exact mem_wrote_write.mpr (Or.inr ⟨hc, hs, rfl⟩)
  · intro c hdone
    rcases row_write (p := p) hk hfresh c with ⟨-, -, hrow⟩ | ⟨hnot, hrow⟩
    · exact Or.inl hrow
    · rw [hrow]
      have hdone' : k.done c = true := by simpa [hnot] using hdone
      refine (hk.kept c hdone').imp_right ?_
      rintro ⟨t, ht, hlt⟩
      exact ⟨t, mem_wrote_write.mpr (Or.inl ht), hlt⟩

/-- The copy of another operation, which only gets stale columns. -/
theorem Copy.Sound.overtaken {j : Copy κ ν} (hj : j.Sound s) (hk : k.Sound s)
    (hfresh : k.Fresh s cols) (hne : j.start ≠ k.start) :
    Copy.Sound (s.write p k cols)
      { j with stale := fun c => j.stale c || (cols c && k.sets c) } := by
  refine ⟨hj.started, ?_, ?_, ?_⟩
  · intro c hset hstale
    obtain ⟨hstale, hnot⟩ := Bool.or_eq_false_iff.mp hstale
    rcases row_write (p := p) hk hfresh c with ⟨hc, hs, -⟩ | ⟨-, hrow⟩
    · rw [hc, hs] at hnot
      cases hnot
    · rw [hrow]
      exact hj.fresh c hset hstale
  · intro c hdone
    exact mem_wrote_write.mpr (Or.inl (hj.wrote c hdone))
  · intro c hdone
    exact keeps_write hk hfresh (hj.wrote c hdone) hne (hj.kept c hdone)

/-- **A fresh write keeps the invariant.** -/
theorem Inv.write (h : Inv s) (hk : s.held p = some k)
    (hfresh : k.Fresh s cols) : Inv (s.write p k cols) := by
  have hsound := h.held p k hk
  -- every copy but the writer's only gets stale columns
  have hother : ∀ {q j}, q ≠ p → (s.write p k cols).held q = some j → ∃ j₀, s.held q = some j₀ ∧
      j = { j₀ with stale := fun c => j₀.stale c || (cols c && k.sets c) } := by
    intro q j hq hj
    simp only [Table.write, hq, if_false] at hj
    obtain ⟨j₀, hj₀, rfl⟩ := map_eq_some_iff.mp hj
    exact ⟨j₀, hj₀, rfl⟩
  have hself : ∀ {j}, (s.write p k cols).held p = some j →
      j = { k with done := fun c => k.done c || (cols c && k.sets c) } := by
    intro j hj
    simp only [Table.write, if_true, some.injEq] at hj
    exact hj.symm
  have hstart : ∀ {q j}, (s.write p k cols).held q = some j →
      ∃ j₀, s.held q = some j₀ ∧ j₀.start = j.start := by
    intro q j hj
    by_cases hq : q = p
    · subst hq
      exact ⟨k, hk, by rw [hself hj]⟩
    · obtain ⟨j₀, hj₀, rfl⟩ := hother hq hj
      exact ⟨j₀, hj₀, rfl⟩
  refine ⟨?_, ?_, ?_, ?_, ?_, ?_⟩
  · intro q j hj
    by_cases hq : q = p
    · subst hq
      rw [hself hj]
      exact hsound.written hfresh
    · obtain ⟨j₀, hj₀, rfl⟩ := hother hq hj
      exact (h.held q j₀ hj₀).overtaken hsound hfresh (h.apart q p j₀ k hj₀ hk hq)
  · intro q q' j j' hj hj' hne
    obtain ⟨j₀, hj₀, hs⟩ := hstart hj
    obtain ⟨j₁, hj₁, hs'⟩ := hstart hj'
    rw [← hs, ← hs']
    exact h.apart q q' j₀ j₁ hj₀ hj₁ hne
  · intro c t ht
    rcases mem_wrote_write.mp ht with ht | ⟨-, -, rfl⟩
    · exact h.past c t ht
    · exact hsound.started
  · intro e he
    refine ⟨(h.ended e he).1, fun q j hj => ?_⟩
    obtain ⟨j₀, hj₀, hs⟩ := hstart hj
    rw [← hs]
    exact (h.ended e he).2 q j₀ hj₀
  · intro e he c hc
    exact mem_wrote_write.mpr (Or.inl (h.wrote e he c hc))
  · intro e he c v hv
    exact keeps_write hsound hfresh (h.wrote e he c (by rw [hv]; rfl))
      (fun heq => (h.ended e he).2 p k hk heq.symm) (h.kept e he c v hv)

theorem Inv.finish (h : Inv s) (hk : s.held p = some k) (ok : Bool) : Inv (s.finish p k ok) := by
  have hsound := h.held p k hk
  have hold : ∀ {q j}, (s.finish p k ok).held q = some j → q ≠ p ∧ s.held q = some j := by
    intro q j hj
    rcases Runs.update_eq_some hj with ⟨-, hj⟩ | hold
    · cases hj
    · exact hold
  have hsucc : ∀ {e}, e ∈ (s.finish p k ok).succeeded → e ∈ s.succeeded ∨
      e = (k.start, fun c => if k.done c then some (k.values c) else none) := by
    intro e he
    simp only [Table.finish] at he
    split at he
    · exact (List.mem_cons.mp he).symm
    · exact Or.inl he
  refine ⟨?_, ?_, h.past, ?_, ?_, ?_⟩
  · intro q j hj
    exact (h.held q j (hold hj).2).tick rfl rfl (Nat.le_refl _)
  · intro q q' j j' hj hj' hne
    exact h.apart q q' j j' (hold hj).2 (hold hj').2 hne
  · intro e he
    rcases hsucc he with he | rfl
    · exact ⟨(h.ended e he).1, fun q j hj => (h.ended e he).2 q j (hold hj).2⟩
    · refine ⟨hsound.started, fun q j hj => ?_⟩
      obtain ⟨hq, hj⟩ := hold hj
      exact h.apart q p j k hj hk hq
  · intro e he c hc
    rcases hsucc he with he | rfl
    · exact h.wrote e he c hc
    · refine hsound.wrote c ?_
      by_contra hnot
      simp [hnot] at hc
  · intro e he c v hv
    rcases hsucc he with he | rfl
    · exact h.kept e he c v hv
    · simp only at hv
      split at hv
      · obtain rfl := some.inj hv
        exact hsound.kept c ‹_›
      · cases hv

end WriteBack
