import Aoox.Scripts

/-! # Programs that run alone

A program that runs alone meets at each call the world its own last call left.  `Script.run`
takes it to its end, on the outcomes of its calls, and notes which calls took effect; a
program that throws ends in `none`.

`Script.Ensures Q` says that `Q` holds at the end, however the calls go (`ensures_run`).  It is
proved along the program: `Ensures.bind` and `Ensures.attempt` put programs together, and
`Only.ensures` is for stretches all of whose calls keep an invariant.
-/
namespace Scripts.Script
variable {W : Type} {S : System W} {α β : Type}

/-- Runs a program to its end, from a world in which the calls `t` have taken effect.  Calls
for which no outcome is given go well. -/
def run (os : List Outcome) (w : W) (t : List S.Call) : Script S α → Option α × W × List S.Call
  | done a => (some a, w, t)
  | thrown => (none, w, t)
  | call c answered failed =>
    match S.effect c w with
    | none => failed.run os.tail w t
    | some (r, w') =>
      match os.headD .ok with
      | .ok => (answered r).run os.tail w' (t ++ [c])
      | .failed => failed.run os.tail w t
      | .lost => failed.run os.tail w' (t ++ [c])

/-- `Q` holds at the end of the program, whatever the outcomes are. -/
def Ensures (Q : Option α → W → List S.Call → Prop) (w : W) (t : List S.Call) : Script S α → Prop
  | done a => Q (some a) w t
  | thrown => Q none w t
  | call c answered failed =>
    failed.Ensures Q w t ∧
      ∀ r w', S.effect c w = some (r, w') →
        (answered r).Ensures Q w' (t ++ [c]) ∧ failed.Ensures Q w' (t ++ [c])

variable {P Q : Option α → W → List S.Call → Prop} {w : W} {t : List S.Call} {x : Script S α}

/-- **A run ends in what its program ensures.** -/
theorem ensures_run (h : x.Ensures Q w t) (os : List Outcome) :
    Q (x.run os w t).1 (x.run os w t).2.1 (x.run os w t).2.2 := by
  induction x generalizing w t os with
  | done a => exact h
  | thrown => exact h
  | call c answered failed ih_answered ih_failed =>
    obtain ⟨hfailed, hanswered⟩ := h
    rw [run]
    cases heffect : S.effect c w with
    | none => exact ih_failed hfailed os.tail
    | some a =>
      obtain ⟨hok, hlost⟩ := hanswered a.1 a.2 heffect
      cases os.headD .ok with
      | ok => exact ih_answered a.1 hok os.tail
      | failed => exact ih_failed hfailed os.tail
      | lost => exact ih_failed hlost os.tail

theorem Ensures.mono (h : x.Ensures P w t) (hPQ : ∀ r w t, P r w t → Q r w t) : x.Ensures Q w t := by
  induction x generalizing w t with
  | done a => exact hPQ _ _ _ h
  | thrown => exact hPQ _ _ _ h
  | call c answered failed ih_answered ih_failed =>
    refine ⟨ih_failed h.1, ?_⟩
    intro r w' heffect
    obtain ⟨hok, hlost⟩ := h.2 r w' heffect
    exact ⟨ih_answered r hok, ih_failed hlost⟩

variable {f : α → Script S β}

/-- **One program after another.** -/
theorem Ensures.bind {R : Option β → W → List S.Call → Prop} (h : x.Ensures P w t)
    (hdone : ∀ a w t, P (some a) w t → (f a).Ensures R w t)
    (hthrown : ∀ w t, P none w t → R none w t) : (x >>= f).Ensures R w t := by
  show (x.bind f).Ensures R w t
  induction x generalizing w t with
  | done a => exact hdone _ _ _ h
  | thrown => exact hthrown _ _ h
  | call c answered failed ih_answered ih_failed =>
    refine ⟨ih_failed h.1, ?_⟩
    intro r w' heffect
    obtain ⟨hok, hlost⟩ := h.2 r w' heffect
    exact ⟨ih_answered r hok, ih_failed hlost⟩

/-- **A program with a handler.** -/
theorem Ensures.attempt {handler : Script S α} (h : x.Ensures P w t)
    (hdone : ∀ a w t, P (some a) w t → Q (some a) w t)
    (hthrown : ∀ w t, P none w t → handler.Ensures Q w t) : (x.attempt handler).Ensures Q w t := by
  induction x generalizing w t with
  | done a => exact hdone _ _ _ h
  | thrown => exact hthrown _ _ h
  | call c answered failed ih_answered ih_failed =>
    refine ⟨ih_failed h.1, ?_⟩
    intro r w' heffect
    obtain ⟨hok, hlost⟩ := h.2 r w' heffect
    exact ⟨ih_answered r hok, ih_failed hlost⟩

variable {c : S.Call}

theorem ensures_await {c : S.Call} {Q : Option (S.Reply c) → W → List S.Call → Prop}
    (hthrown : Q none w t)
    (heffect : ∀ r w', S.effect c w = some (r, w') → Q (some r) w' (t ++ [c]) ∧ Q none w' (t ++ [c])) :
    (await (S := S) c).Ensures Q w t :=
  ⟨hthrown, heffect⟩

/-- **A program with a cleanup**, where both keep something. -/
theorem Ensures.andFinally {I : W → List S.Call → Prop} {cleanup : Script S Unit}
    (h : x.Ensures (fun _ w t => I w t) w t)
    (hcleanup : ∀ w t, I w t → cleanup.Ensures (fun _ w t => I w t) w t) :
    (x.andFinally cleanup).Ensures (fun _ w t => I w t) w t := by
  have htried : ((x >>= fun a => pure (some a)).attempt (pure none)).Ensures (fun _ w t => I w t) w t := by
    refine Ensures.attempt (P := fun _ w t => I w t) ?_ (fun _ _ _ hI => hI) fun _ _ hI => hI
    exact h.bind (fun _ _ _ hI => hI) fun _ _ hI => hI
  refine htried.bind ?_ fun _ _ hI => hI
  intro r w t hI
  refine (hcleanup w t hI).bind ?_ fun _ _ hI => hI
  intro _ w t hI
  cases r with
  | some a => exact hI
  | none => exact hI

/-! ## When all goes well -/

/-- What has taken effect stays in the list. -/
theorem mem_run (hc : c ∈ t) (x : Script S α) (os : List Outcome) : c ∈ (x.run os w t).2.2 := by
  have hx : x.Ensures (fun _ _ t' => c ∈ t') w t := by
    clear os
    induction x generalizing w t with
    | done a => exact hc
    | thrown => exact hc
    | call d answered failed ih_answered ih_failed =>
      refine ⟨ih_failed hc, ?_⟩
      intro r w' _
      exact ⟨ih_answered r (List.mem_append_left _ hc), ih_failed (List.mem_append_left _ hc)⟩
  exact ensures_run hx os

/-- A program that comes to its end goes on with the next one. -/
theorem run_bind {a : α} (hx : (x.run [] w t).1 = some a) :
    (x >>= f).run [] w t = (f a).run [] (x.run [] w t).2.1 (x.run [] w t).2.2 := by
  show (x.bind f).run [] w t = _
  induction x generalizing w t with
  | done b =>
    obtain rfl := Option.some.inj hx
    rfl
  | thrown => cases hx
  | call c answered failed ih_answered ih_failed =>
    simp only [Script.bind, run, List.tail_nil, List.headD_nil] at hx ⊢
    cases heffect : S.effect c w with
    | none =>
      rw [heffect] at hx
      exact ih_failed hx
    | some r =>
      rw [heffect] at hx
      exact ih_answered r.1 hx

/-- **What the second program does comes after what the first one ensures.** -/
theorem mem_run_bind (h : x.Ensures P w t) (hx : ((x.run [] w t).1).isSome)
    (hf : ∀ a w' t', P (some a) w' t' → c ∈ ((f a).run [] w' t').2.2) :
    c ∈ ((x >>= f).run [] w t).2.2 := by
  obtain ⟨a, ha⟩ := Option.isSome_iff_exists.mp hx
  rw [run_bind ha]
  exact hf a _ _ (ha ▸ ensures_run h [])

theorem isSome_run_bind (h : x.Ensures P w t) (hx : ((x.run [] w t).1).isSome)
    (hf : ∀ a w' t', P (some a) w' t' → (((f a).run [] w' t').1).isSome) :
    (((x >>= f).run [] w t).1).isSome := by
  obtain ⟨a, ha⟩ := Option.isSome_iff_exists.mp hx
  rw [run_bind ha]
  exact hf a _ _ (ha ▸ ensures_run h [])

/-! ## Invariants -/

/-- All calls of the program are of a kind. -/
def Only (p : S.Call → Prop) : Script S α → Prop
  | done _ | thrown => True
  | call c answered failed => p c ∧ (∀ r, (answered r).Only p) ∧ failed.Only p

variable {p : S.Call → Prop}

@[simp]
theorem only_pure {a : α} : (pure a : Script S α).Only p := trivial

@[simp]
theorem only_thrown : (thrown : Script S α).Only p := trivial

theorem only_await (h : p c) : (await (S := S) c).Only p := ⟨h, fun _ => trivial, trivial⟩

theorem Only.bind (h : x.Only p) (hf : ∀ a, (f a).Only p) : (x >>= f).Only p := by
  show (x.bind f).Only p
  induction x with
  | done a => exact hf a
  | thrown => trivial
  | call c answered failed ih_answered ih_failed =>
    exact ⟨h.1, fun r => ih_answered r (h.2.1 r), ih_failed h.2.2⟩

theorem Only.attempt {handler : Script S α} (h : x.Only p) (hhandler : handler.Only p) :
    (x.attempt handler).Only p := by
  induction x with
  | done a => trivial
  | thrown => exact hhandler
  | call c answered failed ih_answered ih_failed =>
    exact ⟨h.1, fun r => ih_answered r (h.2.1 r), ih_failed h.2.2⟩

/-- **What every call of the program keeps holds at its end.** -/
theorem Only.ensures {I : W → List S.Call → Prop} (h : x.Only p)
    (hkeeps : ∀ c r w w' t, p c → I w t → S.effect c w = some (r, w') → I w' (t ++ [c]))
    (hI : I w t) : x.Ensures (fun _ w t => I w t) w t := by
  induction x generalizing w t with
  | done a => exact hI
  | thrown => exact hI
  | call c answered failed ih_answered ih_failed =>
    refine ⟨ih_failed h.2.2 hI, ?_⟩
    intro r w' heffect
    have hI' : I w' (t ++ [c]) := hkeeps c r w w' t h.1 hI heffect
    exact ⟨ih_answered r (h.2.1 r) hI', ih_failed h.2.2 hI'⟩

end Scripts.Script
