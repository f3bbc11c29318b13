import Aoox.EnvironmentHistory

/-! # Optimistic writes

A client that edits what it revealed sends the `updatedAt` of the reveal back,
and the write is refused when the row has another one by then.  The token is no
counter: it is the start of the transaction that wrote the row, cut to
milliseconds.  Two transactions may start in the same millisecond, and the one
that commits last may have started first, so an equal token does not mean an
unchanged row.  It does as long as no transaction with that very token commits
behind the reveal.
-/
namespace Aoox.Environments

open JsString Function

/-- A finished reveal of environment `e` that returned token `token`. -/
def Reveal.Holds (r : Reveal) (e token : Nat) : Prop := ∃ text, r = .shown e token text

/-- No write takes the token that another client has revealed and not yet used. -/
def TokensFresh (s : State) : Action → Prop
  | .commit p clock id baselineId => ∀ w start env', s.phase p = .opened w start →
      accepted s p clock id baselineId = some (w.env, env') →
      ∀ q, q ≠ p → ¬ (s.reveals q).Holds w.env (start / 1000)
  | _ => True

/-- A client that still holds the current token has seen the current text. -/
def Reveal.Sound (envs : Nat → Option Environment) : Reveal → Prop
  | .nothing => True
  | .row e _ => ∃ env, envs e = some env
  | .shown e token text => ∃ env, envs e = some env ∧ (env.token = token → env.text = text)

def RevealsSound (s : State) : Prop := ∀ q, (s.reveals q).Sound s.envs

variable {s : State} {r : Reveal}

theorem RevealsSound.setReveal (hs : RevealsSound s) (p : Nat)
    (hr : r.Sound s.envs) : RevealsSound (s.setReveal p r) := by
  intro q
  by_cases hq : q = p
  · subst hq
    simpa [State.setReveal] using hr
  · simpa [State.setReveal, update_of_ne hq] using hs q

variable {envs : Nat → Option Environment} {e : Nat}

/-- A new environment has not been revealed by anyone. -/
theorem Reveal.Sound.fresh (h : r.Sound envs) (hnone : envs e = none) (env : Environment) :
    r.Sound (update envs e (some env)) := by
  have hne : ∀ {e' env'}, envs e' = some env' → e' ≠ e := fun he' heq => by
    rw [heq, hnone] at he'
    cases he'
  cases r with
  | nothing => trivial
  | row e' token =>
    obtain ⟨env', he'⟩ := h
    exact ⟨env', by rwa [update_of_ne (hne he')]⟩
  | shown e' token text =>
    obtain ⟨env', he', htext⟩ := h
    exact ⟨env', by rwa [update_of_ne (hne he')], htext⟩

variable {env : Environment}

theorem Reveal.Sound.write (h : r.Sound envs) (hfresh : ¬ r.Holds e env.token) :
    r.Sound (update envs e (some env)) := by
  cases r with
  | nothing => trivial
  | row e' token =>
    by_cases he : e' = e
    · exact ⟨env, by simp [he]⟩
    · obtain ⟨env', he'⟩ := h
      exact ⟨env', by rwa [update_of_ne he]⟩
  | shown e' token text =>
    by_cases he : e' = e
    · refine ⟨env, by simp [he], fun htoken => ?_⟩
      exact (hfresh ⟨text, by rw [he, htoken]⟩).elim
    · obtain ⟨env', he', htext⟩ := h
      exact ⟨env', by rwa [update_of_ne he], htext⟩

variable {env' : Environment} {w : Write} {db : Stamp}

/-- A write sets the token to the start of its transaction. -/
theorem token_of_transact (h : transact env w db = .ok env') : env'.token = db.start / 1000 := by
  obtain ⟨text, patch, ctx, hcommit⟩ := transact_ok h
  rw [Environment.token, (commit_ok hcommit).2.1]
  rfl

/-- **Every step that takes no revealed token keeps the reveals sound.** -/
theorem revealsSound_step {s' : State} {a : Action} (hs : RevealsSound s) (ha : TokensFresh s a)
    (h : step s a = some s') : RevealsSound s' := by
  cases step_effect h with
  | fresh hnone _ => exact fun q => (hs q).fresh hnone _
  | revealRow he => exact hs.setReveal _ ⟨_, he⟩
  | revealText _ he => exact hs.setReveal _ ⟨_, he, fun _ => rfl⟩
  | @write p clock id baselineId w start env env' hp he hw =>
    intro q
    by_cases hq : q = p
    · subst hq
      simp [State.finish, State.setReveal, Reveal.Sound]
    · have hfresh := ha w start env' hp (accepted_of hp he hw) q hq
      rw [show start / 1000 = env'.token from (token_of_transact hw).symm] at hfresh
      simpa [State.finish, State.setReveal, State.goto, State.put, update_of_ne hq]
        using (hs q).write hfresh
  | finish => exact hs.setReveal _ trivial
  | _ => exact hs

/-- A write that names a time is accepted under that token only. -/
theorem token_of_expected {token : Nat} (hw : w.expected = .time token)
    (h : transact env w db = .ok env') : env.token = token := by
  rw [transact, hw] at h
  simp only at h
  split at h
  · cases h
  · rename_i htoken
    exact Int.ofNat.inj (not_not.mp htoken)

/-- **An optimistic write is accepted only on the text its client revealed**, in
every run in which no write takes a token another client holds. -/
theorem text_of_accepted (acts : List Action) (s : State)
    (hc : Runs.Meets step TokensFresh initial acts) (hs : Runs.exec step initial acts = some s)
    (p token start clock id baselineId : Nat) (text : JsString) (w : Write) (env' : Environment)
    (hreveal : s.reveals p = .shown w.env token text) (hphase : s.phase p = .opened w start)
    (hexpected : w.expected = .time token)
    (haccepted : accepted s p clock id baselineId = some (w.env, env')) :
    (s.envs w.env).map Environment.text = some text := by
  have hinit : RevealsSound initial := fun _ => trivial
  have hsound : RevealsSound s :=
    Runs.exec_invariant (fun _ _ _ hinv ha hstep => revealsSound_step hinv ha hstep) acts _ s
      hinit hc hs
  obtain ⟨w', start', env, hp, -, he, htransact⟩ := accepted_eq haccepted
  obtain ⟨rfl, rfl⟩ := Phase.opened.inj (hphase.symm.trans hp)
  have hshown := hsound p
  rw [hreveal] at hshown
  obtain ⟨env₁, he₁, htext⟩ := hshown
  obtain rfl : env₁ = env := Option.some.inj (he₁.symm.trans he)
  rw [he, Option.map_some, htext (token_of_expected hexpected htransact)]

/-! ## Two writers and a reveal in between -/

/-- Client 0 has written; client 1 reveals, and edits what it saw. -/
def editRevealed : List Action :=
  .create 0 (js "staging") 1000000 :: editRun 0 (js "A=1") 2000100 2000400 7 8 ++
    [.revealRow 1 0, .revealText 1,
      .update 1 ⟨0, .time 2000, .restore 0, owner⟩ (js "C=3") [] .edit, .beginTx 1 5000000]

theorem tokensFresh_alone {p clock id baselineId : Nat} (h : ∀ q, q ≠ p → s.reveals q = .nothing) :
    TokensFresh s (.commit p clock id baselineId) := by
  rintro w start env' - - q hq ⟨text, htext⟩
  rw [h q hq] at htext
  cases htext

theorem text_of_accepted_editRevealed :
    ∃ s, Runs.exec step initial editRevealed = some s ∧
      (s.envs 0).map Environment.text = some (js "A=1") := by
  have hmeets : Runs.Meets step TokensFresh initial editRevealed :=
    Runs.meets_cons rfl trivial <| Runs.meets_cons rfl trivial <| Runs.meets_cons rfl trivial <|
      Runs.meets_cons rfl (tokensFresh_alone fun _ _ => rfl) <|
      Runs.meets_cons rfl trivial <| Runs.meets_cons rfl trivial <| Runs.meets_cons rfl trivial <|
      Runs.meets_cons rfl trivial trivial
  exact ⟨_, rfl, text_of_accepted editRevealed _ hmeets rfl 1 2000 5000000 5000400 9 10 (js "A=1")
    ⟨0, .time 2000, .edit (js "C=3") [] .edit, owner⟩ _ rfl rfl rfl rfl⟩

/-- Client 2 starts its transaction in the millisecond of client 0's, and commits
between the reveal of client 1 and its write. -/
def sameMillisecond : List Action :=
  .create 0 (js "staging") 1000000 :: editRun 0 (js "A=1") 2000100 2000400 7 8 ++
    [.update 2 ⟨0, .omitted, .restore 0, owner⟩ (js "B=2") [] .edit, .beginTx 2 2000900,
      .revealRow 1 0, .revealText 1, .commit 2 2003000 11 12,
      .update 1 ⟨0, .time 2000, .restore 0, owner⟩ (js "C=3") [] .edit, .beginTx 1 5000000]

/-- The write of client 1 is accepted and discards the change of client 2. -/
theorem stale_write_accepted :
    ∃ s w env', Runs.exec step initial sameMillisecond = some s ∧
      s.reveals 1 = .shown 0 2000 (js "A=1") ∧ s.phase 1 = .opened w 5000000 ∧
      w.env = 0 ∧ w.expected = .time 2000 ∧ accepted s 1 5000400 9 10 = some (0, env') ∧
      (s.envs 0).map Environment.text = some (js "B=2") ∧ js "B=2" ≠ js "A=1" :=
  ⟨_, _, _, rfl, rfl, rfl, rfl, rfl, rfl, rfl, by decide⟩

end Aoox.Environments
