import Aoox.JsString
import Aoox.Runs

/-! # Two-factor sign-ins with backup codes

The hashes of an account's unused backup codes are one list.  A sign-in reads the account,
and when its code is on the list it read, writes that list back without it.  Two sign-ins
that read the same list both pass: with the same code both are granted, and with different
codes the later write puts the code of the earlier one back.

`step` is any number of second sign-in steps of one account, each a read and perhaps a
write.  The codes are single use in every state of a run exactly when each sign-in that
writes still finds the list it read (`singleUse_iff`).
-/
namespace Aoox.TwoFactor
open JsString List Option Function

/-- What the service takes from elsewhere. -/
structure Lib (H : Type) where
  /-- The hexadecimal SHA-256 digest of a text. -/
  sha256 : JsString → H
  /-- `toLowerCase`. -/
  lower : JsString → JsString
  /-- The secret in an encrypted column. -/
  decryptSecret : JsString → JsString
  /-- The six digits for a secret and a counter. -/
  hotp : JsString → Int → JsString

/-- The columns of a user that the second step reads. -/
structure User (H : Type) where
  totpSecretEncrypted : Option JsString
  totpBackupHashes : Option (List H)

def stepSeconds : Nat := 30

def digits : Nat := 6

variable {H : Type} [DecidableEq H] (L : Lib H)

def hashBackupCode (code : JsString) : H :=
  L.sha256 (L.lower (code.filter fun c => !(isSpace c || c == cu '-')))

/-- Accepts the current step and its two neighbours; `ms` is the time. -/
def verifyTotp (secret token : JsString) (ms : Nat) : Bool :=
  if token.length = digits ∧ token.all isDigit then
    let step : Int := (ms / 1000 / stepSeconds : Nat)
    [-1, 0, 1].any fun i => token == L.hotp secret (step + i)
  else false

def verifyUserTotp (user : User H) (code : JsString) (ms : Nat) : Bool :=
  match user.totpSecretEncrypted with
  | none => false
  | some secret => verifyTotp L (L.decryptSecret secret) (code.filter fun c => !isSpace c) ms

/-- What `verifyChallenge` decides on the user it was given. -/
inductive Challenge (H : Type) where
  | totp
  | refused
  | backup (hash : H) (remaining : List H)

def verifyChallenge (user : User H) (code : JsString) (ms : Nat) : Challenge H :=
  if verifyUserTotp L user code ms then .totp
  else
    let hash := hashBackupCode L code
    let remaining := user.totpBackupHashes.getD []
    if remaining.contains hash then .backup hash remaining else .refused

/-- The write that consumes a backup code. -/
def consume (user : User H) (hash : H) (remaining : List H) : User H :=
  { user with totpBackupHashes := some (remaining.filter fun h => h ≠ hash) }

/-! ## Interleaved sign-ins -/

structure State (H : Type) where
  user : User H
  /-- The sign-ins that are about to write: the hash of the code and the list they read. -/
  verifying : Nat → Option (H × List H)
  /-- The backup codes that granted a sign-in, the last one first. -/
  granted : List H

inductive Action where
  /-- A sign-in reads the user and checks the code at time `ms`. -/
  | verify (n : Nat) (code : JsString) (ms : Nat)
  /-- A sign-in writes the remaining codes, and is granted. -/
  | write (n : Nat)

def initial (user : User H) : State H := ⟨user, fun _ => none, []⟩

/-- The hashes of the codes that are valid. -/
def State.hashes (s : State H) : List H := s.user.totpBackupHashes.getD []

def step (s : State H) : Action → Option (State H)
  | .verify n code ms =>
    if (s.verifying n).isSome then none
    else
      match verifyChallenge L s.user code ms with
      | .totp | .refused => some s
      | .backup hash remaining =>
        some { s with verifying := Function.update s.verifying n (some (hash, remaining)) }
  | .write n =>
    -- the whole column is written, from the list that was read
    (s.verifying n).map fun v =>
      { user := consume s.user v.1 v.2
        verifying := Function.update s.verifying n none
        granted := v.1 :: s.granted }

/-- Each backup code has granted at most one sign-in, and no code that granted one is valid. -/
structure SingleUse (s : State H) : Prop where
  once : s.granted.Nodup
  spent : ∀ h ∈ s.granted, h ∉ s.hashes

/-- A sign-in that writes still finds the list it read. -/
def Unchanged (s : State H) : Action → Prop
  | .write n => ∀ v, s.verifying n = some v → s.hashes = v.2
  | .verify _ _ _ => True

/-- What is stored is what a sign-in under way read, less the codes that granted a sign-in
since. -/
structure Consistent (s : State H) : Prop where
  single : SingleUse s
  read : ∀ n v, s.verifying n = some v →
    v.1 ∈ v.2 ∧ s.hashes = v.2.filter fun h => h ∉ s.granted

variable {L} {s s' : State H}

theorem consistent_initial (user : User H) : Consistent (initial user) where
  single := ⟨nodup_nil, fun h hh => by cases hh⟩
  read n v h := by cases h

@[simp] theorem hashes_consume (user : User H) (hash : H) (remaining : List H)
    (verifying : Nat → Option (H × List H)) (granted : List H) :
    State.hashes ⟨consume user hash remaining, verifying, granted⟩ =
      remaining.filter fun h => h ≠ hash := rfl

/-- A code that is accepted is on the list, and the list is the one that is stored. -/
theorem verifyChallenge_backup {user : User H} {code : JsString} {ms : Nat} {hash : H}
    {remaining : List H} (h : verifyChallenge L user code ms = .backup hash remaining) :
    hash ∈ remaining ∧ remaining = user.totpBackupHashes.getD [] := by
  unfold verifyChallenge at h
  split at h
  · cases h
  · dsimp only at h
    split at h
    · rename_i hmem
      cases h
      exact ⟨by simpa using hmem, rfl⟩
    · cases h

theorem Consistent.verify (h : Consistent s) {n : Nat} {hash : H} {remaining : List H}
    (hmem : hash ∈ remaining) (hread : remaining = s.hashes) :
    Consistent { s with verifying := update s.verifying n (some (hash, remaining)) } where
  single := ⟨h.single.once, h.single.spent⟩
  read m v hv := by
    rcases Runs.update_eq_some hv with ⟨-, hnew⟩ | ⟨-, hold⟩
    · obtain rfl := some.inj hnew
      refine ⟨hmem, ?_⟩
      -- nothing on the list has granted a sign-in, so the filter keeps all of it
      have hself : remaining.filter (fun h => h ∉ s.granted) = remaining := by
        rw [filter_eq_self]
        intro x hx
        have hx : x ∈ s.hashes := hread ▸ hx
        exact decide_eq_true fun hg => h.single.spent x hg hx
      show s.hashes = remaining.filter fun h => h ∉ s.granted
      rw [hself, hread]
    · exact h.read m v hold

theorem Consistent.write (h : Consistent s) {n : Nat} {v : H × List H}
    (hv : s.verifying n = some v) (hsame : s.hashes = v.2) :
    Consistent ⟨consume s.user v.1 v.2, update s.verifying n none, v.1 :: s.granted⟩ where
  single := by
    have hmem := (h.read n v hv).1
    refine ⟨nodup_cons.mpr ⟨?_, h.single.once⟩, ?_⟩
    · intro hg
      exact h.single.spent v.1 hg (hsame ▸ hmem)
    · intro x hx hvalid
      rw [hashes_consume, mem_filter] at hvalid
      obtain ⟨hx2, hne⟩ := hvalid
      rcases mem_cons.mp hx with rfl | hx
      · simp at hne
      · exact h.single.spent x hx (hsame ▸ hx2)
  read m w hw := by
    rcases Runs.update_eq_some hw with ⟨-, hnew⟩ | ⟨-, hold⟩
    · cases hnew
    · obtain ⟨hmem, hstored⟩ := h.read m w hold
      refine ⟨hmem, ?_⟩
      rw [hashes_consume, ← hsame, hstored, List.filter_filter]
      apply filter_congr
      intro x hx
      simp [not_or]

/-- A sign-in that writes an older list breaks the rule at once: a code on that list has
granted a sign-in since, and either it is the sign-in's own or it is valid again. -/
theorem Consistent.write_stale (h : Consistent s) {n : Nat} {v : H × List H}
    (hv : s.verifying n = some v) (hother : s.hashes ≠ v.2) :
    ¬ SingleUse ⟨consume s.user v.1 v.2, update s.verifying n none, v.1 :: s.granted⟩ := by
  intro hsingle
  have hstored := (h.read n v hv).2
  obtain ⟨x, hx, hg⟩ : ∃ x ∈ v.2, x ∈ s.granted := by
    by_contra hnone
    refine hother (hstored.trans (filter_eq_self.mpr fun x hx => ?_))
    exact decide_eq_true fun hg => hnone ⟨x, hx, hg⟩
  by_cases hown : x = v.1
  · subst hown
    exact (nodup_cons.mp hsingle.once).1 hg
  · refine hsingle.spent x (mem_cons_of_mem _ hg) ?_
    rw [hashes_consume, mem_filter]
    exact ⟨hx, by simpa using hown⟩

theorem Consistent.step {a : Action} (h : Consistent s) (ha : Unchanged s a)
    (hstep : step L s a = some s') : Consistent s' := by
  cases a with
  | verify n code ms =>
    simp only [TwoFactor.step] at hstep
    split at hstep
    · cases hstep
    · split at hstep
      · cases hstep
        exact h
      · cases hstep
        exact h
      · rename_i hash remaining hbackup
        cases hstep
        obtain ⟨hmem, hread⟩ := verifyChallenge_backup hbackup
        exact h.verify hmem hread
  | write n =>
    obtain ⟨v, hv, rfl⟩ := map_eq_some_iff.mp hstep
    exact h.write hv (ha v hv)

/-- A step that misses the condition is a write from an older list. -/
theorem Consistent.breaks {a : Action} (h : Consistent s) (ha : ¬ Unchanged s a) :
    ∃ s', TwoFactor.step L s a = some s' ∧ ¬ SingleUse s' := by
  cases a with
  | verify n code ms => exact absurd trivial ha
  | write n =>
    simp only [Unchanged, not_forall] at ha
    obtain ⟨v, hv, hother⟩ := ha
    exact ⟨_, map_eq_some_iff.mpr ⟨v, hv, rfl⟩, h.write_stale hv hother⟩

/-- **Backup codes are single use** in every state of a run exactly when every sign-in that
consumes one writes before another has changed the list it read. -/
theorem singleUse_iff (L : Lib H) (user : User H) (as : List Action) :
    Runs.Throughout (step L) SingleUse (initial user) as ↔
      Runs.Meets (step L) Unchanged (initial user) as :=
  Runs.throughout_iff_meets (fun _ _ _ h ha hstep => h.step ha hstep) (fun _ h => h.single)
    (fun _ _ h ha => h.breaks ha) as (initial user) (consistent_initial user)

/-- A digest that tells the codes of the example apart, and no authenticator. -/
def sampleLib : Lib JsString where
  sha256 := fun text => text
  lower := toLowerCase
  decryptSecret := fun text => text
  hotp := fun _ _ => []

/-- Two sign-ins with the same code read the list before either writes. -/
theorem backup_code_granted_twice :
    ¬ ∀ (as : List Action) (s : State JsString),
      Runs.exec (step sampleLib) (initial ⟨none, some [js "abcdefghjk", js "mnpqrstuvw"]⟩) as =
        some s → SingleUse s := by
  intro h
  have hrun := h [.verify 1 (js "abcde-fghjk") 0, .verify 2 (js "ABCDE FGHJK") 0, .write 1, .write 2]
  have hs := hrun _ rfl
  exact absurd hs.once (by decide)

end Aoox.TwoFactor
