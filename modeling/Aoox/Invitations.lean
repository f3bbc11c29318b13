import Aoox.ProjectAccess
import Aoox.Runs
import Aoox.Table

/-! # Invitations

An invitation is accepted in two parts: the link is looked up, which needs a pending
invitation that has not expired, and then a transaction claims the row, makes sure that
nobody has the e-mail, and inserts the account.  The claim is an update on the condition
that the row has not been accepted; it locks the row, so whoever else wants to accept,
replace or revoke the invitation waits for the end of the transaction and then looks at the
row again.  The condition says nothing about the expiry, which may pass between the lookup
and the claim.

`step` is any number of requests that accept, create and revoke invitations, statement by
statement.  Every account is from an invitation of its own, with its e-mail and role, that
was there and had not expired when it was claimed, in every state of a run exactly when no
transaction commits that has claimed an expired invitation (`sound_iff`).
-/
open List Function
namespace Aoox.Invite
open JsString
open Access (UserRole)

/-- What the services take from elsewhere. -/
structure Lib (H : Type) where
  /-- The SHA-256 digest of a token. -/
  hashToken : JsString → H
  /-- `toLowerCase`. -/
  lower : JsString → JsString

structure Invitation (H : Type) where
  id : Nat
  email : JsString
  role : UserRole
  tokenHash : H
  expiresAt : Nat
  /-- `accepted_at` is set. -/
  accepted : Bool

/-- Links stay valid this long. -/
def invitationTtlMs : Nat := 7 * 24 * 60 * 60 * 1000

/-- The invitations, no two with the same id. -/
structure Invitations (H : Type) where
  rows : List (Invitation H)
  nodup : (rows.map Invitation.id).Nodup

namespace Invitations
variable {H : Type}

def find (table : Invitations H) (id : Nat) : Option (Invitation H) :=
  Table.get Invitation.id table.rows id

def findPendingByToken [DecidableEq H] (table : Invitations H) (hash : H) (now : Nat) :
    Option (Invitation H) :=
  table.rows.find? fun i => i.tokenHash = hash ∧ i.accepted = false ∧ now < i.expiresAt

def delete (table : Invitations H) (gone : Invitation H → Bool) : Invitations H where
  rows := table.rows.filter fun i => !gone i
  nodup := table.nodup.sublist (List.Sublist.map _ List.filter_sublist)

/-- Sets `accepted_at` of one invitation. -/
def accept (table : Invitations H) (id : Nat) : Invitations H where
  rows := table.rows.map fun i => if i.id = id then { i with accepted := true } else i
  nodup := by
    have hkeys : (table.rows.map fun i => if i.id = id then { i with accepted := true } else i).map
        Invitation.id = table.rows.map Invitation.id := by
      rw [List.map_map]
      apply List.map_congr_left
      intro i _
      by_cases h : i.id = id <;> simp [h]
    exact hkeys ▸ table.nodup

def insert (table : Invitations H) (i : Invitation H) (h : i.id ∉ table.rows.map Invitation.id) :
    Invitations H where
  rows := table.rows ++ [i]
  nodup := Table.concat_keys_nodup table.nodup h

end Invitations

/-- An account that an invitation led to, and how the row was when it was claimed. -/
structure Account where
  invitation : Nat
  email : JsString
  role : UserRole
  claimedAt : Nat
  /-- The invitation had been revoked or replaced. -/
  withdrawn : Bool

/-- The statement an accepting transaction has come to. -/
inductive Stage where
  | claimed | noUser | saved
  deriving DecidableEq

/-- A request that accepts an invitation, which it has looked up. -/
inductive Accept (H : Type) where
  | found (i : Invitation H)
  /-- In the transaction; the row was claimed at a time, when it was withdrawn or not. -/
  | inside (i : Invitation H) (claimedAt : Nat) (withdrawn : Bool) (stage : Stage)

/-- A request that creates an invitation. -/
inductive Create where
  | checking (email : JsString) (role : UserRole)
  | free (email : JsString) (role : UserRole)
  /-- The delete of the pending invitations has begun; it sees these. -/
  | replacing (email : JsString) (role : UserRole) (seen : List Nat)
  | inserting (email : JsString) (role : UserRole)

structure State (H : Type) where
  now : Nat
  /-- What is committed. -/
  table : Invitations H
  /-- The e-mails of the users. -/
  users : List JsString
  /-- The transaction that holds the lock of an invitation. -/
  locked : Nat → Option Nat
  /-- The e-mails of users that are inserted and not committed. -/
  reserved : List JsString
  accepting : Nat → Option (Accept H)
  creating : Nat → Option Create
  /-- The invitations that are being revoked. -/
  revoking : Nat → Option Nat
  /-- Every invitation there has been, as it was created. -/
  issued : List (Invitation H)
  /-- The invitations that were revoked or replaced. -/
  withdrawn : List Nat
  /-- The accounts invitations have led to. -/
  accounts : List Account

inductive Action where
  | wait (ms : Nat)
  /-- Other requests add, change and delete users. -/
  | users (emails : List JsString)
  | lookUp (n : Nat) (token : JsString)
  /-- The update that claims the invitation. -/
  | claim (n : Nat)
  | findUser (n : Nat)
  | saveUser (n : Nat)
  | commit (n : Nat)
  /-- The transaction fails. -/
  | rollBack (n : Nat)
  /-- A caller creates an invitation. -/
  | create (n : Nat) (actor : UserRole) (email : JsString) (role : UserRole)
  | checkUser (n : Nat)
  | beginReplace (n : Nat)
  | endReplace (n : Nat)
  | insert (n id : Nat) (token : JsString)
  /-- A request that revokes looks its invitation up. -/
  | revoke (n id : Nat)
  | remove (n : Nat)

variable {H : Type} (L : Lib H)

def pristine (i : Invitation H) : Invitation H := { i with accepted := false }

def initial (table : Invitations H) (users : List JsString) : State H where
  now := 0
  table := table
  users := users
  locked := fun _ => none
  reserved := []
  accepting := fun _ => none
  creating := fun _ => none
  revoking := fun _ => none
  issued := table.rows.map pristine
  withdrawn := []
  accounts := []

/-- An accepting request without a transaction ends. -/
def State.refuse (s : State H) (n : Nat) : State H :=
  { s with accepting := Function.update s.accepting n none }

def State.advance (s : State H) (n : Nat) (a : Accept H) : State H :=
  { s with accepting := Function.update s.accepting n (some a) }

/-- The lock is given back and what was written is undone. -/
def State.rolledBack (s : State H) (n : Nat) (i : Invitation H) (stage : Stage) : State H :=
  { s.refuse n with
    locked := Function.update s.locked i.id none
    reserved := if stage = .saved then s.reserved.erase i.email else s.reserved }

/-- What was written is there for everybody, and the lock is given back. -/
def State.committed (s : State H) (n : Nat) (i : Invitation H) (claimedAt : Nat)
    (withdrawn : Bool) : State H :=
  { s.refuse n with
    table := s.table.accept i.id
    users := i.email :: s.users
    locked := Function.update s.locked i.id none
    reserved := s.reserved.erase i.email
    accounts := ⟨i.id, i.email, i.role, claimedAt, withdrawn⟩ :: s.accounts }

def State.createStep (s : State H) (n : Nat) (c : Option Create) : State H :=
  { s with creating := Function.update s.creating n c }

/-- The rows that the delete of a creating request removes. -/
def replaced (email : JsString) (seen : List Nat) (i : Invitation H) : Bool :=
  seen.contains i.id && i.email == email && !i.accepted

/-- Rows are deleted. -/
def State.withdraw (s : State H) (gone : Invitation H → Bool) : State H :=
  { s with
    table := s.table.delete gone
    withdrawn := (s.table.rows.filter gone).map Invitation.id ++ s.withdrawn }

def step [DecidableEq H] (s : State H) : Action → Option (State H)
  | .wait ms => some { s with now := s.now + ms }
  | .users emails => some { s with users := emails }
  | .lookUp n token =>
    if (s.accepting n).isSome then none
    else
      match s.table.findPendingByToken (L.hashToken token) s.now with
      | none => some s
      | some i => some (s.advance n (.found i))
  | .claim n =>
    match s.accepting n with
    | some (.found i) =>
      if (s.locked i.id).isSome then none
      -- WHERE accepted_at IS NULL; whether it has expired is not asked again
      else if (s.table.find i.id).any fun r => !r.accepted then
        some { s.advance n (.inside i s.now (s.withdrawn.contains i.id) .claimed) with
          locked := Function.update s.locked i.id (some n) }
      else some (s.refuse n)
    | _ => none
  | .findUser n =>
    match s.accepting n with
    | some (.inside i t w .claimed) =>
      if s.users.contains i.email then some (s.rolledBack n i .claimed)
      else some (s.advance n (.inside i t w .noUser))
    | _ => none
  | .saveUser n =>
    match s.accepting n with
    | some (.inside i t w .noUser) =>
      -- the unique index makes the insert wait for the other transaction
      if s.reserved.contains i.email then none
      else if s.users.contains i.email then some (s.rolledBack n i .noUser)
      else some { s.advance n (.inside i t w .saved) with reserved := i.email :: s.reserved }
    | _ => none
  | .commit n =>
    match s.accepting n with
    | some (.inside i t w .saved) => some (s.committed n i t w)
    | _ => none
  | .rollBack n =>
    match s.accepting n with
    | some (.inside i _ _ stage) => some (s.rolledBack n i stage)
    | _ => none
  | .create n actor email role =>
    if (s.creating n).isSome then none
    else if role = .owner ∧ actor ≠ .owner then some s
    else some (s.createStep n (some (.checking (trim (L.lower email)) role)))
  | .checkUser n =>
    match s.creating n with
    | some (.checking email role) =>
      if s.users.contains email then some (s.createStep n none)
      else some (s.createStep n (some (.free email role)))
    | _ => none
  | .beginReplace n =>
    match s.creating n with
    | some (.free email role) =>
      some (s.createStep n (some (.replacing email role (s.table.rows.map Invitation.id))))
    | _ => none
  | .endReplace n =>
    match s.creating n with
    | some (.replacing email role seen) =>
      -- the delete waits for a row that is locked, and then sees it as it is
      if s.table.rows.any fun i => replaced email seen i && (s.locked i.id).isSome then none
      else some ((s.withdraw (replaced email seen)).createStep n (some (.inserting email role)))
    | _ => none
  | .insert n id token =>
    match s.creating n with
    | some (.inserting email role) =>
      let i : Invitation H := ⟨id, email, role, L.hashToken token, s.now + invitationTtlMs, false⟩
      if h : i.id ∈ s.table.rows.map Invitation.id then none
      else if id ∈ s.issued.map Invitation.id then none
      else if s.table.rows.any fun r => r.tokenHash = i.tokenHash then some (s.createStep n none)
      else some { s.createStep n none with table := s.table.insert i h, issued := i :: s.issued }
    | _ => none
  | .revoke n id =>
    if (s.revoking n).isSome then none
    else if (s.table.find id).isNone then some s
    else some { s with revoking := Function.update s.revoking n (some id) }
  | .remove n =>
    match s.revoking n with
    | some id =>
      if (s.locked id).isSome then none
      else some { s.withdraw (fun i => i.id = id) with revoking := Function.update s.revoking n none }
    | none => none

/-- **What accounts owe their invitations.** -/
structure Sound (s : State H) : Prop where
  once : (s.accounts.map Account.invitation).Nodup
  /-- The invitation had not been revoked or replaced, nor had it expired, when it was
  claimed, and the account has its e-mail and role. -/
  invited : ∀ a ∈ s.accounts, a.withdrawn = false ∧
    ∃ i ∈ s.issued, i.id = a.invitation ∧ a.claimedAt < i.expiresAt ∧
      a.email = i.email ∧ a.role = i.role

/-- A transaction that commits has claimed its invitation before that expired. -/
def ClaimedInTime (s : State H) : Action → Prop
  | .commit n => ∀ i t w, s.accepting n = some (.inside i t w .saved) → t < i.expiresAt
  | _ => True

/-! ## What every step keeps -/

/-- The rows, the locks and the accounts fit together. -/
structure Consistent (s : State H) : Prop where
  sound : Sound s
  ids : (s.issued.map Invitation.id).Nodup
  row : ∀ r ∈ s.table.rows, pristine r ∈ s.issued ∧ r.id ∉ s.withdrawn
  withdrawn : ∀ id ∈ s.withdrawn, id ∈ s.issued.map Invitation.id
  accepted : ∀ a ∈ s.accounts, ∀ r ∈ s.table.rows, r.id = a.invitation → r.accepted = true
  found : ∀ n i, s.accepting n = some (.found i) → i ∈ s.issued
  /-- The row a transaction has claimed is locked for it, still there and not accepted. -/
  inside : ∀ n i t w stage, s.accepting n = some (.inside i t w stage) →
    i ∈ s.issued ∧ w = false ∧ s.locked i.id = some n ∧
      ∃ r ∈ s.table.rows, r.id = i.id ∧ r.accepted = false

variable {L} {s s' : State H}

theorem consistent_initial (table : Invitations H) (users : List JsString) :
    Consistent (initial table users) where
  sound := ⟨nodup_nil, fun a h => by (cases h)⟩
  ids := by
    show ((table.rows.map pristine).map Invitation.id).Nodup
    rw [map_map]
    exact table.nodup
  row r h := ⟨mem_map_of_mem h, fun h => by (cases h)⟩
  withdrawn id h := by cases h
  accepted a h := by cases h
  found n i h := by cases h
  inside n i t w stage h := by cases h

/-- Steps that leave rows, locks and accounts alone, and add no claim. -/
theorem Consistent.of_eq (h : Consistent s) (htable : s'.table = s.table)
    (hlocked : s'.locked = s.locked) (hissued : s'.issued = s.issued)
    (hwithdrawn : s'.withdrawn = s.withdrawn) (haccounts : s'.accounts = s.accounts)
    (hfound : ∀ n i, s'.accepting n = some (.found i) → i ∈ s.issued)
    (hinside : ∀ n i t w stage, s'.accepting n = some (.inside i t w stage) →
      ∃ stage', s.accepting n = some (.inside i t w stage')) : Consistent s' where
  sound := by
    refine ⟨?_, ?_⟩
    · rw [haccounts]
      exact h.sound.once
    · rw [haccounts, hissued]
      exact h.sound.invited
  ids := by
    rw [hissued]
    exact h.ids
  row := by
    rw [htable, hissued, hwithdrawn]
    exact h.row
  withdrawn := by
    rw [hissued, hwithdrawn]
    exact h.withdrawn
  accepted := by
    rw [haccounts, htable]
    exact h.accepted
  found := by
    rw [hissued]
    exact hfound
  inside n i t w stage hn := by
    obtain ⟨stage', hold⟩ := hinside n i t w stage hn
    rw [htable, hlocked, hissued]
    exact h.inside n i t w stage' hold

/-- Steps that leave everything about accepting requests alone. -/
theorem Consistent.of_accepting (h : Consistent s) (htable : s'.table = s.table)
    (hlocked : s'.locked = s.locked) (hissued : s'.issued = s.issued)
    (hwithdrawn : s'.withdrawn = s.withdrawn) (haccounts : s'.accounts = s.accounts)
    (haccepting : s'.accepting = s.accepting) : Consistent s' := by
  refine h.of_eq htable hlocked hissued hwithdrawn haccounts ?_ ?_
  · rw [haccepting]
    exact h.found
  · rw [haccepting]
    intro n i t w stage hn
    exact ⟨stage, hn⟩

theorem Consistent.refuse (h : Consistent s) (n : Nat) : Consistent (s.refuse n) := by
  refine h.of_eq rfl rfl rfl rfl rfl ?_ ?_
  · intro m i hm
    rcases Runs.update_eq_some hm with ⟨-, hnew⟩ | ⟨-, hold⟩
    · cases hnew
    · exact h.found m i hold
  · intro m i t w stage hm
    rcases Runs.update_eq_some hm with ⟨-, hnew⟩ | ⟨-, hold⟩
    · cases hnew
    · exact ⟨stage, hold⟩

variable {i : Invitation H}

theorem Consistent.advance_found (h : Consistent s) (n : Nat)
    (hi : i ∈ s.issued) : Consistent (s.advance n (.found i)) := by
  refine h.of_eq rfl rfl rfl rfl rfl ?_ ?_
  · intro m j hm
    rcases Runs.update_eq_some hm with ⟨-, hnew⟩ | ⟨-, hold⟩
    · cases hnew
      exact hi
    · exact h.found m j hold
  · intro m j t w stage hm
    rcases Runs.update_eq_some hm with ⟨-, hnew⟩ | ⟨-, hold⟩
    · cases hnew
    · exact ⟨stage, hold⟩

variable {n : Nat} {stage : Stage}

/-- A transaction goes on to its next statement. -/
theorem Consistent.advance_inside (h : Consistent s) {t : Nat} {w : Bool}
    (hn : s.accepting n = some (.inside i t w stage)) (stage' : Stage) :
    Consistent (s.advance n (.inside i t w stage')) := by
  refine h.of_eq rfl rfl rfl rfl rfl ?_ ?_
  · intro m j hm
    rcases Runs.update_eq_some hm with ⟨-, hnew⟩ | ⟨-, hold⟩
    · cases hnew
    · exact h.found m j hold
  · intro m j t' w' stage'' hm
    rcases Runs.update_eq_some hm with ⟨rfl, hnew⟩ | ⟨-, hold⟩
    · cases hnew
      exact ⟨stage, hn⟩
    · exact ⟨stage'', hold⟩

/-- The claim of a pending row that nobody has locked. -/
theorem Consistent.claim (h : Consistent s) (hn : s.accepting n = some (.found i))
    (hfree : s.locked i.id = none) (hrow : ∃ r ∈ s.table.rows, r.id = i.id ∧ r.accepted = false) :
    Consistent { s.advance n (.inside i s.now (s.withdrawn.contains i.id) .claimed) with
      locked := update s.locked i.id (some n) } where
  sound := ⟨h.sound.once, h.sound.invited⟩
  ids := h.ids
  row := h.row
  withdrawn := h.withdrawn
  accepted := h.accepted
  found m j hm := by
    rcases Runs.update_eq_some hm with ⟨-, hnew⟩ | ⟨-, hold⟩
    · cases hnew
    · exact h.found m j hold
  inside m j t w stage hm := by
    rcases Runs.update_eq_some hm with ⟨rfl, hnew⟩ | ⟨-, hold⟩
    · cases hnew
      obtain ⟨r, hr, hid, hpending⟩ := hrow
      have hnot : i.id ∉ s.withdrawn := hid ▸ (h.row r hr).2
      exact ⟨h.found m i hn, by simpa using hnot, update_self _ _ _, r, hr, hid, hpending⟩
    · obtain ⟨hj, hw, hlock, hpending⟩ := h.inside m j t w stage hold
      refine ⟨hj, hw, ?_, hpending⟩
      have hne : j.id ≠ i.id := by
        intro he
        rw [he, hfree] at hlock
        cases hlock
      exact (update_of_ne hne _ _).trans hlock

/-- Another transaction holds another lock. -/
theorem Consistent.other_lock (h : Consistent s) {m : Nat} {j : Invitation H} {t t' : Nat}
    {w w' : Bool} {stage' : Stage} (hn : s.accepting n = some (.inside i t w stage))
    (hm : s.accepting m = some (.inside j t' w' stage')) (hne : m ≠ n) : j.id ≠ i.id := by
  intro he
  have hlock := (h.inside m j t' w' stage' hm).2.2.1
  rw [he, (h.inside n i t w stage hn).2.2.1] at hlock
  exact hne (Option.some.inj hlock).symm

theorem Consistent.rolledBack (h : Consistent s) {t : Nat} {w : Bool}
    (hn : s.accepting n = some (.inside i t w stage)) (stage' : Stage) :
    Consistent (s.rolledBack n i stage') where
  sound := ⟨h.sound.once, h.sound.invited⟩
  ids := h.ids
  row := h.row
  withdrawn := h.withdrawn
  accepted := h.accepted
  found := (h.refuse n).found
  inside m j t' w' stage'' hm := by
    rcases Runs.update_eq_some hm with ⟨-, hnew⟩ | ⟨hne, hold⟩
    · cases hnew
    · obtain ⟨hj, hw, hlock, hpending⟩ := h.inside m j t' w' stage'' hold
      have hother := h.other_lock hn hold hne
      exact ⟨hj, hw, (update_of_ne hother _ _).trans hlock, hpending⟩

theorem mem_accept {table : Invitations H} {id : Nat} {r : Invitation H} :
    r ∈ (table.accept id).rows ↔ ∃ q ∈ table.rows,
      r = if q.id = id then { q with accepted := true } else q := by
  simp only [Invitations.accept, mem_map, eq_comm]

/-- A commit in time adds the account of an invitation that had none. -/
theorem Consistent.committed (h : Consistent s) {t : Nat} {w : Bool}
    (hn : s.accepting n = some (.inside i t w stage)) (htime : t < i.expiresAt) :
    Consistent (s.committed n i t w) := by
  obtain ⟨hi, hw, hlock, r, hr, hid, hpending⟩ := h.inside n i t w stage hn
  have hnew : i.id ∉ s.accounts.map Account.invitation := by
    intro hmem
    obtain ⟨a, ha, hinv⟩ := mem_map.mp hmem
    have haccepted := h.accepted a ha r hr (hid.trans hinv.symm)
    rw [hpending] at haccepted
    cases haccepted
  refine ⟨⟨?_, ?_⟩, h.ids, ?_, h.withdrawn, ?_, (h.refuse n).found, ?_⟩
  · exact nodup_cons.mpr ⟨hnew, h.sound.once⟩
  · intro a ha
    rcases mem_cons.mp ha with rfl | hold
    · exact ⟨hw, i, hi, rfl, htime, rfl, rfl⟩
    · exact h.sound.invited a hold
  · intro r' hr'
    obtain ⟨q, hq, rfl⟩ := mem_accept.mp hr'
    split
    · exact h.row q hq
    · exact h.row q hq
  · intro a ha r' hr' he
    obtain ⟨q, hq, rfl⟩ := mem_accept.mp hr'
    split at he
    · rename_i hqid
      rw [if_pos hqid]
    · rename_i hqid
      rw [if_neg hqid]
      rcases mem_cons.mp ha with rfl | hold
      · exact absurd he hqid
      · exact h.accepted a hold q hq he
  · intro m j t' w' stage' hm
    rcases Runs.update_eq_some hm with ⟨-, hnone⟩ | ⟨hne, hold⟩
    · cases hnone
    · obtain ⟨hj, hw', hlock', q, hq, hqid, hqpending⟩ := h.inside m j t' w' stage' hold
      have hother := h.other_lock hn hold hne
      refine ⟨hj, hw', (update_of_ne hother _ _).trans hlock', q, ?_, hqid, hqpending⟩
      refine mem_accept.mpr ⟨q, hq, ?_⟩
      rw [if_neg (hqid ▸ hother)]

/-- Rows that nobody has locked are deleted. -/
theorem Consistent.withdraw (h : Consistent s) (gone : Invitation H → Bool)
    (hfree : ∀ r ∈ s.table.rows, gone r = true → r.accepted = false → s.locked r.id = none) :
    Consistent (s.withdraw gone) where
  sound := ⟨h.sound.once, h.sound.invited⟩
  ids := h.ids
  row r hr := by
    obtain ⟨hmem, hkept⟩ := mem_filter.mp hr
    refine ⟨(h.row r hmem).1, ?_⟩
    intro hgone
    rcases mem_append.mp hgone with hnew | hold
    · obtain ⟨q, hq, hid⟩ := mem_map.mp hnew
      obtain ⟨hqmem, hqgone⟩ := mem_filter.mp hq
      obtain rfl : q = r := inj_on_of_nodup_map s.table.nodup hqmem hmem hid
      simp [hqgone] at hkept
    · exact (h.row r hmem).2 hold
  withdrawn id hid := by
    rcases mem_append.mp hid with hnew | hold
    · obtain ⟨q, hq, rfl⟩ := mem_map.mp hnew
      exact mem_map.mpr ⟨pristine q, (h.row q (mem_filter.mp hq).1).1, rfl⟩
    · exact h.withdrawn id hold
  accepted a ha r hr := h.accepted a ha r (mem_filter.mp hr).1
  found := h.found
  inside n i t w stage hn := by
    obtain ⟨hi, hw, hlock, r, hr, hid, hpending⟩ := h.inside n i t w stage hn
    refine ⟨hi, hw, hlock, r, mem_filter.mpr ⟨hr, ?_⟩, hid, hpending⟩
    -- the row of a claim is locked, so it stays
    cases hgone : gone r with
    | false => rfl
    | true =>
      rw [← hid, hfree r hr hgone hpending] at hlock
      cases hlock

theorem Consistent.insert (h : Consistent s) (hrows : i.id ∉ s.table.rows.map Invitation.id)
    (hfresh : i.id ∉ s.issued.map Invitation.id) (hpristine : pristine i = i) (n : Nat) :
    Consistent { s.createStep n none with
      table := s.table.insert i hrows, issued := i :: s.issued } where
  sound := by
    refine ⟨h.sound.once, ?_⟩
    intro a ha
    obtain ⟨hw, j, hj, hrest⟩ := h.sound.invited a ha
    exact ⟨hw, j, mem_cons_of_mem _ hj, hrest⟩
  ids := nodup_cons.mpr ⟨hfresh, h.ids⟩
  row r hr := by
    rcases mem_append.mp hr with hold | hnew
    · exact ⟨mem_cons_of_mem _ (h.row r hold).1, (h.row r hold).2⟩
    · obtain rfl := mem_singleton.mp hnew
      refine ⟨?_, fun hw => hfresh (h.withdrawn _ hw)⟩
      rw [hpristine]
      exact mem_cons_self
  withdrawn id hid := mem_map.mpr (by
    obtain ⟨j, hj, rfl⟩ := mem_map.mp (h.withdrawn id hid)
    exact ⟨j, mem_cons_of_mem _ hj, rfl⟩)
  accepted a ha r hr he := by
    rcases mem_append.mp hr with hold | hnew
    · exact h.accepted a ha r hold he
    · obtain rfl := mem_singleton.mp hnew
      obtain ⟨-, j, hj, hinv, -⟩ := h.sound.invited a ha
      exact absurd (mem_map.mpr ⟨j, hj, hinv.trans he.symm⟩) hfresh
  found m j hm := mem_cons_of_mem _ (h.found m j hm)
  inside m j t w stage hm := by
    obtain ⟨hj, hw, hlock, r, hr, hid, hpending⟩ := h.inside m j t w stage hm
    exact ⟨mem_cons_of_mem _ hj, hw, hlock, r, mem_append_left _ hr, hid, hpending⟩

variable [DecidableEq H]

/-- Everything but a commit keeps the invariant. -/
theorem Consistent.step {a : Action} (h : Consistent s) (ha : ClaimedInTime s a)
    (hstep : step L s a = some s') : Consistent s' := by
  cases a with
  | wait ms =>
    cases hstep
    exact h.of_accepting rfl rfl rfl rfl rfl rfl
  | users emails =>
    cases hstep
    exact h.of_accepting rfl rfl rfl rfl rfl rfl
  | lookUp n token =>
    simp only [Invite.step] at hstep
    split at hstep
    · cases hstep
    · split at hstep
      · cases hstep
        exact h
      · rename_i i hfind
        cases hstep
        have hmem : i ∈ s.table.rows := List.mem_of_find?_eq_some hfind
        have hpending : i.accepted = false := by
          have hprop := List.find?_some hfind
          simp only [decide_eq_true_eq] at hprop
          exact hprop.2.1
        have hpristine : pristine i = i := by
          unfold pristine
          rw [← hpending]
        exact h.advance_found n (hpristine ▸ (h.row i hmem).1)
  | claim n =>
    simp only [Invite.step] at hstep
    split at hstep
    · rename_i i hn
      split at hstep
      · cases hstep
      · rename_i hfree
        split at hstep
        · rename_i hrow
          cases hstep
          obtain ⟨r, hr, hpending⟩ := (Option.any_eq_true _ _).mp hrow
          obtain ⟨hmem, hid⟩ := Table.mem_of_get hr
          exact h.claim hn (by simpa using hfree) ⟨r, hmem, hid, by simpa using hpending⟩
        · cases hstep
          exact h.refuse n
    · cases hstep
  | findUser n =>
    simp only [Invite.step] at hstep
    split at hstep
    · rename_i i t w hn
      split at hstep
      · cases hstep
        exact h.rolledBack hn _
      · cases hstep
        exact h.advance_inside hn _
    · cases hstep
  | saveUser n =>
    simp only [Invite.step] at hstep
    split at hstep
    · rename_i i t w hn
      split at hstep
      · cases hstep
      · split at hstep
        · cases hstep
          exact h.rolledBack hn _
        · cases hstep
          exact (h.advance_inside hn .saved).of_accepting rfl rfl rfl rfl rfl rfl
    · cases hstep
  | commit n =>
    simp only [Invite.step] at hstep
    split at hstep
    · rename_i i t w hn
      cases hstep
      exact h.committed hn (ha i t w hn)
    · cases hstep
  | rollBack n =>
    simp only [Invite.step] at hstep
    split at hstep
    · rename_i i t w stage hn
      cases hstep
      exact h.rolledBack hn stage
    · cases hstep
  | create n actor email role =>
    simp only [Invite.step] at hstep
    split at hstep
    · cases hstep
    · split at hstep
      · cases hstep
        exact h
      · cases hstep
        exact h.of_accepting rfl rfl rfl rfl rfl rfl
  | checkUser n =>
    simp only [Invite.step] at hstep
    split at hstep
    · split at hstep
      · cases hstep
        exact h.of_accepting rfl rfl rfl rfl rfl rfl
      · cases hstep
        exact h.of_accepting rfl rfl rfl rfl rfl rfl
    · cases hstep
  | beginReplace n =>
    simp only [Invite.step] at hstep
    split at hstep
    · cases hstep
      exact h.of_accepting rfl rfl rfl rfl rfl rfl
    · cases hstep
  | endReplace n =>
    simp only [Invite.step] at hstep
    split at hstep
    · rename_i email role seen hn
      split at hstep
      · cases hstep
      · rename_i hfree
        cases hstep
        refine (h.withdraw (replaced email seen) ?_).of_accepting rfl rfl rfl rfl rfl rfl
        intro r hr hgone _
        simp only [any_eq_true, not_exists, not_and, Bool.and_eq_true] at hfree
        simpa [hgone] using hfree r hr
    · cases hstep
  | insert n id token =>
    simp only [Invite.step] at hstep
    split at hstep
    · rename_i email role hn
      split at hstep
      · cases hstep
      · rename_i hrows
        split at hstep
        · cases hstep
        · rename_i hfresh
          split at hstep
          · cases hstep
            exact h.of_accepting rfl rfl rfl rfl rfl rfl
          · cases hstep
            exact h.insert hrows hfresh rfl n
    · cases hstep
  | revoke n id =>
    simp only [Invite.step] at hstep
    split at hstep
    · cases hstep
    · split at hstep
      · cases hstep
        exact h
      · cases hstep
        exact h.of_accepting rfl rfl rfl rfl rfl rfl
  | remove n =>
    simp only [Invite.step] at hstep
    split at hstep
    · rename_i id hn
      split at hstep
      · cases hstep
      · rename_i hfree
        cases hstep
        refine (h.withdraw (fun i => i.id = id) ?_).of_accepting rfl rfl rfl rfl rfl rfl
        intro r _ hgone _
        obtain rfl : r.id = id := by simpa using hgone
        simpa using hfree
    · cases hstep

/-- A commit that has claimed an expired invitation makes an account it should not. -/
theorem Consistent.breaks {a : Action} (h : Consistent s) (ha : ¬ ClaimedInTime s a) :
    ∃ s', Invite.step L s a = some s' ∧ ¬ Sound s' := by
  cases a with
  | commit n =>
    simp only [ClaimedInTime, not_forall] at ha
    obtain ⟨i, t, w, hn, hlate⟩ := ha
    refine ⟨s.committed n i t w, ?_, ?_⟩
    · simp only [Invite.step, hn]
    · intro hsound
      obtain ⟨-, j, hj, hid, htime, -⟩ := hsound.invited _ mem_cons_self
      have hi : i ∈ s.issued := (h.inside n i t w .saved hn).1
      obtain rfl : j = i := inj_on_of_nodup_map h.ids hj hi hid
      exact hlate htime
  | wait ms => exact absurd trivial ha
  | users emails => exact absurd trivial ha
  | lookUp n token => exact absurd trivial ha
  | claim n => exact absurd trivial ha
  | findUser n => exact absurd trivial ha
  | saveUser n => exact absurd trivial ha
  | rollBack n => exact absurd trivial ha
  | create n actor email role => exact absurd trivial ha
  | checkUser n => exact absurd trivial ha
  | beginReplace n => exact absurd trivial ha
  | endReplace n => exact absurd trivial ha
  | insert n id token => exact absurd trivial ha
  | revoke n id => exact absurd trivial ha
  | remove n => exact absurd trivial ha

/-- **Accounts from invitations.**  In every state of a run an invitation has led to one
account at most, with its e-mail and role, and had not been revoked, replaced or expired when
it was claimed, exactly when every transaction that commits has claimed its invitation before
that expired. -/
theorem sound_iff (L : Lib H) (table : Invitations H) (users : List JsString) (as : List Action) :
    Runs.Throughout (step L) Sound (initial table users) as ↔
      Runs.Meets (step L) ClaimedInTime (initial table users) as :=
  Runs.throughout_iff_meets (fun _ _ _ h ha hstep => h.step ha hstep) (fun _ h => h.sound)
    (fun _ _ h ha => h.breaks ha) as (initial table users) (consistent_initial table users)

def sampleLib : Lib JsString := ⟨fun token => token, toLowerCase⟩

/-- An invitation that expires while the password is being hashed. -/
def lastMinute : Invitations JsString :=
  ⟨[⟨1, js "ann@example.org", .admin, js "token", 100, false⟩], by decide⟩

/-- The link is looked up at 99 and claimed at 150. -/
theorem expired_invitation_accepted :
    ¬ ∀ (as : List Action) (s : State JsString),
      Runs.exec (step sampleLib) (initial lastMinute []) as = some s → Sound s := by
  intro h
  have hsound := h [.wait 99, .lookUp 1 (js "token"), .wait 51, .claim 1, .findUser 1, .saveUser 1,
    .commit 1] _ rfl
  obtain ⟨-, i, hi, -, htime, -⟩ := hsound.invited _ List.mem_cons_self
  obtain rfl := List.mem_singleton.mp hi
  exact absurd htime (by decide)

end Aoox.Invite
