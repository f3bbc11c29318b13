import Mathlib.Data.List.Perm.Subperm
import Mathlib.Data.List.Sort

/-! # Pages behind a mark

Rows are shown page by page, the greatest key first.  A page begins behind the mark of the last row
of the page before, and a mark may stand for several keys.  Rows with one key come in any order, in
another one for each page.

No row comes twice (`pages_subperm`), so there is an end to it.  Every row comes when no page ends
in the middle of the rows of one mark, and only then (`pages_perm_iff`).
-/
open List
namespace KeysetPages

variable {α K M : Type*} [LinearOrder M]

section
variable (key : α → K) (mark : K → M)

def behind (before : Option M) (rows : List α) : List α :=
  rows.filter fun r => before.all fun m => mark (key r) < m

/-- No page of `n` rows ends in the middle of the rows of one mark. -/
def Undivided (n : Nat) (rows : List α) : Prop :=
  ∀ r ∈ rows, ∀ k : Nat, k * n ≤ rows.countP (fun r' => mark (key r) < mark (key r')) ∨
    rows.countP (fun r' => mark (key r) ≤ mark (key r')) ≤ k * n

variable [LinearOrder K]

/-- One page: the first rows of those behind the mark, in some order of the keys. -/
def IsPage (n : Nat) (rows : List α) (before : Option M) (page : List α) : Prop :=
  ∃ l : List α, l.Perm (behind key mark before rows) ∧ l.Pairwise (fun r r' => key r' ≤ key r) ∧
    page = l.take n

/-- Pages that are not empty, from one mark to another. -/
inductive Pages (n : Nat) (rows : List α) : Option M → List (List α) → Option M → Prop
  | start (before : Option M) : Pages n rows before [] before
  | page {before last : Option M} {front : List α} {r : α} {pages : List (List α)}
      (h : IsPage key mark n rows before (front ++ [r]))
      (more : Pages n rows (some (mark (key r))) pages last) :
      Pages n rows before ((front ++ [r]) :: pages) last

end

variable {key : α → K} {mark : K → M}

variable {n : Nat} {rows : List α}

theorem Undivided.perm {rows' : List α} (hperm : rows.Perm rows')
    (h : Undivided key mark n rows) : Undivided key mark n rows' := by
  intro r hr k
  rw [← hperm.countP_eq, ← hperm.countP_eq]
  exact h r (hperm.mem_iff.mpr hr) k

theorem undivided_of_length_le (h : rows.length ≤ n) : Undivided key mark n rows := by
  intro r _ k
  rcases k.eq_zero_or_pos with rfl | hk
  · exact .inl (by simp)
  · exact .inr (countP_le_length.trans (h.trans (Nat.le_mul_of_pos_left n hk)))

variable [LinearOrder K]

variable {front rest : List α} {r : α}

/-- **A page is cut off** rightly when no row behind it has the mark of its last row. -/
theorem undivided_append_iff (hmono : Monotone mark) (hlen : (front ++ [r]).length = n)
    (hsorted : ((front ++ [r]) ++ rest).Pairwise fun a b => key b ≤ key a) :
    Undivided key mark n ((front ++ [r]) ++ rest) ↔
      (∀ x ∈ rest, mark (key x) < mark (key r)) ∧ Undivided key mark n rest := by
  obtain ⟨hpage, -, hbetween⟩ := pairwise_append.mp hsorted
  have hfront : ∀ y ∈ front ++ [r], mark (key r) ≤ mark (key y) := by
    intro y hy
    rcases mem_append.mp hy with hy | hy
    · exact hmono ((pairwise_append.mp hpage).2.2 y hy r (mem_singleton_self r))
    · rw [mem_singleton.mp hy]
  have hrest : ∀ x ∈ rest, mark (key x) ≤ mark (key r) := fun x hx =>
    hmono (hbetween r (by simp) x hx)
  -- a row of a lower mark has the whole page before it
  have hbefore : ∀ x, mark (key x) < mark (key r) →
      (front ++ [r]).countP (fun y => mark (key x) < mark (key y)) = n ∧
        (front ++ [r]).countP (fun y => mark (key x) ≤ mark (key y)) = n := by
    intro x hx
    rw [← hlen]
    exact ⟨countP_eq_length.mpr fun y hy => decide_eq_true (hx.trans_le (hfront y hy)),
      countP_eq_length.mpr fun y hy => decide_eq_true (hx.le.trans (hfront y hy))⟩
  have hsum : ∀ p : α → Bool, ((front ++ [r]) ++ rest).countP p =
      (front ++ [r]).countP p + rest.countP p := fun p => countP_append
  constructor
  · intro h
    have hcut : ∀ x ∈ rest, mark (key x) < mark (key r) := by
      intro x hx
      by_contra hge
      rcases h r (by simp) 1 with hmany | hfew
      · have hnone : rest.countP (fun y => mark (key r) < mark (key y)) = 0 :=
          countP_eq_zero.mpr fun y hy => by simpa using hrest y hy
        have hle : front.countP (fun y => mark (key r) < mark (key y)) ≤ front.length :=
          countP_le_length
        rw [hsum, hnone, countP_append] at hmany
        simp at hlen hmany
        omega
      · have hall : (front ++ [r]).countP (fun y => mark (key r) ≤ mark (key y)) = n := by
          rw [← hlen]
          exact countP_eq_length.mpr fun y hy => decide_eq_true (hfront y hy)
        have hpos : 0 < rest.countP (fun y => mark (key r) ≤ mark (key y)) :=
          countP_pos_iff.mpr ⟨x, hx, decide_eq_true (not_lt.mp hge)⟩
        rw [hsum, hall] at hfew
        omega
    refine ⟨hcut, fun x hx k => ?_⟩
    obtain ⟨hmore, hsame⟩ := hbefore x (hcut x hx)
    have hx' := h x (mem_append_right _ hx) (k + 1)
    rw [hsum, hsum, hmore, hsame, Nat.succ_mul] at hx'
    omega
  · rintro ⟨hcut, h⟩ y hy k
    rcases k with _ | k
    · exact .inl (by simp)
    · rw [hsum, hsum, Nat.succ_mul]
      rcases mem_append.mp hy with hy | hy
      · have hnone : rest.countP (fun x => mark (key y) ≤ mark (key x)) = 0 :=
          countP_eq_zero.mpr fun x hx => by simpa using (hcut x hx).trans_le (hfront y hy)
        have hle : (front ++ [r]).countP (fun x => mark (key y) ≤ mark (key x)) ≤ n :=
          hlen ▸ countP_le_length
        omega
      · obtain ⟨hmore, hsame⟩ := hbefore y (hcut y hy)
        have hy' := h y hy k
        omega

variable {before : Option M}

/-- What a page leaves, as the next one sees it. -/
theorem behind_mark (hmono : Monotone mark)
    (hperm : ((front ++ [r]) ++ rest).Perm (behind key mark before rows))
    (hsorted : ((front ++ [r]) ++ rest).Pairwise fun a b => key b ≤ key a) :
    (behind key mark (some (mark (key r))) rows).Perm
      (rest.filter fun x => mark (key x) < mark (key r)) := by
  have hr : r ∈ behind key mark before rows := hperm.mem_iff.mp (by simp)
  have hnested : behind key mark (some (mark (key r))) rows =
      (behind key mark before rows).filter fun x => mark (key x) < mark (key r) := by
    rw [behind, behind, filter_filter]
    refine filter_congr fun x _ => ?_
    have hall := (mem_filter.mp hr).2
    cases before with
    | none => simp
    | some m =>
      simp only [Option.all_some, decide_eq_true_eq] at hall ⊢
      by_cases hx : mark (key x) < mark (key r)
      · simp [hx, hx.trans hall]
      · simp [hx]
  have hfront : (front ++ [r]).filter (fun x => mark (key x) < mark (key r)) = [] := by
    refine filter_eq_nil_iff.mpr fun y hy => ?_
    rcases mem_append.mp hy with hy | hy
    · have hle := (pairwise_append.mp (pairwise_append.mp hsorted).1).2.2 y hy r
        (mem_singleton_self r)
      simpa using hmono hle
    · simp [mem_singleton.mp hy]
  rw [hnested]
  refine (hperm.symm.filter _).trans ?_
  rw [filter_append, hfront, nil_append]

theorem IsPage.exists_rest {page : List α} (h : IsPage key mark n rows before page) :
    ∃ rest, (page ++ rest).Perm (behind key mark before rows) ∧
      (page ++ rest).Pairwise (fun a b => key b ≤ key a) ∧
        page.length ≤ n ∧ (rest = [] ∨ page.length = n) := by
  obtain ⟨l, hperm, hsorted, rfl⟩ := h
  refine ⟨l.drop n, by rwa [take_append_drop], by rwa [take_append_drop],
    length_take_le n l, ?_⟩
  rcases le_total l.length n with hle | hle
  · exact .inl (drop_eq_nil_of_le hle)
  · exact .inr (length_take_of_le hle)

variable {pages : List (List α)}

variable {last : Option M}

/-- **No row comes twice**, and none before a greater one. -/
theorem pages_subperm (hmono : Monotone mark) (h : Pages key mark n rows before pages last) :
    pages.flatten.Subperm (behind key mark before rows) ∧
      pages.flatten.Pairwise (fun a b => key b ≤ key a) := by
  induction h with
  | start before => exact ⟨nil_subperm, List.Pairwise.nil⟩
  | @page before last front r pages h _ ih =>
    obtain ⟨rest, hperm, hsorted, -, -⟩ := h.exists_rest
    obtain ⟨hsub, hpairwise⟩ := ih
    have hrest := (hsub.trans (behind_mark hmono hperm hsorted).subperm).trans
      (filter_sublist.subperm)
    rw [flatten_cons]
    refine ⟨(((subperm_append_left _).mpr hrest)).trans hperm.subperm,
      pairwise_append.mpr ⟨(pairwise_append.mp hsorted).1, hpairwise, ?_⟩⟩
    exact fun a ha b hb => (pairwise_append.mp hsorted).2.2 a ha b (hrest.subset hb)

theorem length_pages_le
    (h : Pages key mark n rows before pages last) : pages.length ≤ pages.flatten.length := by
  induction h with
  | start => exact Nat.zero_le _
  | page _ _ ih =>
    rw [flatten_cons, length_append, length_append, length_cons, length_singleton]
    omega

/-- **Every row comes** when no page ends in the middle of a mark, and only then. -/
theorem pages_perm_iff (hmono : Monotone mark) (hn : 0 < n)
    (h : Pages key mark n rows before pages last) (hend : IsPage key mark n rows last []) :
    pages.flatten.Perm (behind key mark before rows) ↔
      Undivided key mark n (behind key mark before rows) := by
  induction h with
  | start before =>
    obtain ⟨rest, hperm, -, -, hrest⟩ := hend.exists_rest
    obtain rfl := hrest.resolve_right (by simp; omega)
    refine iff_of_true hperm ?_
    rw [← hperm.nil_eq]
    exact undivided_of_length_le (Nat.zero_le n)
  | @page before last front r pages h more ih =>
    obtain ⟨rest, hperm, hsorted, hle, hfull⟩ := h.exists_rest
    have hmark := behind_mark hmono hperm hsorted
    have hsub := (pages_subperm hmono more).1.trans hmark.subperm
    have hcut : pages.flatten.Perm rest ↔ (∀ x ∈ rest, mark (key x) < mark (key r)) ∧
        Undivided key mark n rest := by
      have hkept : (∀ x ∈ rest, mark (key x) < mark (key r)) ↔
          rest.filter (fun x => mark (key x) < mark (key r)) = rest := by
        simp [filter_eq_self]
      rw [hkept]
      constructor
      · intro hall
        have hsame := filter_sublist.eq_of_length_le (hall.length_eq ▸ hsub.length_le)
        refine ⟨hsame, ?_⟩
        rw [hsame] at hmark
        exact ((ih hend).mp (hall.trans hmark.symm)).perm hmark
      · rintro ⟨hsame, hrest⟩
        rw [hsame] at hmark
        exact ((ih hend).mpr (hrest.perm hmark.symm)).trans hmark
    have hundivided : Undivided key mark n (behind key mark before rows) ↔
        (∀ x ∈ rest, mark (key x) < mark (key r)) ∧ Undivided key mark n rest := by
      rw [show Undivided key mark n (behind key mark before rows) ↔
        Undivided key mark n ((front ++ [r]) ++ rest) from ⟨(·.perm hperm.symm), (·.perm hperm)⟩]
      rcases hfull with rfl | hlen
      · refine iff_of_true ?_ ⟨by simp, undivided_of_length_le (Nat.zero_le n)⟩
        rw [append_nil]
        exact undivided_of_length_le hle
      · exact undivided_append_iff hmono hlen hsorted
    rw [hundivided, ← hcut, flatten_cons]
    exact ⟨fun hall => (perm_append_left_iff _).mp (hall.trans hperm.symm),
      fun hall => ((perm_append_left_iff _).mpr hall).trans hperm⟩

end KeysetPages
