import Aoox.LogRedaction

/-! # Streamed masking is masking

What `safeLength` has to guarantee is that no form straddles the cut it returns,
neither inside the text seen so far nor together with whatever arrives later
(`not_straddles_safeLength`).  Over such a cut masking distributes, so the
released pieces and the flushed rest spell out the masked whole text
(`StreamRedactor.pushAll_eq_apply`).

Secrets may also be registered while the stream runs.  Then the pieces are
masked with different sets of forms and no single whole text is being masked;
what survives is that a registered form never appears in what comes out
(`StreamRedactor.not_infix_outputs`).
-/
open List
namespace Aoox
open JsString Replacing

theorem maskText_ne_nil : maskText ≠ [] := by decide

variable {f : JsString}

/-- A form without `'*'` shares nothing with the text that masks it. -/
theorem avoids_maskText (h : star ∉ f) : Avoids maskText f := by
  have hmask : maskText = [star, star, star] := by decide
  intro x hx
  rw [hmask] at hx
  simp only [mem_cons, not_mem_nil, or_false, or_self] at hx
  exact hx ▸ h

/-! ## `apply` -/

variable {u : JsString}

namespace Redactor

theorem maskForm_eq (hf : f ≠ []) (text : JsString) :
    maskForm text f = replaceSublist f maskText text := by
  unfold maskForm
  split
  · exact join_split text f maskText
  · rename_i h
    rw [includes_iff hf] at h
    exact (replaceSublist_eq_self maskText h).symm

/-- Masking with a list of forms; `apply` is this for the redactor's forms. -/
def maskForms (forms : List JsString) (text : JsString) : JsString := forms.foldl maskForm text

@[simp] theorem maskForms_nil (text : JsString) : maskForms [] text = text := rfl

theorem maskForms_cons (hf : f ≠ []) (forms : List JsString) (text : JsString) :
    maskForms (f :: forms) text = maskForms forms (replaceSublist f maskText text) := by
  rw [← maskForm_eq hf]
  rfl

variable {forms : List JsString}

/-- **Masking distributes over a cut that no form straddles.**  The induction is
on the forms: masking one of them keeps the others from straddling. -/
theorem maskForms_append (hne : ∀ f ∈ forms, f ≠ []) (hstar : ∀ f ∈ forms, star ∉ f)
    {a b : JsString} (h : ∀ f ∈ forms, ¬ Straddles f a b) :
    maskForms forms (a ++ b) = maskForms forms a ++ maskForms forms b := by
  induction forms generalizing a b with
  | nil => rfl
  | cons f forms ih =>
    have hf := hne f mem_cons_self
    simp only [maskForms_cons hf]
    rw [replaceSublist_append hf maskText (h f mem_cons_self)]
    refine ih (fun g hg => hne g (mem_cons_of_mem _ hg))
      (fun g hg => hstar g (mem_cons_of_mem _ hg)) (fun g hg hs => ?_)
    exact h g (mem_cons_of_mem _ hg) (hs.of_replaceAll maskText_ne_nil
      (avoids_maskText (hstar g (mem_cons_of_mem _ hg))))

variable {t : JsString}

theorem of_maskForms {R : JsString → Prop} (hne : ∀ f ∈ forms, f ≠ [])
    (hR : ∀ {m : Replacing.Matcher CodeUnit} (t), R (replaceAll m maskText t) → R t)
    (h : R (maskForms forms t)) : R t := by
  induction forms generalizing t with
  | nil => exact h
  | cons f forms ih =>
    rw [maskForms_cons (hne f mem_cons_self)] at h
    exact hR t (ih (fun g hg => hne g (mem_cons_of_mem _ hg)) h)

theorem prefix_of_prefix_maskForms (hne : ∀ f ∈ forms, f ≠ []) (hu : star ∉ u)
    (h : u <+: maskForms forms t) : u <+: t :=
  of_maskForms hne (prefix_of_prefix_replaceAll maskText_ne_nil (avoids_maskText hu)) h

theorem suffix_of_suffix_maskForms (hne : ∀ f ∈ forms, f ≠ []) (hu : star ∉ u)
    (h : u <:+ maskForms forms t) : u <:+ t :=
  of_maskForms hne (suffix_of_suffix_replaceAll maskText_ne_nil (avoids_maskText hu)) h

theorem infix_of_infix_maskForms (hne : ∀ f ∈ forms, f ≠ []) (hu : star ∉ u)
    (h : u <:+: maskForms forms t) : u <:+: t :=
  of_maskForms hne (infix_of_infix_replaceAll maskText_ne_nil (avoids_maskText hu)) h

/-- A masked text without `'*'` was not changed. -/
theorem maskForms_eq_self (hne : ∀ f ∈ forms, f ≠ [])
    (h : star ∉ maskForms forms t) : maskForms forms t = t := by
  induction forms generalizing t with
  | nil => rfl
  | cons f forms ih =>
    rw [maskForms_cons (hne f mem_cons_self)] at h ⊢
    have hrest := ih (fun g hg => hne g (mem_cons_of_mem _ hg)) h
    rw [hrest] at h ⊢
    exact replaceAll_eq_self_of_avoids maskText_ne_nil (avoids_maskText h)

/-- **No form survives.** -/
theorem not_infix_maskForms (hne : ∀ f ∈ forms, f ≠ []) (hf : f ∈ forms) (hstar : star ∉ f)
    (t : JsString) : ¬ f <:+: maskForms forms t := by
  induction forms generalizing t with
  | nil => simp at hf
  | cons g forms ih =>
    have hg := hne g mem_cons_self
    have hne' : ∀ f ∈ forms, f ≠ [] := fun f hf => hne f (mem_cons_of_mem _ hf)
    rw [maskForms_cons hg]
    rcases mem_cons.mp hf with rfl | hf
    · intro h
      exact not_infix_replaceSublist hg maskText_ne_nil (avoids_maskText hstar) t
        (infix_of_infix_maskForms hne' hstar h)
    · exact ih hne' hf _

end Redactor

/-! ## `safeLength` -/

namespace StreamRedactor
variable {text f : JsString}

/-- `i` is where a proper prefix of `f` ends the text. -/
def HeldAt (text f : JsString) (i : Nat) : Prop :=
  i < text.length ∧ text.drop i <+: f ∧ text.length - i < f.length

variable {i : Nat}

theorem HeldAt.first_unit (h : HeldAt text f i) : f.take 1 <+: text.drop i := by
  obtain ⟨hi, ⟨s, rfl⟩, -⟩ := h
  have hlen : 1 ≤ (text.drop i).length := by rw [length_drop]; omega
  rw [take_append_of_le_length hlen]
  exact take_prefix 1 _

/-- The first loop stops at or before every position where the text could still
grow into the form.  Induction on the fuel; the positions visited only grow. -/
theorem heldGo_le (h : HeldAt text f i) : ∀ fuel k, k ≤ i → text.length - k < fuel →
      ∃ j, heldGo text f fuel (indexOf (f.take 1) text k) = some j ∧ j ≤ i := by
  have hne : f.take 1 ≠ [] := by
    have := h.2.2
    intro h0
    rcases take_eq_nil_iff.mp h0 with h0 | h0 <;> simp_all
  intro fuel
  induction fuel with
  | zero => intro k _ hk; omega
  | succ fuel ih =>
    intro k hki hk
    obtain ⟨j, hj, hji⟩ := indexOf_le hki h.1 h.first_unit
    obtain ⟨hkj, -, hlen⟩ := indexOf_some hne hj
    rw [hj, heldGo, if_pos hlen]
    split
    · exact ⟨j, rfl, hji⟩
    · rename_i hstop
      have hne_ji : j ≠ i := by
        rintro rfl
        refine hstop (Bool.and_eq_true_iff.mpr ⟨?_, ?_⟩)
        · exact decide_eq_true h.2.1
        · exact decide_eq_true h.2.2
      exact ih (j + 1) (by omega) (by omega)

theorem held_le (h : HeldAt text f i) : ∃ j, held text f = some j ∧ j ≤ i := by
  have hi := h.2.2
  exact heldGo_le h _ _ (by omega) (by omega)

theorem lowerCut_le (cut : Nat) : lowerCut text cut f ≤ cut := by
  unfold lowerCut
  split
  · exact Nat.min_le_left _ _
  · exact le_rfl

theorem foldl_lowerCut_le (fs : List JsString) (cut : Nat) :
    fs.foldl (lowerCut text) cut ≤ cut := by
  induction fs generalizing cut with
  | nil => exact le_rfl
  | cons g fs ih => exact (ih _).trans (lowerCut_le cut)

variable {forms : List JsString}

theorem tentativeCut_le_length : tentativeCut forms text ≤ text.length := foldl_lowerCut_le forms _

theorem tentativeCut_le (hf : f ∈ forms) (h : HeldAt text f i) : tentativeCut forms text ≤ i := by
  suffices key : ∀ cut, forms.foldl (lowerCut text) cut ≤ i from key _
  induction forms with
  | nil => simp at hf
  | cons g fs ih =>
    intro cut
    rcases mem_cons.mp hf with rfl | hf
    · obtain ⟨j, hj, hji⟩ := held_le h
      refine (foldl_lowerCut_le fs _).trans ?_
      simp only [lowerCut, hj]
      exact (Nat.min_le_right cut j).trans hji
    · exact ih hf _

/-- `f` occurs at `s`, begins before `cut` and ends behind it. -/
def CrossesAt (text f : JsString) (cut s : Nat) : Prop :=
  f <+: text.drop s ∧ s < cut ∧ cut < s + f.length

variable {cut s : Nat}

theorem CrossesAt.lt_length (hf : f ≠ []) (h : CrossesAt text f cut s) : s < text.length := by
  have hlen := h.1.length_le
  have hpos : 0 < f.length := length_pos_iff.mpr hf
  rw [length_drop] at hlen
  omega

/-- The second loop for one form finds a crossing occurrence if there is one. -/
theorem crossingGo_isSome (hf : f ≠ []) (h : CrossesAt text f cut s) :
    ∀ fuel k, k ≤ s → text.length - k < fuel →
      (crossingGo text f cut fuel (indexOf f text k)).isSome := by
  intro fuel
  induction fuel with
  | zero => intro k _ hk; omega
  | succ fuel ih =>
    intro k hks hk
    obtain ⟨j, hj, hjs⟩ := indexOf_le hks (h.lt_length hf) h.1
    obtain ⟨hkj, -, hlen⟩ := indexOf_some hf hj
    rw [hj, crossingGo, if_pos (lt_of_le_of_lt hjs h.2.1)]
    split
    · rfl
    · rename_i hstop
      have hne_js : j ≠ s := by
        rintro rfl
        exact hstop h.2.2
      exact ih (j + 1) (by omega) (by omega)

theorem crossing_isSome (hf : f ≠ []) (h : CrossesAt text f cut s) :
    (crossing text f cut).isSome := by
  have hcut := h.2.2
  exact crossingGo_isSome hf h _ _ (by omega) (by omega)

theorem crossingGo_lt {fuel : Nat} {start : Option Nat}
    (h : crossingGo text f cut fuel start = some s) : s < cut := by
  induction fuel generalizing start with
  | zero => simp [crossingGo] at h
  | succ fuel ih =>
    cases start with
    | none => simp [crossingGo] at h
    | some i =>
      rw [crossingGo] at h
      split at h
      · split at h
        · exact Option.some.inj h ▸ ‹i < cut›
        · exact ih h
      · cases h

variable {forms : List JsString}

/-- Once the cut has moved in a round, the round reports it and moves it further
down at most. -/
theorem foldl_settleForm_moved (fs : List JsString) (c : Nat) :
    ∃ c', fs.foldl (settleForm text) (c, true) = (c', true) ∧ c' ≤ c := by
  induction fs generalizing c with
  | nil => exact ⟨c, rfl, le_rfl⟩
  | cons f fs ih =>
    simp only [foldl_cons, settleForm]
    cases hc : crossing text f c with
    | none => exact ih c
    | some s =>
      obtain ⟨c', hc', hle⟩ := ih s
      exact ⟨c', hc', hle.trans (crossingGo_lt hc).le⟩

/-- What a round does: it moves the cut strictly down, or leaves it where no
form crosses it. -/
theorem settleRound_spec (hne : ∀ f ∈ forms, f ≠ []) (cut : Nat) :
    (settleRound forms text cut = (cut, false) ∧ ∀ f ∈ forms, ∀ s, ¬ CrossesAt text f cut s) ∨
      ∃ cut', settleRound forms text cut = (cut', true) ∧ cut' < cut := by
  unfold settleRound
  induction forms with
  | nil => exact Or.inl ⟨rfl, by simp⟩
  | cons f fs ih =>
    simp only [foldl_cons, settleForm]
    cases hc : crossing text f cut with
    | none =>
      rcases ih (fun g hg => hne g (mem_cons_of_mem _ hg)) with ⟨h, hnone⟩ | h
      · refine Or.inl ⟨h, fun g hg s hs => ?_⟩
        rcases mem_cons.mp hg with rfl | hg
        · have := crossing_isSome (hne g mem_cons_self) hs
          simp [hc] at this
        · exact hnone g hg s hs
      · exact Or.inr h
    | some s =>
      obtain ⟨c', hc', hle⟩ := foldl_settleForm_moved fs s
      exact Or.inr ⟨c', hc', lt_of_le_of_lt hle (crossingGo_lt hc)⟩

/-- With enough fuel the rounds end at a cut that no form crosses, and never
move it up. -/
theorem settle_spec (hne : ∀ f ∈ forms, f ≠ []) :
    ∀ fuel cut, cut < fuel → settle forms text fuel cut ≤ cut ∧
      ∀ f ∈ forms, ∀ s, ¬ CrossesAt text f (settle forms text fuel cut) s := by
  intro fuel
  induction fuel with
  | zero => intro cut h; omega
  | succ fuel ih =>
    intro cut hfuel
    rcases @settleRound_spec text forms hne cut with ⟨h, hnone⟩ | ⟨cut', h, hlt⟩
    · simp only [settle, h]
      exact ⟨le_rfl, hnone⟩
    · simp only [settle, h]
      obtain ⟨hle, hnone⟩ := ih cut' (by omega)
      exact ⟨hle.trans hlt.le, hnone⟩

theorem safeLength_le (hne : ∀ f ∈ forms, f ≠ []) :
    safeLength forms text ≤ tentativeCut forms text :=
  (settle_spec hne _ _ (Nat.lt_succ_of_le tentativeCut_le_length)).1

theorem not_crossesAt_safeLength (hne : ∀ f ∈ forms, f ≠ []) (hf : f ∈ forms) (s : Nat) :
    ¬ CrossesAt text f (safeLength forms text) s :=
  (settle_spec hne _ _ (Nat.lt_succ_of_le tentativeCut_le_length)).2 f hf s

/-- **`safeLength` holds back enough**: whatever arrives later, no form straddles
the cut.  An occurrence that ends inside the text is excluded by the settled
cut, one that would end behind it by the tentative cut. -/
theorem not_straddles_safeLength (hne : ∀ f ∈ forms, f ≠ []) (hf : f ∈ forms) (later : JsString) :
    ¬ Straddles f (sliceTo text (safeLength forms text))
      (sliceFrom text (safeLength forms text) ++ later) := by
  rintro ⟨u, v, hu, hv, rfl, ⟨a, ha⟩, hvb⟩
  have hle : safeLength forms text ≤ text.length := (safeLength_le hne).trans tentativeCut_le_length
  have hcut : safeLength forms text = a.length + u.length := by
    have := congrArg List.length ha
    simp only [sliceTo, length_append, length_take] at this
    omega
  have hu0 : 0 < u.length := length_pos_iff.mpr hu
  have hv0 : 0 < v.length := length_pos_iff.mpr hv
  have hdrop : text.drop a.length = u ++ sliceFrom text (safeLength forms text) := by
    conv_lhs => rw [← take_append_drop (safeLength forms text) text]
    rw [show text.take (safeLength forms text) = a ++ u from ha.symm, append_assoc, drop_left]
    rfl
  -- An occurrence at `a.length` that ends inside the text crosses the cut.
  have hinside : ¬ v <+: sliceFrom text (safeLength forms text) := by
    intro hvt
    have hend : safeLength forms text < a.length + (u ++ v).length := by
      rw [length_append]
      omega
    refine not_crossesAt_safeLength hne hf a.length ⟨?_, by omega, hend⟩
    rw [hdrop]
    exact (prefix_append_right_inj u).mpr hvt
  rcases prefix_append_split hvb with hvt | ⟨w, hw, -⟩
  · exact hinside hvt
  · have hw0 : w ≠ [] := by
      rintro rfl
      exact hinside (by rw [hw, append_nil])
    have hheld : HeldAt text (u ++ v) a.length := by
      refine ⟨by omega, ?_, ?_⟩
      · rw [hdrop, hw, ← append_assoc]
        exact prefix_append _ _
      · have hlen := congrArg List.length hdrop
        have hw1 : 0 < w.length := length_pos_iff.mpr hw0
        rw [length_drop, length_append] at hlen
        rw [hw, length_append, length_append]
        omega
    have hcut' := (@safeLength_le text forms hne).trans (tentativeCut_le hf hheld)
    omega

/-! ## One fixed set of secrets -/

/-- All forms of the redactor are free of `'*'`. -/
def StarFree (r : Redactor) : Prop := ∀ f ∈ r.patterns, star ∉ f

theorem apply_eq (r : Redactor) (text : JsString) :
    r.apply text = Redactor.maskForms r.patterns text := rfl

theorem flush_eq (s : StreamRedactor) : s.flush.1 = s.redactor.apply s.pending := by
  unfold flush
  split
  · rename_i h
    rw [h, apply_eq]
    have hnil : ∀ fs : List JsString, (∀ f ∈ fs, f ≠ []) → Redactor.maskForms fs [] = [] := by
      intro fs hfs
      induction fs with
      | nil => rfl
      | cons f fs ih =>
        rw [Redactor.maskForms_cons (hfs f mem_cons_self), replaceSublist_nil]
        exact ih (fun g hg => hfs g (mem_cons_of_mem _ hg))
    exact (hnil _ s.redactor.forms_ne_nil).symm
  · rfl

@[simp] theorem push_redactor (s : StreamRedactor) (raw : JsString) :
    (s.push raw).2.redactor = s.redactor := by
  unfold push
  split <;> rfl

/-- **What `push` does**: it cuts the text seen so far into a head that it
releases masked and a tail that it keeps, at a place that no form straddles
whatever follows. -/
theorem push_spec (s : StreamRedactor) (raw : JsString) :
    ∃ head, s.pending ++ raw = head ++ (s.push raw).2.pending ∧
      (s.push raw).1 = s.redactor.apply head ∧
      ∀ f ∈ s.redactor.patterns, ∀ later, ¬ Straddles f head ((s.push raw).2.pending ++ later) := by
  unfold push
  split
  · rename_i h
    have hnone : s.redactor.patterns = [] := s.redactor.forms_of_known (eq_nil_of_length_eq_zero h)
    refine ⟨s.pending ++ raw, by simp, ?_, by simp [hnone]⟩
    rw [apply_eq, hnone]
    rfl
  · exact ⟨_, (take_append_drop _ _).symm, rfl,
      fun f hf later => not_straddles_safeLength s.redactor.forms_ne_nil hf later⟩

/-- From any state: what the pushes and the flush return is the masked text that
was pending or comes in. -/
theorem pushAll_eq (chunks : List JsString) (s : StreamRedactor) (hstar : StarFree s.redactor) :
    s.pushAll chunks = s.redactor.apply (s.pending ++ chunks.flatten) := by
  induction chunks generalizing s with
  | nil => rw [pushAll, flush_eq, flatten_nil, append_nil]
  | cons raw rest ih =>
    obtain ⟨head, htext, hout, hcut⟩ := s.push_spec raw
    have hrest := ih (s.push raw).2 (by rw [push_redactor]; exact hstar)
    rw [push_redactor] at hrest
    rw [pushAll, hrest, hout, flatten_cons, ← append_assoc, htext,
      append_assoc, apply_eq, apply_eq, apply_eq]
    exact (Redactor.maskForms_append s.redactor.forms_ne_nil hstar (fun f hf => hcut f hf _)).symm

/-- **Chunking does not matter.**  However the text is cut into chunks, what the
pushes and the final flush return is the masked whole text. -/
theorem pushAll_eq_apply (r : Redactor) (hstar : StarFree r) (chunks : List JsString) :
    (StreamRedactor.mk r []).pushAll chunks = r.apply chunks.flatten :=
  pushAll_eq chunks ⟨r, []⟩ hstar

/-- Two overlapping secrets, with the cut inside both of them. -/
theorem pushAll_eq_apply_overlap :
    StarFree (Redactor.new.addAll [js "abcd", js "cdef"]).1 ∧
      (StreamRedactor.mk (Redactor.new.addAll [js "abcd", js "cdef"]).1 []).pushAll
          [js "xab", [], js "cdef", js "ab"] =
        (Redactor.new.addAll [js "abcd", js "cdef"]).1.apply
          [js "xab", [], js "cdef", js "ab"].flatten :=
  have h : StarFree (Redactor.new.addAll [js "abcd", js "cdef"]).1 := by
    unfold StarFree
    decide
  ⟨h, pushAll_eq_apply _ h _⟩

/-! ## Secrets registered while the stream runs -/

/-- A call on the stream or on its redactor. -/
inductive Call where
  | add (secret : Option JsString)
  | push (raw : JsString)
  | flush

/-- One call: what it returns to the caller of the stream, and the new state.  A
throw of `add` leaves the state `add` had reached. -/
def step (s : StreamRedactor) : Call → JsString × StreamRedactor
  | .add secret => ([], { s with redactor := (s.redactor.add secret).1 })
  | .push raw => s.push raw
  | .flush => s.flush

def after (s : StreamRedactor) (calls : List Call) : StreamRedactor :=
  calls.foldl (fun s c => (s.step c).2) s

/-- Everything a run of calls returns, concatenated. -/
def outputs (s : StreamRedactor) : List Call → JsString
  | [] => []
  | c :: cs => (s.step c).1 ++ (s.step c).2.outputs cs

def rawText : List Call → JsString
  | [] => []
  | .push raw :: cs => raw ++ rawText cs
  | _ :: cs => rawText cs

theorem mem_patterns_step (s : StreamRedactor) (c : Call)
    (hf : f ∈ s.redactor.patterns) : f ∈ (s.step c).2.redactor.patterns := by
  cases c with
  | add secret => exact s.redactor.mem_patterns_add secret hf
  | push raw => rw [step, push_redactor]; exact hf
  | flush => exact hf

theorem mem_patterns_after (s : StreamRedactor) (calls : List Call)
    (hf : f ∈ s.redactor.patterns) : f ∈ (s.after calls).redactor.patterns := by
  induction calls generalizing s with
  | nil => exact hf
  | cons c cs ih => exact ih _ (s.mem_patterns_step c hf)

/-- The beginning of the output that holds no `'*'` is the beginning of the
text that was pending or came in.  Pieces are masked with different sets of
forms, but a piece without `'*'` was not masked at all. -/
theorem prefix_outputs (hu : star ∉ u) :
    ∀ (calls : List Call) (s : StreamRedactor), Call.flush ∉ calls →
      u <+: s.outputs (calls ++ [.flush]) → u <+: s.pending ++ rawText calls := by
  intro calls
  induction calls generalizing u with
  | nil =>
    intro s _ h
    have h' : u <+: s.redactor.apply s.pending := by
      simpa [outputs, step, flush_eq] using h
    simpa [rawText] using Redactor.prefix_of_prefix_maskForms s.redactor.forms_ne_nil hu h'
  | cons c cs ih =>
    intro s hno h
    have hcs : Call.flush ∉ cs := fun hc => hno (mem_cons_of_mem _ hc)
    cases c with
    | flush => exact absurd mem_cons_self hno
    | add secret => exact ih hu (s.step (.add secret)).2 hcs h
    | push raw =>
      obtain ⟨head, htext, hout, -⟩ := s.push_spec raw
      have hne := s.redactor.forms_ne_nil
      simp only [cons_append, outputs, step] at h
      rw [rawText, ← append_assoc, htext, append_assoc]
      rw [hout] at h
      rcases prefix_append_split h with h | ⟨v, rfl, hv⟩
      · exact (Redactor.prefix_of_prefix_maskForms hne hu h).trans (prefix_append _ _)
      · have hhead : s.redactor.apply head = head :=
          Redactor.maskForms_eq_self hne (fun hs => hu (mem_append_left _ hs))
        rw [hhead]
        exact (prefix_append_right_inj head).mpr
          (ih (fun hs => hu (mem_append_right _ hs)) _ hcs hv)

/-- From any state: a form that is registered does not occur in what the calls
up to the next flush return.  Induction on the calls; where the output of a push
meets the rest, an occurrence would straddle the cut of that push. -/
theorem not_infix_outputs_flush (hstar : star ∉ f) :
    ∀ (calls : List Call) (s : StreamRedactor), Call.flush ∉ calls →
      f ∈ s.redactor.patterns → ¬ f <:+: s.outputs (calls ++ [.flush]) := by
  intro calls
  induction calls with
  | nil =>
    intro s _ hf
    have hnot := Redactor.not_infix_maskForms s.redactor.forms_ne_nil hf hstar s.pending
    rw [nil_append, outputs, outputs, append_nil, step, flush_eq]
    exact hnot
  | cons c cs ih =>
    intro s hno hf
    have hcs : Call.flush ∉ cs := fun hc => hno (mem_cons_of_mem _ hc)
    have hrest := ih (s.step c).2 hcs (s.mem_patterns_step c hf)
    cases c with
    | flush => exact absurd mem_cons_self hno
    | add secret => exact hrest
    | push raw =>
      obtain ⟨head, htext, hout, hcut⟩ := s.push_spec raw
      have hne := s.redactor.forms_ne_nil
      simp only [cons_append, outputs, step]
      rw [hout]
      intro h
      rcases infix_append_split h with h | h | ⟨u, v, hu, hv, rfl, hua, hvb⟩
      · exact Redactor.not_infix_maskForms hne hf hstar head h
      · exact hrest h
      · have hu' : star ∉ u := fun hs => hstar (mem_append_left _ hs)
        have hv' : star ∉ v := fun hs => hstar (mem_append_right _ hs)
        exact hcut _ hf (rawText cs) ⟨u, v, hu, hv, rfl,
          Redactor.suffix_of_suffix_maskForms hne hu' hua, prefix_outputs hv' cs _ hcs hvb⟩

theorem outputs_append (s : StreamRedactor) (a b : List Call) :
    s.outputs (a ++ b) = s.outputs a ++ (s.after a).outputs b := by
  induction a generalizing s with
  | nil => rfl
  | cons c a ih =>
    simp only [cons_append, outputs, ih, append_assoc]
    rfl

/-- **A registered form never comes out.**  In any run from a new stream, a form
registered by the calls `before` does not occur in what the calls up to the next
flush return, nor in that with the flush, however the secrets registered later
and the chunks interleave. -/
theorem not_infix_outputs (before calls : List Call) (hno : Call.flush ∉ calls)
    (hstar : StarFree ((StreamRedactor.mk Redactor.new []).after (before ++ calls)).redactor)
    (f : JsString)
    (hf : f ∈ ((StreamRedactor.mk Redactor.new []).after before).redactor.patterns) :
    ¬ f <:+: ((StreamRedactor.mk Redactor.new []).after before).outputs calls ∧
      ¬ f <:+: ((StreamRedactor.mk Redactor.new []).after before).outputs
        (calls ++ [.flush]) := by
  have hfstar : star ∉ f := by
    refine hstar f ?_
    rw [after, List.foldl_append]
    exact mem_patterns_after _ calls hf
  have hflush := not_infix_outputs_flush hfstar calls _ hno hf
  refine ⟨fun h => hflush ?_, hflush⟩
  rw [outputs_append]
  exact h.trans (List.prefix_append _ _).isInfix

/-- A second secret registered between the halves of the first one. -/
theorem not_infix_outputs_late_secret :
    ¬ js "abcdef" <:+: ((StreamRedactor.mk Redactor.new []).after
          [.push (js "ab"), .add (some (js "abcdef"))]).outputs
        [.push (js "abc"), .add (some (js "cdefgh")), .push (js "defg")] ∧
      ¬ js "abcdef" <:+: ((StreamRedactor.mk Redactor.new []).after
          [.push (js "ab"), .add (some (js "abcdef"))]).outputs
        ([.push (js "abc"), .add (some (js "cdefgh")), .push (js "defg")] ++ [.flush]) :=
  not_infix_outputs [.push (js "ab"), .add (some (js "abcdef"))]
    [.push (js "abc"), .add (some (js "cdefgh")), .push (js "defg")] (by simp)
    (by unfold StarFree; decide) (js "abcdef") (by decide)

end StreamRedactor
end Aoox
