import KvBench.Events.Pool

/-!
# What an event pool is for

The abstract event pool: at any moment a slot is free or holds one token, which is pending or has
been completed. `view` computes this from the history of what the operations returned, and `Legal`
says which return values the history allows. That tokens complete exactly once is a fact about
legal histories (`LegalTrace.status`); that the code only produces legal histories is shown in
`KvBench.Events.Refine`.
-/

namespace KvBench.Events

/-- The history of a pool: what its operations returned, and the calls of `Complete`. -/
inductive Event where
  | acquired (token : ℕ)
  | refused
  | probed (token : ℕ) (result : ℤ)
  | aborted (token : ℕ) (taken : Bool)
  | completed (token : ℕ) (ok : Bool)
  deriving DecidableEq

/-- The token a slot holds, if any, and the outcome it was completed with, if any. -/
abbrev SlotView := ℕ → Option (ℕ × Option Bool)

/-- The effect of an event on the slots. -/
def Event.apply (v : SlotView) : Event → SlotView
  | .acquired t => Function.update v (index t) (some (t, none))
  | .refused => v
  | .probed t r => if r = 0 then v else Function.update v (index t) none
  | .aborted t taken => if taken then Function.update v (index t) none else v
  | .completed t ok =>
    if v (index t) = some (t, none) then Function.update v (index t) (some (t, some ok)) else v

/-- The slots after a history. -/
def view (tr : List Event) : SlotView := tr.foldl Event.apply fun _ => none

/-- What `Probe` has to return. -/
def outcome (v : SlotView) (t : ℕ) : ℤ :=
  if v (index t) = some (t, some true) then 1
  else if v (index t) = some (t, some false) then -1
  else 0

/-- The slot of `t` holds `t`. -/
def Live (v : SlotView) (t : ℕ) : Prop := ∃ o, v (index t) = some (t, o)

/-- The event is allowed after the history `tr`. -/
def Event.Legal (tr : List Event) : Event → Prop
  | .acquired t => view tr (index t) = none ∧ Event.acquired t ∉ tr
  | .probed t r => r = outcome (view tr) t
  | .aborted t taken => taken = true ↔ Live (view tr) t
  | .refused => True
  | .completed _ _ => True

/-- Every event of the history was allowed when it happened. -/
inductive LegalTrace : List Event → Prop
  | nil : LegalTrace []
  | snoc {tr : List Event} {e : Event} (h : LegalTrace tr) (he : e.Legal tr) : LegalTrace (tr ++ [e])

/-- The event takes the token `t` out of its slot. -/
def Event.Consumes (t : ℕ) : Event → Bool
  | .probed t' r => decide (t' = t ∧ r ≠ 0)
  | .aborted t' taken => decide (t' = t) && taken
  | _ => false

/-- The outcome that a call of `Complete` brings for `t`. -/
def Event.completes (t : ℕ) : Event → Option Bool
  | .completed t' ok => if t' = t then some ok else none
  | _ => none

/-- The outcome of the first completion of `t` after its acquisition. -/
def firstComplete (t : ℕ) : List Event → Option Bool
  | [] => none
  | e :: tr =>
    if e = .acquired t then tr.findSome? (Event.completes t) else firstComplete t tr

@[simp] theorem view_append_singleton (tr : List Event) (e : Event) :
    view (tr ++ [e]) = e.apply (view tr) := by
  simp [view, List.foldl_append]

theorem LegalTrace.of_append {tr tr' : List Event} (h : LegalTrace (tr ++ tr')) : LegalTrace tr := by
  induction tr' using List.reverseRecOn with
  | nil => simpa using h
  | append_singleton tr' e ih =>
    rw [← List.append_assoc] at h
    generalize hg : tr ++ tr' ++ [e] = l at h
    cases h with
    | nil => simp at hg
    | snoc h _ => exact ih ((List.append_inj' hg rfl).1 ▸ h)

theorem LegalTrace.last {tr tr' : List Event} {e : Event} (h : LegalTrace (tr ++ e :: tr')) :
    e.Legal tr := by
  rw [List.append_cons] at h
  have h' := h.of_append
  generalize hg : tr ++ [e] = l at h'
  cases h' with
  | nil => simp at hg
  | snoc _ he =>
    obtain ⟨h1, h2⟩ := List.append_inj' hg rfl
    simp only [List.cons.injEq, and_true] at h2
    exact h1 ▸ h2 ▸ he

/-! ### The first completion -/

theorem firstComplete_append_of_mem {t : ℕ} {tr : List Event} (h : Event.acquired t ∈ tr)
    (tr' : List Event) :
    firstComplete t (tr ++ tr') =
      (firstComplete t tr).or (tr'.findSome? (Event.completes t)) := by
  induction tr with
  | nil => simp at h
  | cons e tr ih =>
    simp only [List.cons_append, firstComplete]
    split
    · rw [List.findSome?_append]
    · rename_i hne
      exact ih ((List.mem_cons.1 h).resolve_left (Ne.symm hne))

theorem firstComplete_append_of_not_mem {t : ℕ} {tr : List Event} (h : Event.acquired t ∉ tr)
    (tr' : List Event) : firstComplete t (tr ++ tr') = firstComplete t tr' := by
  induction tr with
  | nil => rfl
  | cons e tr ih =>
    rw [List.mem_cons, not_or] at h
    simp only [List.cons_append, firstComplete, if_neg (Ne.symm h.1)]
    exact ih h.2

/-! ### The life of a token -/

/-- Where the token `t` is after the history `tr`: not issued, in its slot with the outcome of its
first completion, or taken, by exactly one event. -/
inductive Status (t : ℕ) (tr : List Event) : Prop
  | unissued (hmem : Event.acquired t ∉ tr) (hcount : tr.countP (Event.Consumes t) = 0)
      (hview : ¬ Live (view tr) t)
  | held (hmem : Event.acquired t ∈ tr) (hcount : tr.countP (Event.Consumes t) = 0)
      (hview : view tr (index t) = some (t, firstComplete t tr))
  | taken (hmem : Event.acquired t ∈ tr) (hcount : tr.countP (Event.Consumes t) = 1)
      (hview : ¬ Live (view tr) t)

theorem exists_of_outcome_ne_zero {v : SlotView} {t : ℕ} (h : outcome v t ≠ 0) :
    ∃ ok, v (index t) = some (t, some ok) ∧ outcome v t = if ok then 1 else -1 := by
  unfold outcome at h ⊢
  split at h
  · rename_i hv
    exact ⟨true, hv, by simp [hv]⟩
  · split at h
    · rename_i hv
      exact ⟨false, hv, by simp [hv]⟩
    · exact absurd rfl h

/-- An event about another token does not touch a token that is in its slot, and does not put one
there. -/
theorem Event.apply_other {tr : List Event} {e : Event} {t : ℕ} (he : e.Legal tr)
    (hacq : e ≠ .acquired t) (hcons : e.Consumes t = false) (hcomp : e.completes t = none)
    (o : Option Bool) :
    e.apply (view tr) (index t) = some (t, o) ↔ view tr (index t) = some (t, o) := by
  cases e with
  | refused => rfl
  | acquired t' =>
    have ht : t' ≠ t := fun h => hacq (h ▸ rfl)
    obtain ⟨hnone, -⟩ := he
    simp only [Event.apply]
    by_cases hi : index t = index t'
    · rw [hi, Function.update_self, hnone]
      simp [ht]
    · rw [Function.update_of_ne hi]
  | probed t' r =>
    simp only [Event.apply]
    split
    · rfl
    · rename_i hr
      have ht : t' ≠ t := fun h => by simp [Event.Consumes, h, hr] at hcons
      by_cases hi : index t = index t'
      · obtain ⟨ok, hok, -⟩ := exists_of_outcome_ne_zero (he ▸ hr)
        rw [hi, Function.update_self, hok]
        simp [ht]
      · rw [Function.update_of_ne hi]
  | aborted t' taken =>
    simp only [Event.apply]
    split
    · rename_i htk
      subst htk
      have ht : t' ≠ t := fun h => by simp [Event.Consumes, h] at hcons
      obtain ⟨o', ho'⟩ := he.1 rfl
      by_cases hi : index t = index t'
      · rw [hi, Function.update_self, ho']
        simp [ht]
      · rw [Function.update_of_ne hi]
    · rfl
  | completed t' ok =>
    have ht : t' ≠ t := fun h => by simp [Event.completes, h] at hcomp
    simp only [Event.apply]
    split
    · rename_i hv
      by_cases hi : index t = index t'
      · rw [hi, Function.update_self, hv]
        simp [ht]
      · rw [Function.update_of_ne hi]
    · rfl

/-- Taking a token finds it in its slot and leaves the slot without it. -/
theorem Event.live_of_consumes {tr : List Event} {e : Event} {t : ℕ} (he : e.Legal tr)
    (hcons : e.Consumes t = true) : Live (view tr) t ∧ ¬ Live (e.apply (view tr)) t := by
  cases e with
  | acquired t' => simp [Event.Consumes] at hcons
  | refused => simp [Event.Consumes] at hcons
  | completed t' ok => simp [Event.Consumes] at hcons
  | probed t' r =>
    obtain ⟨rfl, hr⟩ : t' = t ∧ r ≠ 0 := by simpa [Event.Consumes] using hcons
    refine ⟨?_, by rintro ⟨o, ho⟩; simp [Event.apply, hr] at ho⟩
    obtain ⟨ok, hok, -⟩ := exists_of_outcome_ne_zero (he ▸ hr)
    exact ⟨_, hok⟩
  | aborted t' taken =>
    obtain ⟨rfl, rfl⟩ : t' = t ∧ taken = true := by simpa [Event.Consumes] using hcons
    exact ⟨he.1 rfl, by rintro ⟨o, ho⟩; simp [Event.apply] at ho⟩

/-- **The life of a token**, along a legal history. -/
theorem LegalTrace.status {tr : List Event} (h : LegalTrace tr) (t : ℕ) : Status t tr := by
  induction h with
  | nil => exact .unissued (by simp) rfl (by rintro ⟨o, ho⟩; simp [view] at ho)
  | @snoc tr e h he ih =>
    by_cases hacq : e = .acquired t
    · -- a token is issued once, into a free slot
      subst hacq
      obtain ⟨-, hfresh⟩ := he
      cases ih with
      | held hmem _ _ => exact absurd hmem hfresh
      | taken hmem _ _ => exact absurd hmem hfresh
      | unissued _ hcount _ =>
        refine .held (by simp) (by simp [List.countP_append, hcount, Event.Consumes]) ?_
        rw [firstComplete_append_of_not_mem hfresh]
        simp [Event.apply, firstComplete]
    by_cases hcons : e.Consumes t = true
    · -- the event takes the token out
      have hlive := Event.live_of_consumes he hcons
      cases ih with
      | unissued _ _ hview => exact absurd hlive.1 hview
      | taken _ _ hview => exact absurd hlive.1 hview
      | held hmem hcount _ =>
        refine .taken (List.mem_append_left _ hmem) (by simp [List.countP_append, hcount, hcons]) ?_
        rw [view_append_singleton]
        exact hlive.2
    have hcount : (tr ++ [e]).countP (Event.Consumes t) = tr.countP (Event.Consumes t) := by
      simp [List.countP_append, hcons]
    have hmem : Event.acquired t ∈ tr ++ [e] ↔ Event.acquired t ∈ tr := by
      simp [Ne.symm hacq]
    cases hcomp : e.completes t with
    | some ok =>
      -- a completion takes effect when it is the first
      obtain ⟨ok', rfl⟩ : ∃ ok', e = .completed t ok' := by
        cases e <;> simp_all [Event.completes]
      obtain rfl : ok' = ok := by simpa [Event.completes] using hcomp
      cases ih with
      | unissued h1 h2 h3 =>
        refine .unissued (hmem.not.2 h1) (hcount.trans h2) ?_
        rw [view_append_singleton, Event.apply, if_neg fun h => h3 ⟨_, h⟩]
        exact h3
      | taken h1 h2 h3 =>
        refine .taken (hmem.2 h1) (hcount.trans h2) ?_
        rw [view_append_singleton, Event.apply, if_neg fun h => h3 ⟨_, h⟩]
        exact h3
      | held h1 h2 h3 =>
        refine .held (hmem.2 h1) (hcount.trans h2) ?_
        rw [view_append_singleton, firstComplete_append_of_mem h1, Event.apply, h3]
        cases hfc : firstComplete t tr <;> simp [hfc, h3, Event.completes]
    | none =>
      have hsame := fun o => Event.apply_other he hacq (by simpa using hcons) hcomp o
      have hlive : Live (e.apply (view tr)) t ↔ Live (view tr) t :=
        exists_congr hsame
      cases ih with
      | unissued h1 h2 h3 =>
        exact .unissued (hmem.not.2 h1) (hcount.trans h2)
          (by rw [view_append_singleton, hlive]; exact h3)
      | taken h1 h2 h3 =>
        exact .taken (hmem.2 h1) (hcount.trans h2)
          (by rw [view_append_singleton, hlive]; exact h3)
      | held h1 h2 h3 =>
        refine .held (hmem.2 h1) (hcount.trans h2) ?_
        rw [view_append_singleton, firstComplete_append_of_mem h1, hsame, h3]
        simp [hcomp]

/-! ### Exactly once -/

section Once

variable {t : ℕ} {tr pre pre' post : List Event}

/-- A token is taken at most once. -/
theorem LegalTrace.countP_consumes_le (h : LegalTrace tr) (t : ℕ) :
    tr.countP (Event.Consumes t) ≤ 1 := by
  cases h.status t <;> omega

/-- A probe that succeeds reports the first completion. -/
theorem LegalTrace.probed_result {r : ℤ} (h : LegalTrace (pre ++ .probed t r :: post))
    (hr : r ≠ 0) :
    (r = 1 ∧ firstComplete t pre = some true) ∨ (r = -1 ∧ firstComplete t pre = some false) := by
  have he : r = outcome (view pre) t := h.last
  obtain ⟨ok, hview, hout⟩ := exists_of_outcome_ne_zero (he ▸ hr)
  have hfirst : firstComplete t pre = some ok := by
    cases h.of_append.status t with
    | unissued _ _ hl => exact absurd ⟨_, hview⟩ hl
    | taken _ _ hl => exact absurd ⟨_, hview⟩ hl
    | held _ _ hv => simpa [hview] using hv.symm
  rw [he, hout, hfirst]
  cases ok <;> simp

/-- The first probe after the first completion finds it, unless the token was aborted. -/
theorem LegalTrace.probed_ne_zero {ok : Bool} {r : ℤ}
    (h : LegalTrace (pre ++ .completed t ok :: pre' ++ .probed t r :: post))
    (hacq : Event.acquired t ∈ pre) (hfirst : firstComplete t pre = none)
    (habort : Event.aborted t true ∉ pre ++ .completed t ok :: pre')
    (hnext : ∀ q, Event.probed t q ∉ pre') : r ≠ 0 := by
  have hmem : Event.acquired t ∈ pre ++ .completed t ok :: pre' := List.mem_append_left _ hacq
  -- a probe before the completion cannot have succeeded
  have hunused : (pre ++ .completed t ok :: pre').countP (Event.Consumes t) = 0 := by
    refine List.countP_eq_zero.2 fun e he hcons => ?_
    cases e with
    | acquired t' => simp [Event.Consumes] at hcons
    | refused => simp [Event.Consumes] at hcons
    | completed t' ok' => simp [Event.Consumes] at hcons
    | aborted t' taken =>
      obtain ⟨rfl, rfl⟩ : t' = t ∧ taken = true := by simpa [Event.Consumes] using hcons
      exact habort he
    | probed t' q =>
      obtain ⟨rfl, hq⟩ : t' = t ∧ q ≠ 0 := by simpa [Event.Consumes] using hcons
      rcases List.mem_append.1 he with he | he
      · obtain ⟨l₁, l₂, rfl⟩ := List.append_of_mem he
        have hl : LegalTrace (l₁ ++ .probed t' q :: l₂) := (h.of_append).of_append
        have hnone : firstComplete t' l₁ = none := by
          by_cases hin : Event.acquired t' ∈ l₁
          · rw [firstComplete_append_of_mem hin] at hfirst
            exact (Option.or_eq_none_iff.1 hfirst).1
          · simpa [firstComplete] using firstComplete_append_of_not_mem hin []
        rcases hl.probed_result hq with ⟨-, h1⟩ | ⟨-, h1⟩ <;> simp [hnone] at h1
      · simp only [List.mem_cons, reduceCtorEq, false_or] at he
        exact hnext q he
  have he : r = outcome (view (pre ++ .completed t ok :: pre')) t := h.last
  cases h.of_append.status t with
  | unissued hm _ _ => exact absurd hmem hm
  | taken _ hc _ => omega
  | held _ _ hv =>
    have hfc : firstComplete t (pre ++ .completed t ok :: pre') = some ok := by
      rw [firstComplete_append_of_mem hacq, hfirst]
      simp [Event.completes]
    rw [hfc] at hv
    rw [he, outcome]
    cases ok <;> simp [hv]

end Once

end KvBench.Events
