import KvBench.Events.Trace

/-!
# The tokens of a history

A slot numbers its tokens through: the `k`-th one carries the generation `genOf k`, which runs
through `1 .. 2 ^ 32 - 1` and starts again. `ProperTrace` is the part of a legal history that holds
for any number of acquisitions: it does not ask that a token is new, but says which token it is.
From this follow what the slots hold, how far apart two issues of one token are, and that a
history in which no slot has run through its generations is legal.
-/

namespace KvBench.Events

/-- The event issues a token of the slot `i`. -/
def Event.Issues (i : ℕ) : Event → Bool
  | .acquired t => decide (index t = i)
  | _ => false

/-- The event frees the slot `i`. -/
def Event.Frees (i : ℕ) : Event → Bool
  | .probed t r => decide (index t = i ∧ r ≠ 0)
  | .aborted t taken => decide (index t = i) && taken
  | _ => false

/-- The number of acquisitions of a slot. -/
def acquisitions (tr : List Event) (i : ℕ) : ℕ := tr.countP (Event.Issues i)

theorem acquisitions_append (tr : List Event) (e : Event) (i : ℕ) :
    acquisitions (tr ++ [e]) i = acquisitions tr i + if e.Issues i then 1 else 0 := by
  simp [acquisitions, List.countP_append, List.countP_cons]

theorem acquisitions_append_cons (pre post : List Event) (e : Event) (i : ℕ) :
    acquisitions (pre ++ e :: post) i =
      acquisitions pre i + (if e.Issues i then 1 else 0) + acquisitions post i := by
  rw [List.append_cons, ← acquisitions_append]
  exact List.countP_append

/-- The event may happen after the history `tr`: like `Event.Legal`, but a token is the next one of
its slot instead of a new one. -/
def Event.Proper (tr : List Event) : Event → Prop
  | .acquired t =>
    view tr (index t) = none ∧ t = tokenOf (genOf (acquisitions tr (index t) + 1)) (index t)
  | e => e.Legal tr

/-- Every event of the history was proper when it happened. -/
inductive ProperTrace : List Event → Prop
  | nil : ProperTrace []
  | snoc {tr : List Event} {e : Event} (h : ProperTrace tr) (he : e.Proper tr) :
      ProperTrace (tr ++ [e])

/-! ### How an event changes the slots -/

theorem completed_apply_none (v : SlotView) (t : ℕ) (ok : Bool) (i : ℕ) :
    (Event.completed t ok).apply v i = none ↔ v i = none := by
  simp only [Event.apply]
  split
  · rename_i h
    by_cases hi : i = index t
    · subst hi; simp [h]
    · rw [Function.update_of_ne hi]
  · rfl

theorem completed_apply_some (v : SlotView) (t : ℕ) (ok : Bool) (i t' : ℕ) (o : Option Bool)
    (h : (Event.completed t ok).apply v i = some (t', o)) : ∃ o', v i = some (t', o') := by
  simp only [Event.apply] at h
  split at h
  · rename_i hv
    by_cases hi : i = index t
    · subst hi
      rw [Function.update_self] at h
      simp only [Option.some.injEq, Prod.mk.injEq] at h
      exact ⟨none, h.1 ▸ hv⟩
    · exact ⟨o, by rwa [Function.update_of_ne hi] at h⟩
  · exact ⟨o, h⟩

theorem completed_apply_live (v : SlotView) (t : ℕ) (ok : Bool) (t' : ℕ) :
    Live ((Event.completed t ok).apply v) t' ↔ Live v t' := by
  constructor
  · rintro ⟨o, ho⟩
    exact completed_apply_some v t ok _ t' o ho
  · rintro ⟨o, ho⟩
    simp only [Live, Event.apply]
    split
    · rename_i hv
      by_cases hi : index t' = index t
      · rw [hi] at ho ⊢
        rw [hv] at ho
        simp only [Option.some.injEq, Prod.mk.injEq] at ho
        exact ⟨some ok, by simp [ho.1]⟩
      · exact ⟨o, by rwa [Function.update_of_ne hi]⟩
    · exact ⟨o, ho⟩

theorem completed_apply_done {v : SlotView} {t' : ℕ} {ok' : Bool}
    (h : v (index t') = some (t', some ok')) (t : ℕ) (ok : Bool) :
    (Event.completed t ok).apply v (index t') = some (t', some ok') := by
  simp only [Event.apply]
  split
  · rename_i hv
    by_cases hi : index t' = index t
    · rw [hi, hv] at h; simp at h
    · rwa [Function.update_of_ne hi]
  · exact h

/-- Only an acquisition puts a token into a slot. -/
theorem Event.apply_some {v : SlotView} {e : Event} (hn : ∀ t, e ≠ .acquired t) {i t : ℕ}
    {o : Option Bool} (h : e.apply v i = some (t, o)) : ∃ o', v i = some (t, o') := by
  have hupdate : ∀ j, Function.update v j none i = some (t, o) → v i = some (t, o) := by
    intro j hj
    by_cases hij : i = j
    · subst hij; simp at hj
    · rwa [Function.update_of_ne hij] at hj
  cases e with
  | acquired t' => exact absurd rfl (hn t')
  | refused => exact ⟨o, h⟩
  | probed t' r =>
    simp only [Event.apply] at h
    split at h
    · exact ⟨o, h⟩
    · exact ⟨o, hupdate _ h⟩
  | aborted t' taken =>
    simp only [Event.apply] at h
    split at h
    · exact ⟨o, hupdate _ h⟩
    · exact ⟨o, h⟩
  | completed t' ok => exact completed_apply_some v t' ok i t o h

theorem Event.issues_eq_false {e : Event} (hn : ∀ t, e ≠ .acquired t) (i : ℕ) :
    e.Issues i = false := by
  cases e with
  | acquired t => exact absurd rfl (hn t)
  | refused | probed | aborted | completed => rfl

/-! ### Proper histories -/

section Proper

variable {tr : List Event} {t : ℕ}

theorem ProperTrace.of_append {tr' : List Event} (h : ProperTrace (tr ++ tr')) : ProperTrace tr := by
  induction tr' using List.reverseRecOn with
  | nil => simpa using h
  | append_singleton tr' e ih =>
    rw [← List.append_assoc] at h
    generalize hg : tr ++ tr' ++ [e] = l at h
    cases h with
    | nil => simp at hg
    | snoc h _ => exact ih ((List.append_inj' hg rfl).1 ▸ h)

theorem ProperTrace.last {tr' : List Event} {e : Event} (h : ProperTrace (tr ++ e :: tr')) :
    e.Proper tr := by
  rw [List.append_cons] at h
  have h' := h.of_append
  generalize hg : tr ++ [e] = l at h'
  cases h' with
  | nil => simp at hg
  | snoc _ he =>
    obtain ⟨h1, h2⟩ := List.append_inj' hg rfl
    simp only [List.cons.injEq, and_true] at h2
    exact h1 ▸ h2 ▸ he

/-- **What a slot holds** is the last token it has issued. -/
theorem ProperTrace.held (h : ProperTrace tr) {i : ℕ} {o : Option Bool}
    (hv : view tr i = some (t, o)) :
    i < 256 ∧ 1 ≤ acquisitions tr i ∧ t = tokenOf (genOf (acquisitions tr i)) i := by
  induction h generalizing o with
  | nil => simp [view] at hv
  | @snoc tr e h he ih =>
    rw [view_append_singleton] at hv
    rw [acquisitions_append]
    by_cases hacq : ∃ t', e = .acquired t'
    · obtain ⟨t', rfl⟩ := hacq
      by_cases hi : i = index t'
      · subst hi
        simp only [Event.apply, Function.update_self, Option.some.injEq, Prod.mk.injEq] at hv
        obtain ⟨rfl, -⟩ := hv
        simp only [Event.Issues, decide_true, if_true]
        exact ⟨index_lt t', by omega, he.2⟩
      · simp only [Event.apply, Function.update_of_ne hi] at hv
        simpa [Event.Issues, Ne.symm hi] using ih hv
    · have hne : ∀ t', e ≠ .acquired t' := fun t' ht => hacq ⟨t', ht⟩
      obtain ⟨o', ho'⟩ := Event.apply_some hne hv
      simpa [Event.issues_eq_false hne] using ih ho'

theorem ProperTrace.held_small (h : ProperTrace tr) {i : ℕ} {o : Option Bool}
    (hv : view tr i = some (t, o)) : index t = i ∧ 0 < t ∧ t < 2 ^ 40 := by
  obtain ⟨hi, hk, rfl⟩ := h.held hv
  obtain ⟨h1, h2, h3⟩ := tokenOf_genOf hk hi
  exact ⟨h3, h1, h2⟩

/-- **An issued token** is the next one of its slot. -/
theorem ProperTrace.issued {pre post : List Event}
    (h : ProperTrace (pre ++ .acquired t :: post)) :
    t = tokenOf (genOf (acquisitions pre (index t) + 1)) (index t) := h.last.2

/-- A history in which no slot has run through its generations issues every token once. -/
theorem ProperTrace.legal (h : ProperTrace tr) (hb : ∀ i < 256, acquisitions tr i < 2 ^ 32) :
    LegalTrace tr := by
  induction h with
  | nil => exact .nil
  | @snoc tr e h he ih =>
    have hb' : ∀ i < 256, acquisitions tr i < 2 ^ 32 := fun i hi => by
      have := hb i hi
      rw [acquisitions_append] at this
      omega
    refine (ih hb').snoc ?_
    cases e with
    | acquired t =>
      refine ⟨he.1, fun hmem => ?_⟩
      obtain ⟨pre, post, rfl⟩ := List.append_of_mem hmem
      have hlt := hb (index t) (index_lt t)
      have heq := tokenOf_inj (index_lt t) (h.issued.symm.trans he.2)
      rw [acquisitions_append, acquisitions_append_cons] at hlt
      rw [acquisitions_append_cons] at heq
      simp only [Event.Issues, decide_true, if_true] at hlt heq
      exact genOf_ne (by omega) (by omega) (by omega) heq
    | refused => exact he
    | probed t r => exact he
    | aborted t taken => exact he
    | completed t ok => exact he

/-- **How far apart two issues of one token are.** -/
theorem ProperTrace.reissued {pre mid post : List Event}
    (h : ProperTrace (pre ++ .acquired t :: mid ++ .acquired t :: post)) :
    2 ^ 32 - 2 ≤ acquisitions mid (index t) := by
  by_contra hlt
  have hfirst := h.of_append.issued
  have hsecond := h.issued
  rw [acquisitions_append_cons] at hsecond
  simp only [Event.Issues, decide_true, if_true] at hsecond
  have heq := tokenOf_inj (index_lt t) (hfirst.symm.trans hsecond)
  exact genOf_ne (by omega) (by omega) (by omega) heq

/-- A slot without a new acquisition cannot get a token. -/
theorem live_of_append {post : List Event} (h0 : acquisitions post (index t) = 0)
    (hl : Live (view (tr ++ post)) t) : Live (view tr) t := by
  induction post using List.reverseRecOn with
  | nil => simpa using hl
  | append_singleton post e ih =>
    rw [acquisitions_append] at h0
    obtain ⟨o, ho⟩ := hl
    rw [← List.append_assoc, view_append_singleton] at ho
    refine ih (by omega) ?_
    by_cases hacq : ∃ t', e = .acquired t'
    · obtain ⟨t', rfl⟩ := hacq
      have hne : index t ≠ index t' := fun heq => by simp [Event.Issues, heq] at h0
      exact ⟨o, by simpa [Event.apply, Function.update_of_ne hne] using ho⟩
    · exact Event.apply_some (fun t' ht => hacq ⟨t', ht⟩) ho

theorem Event.Proper.live_of_consumes {e : Event} (he : e.Proper tr) (hc : e.Consumes t = true) :
    Live (view tr) t ∧ ¬ Live (e.apply (view tr)) t := by
  cases e with
  | acquired t' => simp [Event.Consumes] at hc
  | refused | probed | aborted | completed => exact Event.live_of_consumes he hc

/-- **A token that has been taken** is not in its slot again until the slot has run through all its
generations. -/
theorem ProperTrace.stale {pre post : List Event} {e : Event} (h : ProperTrace (pre ++ e :: post))
    (hc : e.Consumes t = true) (hb : acquisitions post (index t) < 2 ^ 32 - 1) :
    ¬ Live (view (pre ++ e :: post)) t := by
  intro hlive
  obtain ⟨⟨o, ho⟩, hgone⟩ := h.last.live_of_consumes hc
  rcases Nat.eq_zero_or_pos (acquisitions post (index t)) with h0 | hpos
  · rw [List.append_cons] at hlive
    have := live_of_append h0 hlive
    rw [view_append_singleton] at this
    exact hgone this
  · obtain ⟨o', ho'⟩ := hlive
    obtain ⟨-, hk, heq⟩ := h.of_append.held ho
    obtain ⟨-, -, heq'⟩ := h.held ho'
    have hissue : e.Issues (index t) = false := by
      cases e with
      | acquired t' => simp [Event.Consumes] at hc
      | refused | probed | aborted | completed => rfl
    rw [acquisitions_append_cons, hissue] at heq'
    simp only [Bool.false_eq_true, if_false, Nat.add_zero] at heq'
    have hgen := tokenOf_inj (index_lt t) (heq.symm.trans heq')
    exact genOf_ne hk (by omega) (by omega) hgen

end Proper

end KvBench.Events
