import KvBench.Events.Tokens

/-!
# The code of the event pool produces legal histories

`PoolRun` is one `EventSlotPool` in use: the worker calls its operations one after the other, the
completion thread calls `Complete` at any moment, and the two interleave at the single atomic
accesses. An operation enters the history together with the last access it makes.

The words `states_` encode the abstract view of the slots at every moment (`PoolRun.Inv.states`),
also in the middle of an operation; that is what makes every compare-exchange of the worker on a
token it holds succeed.
-/

namespace KvBench.Events

open KvBench.Conc

/-! ### Running one pool -/

/-- The calls the worker can make. -/
inductive Call where
  | acquire
  | probe (token : ℕ)
  | abort (token : ℕ)

/-- The pool on its own, without a surrounding thread. -/
def selfPort : Port EventSlots SlotAct := ⟨id, fun ev _ => ev, id⟩

/-- A call, with what it returned as an event. -/
def Call.prog : Call → Proc EventSlots SlotAct Event
  | .acquire => do
    match ← selfPort.acquire with
    | some t => pure (.acquired t)
    | none => pure .refused
  | .probe t => do pure (.probed t (← selfPort.probe t))
  | .abort t => do pure (.aborted t (← selfPort.abort t))

/-- An event pool in use. -/
structure PoolRun where
  slots : EventSlots
  /-- The rest of the operation the worker is in. -/
  running : Option (Prog EventSlots SlotAct (Event × EventSlots))
  states : ℕ → ℕ
  trace : List Event

/-- A fresh pool. -/
def PoolRun.fresh : PoolRun := ⟨.fresh, none, fun _ => 0, []⟩

/-- What can happen next: the worker calls an operation, it makes an atomic access, or the
completion thread completes a token. -/
inductive PoolMove where
  | call (op : Call)
  | access (spurious : Bool)
  | complete (token : ℕ) (ok : Bool)

/-- Tokens have 40 bits. -/
def PoolMove.Small : PoolMove → Prop
  | .call .acquire => True
  | .call (.probe t) => t < 2 ^ 40
  | .call (.abort t) => t < 2 ^ 40
  | .access _ => True
  | .complete t _ => t < 2 ^ 40

/-- The worker goes on with `p`, or returns. -/
def PoolRun.continue (c : PoolRun) : Prog EventSlots SlotAct (Event × EventSlots) → PoolRun
  | .ret (e, ev) => { c with slots := ev, running := none, trace := c.trace ++ [e] }
  | p => { c with running := some p }

/-- The pool after a move. A call is only made between operations. -/
def PoolRun.play (c : PoolRun) : PoolMove → PoolRun
  | .call op =>
    match c.running with
    | none => c.continue (op.prog c.slots)
    | some _ => c
  | .access spurious =>
    match c.running with
    | some (.act _ e k) =>
      let rs := e.run spurious c.states
      { c with states := rs.2 }.continue (k rs.1)
    | some (.loop body b k) => c.continue (Prog.unroll body b k)
    | _ => c
  | .complete t ok =>
    { c with states := complete t ok c.states, trace := c.trace ++ [.completed t ok] }

/-- The pool after a sequence of moves. -/
def PoolRun.plays (c : PoolRun) (mvs : List PoolMove) : PoolRun := mvs.foldl PoolRun.play c

/-! ### What the history says about the free stack -/

/-- The word of a slot. -/
def encode : Option (ℕ × Option Bool) → ℕ
  | none => 0
  | some (t, none) => pending t
  | some (t, some ok) => done t ok

/-- What the worker's own part of the pool has to do with the history, between two operations. -/
structure SlotsOk (ev : EventSlots) (tr : List Event) : Prop where
  nodup : ev.freeSlots.Nodup
  free : ∀ i, i ∈ ev.freeSlots ↔ i < 256 ∧ view tr i = none
  generation : ∀ i < 256, ev.generations i = genOf (acquisitions tr i)
  /-- Each event that frees a slot has pushed it exactly once. -/
  pushed : ∀ i < 256, ev.freeSlots.count i + acquisitions tr i = 1 + tr.countP (Event.Frees i)

/-! ### The operations, access by access -/

section Programs

variable (ev : EventSlots) (t v : ℕ)

/-- The rest of `Probe` after its load. -/
def probeRest : Prog EventSlots SlotAct (Event × EventSlots) :=
  (do pure (.probed t (← selfPort.probeValue t v)) : Proc EventSlots SlotAct Event) ev

/-- The rest of `Abort`, at the head of its loop. -/
def abortRest : Prog EventSlots SlotAct (Event × EventSlots) :=
  (do pure (.aborted t (← Proc.loop (selfPort.abortRound t) v)) :
    Proc EventSlots SlotAct Event) ev

/-- The rest of `Abort`, at its compare-exchange. -/
def abortCas : Prog EventSlots SlotAct (Event × EventSlots) :=
  .act ev (.casWeak (index t) v 0) fun
    | none => .ret (.aborted t true, ev.release (index t))
    | some found => abortRest ev t found

theorem acquire_prog (gens : ℕ → ℕ) (i : ℕ) (rest : List ℕ) :
    let ev' : EventSlots := ⟨Function.update gens i (nextGeneration (gens i)), rest⟩
    let t := tokenOf (nextGeneration (gens i)) i
    Call.acquire.prog ⟨gens, i :: rest⟩ =
      .act ev' (.casStrong i 0 (pending t)) fun
        | none => .ret (.acquired t, ev')
        | some _ => .ret (.refused, ev'.release i) := by
  refine congrArg (Prog.act _ _) (funext fun r => ?_)
  cases r <;> rfl

variable {t v}

theorem probe_prog (h0 : t ≠ 0) :
    (Call.probe t).prog ev = .act ev (.load (index t)) fun v => probeRest ev t v := by
  simp only [Call.prog, Port.probe, if_neg h0]
  rfl

theorem probeRest_of_ne (hv : ∀ ok, v ≠ done t ok) :
    probeRest ev t v = .ret (.probed t 0, ev) := by
  simp only [probeRest, Port.probeValue, if_pos (And.intro (hv true) (hv false))]
  rfl

theorem probeRest_done (ok : Bool) :
    probeRest ev t (done t ok) = .act ev (.casStrong (index t) (done t ok) 0) fun
      | some _ => .ret (.probed t 0, ev)
      | none => .ret (.probed t (if done t ok = done t true then 1 else -1),
          ev.release (index t)) := by
  have hne : ¬ (done t ok ≠ done t true ∧ done t ok ≠ done t false) := by
    cases ok <;> simp
  simp only [probeRest, Port.probeValue, if_neg hne]
  refine congrArg (Prog.act _ _) (funext fun r => ?_)
  cases r <;> rfl

theorem abort_prog (h0 : t ≠ 0) :
    (Call.abort t).prog ev = .act ev (.load (index t)) fun v => abortRest ev t v := by
  simp only [Call.prog, Port.abort, if_neg h0]
  rfl

end Programs

/-- Where the worker can be in the middle of an operation. -/
inductive Stage (tr : List Event) : Prog EventSlots SlotAct (Event × EventSlots) → Prop
  | acquire {gens : ℕ → ℕ} {i : ℕ} {rest : List ℕ} (h : SlotsOk ⟨gens, i :: rest⟩ tr) :
      Stage tr (Call.acquire.prog ⟨gens, i :: rest⟩)
  | probe {ev : EventSlots} {t : ℕ} (h : SlotsOk ev tr) (h0 : t ≠ 0) (ht : t < 2 ^ 40) :
      Stage tr ((Call.probe t).prog ev)
  | probeDone {ev : EventSlots} {t : ℕ} {ok : Bool} (h : SlotsOk ev tr) (ht : t < 2 ^ 40)
      (hv : view tr (index t) = some (t, some ok)) : Stage tr (probeRest ev t (done t ok))
  | abort {ev : EventSlots} {t : ℕ} (h : SlotsOk ev tr) (h0 : t ≠ 0) (ht : t < 2 ^ 40) :
      Stage tr ((Call.abort t).prog ev)
  | abortHead {ev : EventSlots} {t v : ℕ} (h : SlotsOk ev tr) (h0 : t ≠ 0) (ht : t < 2 ^ 40)
      (hv : v >>> 2 = t ↔ Live (view tr) t) : Stage tr (abortRest ev t v)
  | abortCas {ev : EventSlots} {t v : ℕ} (h : SlotsOk ev tr) (h0 : t ≠ 0) (ht : t < 2 ^ 40)
      (hv : Live (view tr) t) : Stage tr (abortCas ev t v)

/-- What holds at every moment. -/
structure PoolRun.Inv (c : PoolRun) : Prop where
  proper : ProperTrace c.trace
  states : ∀ i < 256, c.states i = encode (view c.trace i)
  idle : c.running = none → SlotsOk c.slots c.trace
  busy : ∀ p, c.running = some p → Stage c.trace p

/-! ### Encoding -/

theorem encode_div {t : ℕ} {o : Option Bool} (ht : t < 2 ^ 40) :
    encode (some (t, o)) >>> 2 = t := by
  rw [Nat.shiftRight_eq_div_pow]
  cases o with
  | none => simp only [encode, pending_eq ht]; omega
  | some ok =>
    simp only [encode, done_eq ht]
    cases ok <;> simp <;> omega

theorem encode_eq_done_iff {t t' : ℕ} {o : Option Bool} {ok : Bool} (ht : t < 2 ^ 40)
    (ht' : t' < 2 ^ 40) :
    encode (some (t', o)) = done t ok ↔ t' = t ∧ o = some ok := by
  constructor
  · intro h
    cases o with
    | none =>
      simp only [encode, pending_eq ht', done_eq ht] at h
      cases ok <;> simp at h <;> omega
    | some ok' =>
      simp only [encode, done_eq ht', done_eq ht] at h
      cases ok <;> cases ok' <;> simp at h ⊢ <;> omega
  · rintro ⟨rfl, rfl⟩; rfl

section Words

variable {tr : List Event} (htr : ProperTrace tr) {st : ℕ → ℕ}
  (hst : ∀ i < 256, st i = encode (view tr i))
include htr hst

/-- The word of the slot of `t` says whether `t` is done, and how. -/
theorem word_eq_done_iff {t : ℕ} (ht : t < 2 ^ 40) (ok : Bool) :
    st (index t) = done t ok ↔ view tr (index t) = some (t, some ok) := by
  rw [hst _ (index_lt t)]
  cases hv : view tr (index t) with
  | none => simpa [encode] using (done_ne_zero ht ok).symm
  | some x =>
    obtain ⟨t', o⟩ := x
    rw [encode_eq_done_iff ht (htr.held_small hv).2.2]
    simp

/-- The word of the slot of `t` says whether `t` is pending. -/
theorem word_eq_pending_iff {t : ℕ} (h0 : t ≠ 0) (ht : t < 2 ^ 40) :
    st (index t) = pending t ↔ view tr (index t) = some (t, none) := by
  rw [hst _ (index_lt t)]
  cases hv : view tr (index t) with
  | none =>
    simp only [encode, pending_eq ht, reduceCtorEq, iff_false]
    omega
  | some x =>
    obtain ⟨t', o⟩ := x
    have ht' := (htr.held_small hv).2.2
    cases o with
    | none => simp only [encode, pending_eq ht, pending_eq ht', Option.some.injEq, Prod.mk.injEq,
        and_true]; omega
    | some ok' =>
      simp only [encode, pending_eq ht, done_eq ht', Option.some.injEq, Prod.mk.injEq,
        reduceCtorEq, and_false, iff_false]
      cases ok' <;> simp <;> omega

/-- The word of the slot of `t` says whether the slot holds `t`. -/
theorem word_shift_iff {t : ℕ} (h0 : t ≠ 0) : st (index t) >>> 2 = t ↔ Live (view tr) t := by
  rw [hst _ (index_lt t), Live]
  cases hv : view tr (index t) with
  | none => simpa [encode] using h0.symm
  | some x =>
    obtain ⟨t', o⟩ := x
    rw [encode_div (htr.held_small hv).2.2]
    simp

end Words

/-! ### How an event changes the bookkeeping -/

section Events

variable {tr : List Event} {ev : EventSlots} {e : Event}

/-- An event that moves no slot between free and held. -/
theorem SlotsOk.quiet (h : SlotsOk ev tr) (hi : ∀ i, e.Issues i = false)
    (hf : ∀ i, e.Frees i = false) (hv : ∀ i, e.apply (view tr) i = none ↔ view tr i = none) :
    SlotsOk ev (tr ++ [e]) where
  nodup := h.nodup
  free i := by rw [h.free, view_append_singleton, hv]
  generation i hi' := by rw [h.generation i hi', acquisitions_append, hi]; rfl
  pushed i hi' := by
    rw [acquisitions_append, hi]
    simpa [List.countP_append, hf] using h.pushed i hi'

/-- A completion of `t` touches the word of the slot exactly when it touches the view. -/
theorem complete_word (htr : ProperTrace tr) {st : ℕ → ℕ}
    (hst : ∀ i < 256, st i = encode (view tr i)) {t : ℕ} (ht : t < 2 ^ 40) (ok : Bool) :
    ∀ i < 256, complete t ok st i = encode ((Event.completed t ok).apply (view tr) i) := by
  intro i hi
  have hpend := word_eq_pending_iff htr hst (t := t)
  unfold complete
  simp only [Event.apply, SlotAct.run]
  by_cases h0 : t = 0
  · have hne : view tr (index t) ≠ some (t, none) := fun h => by
      have := (htr.held_small h).2.1
      omega
    rw [if_pos h0, if_neg hne]
    exact hst i hi
  · rw [if_neg h0]
    by_cases hp : view tr (index t) = some (t, none)
    · rw [if_pos ((hpend h0 ht).2 hp), if_pos hp]
      by_cases hi' : i = index t
      · subst hi'; simp [encode]
      · simpa [Function.update_of_ne hi'] using hst i hi
    · rw [if_neg (mt (hpend h0 ht).1 hp), if_neg hp]
      exact hst i hi

/-- Taking a token frees its slot. -/
theorem SlotsOk.freed (h : SlotsOk ev tr) {t : ℕ} (hl : Live (view tr) t)
    (hi : ∀ i, e.Issues i = false) (hf : ∀ i, e.Frees i = decide (index t = i))
    (hv : e.apply (view tr) = Function.update (view tr) (index t) none) :
    SlotsOk (ev.release (index t)) (tr ++ [e]) where
  nodup := by
    refine List.nodup_cons.2 ⟨fun hmem => ?_, h.nodup⟩
    obtain ⟨o, ho⟩ := hl
    have := ((h.free _).1 hmem).2
    simp [ho] at this
  free i := by
    rw [view_append_singleton, hv]
    by_cases hit : i = index t
    · subst hit; simp [EventSlots.release, index_lt]
    · simp [EventSlots.release, hit, h.free]
  generation i hi' := by
    rw [acquisitions_append, hi]
    exact h.generation i hi'
  pushed i hi' := by
    have hp := h.pushed i hi'
    rw [acquisitions_append, hi]
    simp only [EventSlots.release, List.count_cons, List.countP_append, List.countP_singleton, hf,
      beq_iff_eq, decide_eq_true_eq, Bool.false_eq_true, if_false]
    omega

/-- Issuing the next token of the slot on top of the free stack. -/
theorem SlotsOk.issued {gens : ℕ → ℕ} {i : ℕ} {rest : List ℕ} (h : SlotsOk ⟨gens, i :: rest⟩ tr)
    {g : ℕ} (hg : g = genOf (acquisitions tr i + 1)) :
    SlotsOk ⟨Function.update gens i g, rest⟩ (tr ++ [.acquired (tokenOf g i)]) := by
  have hi : i < 256 := ((h.free i).1 (by simp)).1
  have hidx : index (tokenOf g i) = i := by
    rw [index_eq, tokenOf_eq g hi]; omega
  have hnd : i ∉ rest ∧ rest.Nodup := List.nodup_cons.1 h.nodup
  refine ⟨hnd.2, fun j => ?_, fun j hj => ?_, fun j hj => ?_⟩
  · rw [view_append_singleton, Event.apply, hidx]
    by_cases hji : j = i
    · subst hji; simp [hnd.1]
    · have := h.free j
      simpa [hji] using this
  · have := h.generation j hj
    rw [acquisitions_append]
    by_cases hji : j = i
    · subst hji
      simp only [Function.update_self, Event.Issues, hidx, decide_true, if_true]
      exact hg
    · simpa [Event.Issues, hidx, hji, Ne.symm hji] using this
  · have := h.pushed j hj
    rw [acquisitions_append]
    by_cases hji : j = i
    · subst hji
      simp [List.countP_append, Event.Issues, Event.Frees, hidx] at this ⊢
      omega
    · simpa [List.countP_append, Event.Issues, Event.Frees, hidx, hji, Ne.symm hji] using this

end Events

/-! ### Every move keeps the invariant -/

section Moves

variable {c : PoolRun}

/-- The operation returns with `e`, having changed only the words `st`. -/
theorem PoolRun.Inv.finish (h : c.Inv) {e : Event} {ev : EventSlots} (st : ℕ → ℕ)
    (he : e.Proper c.trace) (hst : ∀ i < 256, st i = encode (e.apply (view c.trace) i))
    (hslots : SlotsOk ev (c.trace ++ [e])) :
    PoolRun.Inv { c with states := st, slots := ev, running := none, trace := c.trace ++ [e] } where
  proper := h.proper.snoc he
  states i hi := by
    rw [view_append_singleton]
    exact hst i hi
  idle _ := hslots
  busy p hp := by simp at hp

/-- An operation returns without having touched a slot. -/
theorem PoolRun.Inv.finish_quiet (h : c.Inv) {e : Event} {ev : EventSlots} (he : e.Proper c.trace)
    (hv : e.apply (view c.trace) = view c.trace) (hi : ∀ i, e.Issues i = false)
    (hf : ∀ i, e.Frees i = false) (hslots : SlotsOk ev c.trace) :
    PoolRun.Inv { c with slots := ev, running := none, trace := c.trace ++ [e] } := by
  refine h.finish c.states he (fun i hi' => ?_) (hslots.quiet hi hf fun i => by rw [hv])
  rw [hv]
  exact h.states i hi'

/-- The worker moves on inside its operation. -/
theorem PoolRun.Inv.goOn (h : c.Inv) {p : Prog EventSlots SlotAct (Event × EventSlots)}
    (hp : Stage c.trace p) : PoolRun.Inv { c with running := some p } where
  proper := h.proper
  states := h.states
  idle h0 := by simp at h0
  busy q hq := by
    obtain rfl : p = q := by simpa using hq
    exact hp

/-- A token that `Probe` has seen done is taken. -/
theorem PoolRun.Inv.finish_taken (h : c.Inv) {t : ℕ} (hl : Live (view c.trace) t) {e : Event}
    {ev : EventSlots} (he : e.Proper c.trace)
    (hi : ∀ i, e.Issues i = false) (hf : ∀ i, e.Frees i = decide (index t = i))
    (hv : e.apply (view c.trace) = Function.update (view c.trace) (index t) none)
    (hslots : SlotsOk ev c.trace) :
    PoolRun.Inv { c with
      states := Function.update c.states (index t) 0, slots := ev.release (index t),
      running := none, trace := c.trace ++ [e] } := by
  refine h.finish _ he (fun i hi' => ?_) (hslots.freed hl hi hf hv)
  rw [hv]
  by_cases hit : i = index t
  · subst hit; simp [encode]
  · simpa [Function.update_of_ne hit] using h.states i hi'

/-- `Abort` at the head of its loop: it returns, or goes on to its compare-exchange. -/
theorem unroll_abortRest (ev : EventSlots) (t v : ℕ) :
    ∃ (body : ℕ × EventSlots →
        Prog EventSlots SlotAct ((ℕ × EventSlots) ⊕ (Bool × EventSlots)))
      (b : ℕ × EventSlots) (k : Bool × EventSlots → Prog EventSlots SlotAct (Event × EventSlots)),
      abortRest ev t v = .loop body b k ∧ Prog.unroll body b k =
        if v >>> 2 = t then abortCas ev t v else .ret (.aborted t false, ev) := by
  refine ⟨_, _, _, rfl, ?_⟩
  simp only [Prog.unroll, Port.abortRound]
  split
  · refine congrArg (Prog.act _ _) (funext fun r => ?_)
    cases r <;> rfl
  · rfl

/-- A call starts. -/
theorem PoolRun.Inv.call (h : c.Inv) {op : Call} (hop : (PoolMove.call op).Small)
    (hidle : c.running = none) : (c.continue (op.prog c.slots)).Inv := by
  have hslots := h.idle hidle
  obtain ⟨slots, running, states, trace⟩ := c
  cases op with
  | acquire =>
    obtain ⟨gens, free⟩ := slots
    cases free with
    | nil =>
      exact h.finish_quiet (e := .refused) trivial rfl (fun _ => rfl) (fun _ => rfl) hslots
    | cons i rest => exact h.goOn (.acquire hslots)
  | probe t =>
    by_cases h0 : t = 0
    · subst h0
      refine h.finish_quiet (e := .probed 0 0) ?_ rfl (fun _ => rfl) (fun i => ?_) hslots
      · -- no slot holds the token 0
        by_contra hne
        obtain ⟨ok, hok, -⟩ := exists_of_outcome_ne_zero (Ne.symm hne)
        exact absurd (h.proper.held_small hok).2.1 (lt_irrefl 0)
      · simp [Event.Frees]
    · have hprog := probe_prog slots h0
      have := h.goOn (.probe hslots h0 hop)
      simp only [PoolRun.continue, hprog] at this ⊢
      exact this
  | abort t =>
    by_cases h0 : t = 0
    · subst h0
      refine h.finish_quiet (e := .aborted 0 false) ⟨fun hf => by simp at hf, ?_⟩ rfl (fun _ => rfl)
        (fun i => by simp [Event.Frees]) hslots
      rintro ⟨o, ho⟩
      exact absurd (h.proper.held_small ho).2.1 (lt_irrefl 0)
    · have hprog := abort_prog slots h0
      have := h.goOn (.abort hslots h0 hop)
      simp only [PoolRun.continue, hprog] at this ⊢
      exact this

/-- The worker makes the atomic access it has come to. -/
theorem PoolRun.Inv.access (h : c.Inv) (spurious : Bool) :
    (c.play (.access spurious)).Inv := by
  obtain ⟨slots, running, states, trace⟩ := c
  cases running with
  | none => exact h
  | some p =>
    have hstage := h.busy p rfl
    have htr : ProperTrace trace := h.proper
    have hst : ∀ i < 256, states i = encode (view trace i) := h.states
    cases hstage with
    | @acquire gens i rest hslots =>
      -- the slot is free, so the exchange succeeds
      have hi := (hslots.free i).1 (by simp)
      have hzero : states i = 0 := by rw [hst i hi.1, hi.2]; rfl
      have hnext : nextGeneration (gens i) = genOf (acquisitions trace i + 1) := by
        rw [genOf_succ]
        exact congrArg nextGeneration (hslots.generation i hi.1)
      have hidx := (tokenOf_genOf (Nat.succ_pos (acquisitions trace i)) hi.1).2.2
      simp only [PoolRun.play, acquire_prog, SlotAct.run, hzero, if_true, PoolRun.continue, hnext]
      refine h.finish _ ⟨?_, ?_⟩ (fun j hj => ?_) (hslots.issued rfl)
      · rw [hidx]; exact hi.2
      · rw [hidx]
      · simp only [Event.apply, hidx]
        by_cases hji : j = i
        · subst hji; simp [encode]
        · simpa [Function.update_of_ne hji] using hst j hj
    | @probe ev t hslots h0 ht =>
      simp only [PoolRun.play, probe_prog ev h0, SlotAct.run]
      by_cases hd : ∃ ok, states (index t) = done t ok
      · obtain ⟨ok, hok⟩ := hd
        have hv := (word_eq_done_iff htr hst ht ok).1 hok
        have := h.goOn (.probeDone hslots ht hv)
        rw [hok]
        simp only [probeRest_done, PoolRun.continue] at this ⊢
        exact this
      · have hne : ∀ ok, states (index t) ≠ done t ok := fun ok hok => hd ⟨ok, hok⟩
        rw [probeRest_of_ne ev hne]
        refine h.finish_quiet (e := .probed t 0) ?_ rfl (fun _ => rfl)
          (fun i => by simp [Event.Frees]) hslots
        by_contra hne0
        obtain ⟨ok, hok, -⟩ := exists_of_outcome_ne_zero (Ne.symm hne0)
        exact hne ok ((word_eq_done_iff htr hst ht ok).2 hok)
    | @probeDone ev t ok hslots ht hv =>
      -- a done word only the worker can change
      have hword : states (index t) = done t ok := (word_eq_done_iff htr hst ht ok).2 hv
      simp only [PoolRun.play, probeRest_done, SlotAct.run, hword, if_true, PoolRun.continue]
      have hres : (if done t ok = done t true then (1 : ℤ) else -1) = if ok then 1 else -1 := by
        cases ok
        · rw [if_neg (by rw [done_eq ht, done_eq ht]; simp)]; rfl
        · simp
      have hout : outcome (view trace) t = if ok then 1 else -1 := by
        cases ok <;> simp [outcome, hv]
      rw [hres]
      have hr : (if ok then (1 : ℤ) else -1) ≠ 0 := by cases ok <;> simp
      exact h.finish_taken ⟨_, hv⟩ hout.symm (fun _ => rfl) (fun i => by simp [Event.Frees, hr])
        (by simp [Event.apply, hr]) hslots
    | @abort ev t hslots h0 ht =>
      simp only [PoolRun.play, abort_prog ev h0, SlotAct.run]
      have := h.goOn (.abortHead hslots h0 ht (word_shift_iff htr hst h0))
      exact this
    | @abortHead ev t v hslots h0 ht hv =>
      obtain ⟨body, b, k, hloop, hunroll⟩ := unroll_abortRest ev t v
      simp only [PoolRun.play, hloop, hunroll]
      split
      · rename_i hshift
        exact h.goOn (.abortCas hslots h0 ht (hv.1 hshift))
      · rename_i hshift
        refine h.finish_quiet (e := .aborted t false) ⟨fun hf => by simp at hf, fun hl => ?_⟩ rfl
          (fun _ => rfl) (fun i => by simp [Event.Frees]) hslots
        exact absurd (hv.2 hl) hshift
    | @abortCas ev t v hslots h0 ht hv =>
      simp only [PoolRun.play, Events.abortCas, SlotAct.run]
      split
      · exact h.finish_taken hv (e := .aborted t true) ⟨fun _ => hv, fun _ => rfl⟩ (fun _ => rfl)
          (fun i => by simp [Event.Frees]) (by simp [Event.apply]) hslots
      · exact h.goOn (.abortHead hslots h0 ht (word_shift_iff htr hst h0))

theorem Stage.completed {tr : List Event} {p : Prog EventSlots SlotAct (Event × EventSlots)}
    (h : Stage tr p) (t : ℕ) (ok : Bool) : Stage (tr ++ [.completed t ok]) p := by
  have hslots : ∀ {ev}, SlotsOk ev tr → SlotsOk ev (tr ++ [.completed t ok]) := fun hev =>
    hev.quiet (fun _ => rfl) (fun _ => rfl) (completed_apply_none (view tr) t ok)
  cases h with
  | acquire h => exact .acquire (hslots h)
  | probe h h0 ht => exact .probe (hslots h) h0 ht
  | probeDone h ht hv =>
    exact .probeDone (hslots h) ht (by
      rw [view_append_singleton]; exact completed_apply_done hv t ok)
  | abort h h0 ht => exact .abort (hslots h) h0 ht
  | abortHead h h0 ht hv =>
    exact .abortHead (hslots h) h0 ht (by
      rw [view_append_singleton, completed_apply_live]; exact hv)
  | abortCas h h0 ht hv =>
    exact .abortCas (hslots h) h0 ht (by
      rw [view_append_singleton, completed_apply_live]; exact hv)

/-- **One move.** -/
theorem PoolRun.Inv.play (h : c.Inv) {mv : PoolMove} (hmv : mv.Small) : (c.play mv).Inv := by
  cases mv with
  | call op =>
    unfold PoolRun.play
    dsimp only
    split
    · rename_i hidle
      exact h.call hmv hidle
    · exact h
  | access spurious => exact h.access spurious
  | complete t ok =>
    refine ⟨h.proper.snoc trivial, fun i hi => ?_, fun h0 => ?_, fun p hp => ?_⟩
    · simp only [PoolRun.play, view_append_singleton]
      exact complete_word h.proper h.states hmv ok i hi
    · exact (h.idle h0).quiet (fun _ => rfl) (fun _ => rfl)
        (completed_apply_none (view c.trace) t ok)
    · exact (h.busy p hp).completed t ok

end Moves

/-! ### Every run -/

theorem PoolRun.Inv.plays {c : PoolRun} (h : c.Inv) {mvs : List PoolMove}
    (hmv : ∀ mv ∈ mvs, mv.Small) : (c.plays mvs).Inv := by
  induction mvs generalizing c with
  | nil => exact h
  | cons mv mvs ih => exact ih (h.play (hmv mv (by simp))) fun m hm => hmv m (by simp [hm])

theorem PoolRun.fresh_inv : PoolRun.fresh.Inv where
  proper := .nil
  states i _ := rfl
  idle _ := by
    have hfree : PoolRun.fresh.slots.freeSlots = List.range 256 := by
      simp only [PoolRun.fresh, EventSlots.fresh, kSlotCount]
    refine ⟨?_, fun i => ?_, fun i _ => rfl, fun i hi => ?_⟩
    · rw [hfree]; exact List.nodup_range
    · rw [hfree, List.mem_range]
      exact ⟨fun hi => ⟨hi, rfl⟩, fun hi => hi.1⟩
    · rw [hfree, List.count_eq_one_of_mem List.nodup_range (List.mem_range.2 hi)]
      rfl
  busy p hp := by simp [PoolRun.fresh] at hp

/-- **Exactly-once completion.** In every run of one pool in which no slot is acquired more than
`2 ^ 32 - 1` times: a token is taken at most once; a probe that succeeds returns the outcome of the
first completion after the acquisition; the first probe after that completion succeeds, unless the
token has been aborted; and between operations the free stack has no duplicates and each event that
took a token out of a slot has pushed the slot exactly once. -/
theorem exactly_once (mvs : List PoolMove) (hsmall : ∀ mv ∈ mvs, mv.Small)
    (hb : ∀ i < 256, acquisitions (PoolRun.fresh.plays mvs).trace i ≤ 2 ^ 32 - 1) :
    let c := PoolRun.fresh.plays mvs
    (∀ t, Event.acquired t ∈ c.trace → c.trace.countP (Event.Consumes t) ≤ 1) ∧
    (∀ t r pre post, c.trace = pre ++ .probed t r :: post → r ≠ 0 →
      (r = 1 ∧ firstComplete t pre = some true) ∨ (r = -1 ∧ firstComplete t pre = some false)) ∧
    (∀ t ok r pre pre' post,
      c.trace = pre ++ .completed t ok :: pre' ++ .probed t r :: post →
      Event.acquired t ∈ pre → firstComplete t pre = none →
      Event.aborted t true ∉ pre ++ .completed t ok :: pre' →
      (∀ q, Event.probed t q ∉ pre') → r ≠ 0) ∧
    (c.running = none → c.slots.freeSlots.Nodup ∧ ∀ i < 256,
      c.slots.freeSlots.count i + acquisitions c.trace i =
        1 + c.trace.countP (Event.Frees i)) := by
  intro c
  have hinv : c.Inv := PoolRun.fresh_inv.plays hsmall
  have hlegal : LegalTrace c.trace := hinv.proper.legal fun i hi =>
    (hb i hi).trans_lt (by norm_num)
  refine ⟨fun t _ => hlegal.countP_consumes_le t, fun t r pre post htr hr => ?_,
    fun t ok r pre pre' post htr hacq hfirst habort hnext => ?_,
    fun hidle => ⟨(hinv.idle hidle).nodup, (hinv.idle hidle).pushed⟩⟩
  · exact (htr ▸ hlegal).probed_result hr
  · exact (htr ▸ hlegal).probed_ne_zero hacq hfirst habort hnext

/-- Two tokens in flight; the one completed first is probed twice, the other is aborted and its
completion comes late. -/
theorem exactly_once_run :
    let c := PoolRun.fresh.plays [.call .acquire, .access false, .call .acquire, .access false,
      .complete 256 true, .call (.probe 256), .access false, .access false, .call (.abort 257),
      .access false, .access false, .access true, .access false, .access false, .complete 257 true,
      .call (.probe 256), .access false]
    c.trace = [.acquired 256, .acquired 257, .completed 256 true, .probed 256 1, .aborted 257 true,
        .completed 257 true, .probed 256 0] ∧
      c.trace.countP (Event.Consumes 256) ≤ 1 ∧ c.trace.countP (Event.Consumes 257) ≤ 1 := by
  have h := exactly_once [.call .acquire, .access false, .call .acquire, .access false,
      .complete 256 true, .call (.probe 256), .access false, .access false, .call (.abort 257),
      .access false, .access false, .access true, .access false, .access false, .complete 257 true,
      .call (.probe 256), .access false]
    (by simp [PoolMove.Small]) (fun i hi => le_trans List.countP_le_length (by decide))
  exact ⟨by decide, h.1 256 (by decide), h.1 257 (by decide)⟩

end KvBench.Events
