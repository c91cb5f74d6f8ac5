import KvBench.Conc.Contract

/-!
# What a thread does to its own history

Some properties of a thread do not depend on the others at all: they speak about a history that only
the thread itself adds to. For those there is no need to verify against a discipline, and no need to
show that the thread ends. A `Private` history says how an action, with the response to it, is
recorded, what the thread may assume of a response (`fact`) and what it owes before an action
(`duty`). That is a contract, by which the thread is judged without the others.

`Reachable.safe` carries this over to a family of threads: the assumptions have to hold of every
action in a reachable configuration.
-/

namespace KvBench.Conc

/-- A history of type `H` of one thread. -/
structure Private (M H : Type) (A : Type → Type) where
  step : {β : Type} → A β → β → H → H
  fact : {β : Type} → M → H → A β → β → Prop
  duty : {β : Type} → M → H → A β → Prop

section Local

variable {M H α β γ : Type} {A : Type → Type} (L : Private M H A)

/-- The history grows with every response. -/
def Private.contract : Contract M H A where
  duty := L.duty
  next m h e r h' := L.fact m h e r ∧ h' = L.step e r h

/-- The thread does what it owes. -/
abbrev Private.safe : Judgement L.contract := L.contract.safe

/-- Started with `P`, the procedure `c` does what it owes, and if it returns, then with `Q`. -/
abbrev Keeps (P : M → H → Prop) (c : Proc M A α) (Q : α → M → H → Prop) : Prop :=
  Spec L.safe id P c Q

variable {L}

theorem Private.safe_act {Q : α → H → Prop} {m : M} {e : A β} {k : β → Prog M A α} {h : H} :
    L.safe.holds Q (.act m e k) h ↔
      L.duty m h e ∧ ∀ r, L.fact m h e r → L.safe.holds Q (k r) (L.step e r h) := by
  rw [L.safe.act]
  refine and_congr_right fun _ => ⟨fun hnext r hr => hnext r _ ⟨hr, rfl⟩, ?_⟩
  rintro hnext r _ ⟨hr, rfl⟩
  exact hnext r hr

theorem Keeps.act {P : M → H → Prop} {e : A β} {Q : β → M → H → Prop}
    (hduty : ∀ m h, P m h → L.duty m h e)
    (hstep : ∀ m h r, P m h → L.fact m h e r → Q r m (L.step e r h)) :
    Keeps L P (Proc.act e) Q := by
  refine Spec.act hduty ?_
  rintro m h r _ hP ⟨hr, rfl⟩
  exact hstep m h r hP hr

/-! ### Families of threads -/

section Pool

variable {ι S O E : Type} [DecidableEq ι] {W : World ι M S O E A}

variable (L W) in
/-- The histories of the threads, as they can be read off the shared state. -/
structure Recorded (log : ι → S → H) : Prop where
  own : ∀ {β : Type} i o (e : A β) s, log i (W.run i o e s).2 = L.step e (W.run i o e s).1 (log i s)
  other : ∀ {β : Type} i j o (e : A β) s, j ≠ i → log j (W.run i o e s).2 = log j s
  env : ∀ i e s, log i (W.env e s) = log i s

variable (L W) in
/-- The assumptions hold of every action that a thread can make in the configuration. -/
def Factual (log : ι → S → H) (c : Conf ι M S A α) : Prop :=
  ∀ {β : Type} i m (e : A β) k, c.prog i = .act m e k → ∀ o, W.allowed i (c.time i) m e c.state o →
    L.fact m (log i c.state) e (W.run i o e c.state).1

/-- All threads are safe. -/
def Conf.Safe (L : Private M H A) (log : ι → S → H) (Q : ι → α → H → Prop) (c : Conf ι M S A α) :
    Prop := ∀ i, L.safe.holds (Q i) (c.prog i) (log i c.state)

variable {log : ι → S → H} {Q : ι → α → H → Prop} {c c₀ : Conf ι M S A α}

theorem Conf.Safe.play (hc : c.Safe L log Q) (hlog : Recorded L W log) (hfact : Factual L W log c)
    {mv : Move ι O E} (hen : c.Enabled W mv) : (c.play W mv).Safe L log Q := by
  cases mv with
  | env e =>
    intro i
    show L.safe.holds (Q i) (c.prog i) (log i (W.env e c.state))
    rw [hlog.env]
    exact hc i
  | thread i o =>
    intro j
    have hi := hc i
    unfold Conf.Enabled at hen
    unfold Conf.play
    dsimp only at hen ⊢
    rcases hp : c.prog i with a | ⟨m, e, k⟩ | ⟨body, b, k⟩
    · exact hc j
    · rw [hp] at hi hen
      by_cases hj : j = i
      · subst hj
        show L.safe.holds (Q j) (Function.update c.prog j _ j) (log j _)
        rw [Function.update_self, hlog.own]
        exact (Private.safe_act.1 hi).2 _ (hfact j m e k hp o hen)
      · show L.safe.holds (Q j) (Function.update c.prog i _ j) (log j _)
        rw [Function.update_of_ne hj, hlog.other i j o e c.state hj]
        exact hc j
    · rw [hp] at hi
      by_cases hj : j = i
      · subst hj
        show L.safe.holds (Q j) (Function.update c.prog j _ j) _
        rw [Function.update_self]
        exact L.safe.loop.1 hi
      · show L.safe.holds (Q j) (Function.update c.prog i _ j) _
        rw [Function.update_of_ne hj]
        exact hc j

/-- **All runs**: threads that are safe stay safe. -/
theorem Reachable.safe (hr : Reachable W c₀ c) (h0 : c₀.Safe L log Q) (hlog : Recorded L W log)
    (hfact : ∀ c, Reachable W c₀ c → Factual L W log c) : c.Safe L log Q := by
  -- reachability is carried along, so that the assumptions can be used on the way
  have hboth : Reachable W c₀ c ∧ c.Safe L log Q := by
    refine hr.induct (P := fun c => Reachable W c₀ c ∧ c.Safe L log Q) ⟨.refl W c₀, h0⟩ ?_
    rintro c mv ⟨hc, hsafe⟩ hen
    exact ⟨hc.play hen, hsafe.play hlog (hfact c hc) hen⟩
  exact hboth.2

/-- **What the threads owe adds up**: a property of the shared state holds in every run when it is kept
by the environment and by every action, as long as that is owed. -/
theorem Reachable.invariant (hr : Reachable W c₀ c) (h0 : c₀.Safe L log Q) (hlog : Recorded L W log)
    (hfact : ∀ c, Reachable W c₀ c → Factual L W log c) {I : S → Prop} (hstart : I c₀.state)
    (henv : ∀ e s, I s → I (W.env e s))
    (hrun : ∀ {β : Type} i o m (e : A β) s, L.duty m (log i s) e →
      L.fact m (log i s) e (W.run i o e s).1 → I s → I (W.run i o e s).2) : I c.state := by
  have hboth : Reachable W c₀ c ∧ I c.state := by
    refine hr.induct (P := fun c => Reachable W c₀ c ∧ I c.state) ⟨.refl W c₀, hstart⟩ ?_
    rintro c mv ⟨hc, hI⟩ hen
    refine ⟨hc.play hen, ?_⟩
    cases mv with
    | env e => exact henv e c.state hI
    | thread i o =>
      have hsafe := hc.safe h0 hlog hfact i
      unfold Conf.Enabled at hen
      unfold Conf.play
      dsimp only at hen ⊢
      rcases hp : c.prog i with a | ⟨m, e, k⟩ | ⟨body, b, k⟩
      · exact hI
      · rw [hp] at hen hsafe
        exact hrun i o m e c.state (Private.safe_act.1 hsafe).1 (hfact c hc i m e k hp o hen) hI
      · exact hI
  exact hboth.2

/-- The same for a property of single histories. -/
theorem Reachable.history (hr : Reachable W c₀ c) (h0 : c₀.Safe L log Q) (hlog : Recorded L W log)
    (hfact : ∀ c, Reachable W c₀ c → Factual L W log c) {G : H → Prop}
    (hG : ∀ {β : Type} m h (e : A β) r, L.duty m h e → L.fact m h e r → G h → G (L.step e r h))
    (hstart : ∀ i, G (log i c₀.state)) (i : ι) : G (log i c.state) := by
  refine hr.invariant h0 hlog hfact (I := fun s => ∀ i, G (log i s)) hstart ?_ ?_ i
  · intro e s hall j
    rw [hlog.env]
    exact hall j
  · intro β i o m e s hduty hfact hall j
    by_cases hj : j = i
    · subst hj
      rw [hlog.own]
      exact hG m _ e _ hduty hfact (hall j)
    · rw [hlog.other i j o e s hj]
      exact hall j

/-- A thread can be looked at while it does a part of what it does, when the others owe nothing. -/
theorem Conf.Safe.detour (hduty : ∀ {β : Type} m h (e : A β), L.duty m h e) (c : Conf ι M S A α)
    {i : ι} {p : Prog M A β} {R : β → H → Prop} (hp : L.safe.holds R p (log i c.state)) :
    (c.detour i p).Safe L log fun j r h => j = i → ∀ b ∈ r, R b h := by
  intro j
  unfold Conf.detour
  dsimp only
  by_cases hj : j = i
  · subst hj
    rw [Function.update_self]
    refine L.safe.bind hp fun b h hR => L.safe.ret.2 ?_
    rintro - _ ⟨⟩
    exact hR
  · rw [Function.update_of_ne hj]
    refine L.safe.bind (Contract.safe_of_duty hduty (c.prog j) _) fun _ h _ => L.safe.ret.2 ?_
    exact fun hji => absurd hji hj

omit [DecidableEq ι] in
theorem Conf.Safe.result (hc : c.Safe L log Q) {i : ι} {a : α} (ha : c.result i = some a) :
    Q i a (log i c.state) := by
  have h := hc i
  rw [Conf.prog_of_result ha] at h
  exact L.safe.ret.1 h

/-! ### Histories along a run -/

/-- What the thread `i` adds to its history by a move. -/
def Conf.record (step : {β : Type} → A β → β → H → H) (W : World ι M S O E A) (i : ι)
    (c : Conf ι M S A α) : Move ι O E → H → H
  | .thread j o, h =>
    if j = i then
      match c.prog i with
      | .act _ e _ => step e (W.run i o e c.state).1 h
      | _ => h
    else h
  | .env _, h => h

/-- The history of the thread `i` after a sequence of moves. -/
def Conf.records (step : {β : Type} → A β → β → H → H) (W : World ι M S O E A) (i : ι) :
    Conf ι M S A α → List (Move ι O E) → H → H
  | _, [], h => h
  | c, mv :: mvs, h => (c.play W mv).records step W i mvs (c.record step W i mv h)

section Records

variable {i : ι} {Q : α → H → Prop} {h : H}

/-- A move of any thread keeps the thread `i` safe, with what it adds to its history. -/
theorem Private.holds_record (hfact : ∀ {β : Type} m h (e : A β) r, L.fact m h e r)
    (hc : L.safe.holds Q (c.prog i) h) (mv : Move ι O E) :
    L.safe.holds Q ((c.play W mv).prog i) (c.record L.step W i mv h) := by
  cases mv with
  | env e => exact hc
  | thread j o =>
    by_cases hj : j = i
    · subst hj
      unfold Conf.play Conf.record
      dsimp only
      rw [if_pos rfl]
      rcases hp : c.prog j with a | ⟨m, e, k⟩ | ⟨body, b, k⟩
      · exact hc
      · rw [hp] at hc
        show L.safe.holds Q (Function.update c.prog j _ j) _
        rw [Function.update_self]
        exact (Private.safe_act.1 hc).2 _ (hfact m h e _)
      · rw [hp] at hc
        show L.safe.holds Q (Function.update c.prog j _ j) _
        rw [Function.update_self]
        exact L.safe.loop.1 hc
    · have hsame : (c.play W (.thread j o)).prog i = c.prog i := by
        unfold Conf.play
        dsimp only
        split
        · rfl
        · exact Function.update_of_ne (Ne.symm hj) _ _
        · exact Function.update_of_ne (Ne.symm hj) _ _
      have hnone : c.record L.step W i (.thread j o) h = h := if_neg hj
      rw [hsame, hnone]
      exact hc

/-- **A property of the history** that is kept by every action as long as that is owed holds along
every run. -/
theorem Private.records_of_holds (hfact : ∀ {β : Type} m h (e : A β) r, L.fact m h e r) {G : H → Prop}
    (hG : ∀ {β : Type} m h (e : A β) r, L.duty m h e → G h → G (L.step e r h))
    (hc : L.safe.holds Q (c.prog i) h) (hh : G h) (mvs : List (Move ι O E)) :
    G (c.records L.step W i mvs h) := by
  induction mvs generalizing c h with
  | nil => exact hh
  | cons mv mvs ih =>
    refine ih (Private.holds_record hfact hc mv) ?_
    cases mv with
    | env e => exact hh
    | thread j o =>
      unfold Conf.record
      dsimp only
      split
      · rcases hp : c.prog i with a | ⟨m, e, k⟩ | ⟨body, b, k⟩
        · exact hh
        · rw [hp] at hc
          exact hG m h e _ (Private.safe_act.1 hc).1 hh
        · exact hh
      · exact hh

end Records

end Pool

end Local

end KvBench.Conc
