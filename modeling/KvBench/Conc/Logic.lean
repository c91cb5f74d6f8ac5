import KvBench.Conc.Contract

/-!
# Rely and guarantee

Each thread is verified alone, against a `Discipline`: an invariant of the shared state and, for each
thread, a relation `rely` that every step of somebody else respects. The discipline also has a
`promise`: what a thread guarantees about each action it makes, given its memory, the state and the
response. By the contract of the thread, its actions have to keep all this whatever the others did
since its last one.

Threads that wait for something which may never come are judged by `Discipline.safe`, those that come
to an end by `Discipline.total`. Three theorems carry this over to all interleavings of a family of
threads: the invariant holds in every reachable configuration (`Conf.Good.reachable`), every action
keeps the promise (`Conf.Good.promise`), and a thread that is scheduled again and again returns if it
was shown to end (`Conf.Good.returns`).
-/

namespace KvBench.Conc

/-- What the threads over the shared state `S` promise each other. -/
structure Discipline (ι M S : Type) (A : Type → Type) where
  inv : S → Prop
  /-- What the thread may see happen between two of its actions. -/
  rely : ι → S → S → Prop
  /-- What holds of an action that a thread makes in a state, and of the response to it. -/
  promise : {β : Type} → ι → M → A β → S → β → Prop

section Logic

variable {ι M S O E : Type} {A : Type → Type} (W : World ι M S O E A) (D : Discipline ι M S A)

namespace Discipline

/-- A state in which the invariant holds, and the number of actions the thread has made before. -/
structure Point where
  state : S
  time : ℕ
  inv : D.inv state

/-- A step of somebody else, seen by the thread `i`. -/
def Others (i : ι) (s s' : S) : Prop := D.rely i s s' ∧ D.inv s'

/-- `P` survives the steps of the others. -/
def Stable (i : ι) (P : S → Prop) : Prop :=
  ∀ s s', D.inv s → P s → D.rely i s s' → D.inv s' → P s'

/-- The action keeps the invariant, surprises nobody and keeps the promise. -/
structure Kept (i : ι) (m : M) {β : Type} (e : A β) (s : S) (o : O) : Prop where
  inv : D.inv (W.run i o e s).2
  rely : ∀ j, j ≠ i → D.rely j s (W.run i o e s).2
  promise : D.promise i m e s (W.run i o e s).1

/-- The contract of the thread `i`: before each of its actions the others may move. -/
def contract (i : ι) : Contract M D.Point A where
  duty m x e := ∀ s, Relation.ReflTransGen (D.Others i) x.state s → ∀ o,
    W.allowed i x.time m e s o → D.Kept W i m e s o
  next m x e r y := ∃ s, Relation.ReflTransGen (D.Others i) x.state s ∧ ∃ o,
    W.allowed i x.time m e s o ∧ W.run i o e s = (r, y.state) ∧ y.time = x.time + 1

/-- The thread keeps to the discipline. -/
abbrev safe (i : ι) : Judgement (D.contract W i) := (D.contract W i).safe

/-- The thread keeps to the discipline and comes to an end. -/
abbrev total (i : ι) : Judgement (D.contract W i) := (D.contract W i).total

variable {W D} {i : ι} {α β : Type}

/-- The others do not end the invariant. -/
theorem inv_of_path {s s' : S} (hs : D.inv s) (hp : Relation.ReflTransGen (D.Others i) s s') :
    D.inv s' := by
  cases hp with
  | refl => exact hs
  | tail _ hstep => exact hstep.2

theorem Stable.path {P : S → Prop} (hP : D.Stable i P) {s s' : S} (hs : D.inv s) (h : P s)
    (hp : Relation.ReflTransGen (D.Others i) s s') : P s' := by
  induction hp with
  | refl => exact h
  | tail hp hstep ih => exact hP _ _ (inv_of_path hs hp) ih hstep.1 hstep.2

/-- A thread has nothing else to follow when the others have moved. -/
theorem follows_others :
    (D.contract W i).Follows fun x y => x = y ∨ D.Others i x.state y.state ∧ y.time = x.time := by
  rintro β m e x y (rfl | ⟨hothers, htime⟩) hduty
  · exact ⟨hduty, fun r y hy => ⟨y, hy, .inl rfl⟩⟩
  · refine ⟨fun s hp o ho => hduty s (.head hothers hp) o (htime ▸ ho), ?_⟩
    rintro r y' ⟨s, hp, o, ho, hrun, hy'⟩
    exact ⟨y', ⟨s, .head hothers hp, o, htime ▸ ho, hrun, htime ▸ hy'⟩, .inl rfl⟩

/-- A verified thread stays verified when others move. -/
theorem holds_of_others {J : Judgement (D.contract W i)} {Q : α → S → Prop}
    (hQ : ∀ a, D.Stable i (Q a)) {p : Prog M A α} {x y : D.Point}
    (h : J.holds (fun a x => Q a x.state) p x) (hrely : D.rely i x.state y.state)
    (htime : y.time = x.time) : J.holds (fun a x => Q a x.state) p y := by
  refine J.transfer follows_others ?_ (.inr ⟨⟨hrely, y.inv⟩, htime⟩) h
  rintro a x y (rfl | ⟨hothers, -⟩) ha
  · exact ha
  · exact hQ a _ _ x.inv ha hothers.1 hothers.2

/-- A procedure does not go back in time. -/
theorem spec_timed {J : Judgement (D.contract W i)} {P : M → D.Point → Prop} {c : Proc M A α}
    {Q : α → M → D.Point → Prop} (hc : Spec J id P c Q) (n : ℕ) :
    Spec J id (fun m x => P m x ∧ n ≤ x.time) c (fun a m x => Q a m x ∧ n ≤ x.time) := by
  have hlater : ∀ {β : Type} m (e : A β) x r y, (D.contract W i).next m x e r y →
      n ≤ x.time → n ≤ y.time := by
    rintro β m e x r y ⟨s, -, o, -, -, htime⟩ hx
    rw [htime]
    exact hx.trans (Nat.le_succ _)
  exact ⟨fun m x hP => J.frame hlater (hc.holds m x hP.1) hP.2⟩

/-- One action, from a stable assertion about states and times. -/
theorem spec_act {J : Judgement (D.contract W i)} {e : A β} {P : M → S → ℕ → Prop}
    {Q : β → M → D.Point → Prop} (hP : ∀ m n, D.Stable i (P m · n))
    (hrun : ∀ m s n, D.inv s → P m s n → ∀ o, W.allowed i n m e s o →
      ∃ h : D.Kept W i m e s o, Q (W.run i o e s).1 m ⟨(W.run i o e s).2, n + 1, h.inv⟩) :
    Spec J id (fun m x => P m x.state x.time) (Proc.act e) Q := by
  refine Spec.act ?_ ?_
  · intro m x h s hp o ho
    obtain ⟨hkept, -⟩ := hrun m s x.time (inv_of_path x.inv hp) ((hP m _).path x.inv h hp) o ho
    exact hkept
  · rintro m x r ⟨s', n', hs'⟩ h ⟨s, hp, o, ho, hstep, hn⟩
    obtain ⟨_, hQ⟩ := hrun m s x.time (inv_of_path x.inv hp) ((hP m _).path x.inv h hp) o ho
    obtain ⟨rfl, rfl⟩ := Prod.ext_iff.1 hstep
    obtain rfl : n' = x.time + 1 := hn
    exact hQ

/-- One action, from a stable assertion about states. -/
theorem spec_run {J : Judgement (D.contract W i)} {e : A β} {P : M → S → Prop}
    {Q : β → M → S → Prop} (hP : ∀ m, D.Stable i (P m))
    (hrun : ∀ m s n, D.inv s → P m s → ∀ o, W.allowed i n m e s o →
      D.Kept W i m e s o ∧ Q (W.run i o e s).1 m (W.run i o e s).2) :
    Spec J Point.state P (Proc.act e) Q :=
  .of_points (spec_act (fun m _ => hP m) fun m s n hs h o ho =>
    ⟨(hrun m s n hs h o ho).1, (hrun m s n hs h o ho).2⟩)

end Discipline

/-- Started with `P`, the procedure `c` of the thread `i` keeps to the discipline, and if it returns,
then with `Q`. -/
abbrev Abides {α : Type} (i : ι) (P : M → S → Prop) (c : Proc M A α) (Q : α → M → S → Prop) : Prop :=
  Spec (D.safe W i) Discipline.Point.state P c Q

/-! ### Families of threads -/

section Pool

variable {W D} {α β : Type} {J : ∀ i, Judgement (D.contract W i)} {Q : ι → α → S → Prop}

variable (J Q) in
/-- The invariant holds and all threads are verified. -/
structure Conf.Good (c : Conf ι M S A α) : Prop where
  inv : D.inv c.state
  holds : ∀ i, (J i).holds (fun a x => Q i a x.state) (c.prog i) ⟨c.state, c.time i, inv⟩

/-- **The promise**: it holds of every action that a thread can make. -/
theorem Conf.Good.promise {c : Conf ι M S A α} (h : c.Good J Q) {i : ι} {m : M} {e : A β}
    {k : β → Prog M A α} (hp : c.prog i = .act m e k) {o : O}
    (ho : W.allowed i (c.time i) m e c.state o) :
    D.promise i m e c.state (W.run i o e c.state).1 := by
  have hi := h.holds i
  rw [hp] at hi
  exact (((J i).act.1 hi).1 _ .refl o ho).promise

/-- A thread that has returned did so with `Q`. -/
theorem Conf.Good.result {c : Conf ι M S A α} (h : c.Good J Q) {i : ι} {a : α}
    (ha : c.result i = some a) : Q i a c.state := by
  have hi := h.holds i
  rw [Conf.prog_of_result ha] at hi
  exact (J i).ret.1 hi

variable [DecidableEq ι]

/-- A thread can be verified for a part of what it does. -/
theorem Conf.Good.detour {c : Conf ι M S A α} (h : c.Good J Q) {i : ι} {p : Prog M A β}
    {R : β → S → Prop} (hp : (J i).holds (fun b x => R b x.state) p ⟨c.state, c.time i, h.inv⟩) :
    (c.detour i p).Good J fun j r s => j = i → ∀ b ∈ r, R b s where
  inv := h.inv
  holds j := by
    unfold Conf.detour
    dsimp only
    by_cases hj : j = i
    · subst hj
      rw [Function.update_self]
      refine (J j).bind hp fun b x hR => (J j).ret.2 ?_
      rintro - _ ⟨⟩
      exact hR
    · rw [Function.update_of_ne hj]
      exact (J j).bind (h.holds j) fun _ _ _ => (J j).ret.2 fun hji => absurd hji hj

variable (hQ : ∀ i a, D.Stable i (Q i a))
  (henv : ∀ e s, D.inv s → W.envAllowed e s → D.inv (W.env e s) ∧ ∀ i, D.rely i s (W.env e s))
include hQ henv

/-- Every move keeps the configuration good. -/
theorem Conf.Good.play {c : Conf ι M S A α} (h : c.Good J Q) {mv : Move ι O E}
    (hen : c.Enabled W mv) : (c.play W mv).Good J Q := by
  cases mv with
  | env e =>
    obtain ⟨hinv, hrely⟩ := henv e c.state h.inv hen
    exact ⟨hinv, fun i => Discipline.holds_of_others (hQ i) (h.holds i) (hrely i) rfl⟩
  | thread i o =>
    have hi := h.holds i
    simp only [Conf.Enabled] at hen
    unfold Conf.play
    dsimp only
    generalize hp : c.prog i = p at hi hen
    cases p with
    | ret _ => exact h
    | act m e k =>
      obtain ⟨hduty, hnext⟩ := (J i).act.1 hi
      have hkept := hduty _ .refl o hen
      refine ⟨hkept.inv, fun j => ?_⟩
      by_cases hj : j = i
      · subst hj
        simpa using hnext _ ⟨_, _, hkept.inv⟩ ⟨_, .refl, o, hen, rfl, rfl⟩
      · simpa [hj] using Discipline.holds_of_others (y := ⟨_, _, hkept.inv⟩) (hQ j) (h.holds j)
          (hkept.rely j hj) rfl
    | loop body b k =>
      refine ⟨h.inv, fun j => ?_⟩
      by_cases hj : j = i
      · subst hj
        simpa using (J j).loop.1 hi
      · simpa [hj] using h.holds j

/-- **Safety**: every reachable configuration is good. -/
theorem Conf.Good.reachable {c₀ c : Conf ι M S A α} (h : c₀.Good J Q) (hr : Reachable W c₀ c) :
    c.Good J Q :=
  hr.induct h fun _ _ hc hen => hc.play hQ henv hen

theorem Conf.Good.after {c : Conf ι M S A α} (h : c.Good J Q) {mv : ℕ → Move ι O E}
    (hen : ∀ k, (c.after W mv k).Enabled W (mv k)) (k : ℕ) : (c.after W mv k).Good J Q := by
  induction k with
  | zero => exact h
  | succ k ih => exact ih.play hQ henv (hen k)

omit hQ henv in
/-- A move of somebody else leaves a thread where it is. -/
theorem Conf.play_prog_of_ne {c : Conf ι M S A α} {mv : Move ι O E} {i : ι}
    (h : ∀ o, mv ≠ .thread i o) :
    (c.play W mv).prog i = c.prog i ∧ (c.play W mv).time i = c.time i := by
  cases mv with
  | env e => exact ⟨rfl, rfl⟩
  | thread j o =>
    have hne : i ≠ j := by rintro rfl; exact h o rfl
    unfold Conf.play
    dsimp only
    split
    · exact ⟨rfl, rfl⟩
    · exact ⟨Function.update_of_ne hne _ _, Function.update_of_ne hne _ _⟩
    · exact ⟨Function.update_of_ne hne _ _, rfl⟩

omit hQ in
/-- A move of somebody else is one the thread `i` is prepared for. -/
theorem Conf.Good.others {c : Conf ι M S A α} (h : c.Good J Q) {mv : Move ι O E} {i : ι}
    (hen : c.Enabled W mv) (hne : ∀ o, mv ≠ .thread i o) :
    Relation.ReflTransGen (D.Others i) c.state (c.play W mv).state := by
  cases mv with
  | env e =>
    obtain ⟨hinv, hrely⟩ := henv e c.state h.inv hen
    exact .single ⟨hrely i, hinv⟩
  | thread j o =>
    have hij : i ≠ j := by rintro rfl; exact hne o rfl
    have hj := h.holds j
    simp only [Conf.Enabled] at hen
    unfold Conf.play
    dsimp only
    generalize hp : c.prog j = p at hj hen
    cases p with
    | ret _ => exact .refl
    | act m e k =>
      have hkept := ((J j).act.1 hj).1 _ .refl o hen
      exact .single ⟨hkept.rely i hij, hkept.inv⟩
    | loop body b k => exact .refl

/-- Up to the next move of the thread `i`, the thread waits and the others move. -/
theorem Conf.Good.next {c : Conf ι M S A α} (h : c.Good J Q) {i : ι} {mv : ℕ → Move ι O E}
    (hrun : FairRun W c i mv) (k : ℕ) :
    ∃ k' o, mv k' = .thread i o ∧ (c.after W mv k').prog i = (c.after W mv k).prog i ∧
      (c.after W mv k').time i = (c.after W mv k).time i ∧
      Relation.ReflTransGen (D.Others i) (c.after W mv k).state (c.after W mv k').state := by
  obtain ⟨l, hl, o, hmv⟩ := hrun.fair k
  -- by induction on the distance to some move of the thread
  induction hd : l - k generalizing k with
  | zero =>
    obtain rfl : l = k := by omega
    exact ⟨l, o, hmv, rfl, rfl, .refl⟩
  | succ d ih =>
    by_cases hk : ∃ o, mv k = .thread i o
    · obtain ⟨o', ho'⟩ := hk
      exact ⟨k, o', ho', rfl, rfl, .refl⟩
    · have hne : ∀ o, mv k ≠ .thread i o := fun o ho => hk ⟨o, ho⟩
      obtain ⟨k', o', hmv', hprog, htime, hpath⟩ := ih (k + 1) (by omega) (by omega)
      obtain ⟨h1, h2⟩ := Conf.play_prog_of_ne (W := W) (c := c.after W mv k) hne
      refine ⟨k', o', hmv', hprog.trans h1, htime.trans h2, ?_⟩
      exact .trans ((h.after hQ henv hrun.enabled k).others henv (hrun.enabled k) hne) hpath

/-- **Termination**: in a run that keeps scheduling the thread `i`, the thread returns, and with
`Q`. -/
theorem Conf.Good.returns {c : Conf ι M S A α} (h : c.Good (D.total W) Q) {i : ι}
    {mv : ℕ → Move ι O E} (hrun : FairRun W c i mv) :
    ∃ k a, (c.after W mv k).prog i = .ret a ∧ Q i a (c.after W mv k).state := by
  have hgood := h.after hQ henv hrun.enabled
  -- each move of the thread takes a subderivation of `Ok`, those of the others only add to the path
  have key : ∀ p x, Ok (D.contract W i) (fun a x => Q i a x.state) p x → ∀ k,
      (c.after W mv k).prog i = p → (c.after W mv k).time i = x.time →
      Relation.ReflTransGen (D.Others i) x.state (c.after W mv k).state →
      ∃ k' a, (c.after W mv k').prog i = .ret a ∧ Q i a (c.after W mv k').state := by
    intro p x hok
    induction hok with
    | @ret a x hq =>
      intro k hp hn hpath
      exact ⟨k, _, hp, (hQ i _).path x.inv hq hpath⟩
    | @act β m e f x hduty hnext ih =>
      intro k hp hn hpath
      obtain ⟨k', o, hmv, hprog, htime, hpath'⟩ := h.next hQ henv hrun k
      have hen := hrun.enabled k'
      have hplay : c.after W mv (k' + 1) = (c.after W mv k').play W (.thread i o) := by
        rw [← hmv]; rfl
      rw [hmv] at hen
      simp only [Conf.Enabled, hprog, hp, htime, hn] at hen
      have hreach := hpath.trans hpath'
      have hkept := hduty _ hreach o hen
      refine ih _ ⟨_, _, hkept.inv⟩ ⟨_, hreach, o, hen, rfl, rfl⟩ (k' + 1) ?_ ?_ ?_ <;>
        rw [hplay] <;> simp [Conf.play, hprog, hp, htime, hn, Relation.ReflTransGen.refl]
    | loop _ ih =>
      intro k hp hn hpath
      obtain ⟨k', o, hmv, hprog, htime, hpath'⟩ := h.next hQ henv hrun k
      have hplay : c.after W mv (k' + 1) = (c.after W mv k').play W (.thread i o) := by
        rw [← hmv]; rfl
      refine ih (k' + 1) ?_ ?_ ?_ <;> rw [hplay] <;>
        simp only [Conf.play, hprog, hp, htime, hn, Function.update_self]
      exact hpath.trans hpath'
  exact key _ _ (h.holds i) 0 rfl rfl .refl

end Pool

end Logic

end KvBench.Conc
