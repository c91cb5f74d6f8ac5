import Mathlib

/-!
# Threads with atomic actions

A program is a tree of atomic actions. Everything between two actions is local computation, so the
actions are the only points at which threads interleave. `loop` is the only source of unbounded
execution: its body says whether to go round again (`inl`) or to leave (`inr`).

A node that is about to act carries the memory of its thread at that moment: it takes no part in
the execution, but a condition on a run can speak about it.

* `World` gives the actions their meaning: a total function of the shared state and of an oracle,
  which supplies everything the program does not determine. `allowed` restricts the oracle.
* `Conf` is a family of running threads over one shared state. A `Move` lets one of them proceed, or
  the environment; a run is a sequence of moves.
-/

namespace KvBench.Conc

/-- Programs over the actions `A`, where `A β` are the actions that respond with a `β`. -/
inductive Prog (M : Type) (A : Type → Type) : Type → Type 1 where
  | ret {α : Type} (a : α) : Prog M A α
  | act {α β : Type} (m : M) (e : A β) (k : β → Prog M A α) : Prog M A α
  | loop {α β γ : Type} (body : β → Prog M A (β ⊕ γ)) (b : β) (k : γ → Prog M A α) : Prog M A α

namespace Prog

variable {M : Type} {A : Type → Type} {α β γ : Type}

/-- Sequencing. -/
def bind {α β : Type} : Prog M A α → (α → Prog M A β) → Prog M A β
  | ret a, f => f a
  | act m e k, f => act m e fun r => (k r).bind f
  | loop body b k, f => loop body b fun c => (k c).bind f

instance : Monad (Prog M A) where
  pure := ret
  bind := bind

/-- One round of a loop. -/
def unroll (body : β → Prog M A (β ⊕ γ)) (b : β) (k : γ → Prog M A α) : Prog M A α :=
  (body b).bind fun
    | .inl b' => loop body b' k
    | .inr c => k c

theorem bind_assoc {δ : Type} (p : Prog M A α) (f : α → Prog M A β) (g : β → Prog M A δ) :
    (p.bind f).bind g = p.bind fun a => (f a).bind g := by
  induction p with
  | ret a => rfl
  | act m e k ih => exact congrArg (act m e) (funext fun r => ih r f)
  | loop body b k _ ih => exact congrArg (loop body b) (funext fun c => ih c f)

theorem bind_ret (p : Prog M A α) : p.bind ret = p := by
  induction p with
  | ret a => rfl
  | act m e k ih => exact congrArg (act m e) (funext ih)
  | loop body b k _ ih => exact congrArg (loop body b) (funext ih)

theorem unroll_bind (body : β → Prog M A (β ⊕ γ)) (b : β) (k : γ → Prog M A α)
    {δ : Type} (f : α → Prog M A δ) :
    (unroll body b k).bind f = unroll body b fun c => (k c).bind f := by
  unfold unroll
  rw [bind_assoc]
  congr 1
  funext r
  cases r <;> rfl

end Prog

/-- Programs that work on the memory of their thread. -/
abbrev Proc (M : Type) (A : Type → Type) := StateT M (Prog M A)

namespace Proc

variable {M : Type} {A : Type → Type} {α β γ : Type}

/-- One atomic action. -/
def act (e : A β) : Proc M A β := fun m => .act m e fun r => .ret (r, m)

/-- `for (;;)`: the body decides whether to go on. -/
def loop (body : β → Proc M A (β ⊕ γ)) (b : β) : Proc M A γ := fun m =>
  .loop
    (fun bm => (body bm.1 bm.2).bind fun
      | (.inl b', m') => .ret (.inl (b', m'))
      | (.inr c, m') => .ret (.inr (c, m')))
    (b, m) .ret

/-- `for (k = start; k < start + count; k++)` with the local variables `x`. -/
def each (f : ℕ → β → Proc M A β) : (start count : ℕ) → β → Proc M A β
  | _, 0, x => pure x
  | k, count + 1, x => do
    let x' ← f k x
    each f (k + 1) count x'

/-- `for (k = start; k < start + count; k++)` with a body that can leave with a result. -/
def search (f : ℕ → Proc M A (Option β)) : (start count : ℕ) → Proc M A (Option β)
  | _, 0 => pure none
  | k, count + 1 => do
    match ← f k with
    | some x => pure (some x)
    | none => search f (k + 1) count

end Proc

/-! ### Running -/

/-- The meaning of the actions `A` on a shared state `S`, for threads named by `ι` with memories
`M`. The oracle `O` supplies what an action leaves open, `E` are the steps of the environment. -/
structure World (ι M S O E : Type) (A : Type → Type) where
  run : {β : Type} → ι → O → A β → S → β × S
  /-- Whether a response may occur, given the number of actions the thread has made before and its
  memory. -/
  allowed : {β : Type} → ι → ℕ → M → A β → S → O → Prop
  env : E → S → S
  envAllowed : E → S → Prop

/-- Running threads. -/
structure Conf (ι M S : Type) (A : Type → Type) (α : Type) where
  prog : ι → Prog M A α
  /-- The number of actions each thread has made. -/
  time : ι → ℕ
  state : S

/-- A scheduling decision. -/
inductive Move (ι O E : Type) where
  | thread (i : ι) (o : O)
  | env (e : E)

-- Concrete runs have one thread or two, and name them `0` and `1`.
instance neZero_one : NeZero 1 := ⟨one_ne_zero⟩

instance neZero_two : NeZero 2 := ⟨two_ne_zero⟩

section Run

variable {ι M S O E α : Type} {A : Type → Type} [DecidableEq ι]

/-- Whether the move may be made. -/
def Conf.Enabled (W : World ι M S O E A) (c : Conf ι M S A α) : Move ι O E → Prop
  | .thread i o =>
    match c.prog i with
    | .act m e _ => W.allowed i (c.time i) m e c.state o
    | _ => True
  | .env e => W.envAllowed e c.state

/-- The configuration after a move. A thread that has returned stays as it is. -/
def Conf.play (W : World ι M S O E A) (c : Conf ι M S A α) : Move ι O E → Conf ι M S A α
  | .thread i o =>
    match c.prog i with
    | .ret _ => c
    | .act _ e k =>
      let rs := W.run i o e c.state
      ⟨Function.update c.prog i (k rs.1), Function.update c.time i (c.time i + 1), rs.2⟩
    | .loop body b k => { c with prog := Function.update c.prog i (Prog.unroll body b k) }
  | .env e => { c with state := W.env e c.state }

/-- The configuration after a sequence of moves. -/
def Conf.plays (W : World ι M S O E A) (c : Conf ι M S A α) : List (Move ι O E) → Conf ι M S A α
  | [] => c
  | mv :: mvs => (c.play W mv).plays W mvs

/-- All moves of the sequence may be made, one after the other. -/
def Conf.AllEnabled (W : World ι M S O E A) (c : Conf ι M S A α) : List (Move ι O E) → Prop
  | [] => True
  | mv :: mvs => c.Enabled W mv ∧ (c.play W mv).AllEnabled W mvs

/-- What the thread `i` has returned. -/
def Conf.result (c : Conf ι M S A α) (i : ι) : Option α :=
  match c.prog i with
  | .ret a => some a
  | _ => none

omit [DecidableEq ι] in
theorem Conf.prog_of_result {c : Conf ι M S A α} {i : ι} {a : α} (h : c.result i = some a) :
    c.prog i = .ret a := by
  unfold Conf.result at h
  split at h
  · rename_i b hb
    rw [hb, Option.some.inj h]
  · cases h

omit [DecidableEq ι] in
theorem Conf.result_of_prog {c : Conf ι M S A α} {i : ι} {a : α} (h : c.prog i = .ret a) :
    c.result i = some a := by
  unfold Conf.result
  rw [h]

/-- The configurations a run can pass through. -/
def Reachable (W : World ι M S O E A) (c₀ c : Conf ι M S A α) : Prop :=
  ∃ mvs, c₀.AllEnabled W mvs ∧ c₀.plays W mvs = c

theorem Reachable.of_plays {W : World ι M S O E A} {c : Conf ι M S A α} {mvs : List (Move ι O E)}
    (h : c.AllEnabled W mvs) : Reachable W c (c.plays W mvs) := ⟨mvs, h, rfl⟩

theorem Reachable.refl (W : World ι M S O E A) (c : Conf ι M S A α) : Reachable W c c :=
  ⟨[], trivial, rfl⟩

/-- One more move. -/
theorem Reachable.play {W : World ι M S O E A} {c₀ c : Conf ι M S A α} (h : Reachable W c₀ c)
    {mv : Move ι O E} (hen : c.Enabled W mv) : Reachable W c₀ (c.play W mv) := by
  obtain ⟨mvs, hmvs, rfl⟩ := h
  induction mvs generalizing c₀ with
  | nil => exact ⟨[mv], ⟨hen, trivial⟩, rfl⟩
  | cons mv' mvs ih =>
    obtain ⟨mvs', hmvs', heq⟩ := ih hmvs.2 hen
    exact ⟨mv' :: mvs', ⟨hmvs.1, hmvs'⟩, heq⟩

/-- The configurations of an infinite run. -/
def Conf.after (W : World ι M S O E A) (c : Conf ι M S A α) (mv : ℕ → Move ι O E) :
    ℕ → Conf ι M S A α
  | 0 => c
  | k + 1 => (c.after W mv k).play W (mv k)

/-- An infinite run that never stops scheduling the thread `i`. -/
structure FairRun (W : World ι M S O E A) (c : Conf ι M S A α) (i : ι) (mv : ℕ → Move ι O E) :
    Prop where
  enabled : ∀ k, (c.after W mv k).Enabled W (mv k)
  fair : ∀ k, ∃ k' ≥ k, ∃ o, mv k' = .thread i o

/-- The invariant rule. -/
theorem Reachable.induct {W : World ι M S O E A} {c₀ c : Conf ι M S A α}
    (h : Reachable W c₀ c) {P : Conf ι M S A α → Prop} (h0 : P c₀)
    (hstep : ∀ c mv, P c → c.Enabled W mv → P (c.play W mv)) : P c := by
  obtain ⟨mvs, hen, rfl⟩ := h
  induction mvs generalizing c₀ with
  | nil => exact h0
  | cons mv mvs ih => exact ih (hstep c₀ mv h0 hen.1) hen.2

/-! ### A program on its own -/

/-- The thread `i` runs `p` from here and returns its result; the others go on as before. -/
def Conf.detour (c : Conf ι M S A α) (i : ι) {β : Type} (p : Prog M A β) :
    Conf ι M S A (Option β) where
  prog := Function.update (fun j => (c.prog j).bind fun _ => .ret none) i
    (p.bind fun b => .ret (some b))
  time := c.time
  state := c.state

/-! ### One thread moves -/

/-- A configuration can be reached in which the thread `i` is about to run `p` in the state `s`. -/
def Conf.CanReach (W : World ι M S O E A) (c₀ : Conf ι M S A α) (i : ι) (p : Prog M A α) (s : S) :
    Prop :=
  ∃ c, Reachable W c₀ c ∧ c.prog i = p ∧ c.state = s

namespace Conf.CanReach

variable {W : World ι M S O E A} {c₀ : Conf ι M S A α} {i : ι} {s : S}

theorem start (W : World ι M S O E A) (c₀ : Conf ι M S A α) (i : ι) :
    c₀.CanReach W i (c₀.prog i) c₀.state := ⟨c₀, .refl W c₀, rfl, rfl⟩

theorem act {β : Type} {m : M} {e : A β} {k : β → Prog M A α} (h : c₀.CanReach W i (.act m e k) s)
    (o : O) (ho : ∀ n, W.allowed i n m e s o) :
    c₀.CanReach W i (k (W.run i o e s).1) (W.run i o e s).2 := by
  obtain ⟨c, hr, hp, rfl⟩ := h
  have hen : c.Enabled W (.thread i o) := by
    simp only [Conf.Enabled, hp]
    exact ho _
  refine ⟨_, hr.play hen, ?_, ?_⟩ <;> simp only [Conf.play, hp, Function.update_self]

theorem loop {β γ : Type} {body : β → Prog M A (β ⊕ γ)} {b : β} {k : γ → Prog M A α}
    (h : c₀.CanReach W i (.loop body b k) s) (o : O) : c₀.CanReach W i (.unroll body b k) s := by
  obtain ⟨c, hr, hp, rfl⟩ := h
  have hen : c.Enabled W (.thread i o) := by
    simp only [Conf.Enabled, hp]
  refine ⟨_, hr.play hen, ?_, ?_⟩ <;> simp only [Conf.play, hp, Function.update_self]

end Conf.CanReach

/-! ### Conditions on the first steps -/

/-- A move makes a thread at most one step older. -/
theorem Conf.time_play_le (W : World ι M S O E A) (c : Conf ι M S A α) (mv : Move ι O E) (i : ι) :
    (c.play W mv).time i ≤ c.time i + 1 := by
  cases mv with
  | env e => exact Nat.le_succ _
  | thread j o =>
    unfold Conf.play
    dsimp only
    split
    · exact Nat.le_succ _
    · show Function.update c.time j (c.time j + 1) i ≤ _
      by_cases hij : i = j
      · rw [hij, Function.update_self]
      · rw [Function.update_of_ne hij]
        exact Nat.le_succ _
    · exact Nat.le_succ _

/-- A run makes every thread at most as many steps older as it has moves. -/
theorem Conf.time_plays_le (W : World ι M S O E A) (c : Conf ι M S A α) (mvs : List (Move ι O E))
    (i : ι) : (c.plays W mvs).time i ≤ c.time i + mvs.length := by
  induction mvs generalizing c with
  | nil => exact le_rfl
  | cons mv mvs ih =>
    have hrest := ih (c.play W mv)
    have hone := Conf.time_play_le W c mv i
    show ((c.play W mv).plays W mvs).time i ≤ _
    rw [List.length_cons]
    omega

theorem Reachable.exists_time_le {W : World ι M S O E A} {c₀ c : Conf ι M S A α}
    (h : Reachable W c₀ c) {T : ℕ} (hT : ∀ i, c₀.time i ≤ T) : ∃ T', ∀ i, c.time i ≤ T' := by
  obtain ⟨mvs, -, rfl⟩ := h
  refine ⟨T + mvs.length, fun i => ?_⟩
  exact (Conf.time_plays_le W c₀ mvs i).trans (Nat.add_le_add_right (hT i) _)

section Until

variable {W : World ι M S O E A} {V : ℕ → World ι M S O E A}
  (hplay : ∀ N (c : Conf ι M S A α) mv, c.play (V N) mv = c.play W mv)
  (hen : ∀ N (c : Conf ι M S A α) mv, (∀ i, c.time i < N) → c.Enabled W mv → c.Enabled (V N) mv)
include hplay hen

theorem Conf.AllEnabled.until {mvs : List (Move ι O E)} {c : Conf ι M S A α} {N : ℕ}
    (ht : ∀ i, c.time i + mvs.length ≤ N) (h : c.AllEnabled W mvs) :
    c.AllEnabled (V N) mvs ∧ c.plays (V N) mvs = c.plays W mvs := by
  induction mvs generalizing c with
  | nil => exact ⟨trivial, rfl⟩
  | cons mv mvs ih =>
    have hlt : ∀ i, c.time i < N := by
      intro i
      have := ht i
      rw [List.length_cons] at this
      omega
    have hnext : ∀ i, (c.play W mv).time i + mvs.length ≤ N := by
      intro i
      have hlen := ht i
      have hone := Conf.time_play_le W c mv i
      rw [List.length_cons] at hlen
      omega
    obtain ⟨hall, hplays⟩ := ih hnext h.2
    unfold Conf.AllEnabled Conf.plays
    rw [hplay]
    exact ⟨⟨hen N c mv hlt h.1, hall⟩, hplays⟩

/-- **Finite runs.** The worlds `V N` let the threads do the same as `W`, with conditions that only
concern what a thread does after its first `N` steps. Then what is reachable in `W` is reachable in
all but finitely many of them. -/
theorem Reachable.eventually_until {c₀ c : Conf ι M S A α} (h : Reachable W c₀ c) {T : ℕ}
    (hT : ∀ i, c₀.time i ≤ T) : ∃ N₀, ∀ N ≥ N₀, Reachable (V N) c₀ c := by
  obtain ⟨mvs, hmvs, rfl⟩ := h
  refine ⟨T + mvs.length, fun N hN => ?_⟩
  obtain ⟨hall, hplays⟩ := Conf.AllEnabled.until hplay hen (N := N)
    (fun i => (Nat.add_le_add_right (hT i) _).trans hN) hmvs
  exact ⟨mvs, hall, hplays⟩

/-- In particular it is reachable in one of them. -/
theorem Reachable.exists_until {c₀ c : Conf ι M S A α} (h : Reachable W c₀ c)
    (h0 : ∀ i, c₀.time i = 0) : ∃ N, Reachable (V N) c₀ c := by
  obtain ⟨N₀, hN⟩ := h.eventually_until hplay hen (fun i => (h0 i).le)
  exact ⟨N₀, hN N₀ le_rfl⟩

end Until

/-! ### Deciding -/

/-- Whether a move may be made can be decided. -/
class World.Effective (W : World ι M S O E A) where
  allowed : {β : Type} → (i : ι) → (n : ℕ) → (m : M) → (e : A β) → (s : S) → (o : O) →
    Decidable (W.allowed i n m e s o)
  env : (e : E) → (s : S) → Decidable (W.envAllowed e s)

instance Conf.decEnabled (W : World ι M S O E A) [W.Effective] (c : Conf ι M S A α)
    (mv : Move ι O E) : Decidable (c.Enabled W mv) :=
  match mv with
  | .thread i o => by
    unfold Conf.Enabled
    dsimp only
    exact match c.prog i with
    | .act m e _ => World.Effective.allowed i (c.time i) m e c.state o
    | .ret _ => inferInstanceAs (Decidable True)
    | .loop _ _ _ => inferInstanceAs (Decidable True)
  | .env e => World.Effective.env e c.state

instance Conf.decAllEnabled (W : World ι M S O E A) [W.Effective] : (mvs : List (Move ι O E)) →
    (c : Conf ι M S A α) → Decidable (c.AllEnabled W mvs)
  | [], _ => .isTrue trivial
  | mv :: mvs, c =>
    @instDecidableAnd _ _ (Conf.decEnabled W c mv) (Conf.decAllEnabled W mvs (c.play W mv))

section Replay

variable {W : World ι M S O E A} [W.Effective] {c : Conf ι M S A α} {mvs : List (Move ι O E)}

variable (W) in
/-- The configuration after a sequence of moves, if all of them may be made. -/
def Conf.replay : List (Move ι O E) → Conf ι M S A α → Option (Conf ι M S A α)
  | [], c => some c
  | mv :: mvs, c => if c.Enabled W mv then Conf.replay mvs (c.play W mv) else none

theorem Conf.replay_eq_some {c' : Conf ι M S A α} (h : Conf.replay W mvs c = some c') :
    c.AllEnabled W mvs ∧ c.plays W mvs = c' := by
  induction mvs generalizing c with
  | nil => exact ⟨trivial, Option.some.inj h⟩
  | cons mv mvs ih =>
    unfold Conf.replay at h
    split at h
    · rename_i hen
      obtain ⟨hall, hplays⟩ := ih h
      exact ⟨⟨hen, hall⟩, hplays⟩
    · cases h

/-- **A replay** shows that a run can be made and what it leads to. -/
theorem Reachable.of_replay {d : Conf ι M S A α} (hd : d = c.plays W mvs)
    (P : Conf ι M S A α → Prop) [DecidablePred P]
    (h : (Conf.replay W mvs c).any (fun d' => P d') = true) : Reachable W c d ∧ P d := by
  obtain ⟨d', hreplay, hP⟩ := (Option.any_eq_true _ _).1 h
  obtain ⟨hall, rfl⟩ := Conf.replay_eq_some hreplay
  subst hd
  exact ⟨Reachable.of_plays hall, of_decide_eq_true hP⟩

/-- The same for a run in which the thread `i` returns. -/
theorem Reachable.of_replay_result {d : Conf ι M S A α} (hd : d = c.plays W mvs) (i : ι)
    (P : α → Conf ι M S A α → Prop) [∀ a, DecidablePred (P a)]
    (h : (Conf.replay W mvs c).any (fun d' => (d'.result i).any fun a => P a d') = true) :
    Reachable W c d ∧ ∃ a, d.result i = some a ∧ P a d := by
  obtain ⟨hr, hresult⟩ := Reachable.of_replay hd
    (fun d' => ((d'.result i).any fun a => P a d') = true) (by simpa using h)
  obtain ⟨a, hres, hP⟩ := (Option.any_eq_true _ _).1 hresult
  exact ⟨hr, a, hres, of_decide_eq_true hP⟩

end Replay

end Run

end KvBench.Conc
