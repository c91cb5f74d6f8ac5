import Mathlib

/-!
# Procedures that can fail

A procedure reads and changes a state and either returns a value or fails with an error; the changes
it made before it failed stay. `Triple P x Q E` says that, started with `P`, the procedure `x` returns
with `Q` or fails with `E`.
-/

namespace KvBench.Own

/-- Procedures over the state `σ` with the errors `ε`. -/
abbrev Fallible (σ ε : Type) := ExceptT ε (StateM σ)

namespace Fallible

variable {σ ε α β : Type}

/-- What the procedure does in a state. -/
def exec (x : Fallible σ ε α) (s : σ) : Except ε α × σ := StateT.run (ExceptT.run x) s

@[simp] theorem exec_pure (a : α) (s : σ) : exec (pure a : Fallible σ ε α) s = (.ok a, s) := rfl

@[simp] theorem exec_throw (e : ε) (s : σ) :
    exec (throw e : Fallible σ ε α) s = (.error e, s) := rfl

@[simp] theorem exec_get (s : σ) : exec (get : Fallible σ ε σ) s = (.ok s, s) := rfl

@[simp] theorem exec_modify (g : σ → σ) (s : σ) :
    exec (modify g : Fallible σ ε PUnit) s = (.ok ⟨⟩, g s) := rfl

theorem exec_bind (x : Fallible σ ε α) (f : α → Fallible σ ε β) (s : σ) :
    exec (x >>= f) s = match exec x s with
      | (.ok a, s') => exec (f a) s'
      | (.error e, s') => (.error e, s') := by
  unfold exec
  rw [ExceptT.run_bind, StateT.run_bind]
  rcases StateT.run (ExceptT.run x) s with ⟨_ | _, _⟩ <;> rfl

theorem exec_tryCatch (x : Fallible σ ε α) (f : ε → Fallible σ ε α) (s : σ) :
    exec (tryCatch x f) s = match exec x s with
      | (.ok a, s') => (.ok a, s')
      | (.error e, s') => exec (f e) s' := by
  unfold exec
  rw [ExceptT.run_tryCatch, StateT.run_bind]
  rcases StateT.run (ExceptT.run x) s with ⟨_ | _, _⟩ <;> rfl

/-- Started with `P`, the procedure returns with `Q` or fails with `E`. -/
def Triple (P : σ → Prop) (x : Fallible σ ε α) (Q : α → σ → Prop) (E : ε → σ → Prop) : Prop :=
  ∀ s, P s → match exec x s with
    | (.ok a, s') => Q a s'
    | (.error e, s') => E e s'

namespace Triple

variable {P P' : σ → Prop} {x : Fallible σ ε α} {Q Q' : α → σ → Prop} {E E' : ε → σ → Prop}

theorem ok (h : Triple P x Q E) {s s' : σ} {a : α} (hP : P s) (hx : exec x s = (.ok a, s')) :
    Q a s' := by
  have := h s hP
  rwa [hx] at this

theorem error (h : Triple P x Q E) {s s' : σ} {e : ε} (hP : P s) (hx : exec x s = (.error e, s')) :
    E e s' := by
  have := h s hP
  rwa [hx] at this

theorem pure {a : α} (h : ∀ s, P s → Q a s) : Triple P (Pure.pure a) Q E := h

theorem throw {e : ε} (h : ∀ s, P s → E e s) : Triple P (MonadExcept.throw e) Q E := h

theorem bind {f : α → Fallible σ ε β} {R : β → σ → Prop} (hx : Triple P x Q E)
    (hf : ∀ a, Triple (Q a) (f a) R E) : Triple P (x >>= f) R E := by
  intro s hP
  have h := hx s hP
  rw [exec_bind]
  rcases hxs : exec x s with ⟨e | a, s'⟩
  · rw [hxs] at h
    exact h
  · rw [hxs] at h
    exact hf a s' h

theorem get_bind {f : σ → Fallible σ ε β} {R : β → σ → Prop}
    (hf : ∀ s₀, P s₀ → Triple (fun s => s = s₀) (f s₀) R E) : Triple P (get >>= f) R E := by
  intro s hP
  rw [exec_bind, exec_get]
  exact hf s hP s rfl

theorem modify {g : σ → σ} {Q : PUnit → σ → Prop} (h : ∀ s, P s → Q ⟨⟩ (g s)) :
    Triple P (modify g) Q E := h

theorem tryCatch {f : ε → Fallible σ ε α} (hx : Triple P x Q E')
    (hf : ∀ e, Triple (E' e) (f e) Q E) : Triple P (tryCatch x f) Q E := by
  intro s hP
  have h := hx s hP
  rw [exec_tryCatch]
  rcases hxs : exec x s with ⟨e | a, s'⟩
  · rw [hxs] at h
    exact hf e s' h
  · rw [hxs] at h
    exact h

theorem conseq (hx : Triple P x Q E) (hP : ∀ s, P' s → P s) (hQ : ∀ a s, Q a s → Q' a s)
    (hE : ∀ e s, E e s → E' e s) : Triple P' x Q' E' := by
  intro s hs
  have h := hx s (hP s hs)
  rcases hxs : exec x s with ⟨e | a, s'⟩
  · rw [hxs] at h
    exact hE e s' h
  · rw [hxs] at h
    exact hQ a s' h

theorem pre (hx : Triple P x Q E) (hP : ∀ s, P' s → P s) : Triple P' x Q E :=
  hx.conseq hP (fun _ _ h => h) fun _ _ h => h

theorem ite {c : Prop} [Decidable c] {y : Fallible σ ε α} (hx : c → Triple P x Q E)
    (hy : ¬ c → Triple P y Q E) : Triple P (if c then x else y) Q E := by
  by_cases h : c
  · rw [if_pos h]
    exact hx h
  · rw [if_neg h]
    exact hy h

end Triple

end Fallible

end KvBench.Own
