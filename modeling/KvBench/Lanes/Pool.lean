import Mathlib.Data.List.Basic
import Mathlib.Data.List.Nodup
import Mathlib.Tactic

/-!
# The pool of send lanes (`urma_send_lane.h`)

`SendJettyPool` keeps the jettys in a vector, the indices of the idle ones in a deque, a flag per
index and a map from jettys back to indices. `WF` is the agreement of the four. On a well-formed
pool `idle` is the queue of idle jettys: `PopIdle` takes its head and `Release` appends to it.

All members run under the mutex of the pool, so each is one atomic step.
-/

namespace KvBench.Lanes

variable {J : Type}

/-- `SendJettyPool`. -/
structure SendJettyPool (J : Type) where
  jettys : List J
  /-- The deque, its front first. -/
  idleIndices : List ℕ
  isIdle : List Bool
  jettyIndices : J → Option ℕ

namespace SendJettyPool

/-- A pool as constructed. -/
def empty : SendJettyPool J := ⟨[], [], [], fun _ => none⟩

/-- `Add`. -/
def add [DecidableEq J] (p : SendJettyPool J) (jetty : J) : SendJettyPool J :=
  let index := p.jettys.length
  { jettyIndices := Function.update p.jettyIndices jetty (some index)
    idleIndices := p.idleIndices ++ [index]
    isIdle := p.isIdle ++ [true]
    jettys := p.jettys ++ [jetty] }

/-- The loop of `PopIdle` over what is left of the deque. -/
def popIdleFrom (p : SendJettyPool J) : List ℕ → Option J × SendJettyPool J
  | [] => (none, { p with idleIndices := [] })
  | idx :: rest =>
    -- stale and busy indices are skipped
    if p.jettys.length ≤ idx ∨ p.isIdle[idx]? ≠ some true then p.popIdleFrom rest
    else (p.jettys[idx]?, { p with idleIndices := rest, isIdle := p.isIdle.set idx false })

/-- `PopIdle`. -/
def popIdle (p : SendJettyPool J) : Option J × SendJettyPool J := p.popIdleFrom p.idleIndices

/-- `Release` of a jetty that is not null. -/
def release (p : SendJettyPool J) (jetty : J) : SendJettyPool J :=
  match p.jettyIndices jetty with
  | none => p
  | some idx =>
    if p.isIdle[idx]? = some true then p
    else { p with isIdle := p.isIdle.set idx true, idleIndices := p.idleIndices ++ [idx] }

/-- `Clear`. -/
def clear (_ : SendJettyPool J) : SendJettyPool J := empty

/-- `Remove` of a jetty that is not null, with its result: the last jetty moves into the gap. -/
def remove [DecidableEq J] (p : SendJettyPool J) (jetty : J) : Bool × SendJettyPool J :=
  match p.jettyIndices jetty with
  | none => (false, p)
  | some index =>
    let lastIndex := p.jettys.length - 1
    let idleIndices := p.idleIndices.filter (· ≠ index)
    let jettyIndices := Function.update p.jettyIndices jetty none
    if index ≠ lastIndex then
      -- there is a last jetty, so the default is never taken
      let moved := p.jettys.getD lastIndex jetty
      (true,
        { jettys := (p.jettys.set index moved).dropLast
          isIdle := (p.isIdle.set index (p.isIdle.getD lastIndex false)).dropLast
          jettyIndices := Function.update jettyIndices moved (some index)
          idleIndices := idleIndices.map fun k => if k = lastIndex then index else k })
    else
      (true, { jettys := p.jettys.dropLast, isIdle := p.isIdle.dropLast, jettyIndices, idleIndices })

/-- `Stats`. -/
structure Stats where
  poolSize : ℕ
  idleCount : ℕ
  inUseCount : ℕ
  deriving DecidableEq

/-- `GetStats`. -/
def getStats (p : SendJettyPool J) : Stats where
  poolSize := p.jettys.length
  idleCount := p.idleIndices.length
  inUseCount :=
    if p.idleIndices.length < p.jettys.length then p.jettys.length - p.idleIndices.length else 0

/-- The pool after adding the jettys of `l` one after the other. -/
def ofList [DecidableEq J] (l : List J) : SendJettyPool J := l.foldl add empty

/-- The queue of idle jettys. -/
def idle (p : SendJettyPool J) : List J := p.idleIndices.filterMap (p.jettys[·]?)

/-- The four members agree. -/
structure WF (p : SendJettyPool J) : Prop where
  nodup : p.jettys.Nodup
  length : p.isIdle.length = p.jettys.length
  index : ∀ j k, p.jettyIndices j = some k ↔ p.jettys[k]? = some j
  idleNodup : p.idleIndices.Nodup
  idle_iff : ∀ k, k ∈ p.idleIndices ↔ p.isIdle[k]? = some true

/-! ### The members on a well-formed pool -/

variable {p : SendJettyPool J} {j : J}

theorem WF.lt_of_idle (h : p.WF) {k : ℕ} (hk : k ∈ p.idleIndices) : k < p.jettys.length := by
  obtain ⟨hlt, -⟩ := List.getElem?_eq_some_iff.1 ((h.idle_iff k).1 hk)
  exact h.length ▸ hlt

theorem WF.empty : (empty : SendJettyPool J).WF where
  nodup := List.nodup_nil
  length := rfl
  index := by simp [SendJettyPool.empty]
  idleNodup := List.nodup_nil
  idle_iff := by simp [SendJettyPool.empty]

theorem WF.add [DecidableEq J] (h : p.WF) (hj : j ∉ p.jettys) : (p.add j).WF where
  nodup := by
    simp only [SendJettyPool.add, List.nodup_append, h.nodup, List.nodup_singleton, true_and]
    rintro a ha b hb rfl
    exact hj (List.mem_singleton.1 hb ▸ ha)
  length := by simp [SendJettyPool.add, h.length]
  index := by
    intro j' k
    have hk : p.jettys[k]? = some j' → k < p.jettys.length := fun hk =>
      (List.getElem?_eq_some_iff.1 hk).1
    have hmem : p.jettys[k]? = some j → False := fun hk => hj (List.mem_of_getElem? hk)
    by_cases hj' : j' = j
    · subst hj'
      simp only [SendJettyPool.add, Function.update_self, Option.some.injEq,
        List.getElem?_append, List.getElem?_singleton]
      split_ifs with h1 h2
      · exact ⟨fun hk' => by omega, fun hk' => absurd hk' hmem⟩
      · exact ⟨fun _ => rfl, fun _ => by omega⟩
      · exact ⟨fun hk' => by omega, fun hk' => by simp at hk'⟩
    · simp only [SendJettyPool.add, Function.update_of_ne hj', h.index, List.getElem?_append,
        List.getElem?_singleton]
      split_ifs with h1 h2
      · exact Iff.rfl
      · simp only [Option.some.injEq, Ne.symm hj', iff_false]
        exact fun hk' => h1 (hk hk')
      · simp only [iff_false]
        exact fun hk' => h1 (hk hk')
  idleNodup := by
    simp only [SendJettyPool.add, List.nodup_append, h.idleNodup, List.nodup_singleton, true_and]
    rintro a ha b hb rfl
    exact absurd (h.lt_of_idle ha) (by simp [List.mem_singleton.1 hb])
  idle_iff := by
    intro k
    have hlen := h.length
    simp only [SendJettyPool.add, List.mem_append, List.mem_singleton, h.idle_iff,
      List.getElem?_append, List.getElem?_singleton]
    split_ifs with h1 h2
    · exact ⟨fun hk => hk.resolve_right (by omega), Or.inl⟩
    · exact ⟨fun _ => rfl, fun _ => .inr (by omega)⟩
    · simp only [List.getElem?_eq_none (Nat.le_of_not_lt h1), reduceCtorEq, false_or, iff_false]
      omega

theorem idle_add [DecidableEq J] (h : p.WF) : (p.add j).idle = p.idle ++ [j] := by
  unfold idle SendJettyPool.add
  rw [List.filterMap_append]
  congr 1
  · refine List.filterMap_congr fun k hk => ?_
    exact List.getElem?_append_left (h.lt_of_idle hk)
  · simp

/-- **`PopIdle` takes the head of the queue**, and fails only when the queue is empty. -/
theorem popIdle_spec (h : p.WF) :
    p.popIdle.2.WF ∧ p.popIdle.2.jettys = p.jettys ∧ p.popIdle.1 = p.idle.head? ∧
      p.popIdle.2.idle = p.idle.tail := by
  unfold popIdle idle
  cases hq : p.idleIndices with
  | nil =>
    refine ⟨⟨h.nodup, h.length, h.index, List.nodup_nil, fun k => ?_⟩, rfl, rfl, rfl⟩
    have := h.idle_iff k
    rwa [hq] at this
  | cons idx rest =>
    have hnd := h.idleNodup
    rw [hq, List.nodup_cons] at hnd
    have hidx : idx ∈ p.idleIndices := hq ▸ List.mem_cons_self
    have hlt := h.lt_of_idle hidx
    have hidle := (h.idle_iff idx).1 hidx
    have hpop : p.popIdleFrom (idx :: rest) = (p.jettys[idx]?,
        { p with idleIndices := rest, isIdle := p.isIdle.set idx false }) := by
      rw [popIdleFrom, if_neg]
      rintro (hge | hne)
      · omega
      · exact hne hidle
    rw [hpop]
    refine ⟨⟨h.nodup, by simpa using h.length, h.index, hnd.2, fun k => ?_⟩, rfl, ?_, ?_⟩
    · have hk := h.idle_iff k
      rw [hq, List.mem_cons] at hk
      simp only [List.getElem?_set]
      split_ifs with h1 h2
      · exact ⟨fun hk' => absurd (h1 ▸ hk') hnd.1, fun hk' => by simp at hk'⟩
      · exact absurd (h.length.symm ▸ hlt) h2
      · exact ⟨fun hk' => hk.1 (.inr hk'), fun hk' => (hk.2 hk').resolve_left (Ne.symm h1)⟩
    · simp [hlt]
    · simp [hlt]

theorem mem_idle_iff (h : p.WF) {j : J} {k : ℕ} (hk : p.jettys[k]? = some j) :
    j ∈ p.idle ↔ k ∈ p.idleIndices := by
  simp only [idle, List.mem_filterMap]
  refine ⟨?_, fun hk' => ⟨k, hk', hk⟩⟩
  rintro ⟨k', hk', hj⟩
  obtain ⟨h1, h2⟩ := List.getElem?_eq_some_iff.1 hk
  obtain ⟨h3, h4⟩ := List.getElem?_eq_some_iff.1 hj
  obtain rfl : k' = k := (List.Nodup.getElem_inj_iff h.nodup).1 (h4.trans h2.symm)
  exact hk'

theorem WF.idle_nodup (h : p.WF) : p.idle.Nodup := by
  refine h.idleNodup.filterMap fun k k' j hk hk' => ?_
  obtain ⟨h1, h2⟩ := List.getElem?_eq_some_iff.1 hk
  obtain ⟨h3, h4⟩ := List.getElem?_eq_some_iff.1 hk'
  exact (List.Nodup.getElem_inj_iff h.nodup).1 (h2.trans h4.symm)

theorem mem_jettys_of_mem_idle {j : J} (hj : j ∈ p.idle) : j ∈ p.jettys := by
  obtain ⟨k, -, hk⟩ := List.mem_filterMap.1 hj
  exact List.mem_of_getElem? hk

/-- **`Release` of a busy jetty** appends it to the queue. -/
theorem release_spec (h : p.WF) (hj : j ∈ p.jettys) (hbusy : j ∉ p.idle) :
    (p.release j).WF ∧ (p.release j).jettys = p.jettys ∧ (p.release j).idle = p.idle ++ [j] := by
  obtain ⟨k, hlt, hk⟩ := List.getElem_of_mem hj
  have hk' : p.jettys[k]? = some j := List.getElem?_eq_some_iff.2 ⟨hlt, hk⟩
  have hidx : k ∉ p.idleIndices := fun hmem => hbusy ((mem_idle_iff h hk').2 hmem)
  have hrel : p.release j =
      { p with isIdle := p.isIdle.set k true, idleIndices := p.idleIndices ++ [k] } := by
    unfold release
    rw [(h.index j k).2 hk']
    exact if_neg fun hi => hidx ((h.idle_iff k).2 hi)
  rw [hrel]
  refine ⟨⟨h.nodup, by simpa using h.length, h.index, ?_, fun k' => ?_⟩, rfl, ?_⟩
  · rw [List.nodup_append]
    refine ⟨h.idleNodup, List.nodup_singleton k, ?_⟩
    rintro a ha b hb rfl
    exact hidx (List.mem_singleton.1 hb ▸ ha)
  · simp only [List.mem_append, List.mem_singleton, h.idle_iff, List.getElem?_set]
    split_ifs with h1 h2
    · exact ⟨fun _ => rfl, fun _ => .inr h1.symm⟩
    · exact absurd (h.length.symm ▸ hlt) h2
    · exact ⟨fun hk' => hk'.resolve_right (Ne.symm h1), Or.inl⟩
  · simp [idle, hk']

/-- A pool filled with distinct jettys is well formed and all of them are idle. -/
theorem ofList_spec [DecidableEq J] {l : List J} (hl : l.Nodup) :
    (ofList l).WF ∧ (ofList l).jettys = l ∧ (ofList l).idle = l := by
  have key : ∀ (l : List J) (p : SendJettyPool J), p.WF → p.idle = p.jettys →
      (p.jettys ++ l).Nodup →
      (l.foldl add p).WF ∧ (l.foldl add p).jettys = p.jettys ++ l ∧
        (l.foldl add p).idle = p.jettys ++ l := by
    intro l
    induction l with
    | nil => intro p hp hi _; simp [hp, hi]
    | cons j l ih =>
      intro p hp hi hnd
      have hj : j ∉ p.jettys := fun hj =>
        (List.nodup_append.1 hnd).2.2 j hj j List.mem_cons_self rfl
      have hjs : (p.add j).jettys = p.jettys ++ [j] := rfl
      have := ih (p.add j) (hp.add hj) (by rw [idle_add hp, hi, hjs]) (by simpa [hjs] using hnd)
      simpa [hjs] using this
  simpa [ofList, empty] using key l empty .empty rfl (by simpa [empty] using hl)

end SendJettyPool

end KvBench.Lanes
