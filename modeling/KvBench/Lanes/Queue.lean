import KvBench.Lanes.Pool
import Mathlib.Data.Finset.Card

/-!
# The pool of send lanes is a queue

`Queue` says what the pool is for: the idle jettys wait in a queue, the others are in use. Every
member function of `SendJettyPool` does to the four parallel members what its counterpart does to
the queue (`Call.refines`), and so does every sequence of calls (`pool_refines_queue`).

`Remove` renumbers the last jetty. `Removed` describes the pool after it position by position; from
that description alone follow the agreement of the members and the order of the queue.
-/

namespace KvBench.Lanes

variable {J : Type}

namespace SendJettyPool

variable {p : SendJettyPool J} {j : J}

/-- `Release` of a jetty that is idle or not in the pool does nothing. -/
theorem release_of_not_busy (h : p.WF) (hj : j ∈ p.jettys → j ∈ p.idle) : p.release j = p := by
  unfold release
  rcases hidx : p.jettyIndices j with _ | k
  · rfl
  · have hk := (h.index j k).1 hidx
    exact if_pos ((h.idle_iff k).1 ((mem_idle_iff h hk).1 (hj (List.mem_of_getElem? hk))))

/-! ### Removal -/

/-- Where the jetty at position `k` stood before a removal at `index`. -/
def before (index lastIndex k : ℕ) : ℕ := if k = index then lastIndex else k

/-- What `Remove` makes of the four members, told position by position. -/
structure Removed (p : SendJettyPool J) (j : J) (index lastIndex : ℕ) (p' : SendJettyPool J) :
    Prop where
  at_index : p.jettys[index]? = some j
  length : p.jettys.length = lastIndex + 1
  jettys_length : p'.jettys.length = lastIndex
  isIdle_length : p'.isIdle.length = lastIndex
  jettys : ∀ k < lastIndex, p'.jettys[k]? = p.jettys[before index lastIndex k]?
  isIdle : ∀ k < lastIndex, p'.isIdle[k]? = p.isIdle[before index lastIndex k]?
  indices : ∀ j' k, p'.jettyIndices j' = some k ↔
    k < lastIndex ∧ p.jettyIndices j' = some (before index lastIndex k)
  idleIndices : p'.idleIndices =
    (p.idleIndices.filter (· ≠ index)).map fun k => if k = lastIndex then index else k

theorem getElem?_set_dropLast {α : Type} {l : List α} {index lastIndex : ℕ} {a : α}
    (hl : l.length = lastIndex + 1) (hlast : l[lastIndex]? = some a) {k : ℕ} (hk : k < lastIndex) :
    (l.set index a).dropLast[k]? = l[before index lastIndex k]? := by
  rw [List.getElem?_dropLast, List.length_set, if_pos (by omega), List.getElem?_set]
  unfold before
  by_cases hki : k = index
  · rw [if_pos hki.symm, if_pos (by omega), if_pos hki, hlast]
  · rw [if_neg (Ne.symm hki), if_neg hki]

theorem WF.lt_of_index (h : p.WF) {k : ℕ} (hk : p.jettyIndices j = some k) :
    k < p.jettys.length := (List.getElem?_eq_some_iff.1 ((h.index j k).1 hk)).1

theorem WF.eq_of_index (h : p.WF) {j' : J} {k : ℕ} (hk : p.jettyIndices j = some k)
    (hk' : p.jettyIndices j' = some k) : j = j' := by
  have h1 := (h.index j k).1 hk
  rw [(h.index j' k).1 hk', Option.some.injEq] at h1
  exact h1.symm

theorem remove_removed [DecidableEq J] (h : p.WF) (hj : j ∈ p.jettys) :
    ∃ index lastIndex, (p.remove j).1 = true ∧ Removed p j index lastIndex (p.remove j).2 := by
  obtain ⟨index, hindex⟩ := List.getElem?_of_mem hj
  have hmap : p.jettyIndices j = some index := (h.index j index).2 hindex
  obtain ⟨lastIndex, hlen⟩ : ∃ lastIndex, p.jettys.length = lastIndex + 1 :=
    ⟨p.jettys.length - 1, by have := List.length_pos_of_mem hj; omega⟩
  have hflags := h.length
  obtain ⟨last, hlast⟩ : ∃ last, p.jettys[lastIndex]? = some last :=
    ⟨_, List.getElem?_eq_getElem (by omega)⟩
  obtain ⟨flag, hflag⟩ : ∃ flag, p.isIdle[lastIndex]? = some flag :=
    ⟨_, List.getElem?_eq_getElem (by omega)⟩
  have hlastmap : p.jettyIndices last = some lastIndex := (h.index last lastIndex).2 hlast
  have hlastIndex : p.jettys.length - 1 = lastIndex := by omega
  have hindexlt := h.lt_of_index hmap
  refine ⟨index, lastIndex, ?_⟩
  by_cases hgap : index = lastIndex
  · have hrem : p.remove j = (true,
        { jettys := p.jettys.dropLast
          isIdle := p.isIdle.dropLast
          jettyIndices := Function.update p.jettyIndices j none
          idleIndices := p.idleIndices.filter (· ≠ index) }) := by
      unfold remove
      rw [hmap]
      exact if_neg (by rw [hlastIndex]; exact not_not.2 hgap)
    have hbefore : ∀ k < lastIndex, before index lastIndex k = k := fun k hk =>
      if_neg (by omega)
    rw [hrem]
    refine ⟨rfl, hindex, hlen, by simp [hlen], by simp [hflags, hlen], fun k hk => ?_,
      fun k hk => ?_, fun j' k => ?_, ?_⟩
    · rw [hbefore k hk, List.getElem?_dropLast, if_pos (by omega)]
    · rw [hbefore k hk, List.getElem?_dropLast, if_pos (by omega)]
    · by_cases hj' : j' = j
      · subst hj'
        simp only [Function.update_self, reduceCtorEq, false_iff, not_and]
        intro hk hk'
        rw [hbefore k hk, hmap, Option.some.injEq] at hk'
        omega
      · simp only [Function.update_of_ne hj']
        constructor
        · intro hk
          have hlt := h.lt_of_index hk
          have hne : k ≠ lastIndex := by
            rintro rfl
            exact hj' (h.eq_of_index hk (hgap ▸ hmap))
          exact ⟨by omega, (hbefore k (by omega)).symm ▸ hk⟩
        · rintro ⟨hlt, hk⟩
          rwa [hbefore k hlt] at hk
    · refine (List.map_id'' (fun k => ?_) _).symm
      split_ifs <;> omega
  · have hmoved : p.jettys.getD lastIndex j = last := by
      rw [List.getD_eq_getElem?_getD, hlast, Option.getD_some]
    have hmovedFlag : p.isIdle.getD lastIndex false = flag := by
      rw [List.getD_eq_getElem?_getD, hflag, Option.getD_some]
    have hrem : p.remove j = (true,
        { jettys := (p.jettys.set index last).dropLast
          isIdle := (p.isIdle.set index flag).dropLast
          jettyIndices := Function.update (Function.update p.jettyIndices j none) last (some index)
          idleIndices := (p.idleIndices.filter (· ≠ index)).map
            fun k => if k = lastIndex then index else k }) := by
      unfold remove
      rw [hmap]
      dsimp only
      rw [hlastIndex, if_pos hgap, hmoved, hmovedFlag]
    have hne : last ≠ j := by
      rintro rfl
      rw [hmap, Option.some.injEq] at hlastmap
      exact hgap hlastmap
    rw [hrem]
    refine ⟨rfl, hindex, hlen, by simp [hlen], by simp [hflags, hlen],
      fun k hk => getElem?_set_dropLast hlen hlast hk,
      fun k hk => getElem?_set_dropLast (by omega) hflag hk, fun j' k => ?_, rfl⟩
    unfold before
    by_cases hj' : j' = last
    · subst hj'
      simp only [Function.update_self, hlastmap, Option.some.injEq]
      split_ifs <;> omega
    · simp only [Function.update_of_ne hj']
      by_cases hj'' : j' = j
      · subst hj''
        simp only [Function.update_self, hmap, reduceCtorEq, Option.some.injEq, false_iff]
        split_ifs <;> omega
      · simp only [Function.update_of_ne hj'']
        have hnotLast : p.jettyIndices j' ≠ some lastIndex := fun hk =>
          hj' (h.eq_of_index hk hlastmap)
        have hnotIndex : p.jettyIndices j' ≠ some index := fun hk =>
          hj'' (h.eq_of_index hk hmap)
        constructor
        · intro hk
          have hlt := h.lt_of_index hk
          have h1 : k ≠ lastIndex := fun he => hnotLast (he ▸ hk)
          have h2 : k ≠ index := fun he => hnotIndex (he ▸ hk)
          exact ⟨by omega, by rwa [if_neg h2]⟩
        · rintro ⟨hlt, hk⟩
          by_cases hki : k = index
          · rw [if_pos hki] at hk
            exact absurd hk hnotLast
          · rwa [if_neg hki] at hk

section Removal

variable {index lastIndex : ℕ} {p' : SendJettyPool J}

theorem Removed.index_lt (h : Removed p j index lastIndex p') : index ≤ lastIndex := by
  have := (List.getElem?_eq_some_iff.1 h.at_index).1
  have := h.length
  omega

/-- The deque after a removal, in terms of the deque before. -/
theorem Removed.mem_idleIndices (h : Removed p j index lastIndex p') (hp : p.WF) (k : ℕ) :
    k ∈ p'.idleIndices ↔ k < lastIndex ∧ before index lastIndex k ∈ p.idleIndices := by
  have hle := h.index_lt
  rw [h.idleIndices, List.mem_map]
  unfold before
  constructor
  · rintro ⟨i, hi, rfl⟩
    obtain ⟨hi, hne⟩ := List.mem_filter.1 hi
    have hlt := hp.lt_of_idle hi
    have hlen := h.length
    have hne : i ≠ index := of_decide_eq_true hne
    by_cases hil : i = lastIndex
    · subst hil
      rw [if_pos rfl, if_pos rfl]
      exact ⟨by omega, hi⟩
    · rw [if_neg hil, if_neg hne]
      exact ⟨by omega, hi⟩
  · rintro ⟨hlt, hk⟩
    refine ⟨_, List.mem_filter.2 ⟨hk, decide_eq_true ?_⟩, ?_⟩
    · split_ifs <;> omega
    · split_ifs <;> omega

theorem Removed.wf (h : Removed p j index lastIndex p') (hp : p.WF) : p'.WF where
  nodup := by
    rw [List.nodup_iff_getElem?_ne_getElem?]
    intro k k' hlt hk'
    rw [h.jettys_length] at hk'
    have hlen := h.length
    have hle := h.index_lt
    rw [h.jettys k (by omega), h.jettys k' hk']
    intro heq
    have hinj := (List.getElem?_inj (by unfold before; split_ifs <;> omega) hp.nodup).1 heq
    unfold before at hinj
    split_ifs at hinj <;> omega
  length := h.isIdle_length.trans h.jettys_length.symm
  index := by
    intro j' k
    rw [h.indices, hp.index]
    constructor
    · rintro ⟨hlt, hk⟩
      rwa [h.jettys k hlt]
    · intro hk
      have hlt := (List.getElem?_eq_some_iff.1 hk).1
      rw [h.jettys_length] at hlt
      rw [h.jettys k hlt] at hk
      exact ⟨hlt, hk⟩
  idleNodup := by
    rw [h.idleIndices]
    have hle := h.index_lt
    refine (hp.idleNodup.filter _).map_on fun a ha b hb heq => ?_
    have ha : a ≠ index := of_decide_eq_true (List.mem_filter.1 ha).2
    have hb : b ≠ index := of_decide_eq_true (List.mem_filter.1 hb).2
    split_ifs at heq <;> omega
  idle_iff := by
    intro k
    rw [h.mem_idleIndices hp, hp.idle_iff]
    constructor
    · rintro ⟨hlt, hk⟩
      rwa [h.isIdle k hlt]
    · intro hk
      have hlt := (List.getElem?_eq_some_iff.1 hk).1
      rw [h.isIdle_length] at hlt
      rw [h.isIdle k hlt] at hk
      exact ⟨hlt, hk⟩

/-- The other idle jettys stay in their order. -/
theorem Removed.idle [DecidableEq J] (h : Removed p j index lastIndex p') (hp : p.WF) :
    p'.idle = p.idle.filter (· ≠ j) := by
  have hle := h.index_lt
  have hlen := h.length
  unfold SendJettyPool.idle
  rw [h.idleIndices, List.filterMap_map, List.filter_filterMap, List.filterMap_filter]
  refine List.filterMap_congr fun k hk => ?_
  have hlt := hp.lt_of_idle hk
  by_cases hki : k = index
  · subst hki
    simp [h.at_index, Option.filter_some]
  · obtain ⟨a, ha⟩ : ∃ a, p.jettys[k]? = some a := ⟨_, List.getElem?_eq_getElem hlt⟩
    have haj : a ≠ j := by
      rintro rfl
      exact hki ((List.getElem?_inj hlt hp.nodup).1 (ha.trans h.at_index.symm))
    have hpos : p'.jettys[if k = lastIndex then index else k]? = some a := by
      rw [h.jettys _ (by split_ifs <;> omega), ← ha]
      congr 1
      unfold before
      split_ifs <;> omega
    simp [hki, ha, haj, hpos, Option.filter_some]

theorem Removed.mem_jettys (h : Removed p j index lastIndex p') (hp : p.WF) (j' : J) :
    j' ∈ p'.jettys ↔ j' ∈ p.jettys ∧ j' ≠ j := by
  have hle := h.index_lt
  have hlen := h.length
  have hp' := h.wf hp
  constructor
  · intro hj'
    obtain ⟨k, hk⟩ := List.getElem?_of_mem hj'
    obtain ⟨hlt, hk'⟩ := (h.indices j' k).1 ((hp'.index j' k).2 hk)
    have hbefore := (hp.index j' _).1 hk'
    refine ⟨List.mem_of_getElem? hbefore, ?_⟩
    rintro rfl
    have := (List.getElem?_inj (List.getElem?_eq_some_iff.1 hbefore).1 hp.nodup).1
      (hbefore.trans h.at_index.symm)
    unfold before at this
    split_ifs at this <;> omega
  · rintro ⟨hj', hne⟩
    obtain ⟨i, hi⟩ := List.getElem?_of_mem hj'
    have hlt := (List.getElem?_eq_some_iff.1 hi).1
    have hii : i ≠ index := by
      rintro rfl
      rw [h.at_index, Option.some.injEq] at hi
      exact hne hi.symm
    have hpos : p'.jettys[if i = lastIndex then index else i]? = some j' := by
      rw [h.jettys _ (by split_ifs <;> omega), ← hi]
      congr 1
      unfold before
      split_ifs <;> omega
    exact List.mem_of_getElem? hpos

end Removal

/-- `Remove` of a jetty that is not in the pool. -/
theorem remove_of_notMem [DecidableEq J] (h : p.WF) (hj : j ∉ p.jettys) :
    p.remove j = (false, p) := by
  have hnone : p.jettyIndices j = none := by
    rcases hk : p.jettyIndices j with _ | k
    · rfl
    · exact absurd (List.mem_of_getElem? ((h.index j k).1 hk)) hj
  unfold remove
  rw [hnone]

end SendJettyPool

/-! ### The queue -/

/-- A queue of idle jettys, and the set of those in use. -/
structure Queue (J : Type) where
  idle : List J
  busy : Finset J
  nodup : idle.Nodup
  apart : ∀ j ∈ idle, j ∉ busy

namespace Queue

variable [DecidableEq J] (q : Queue J)

/-- Whether the jetty is in the pool. -/
def Has (j : J) : Prop := j ∈ q.idle ∨ j ∈ q.busy

instance (j : J) : Decidable (q.Has j) := inferInstanceAs (Decidable (_ ∨ _))

/-- No jettys. -/
def empty : Queue J := ⟨[], ∅, List.nodup_nil, fun _ h => absurd h List.not_mem_nil⟩

/-- A new jetty enters at the back. -/
def add (j : J) : Queue J :=
  if h : q.Has j then q
  else
    { idle := q.idle ++ [j]
      busy := q.busy
      nodup := by
        refine List.nodup_append.2 ⟨q.nodup, List.nodup_singleton j, ?_⟩
        rintro a ha b hb rfl
        exact h (.inl (List.mem_singleton.1 hb ▸ ha))
      apart := by
        intro a ha
        rcases List.mem_append.1 ha with ha | ha
        · exact q.apart a ha
        · rw [List.mem_singleton.1 ha]
          exact fun hb => h (.inr hb) }

/-- The front of the queue is taken into use. -/
def popIdle : Option J × Queue J :=
  match h : q.idle with
  | [] => (none, q)
  | j :: rest =>
    (some j,
      { idle := rest
        busy := insert j q.busy
        nodup := (List.nodup_cons.1 (h ▸ q.nodup)).2
        apart := by
          intro a ha
          rw [Finset.mem_insert, not_or]
          refine ⟨?_, q.apart a (h ▸ List.mem_cons_of_mem j ha)⟩
          rintro rfl
          exact (List.nodup_cons.1 (h ▸ q.nodup)).1 ha })

/-- A jetty in use goes to the back. -/
def release (j : J) : Queue J :=
  if h : j ∈ q.busy then
    { idle := q.idle ++ [j]
      busy := q.busy.erase j
      nodup := by
        refine List.nodup_append.2 ⟨q.nodup, List.nodup_singleton j, ?_⟩
        rintro a ha b hb rfl
        exact q.apart a ha (List.mem_singleton.1 hb ▸ h)
      apart := by
        intro a ha
        rcases List.mem_append.1 ha with ha | ha
        · exact fun hb => q.apart a ha (Finset.mem_of_mem_erase hb)
        · rw [List.mem_singleton.1 ha]
          exact Finset.notMem_erase j q.busy }
  else q

/-- The jetty is deleted from wherever it is. -/
def remove (j : J) : Bool × Queue J :=
  (q.Has j,
    { idle := q.idle.erase j
      busy := q.busy.erase j
      nodup := q.nodup.erase j
      apart := fun a ha hb => q.apart a (List.mem_of_mem_erase ha) (Finset.mem_of_mem_erase hb) })

/-- The sizes of the two parts, and their sum. -/
def stats : SendJettyPool.Stats where
  poolSize := q.idle.length + q.busy.card
  idleCount := q.idle.length
  inUseCount := q.busy.card

end Queue

/-! ### Calls -/

/-- A call of a member function; a null pointer is `none`. -/
inductive Call (J : Type) where
  | add (jetty : J)
  | popIdle
  | release (jetty : Option J)
  | remove (jetty : Option J)
  | clear
  | getStats

/-- What a call returns. -/
inductive Answer (J : Type) where
  | done
  | popped (jetty : Option J)
  | removed (found : Bool)
  | stats (s : SendJettyPool.Stats)
  deriving DecidableEq

section Calls

variable [DecidableEq J]

/-- The call on the pool. A null pointer is not in the map. -/
def Call.run : Call J → SendJettyPool J → Answer J × SendJettyPool J
  | .add j, p => (.done, p.add j)
  | .popIdle, p => (.popped p.popIdle.1, p.popIdle.2)
  | .release none, p => (.done, p)
  | .release (some j), p => (.done, p.release j)
  | .remove none, p => (.removed false, p)
  | .remove (some j), p => (.removed (p.remove j).1, (p.remove j).2)
  | .clear, p => (.done, p.clear)
  | .getStats, p => (.stats p.getStats, p)

/-- The call on the queue. -/
def Call.spec : Call J → Queue J → Answer J × Queue J
  | .add j, q => (.done, q.add j)
  | .popIdle, q => (.popped q.popIdle.1, q.popIdle.2)
  | .release none, q => (.done, q)
  | .release (some j), q => (.done, q.release j)
  | .remove none, q => (.removed false, q)
  | .remove (some j), q => (.removed (q.remove j).1, (q.remove j).2)
  | .clear, _ => (.done, .empty)
  | .getStats, q => (.stats q.stats, q)

/-- A jetty is added only when it is not in the pool. -/
def Call.Allowed : Call J → Queue J → Prop
  | .add j, q => ¬ q.Has j
  | _, _ => True

instance (call : Call J) (q : Queue J) : Decidable (call.Allowed q) :=
  match call with
  | .add j => inferInstanceAs (Decidable (¬ q.Has j))
  | .popIdle | .release _ | .remove _ | .clear | .getStats => inferInstanceAs (Decidable True)

/-- The answers to a sequence of calls, and the pool after them. -/
def runAll : List (Call J) → SendJettyPool J → List (Answer J) × SendJettyPool J
  | [], p => ([], p)
  | call :: calls, p =>
    ((call.run p).1 :: (runAll calls (call.run p).2).1, (runAll calls (call.run p).2).2)

/-- The same for the queue. -/
def specAll : List (Call J) → Queue J → List (Answer J) × Queue J
  | [], q => ([], q)
  | call :: calls, q =>
    ((call.spec q).1 :: (specAll calls (call.spec q).2).1, (specAll calls (call.spec q).2).2)

/-- Every call of the sequence is allowed. -/
def AllAllowed : List (Call J) → Queue J → Prop
  | [], _ => True
  | call :: calls, q => call.Allowed q ∧ AllAllowed calls (call.spec q).2

instance decAllAllowed : (calls : List (Call J)) → (q : Queue J) → Decidable (AllAllowed calls q)
  | [], _ => .isTrue trivial
  | call :: calls, q =>
    @instDecidableAnd _ _ _ (decAllAllowed calls (call.spec q).2)

end Calls

/-! ### Refinement -/

/-- The pool represents the queue. -/
structure Refines (p : SendJettyPool J) (q : Queue J) : Prop where
  wf : p.WF
  idle : p.idle = q.idle
  busy : ∀ j, j ∈ q.busy ↔ j ∈ p.jettys ∧ j ∉ p.idle

/-- How many indices the loop of `PopIdle` skips. -/
def SendJettyPool.skips (p : SendJettyPool J) : List ℕ → ℕ
  | [] => 0
  | idx :: rest =>
    if p.jettys.length ≤ idx ∨ p.isIdle[idx]? ≠ some true then p.skips rest + 1 else 0

section Refinement

variable {p : SendJettyPool J} {q : Queue J}

theorem SendJettyPool.WF.skips_eq_zero (h : p.WF) : p.skips p.idleIndices = 0 := by
  rcases hq : p.idleIndices with _ | ⟨idx, rest⟩
  · rfl
  · have hidx : idx ∈ p.idleIndices := hq ▸ List.mem_cons_self
    have hlt := h.lt_of_idle hidx
    unfold skips
    rw [if_neg]
    rintro (hge | hne)
    · omega
    · exact hne ((h.idle_iff idx).1 hidx)

theorem SendJettyPool.WF.length_idle (h : p.WF) : p.idle.length = p.idleIndices.length := by
  unfold idle
  rw [List.length_filterMap_eq_countP, List.countP_eq_length]
  intro k hk
  rw [List.getElem?_eq_getElem (h.lt_of_idle hk)]
  rfl

theorem Refines.empty : Refines (SendJettyPool.empty : SendJettyPool J) Queue.empty where
  wf := .empty
  idle := rfl
  busy j := by simp [Queue.empty, SendJettyPool.empty]

variable [DecidableEq J]

theorem Refines.has_iff (h : Refines p q) (j : J) : q.Has j ↔ j ∈ p.jettys := by
  unfold Queue.Has
  rw [h.busy, ← h.idle]
  constructor
  · rintro (hj | hj)
    · exact SendJettyPool.mem_jettys_of_mem_idle hj
    · exact hj.1
  · intro hj
    by_cases hi : j ∈ p.idle
    · exact .inl hi
    · exact .inr ⟨hj, hi⟩

theorem Refines.add (h : Refines p q) {j : J} (hj : ¬ q.Has j) : Refines (p.add j) (q.add j) := by
  have hnew : j ∉ p.jettys := fun hmem => hj ((h.has_iff j).2 hmem)
  have hidle := SendJettyPool.idle_add h.wf (j := j)
  unfold Queue.add
  rw [dif_neg hj]
  refine ⟨h.wf.add hnew, hidle.trans (by rw [h.idle]), fun a => ?_⟩
  have hjettys : (p.add j).jettys = p.jettys ++ [j] := rfl
  rw [h.busy, hidle, hjettys]
  simp only [List.mem_append, List.mem_singleton, not_or]
  constructor
  · rintro ⟨ha, hi⟩
    refine ⟨.inl ha, hi, ?_⟩
    rintro rfl
    exact hnew ha
  · rintro ⟨ha | ha, hi, hne⟩
    · exact ⟨ha, hi⟩
    · exact absurd ha hne

theorem Refines.popIdle (h : Refines p q) :
    p.popIdle.1 = q.popIdle.1 ∧ Refines p.popIdle.2 q.popIdle.2 := by
  obtain ⟨hwf, hjettys, hpop, hidle⟩ := SendJettyPool.popIdle_spec h.wf
  rw [h.idle] at hpop hidle
  unfold Queue.popIdle
  split
  · rename_i hq
    rw [hq] at hpop hidle
    refine ⟨hpop, hwf, hidle.trans hq.symm, fun a => ?_⟩
    rw [h.busy, hjettys, hidle, h.idle, hq]
    rfl
  · rename_i j rest hq
    rw [hq] at hpop hidle
    refine ⟨hpop, hwf, hidle, fun a => ?_⟩
    have hnd := q.nodup
    rw [hq, List.nodup_cons] at hnd
    have hmem : j ∈ p.jettys :=
      SendJettyPool.mem_jettys_of_mem_idle (h.idle ▸ hq ▸ List.mem_cons_self)
    rw [Finset.mem_insert, h.busy, hjettys, hidle, h.idle, hq, List.tail_cons, List.mem_cons]
    constructor
    · rintro (rfl | ⟨ha, hi⟩)
      · exact ⟨hmem, hnd.1⟩
      · exact ⟨ha, fun hr => hi (.inr hr)⟩
    · rintro ⟨ha, hi⟩
      by_cases haj : a = j
      · exact .inl haj
      · exact .inr ⟨ha, fun hr => hr.elim haj hi⟩

theorem Refines.release (h : Refines p q) (j : J) : Refines (p.release j) (q.release j) := by
  unfold Queue.release
  by_cases hj : j ∈ q.busy
  · obtain ⟨hmem, hbusy⟩ := (h.busy j).1 hj
    obtain ⟨hwf, hjettys, hidle⟩ := SendJettyPool.release_spec h.wf hmem hbusy
    rw [dif_pos hj]
    refine ⟨hwf, hidle.trans (by rw [h.idle]), fun a => ?_⟩
    rw [Finset.mem_erase, h.busy, hjettys, hidle, List.mem_append, List.mem_singleton]
    tauto
  · rw [dif_neg hj, SendJettyPool.release_of_not_busy h.wf]
    · exact h
    · intro hmem
      by_contra hi
      exact hj ((h.busy j).2 ⟨hmem, hi⟩)

theorem Refines.remove (h : Refines p q) (j : J) :
    (p.remove j).1 = (q.remove j).1 ∧ Refines (p.remove j).2 (q.remove j).2 := by
  have herase : q.idle.erase j = q.idle.filter (· ≠ j) := by
    rw [q.nodup.erase_eq_filter]
    exact List.filter_congr fun a _ => Bool.eq_iff_iff.2 (by simp)
  by_cases hj : j ∈ p.jettys
  · obtain ⟨index, lastIndex, htrue, hrem⟩ := SendJettyPool.remove_removed h.wf hj
    have hidle := hrem.idle h.wf
    refine ⟨htrue.trans (decide_eq_true ((h.has_iff j).2 hj)).symm, hrem.wf h.wf, ?_, fun a => ?_⟩
    · rw [hidle, h.idle]
      exact herase.symm
    · show a ∈ q.busy.erase j ↔ _
      rw [Finset.mem_erase, h.busy, hrem.mem_jettys h.wf, hidle, List.mem_filter]
      simp only [ne_eq, decide_eq_true_eq]
      tauto
  · have hno : ¬ q.Has j := fun hhas => hj ((h.has_iff j).1 hhas)
    rw [SendJettyPool.remove_of_notMem h.wf hj]
    refine ⟨(decide_eq_false hno).symm, h.wf, ?_, fun a => ?_⟩
    · rw [h.idle]
      exact (List.erase_of_not_mem fun hmem => hno (.inl hmem)).symm
    · show a ∈ q.busy.erase j ↔ _
      rw [Finset.erase_eq_of_notMem fun hmem => hno (.inr hmem), h.busy]

theorem Refines.getStats (h : Refines p q) : p.getStats = q.stats := by
  have hidle : p.idleIndices.length = q.idle.length := by
    rw [← h.wf.length_idle, h.idle]
  have hpool : p.jettys.length = q.idle.length + q.busy.card := by
    have hset : p.jettys.toFinset = q.idle.toFinset ∪ q.busy := by
      ext j
      rw [List.mem_toFinset, ← h.has_iff, Finset.mem_union, List.mem_toFinset]
      rfl
    have hdis : Disjoint q.idle.toFinset q.busy :=
      Finset.disjoint_left.2 fun a ha => q.apart a (List.mem_toFinset.1 ha)
    rw [← List.toFinset_card_of_nodup h.wf.nodup, hset, Finset.card_union_of_disjoint hdis,
      List.toFinset_card_of_nodup q.nodup]
  unfold SendJettyPool.getStats Queue.stats
  rw [hidle, hpool]
  congr 1
  split_ifs <;> omega

/-- **One call**: the pool answers as the queue does, and still represents it. -/
theorem Call.refines (call : Call J) (h : Refines p q) (hcall : call.Allowed q) :
    (call.run p).1 = (call.spec q).1 ∧ Refines (call.run p).2 (call.spec q).2 := by
  cases call with
  | add j => exact ⟨rfl, h.add hcall⟩
  | popIdle => exact ⟨congrArg Answer.popped h.popIdle.1, h.popIdle.2⟩
  | release j =>
    cases j with
    | none => exact ⟨rfl, h⟩
    | some j => exact ⟨rfl, h.release j⟩
  | remove j =>
    cases j with
    | none => exact ⟨rfl, h⟩
    | some j => exact ⟨congrArg Answer.removed (h.remove j).1, (h.remove j).2⟩
  | clear => exact ⟨rfl, .empty⟩
  | getStats => exact ⟨congrArg Answer.stats h.getStats, h⟩

theorem runAll_refines (calls : List (Call J)) (h : Refines p q) (hcalls : AllAllowed calls q) :
    (runAll calls p).1 = (specAll calls q).1 ∧ Refines (runAll calls p).2 (specAll calls q).2 := by
  induction calls generalizing p q with
  | nil => exact ⟨rfl, h⟩
  | cons call calls ih =>
    obtain ⟨hanswer, hnext⟩ := call.refines h hcalls.1
    obtain ⟨hanswers, hlast⟩ := ih hnext hcalls.2
    refine ⟨?_, hlast⟩
    show (call.run p).1 :: _ = (call.spec q).1 :: _
    rw [hanswer, hanswers]

end Refinement

/-- **The lane pool refines a queue**: over every sequence of calls that adds no jetty twice, the pool
gives the answers of the queue, represents the queue in the end, and `PopIdle` has nothing to
skip. -/
theorem pool_refines_queue [DecidableEq J] (calls : List (Call J))
    (hcalls : AllAllowed calls Queue.empty) :
    (runAll calls SendJettyPool.empty).1 = (specAll calls Queue.empty).1 ∧
      Refines (runAll calls SendJettyPool.empty).2 (specAll calls Queue.empty).2 ∧
      (runAll calls SendJettyPool.empty).2.skips (runAll calls SendJettyPool.empty).2.idleIndices =
        0 := by
  obtain ⟨hanswers, hrefines⟩ := runAll_refines calls Refines.empty hcalls
  exact ⟨hanswers, hrefines, hrefines.wf.skips_eq_zero⟩

/-- The last jetty is idle at the front of the deque when an earlier one is removed. -/
def busyDay : List (Call ℕ) :=
  [.add 10, .add 11, .add 12, .popIdle, .popIdle, .release (some 10), .remove (some 10), .popIdle,
    .release (some 11), .release (some 11), .release (some 10), .release none, .remove none,
    .remove (some 11), .getStats]

theorem pool_refines_queue_busyDay :
    (runAll busyDay SendJettyPool.empty).1 = (specAll busyDay Queue.empty).1 ∧
      Refines (runAll busyDay SendJettyPool.empty).2 (specAll busyDay Queue.empty).2 ∧
      (runAll busyDay SendJettyPool.empty).2.skips
        (runAll busyDay SendJettyPool.empty).2.idleIndices = 0 :=
  pool_refines_queue busyDay (by decide)

example : (runAll busyDay SendJettyPool.empty).1 =
    [.done, .done, .done, .popped (some 10), .popped (some 11), .done, .removed true,
      .popped (some 12), .done, .done, .done, .done, .removed false, .removed true,
      .stats ⟨1, 0, 1⟩] := by
  decide

end KvBench.Lanes
