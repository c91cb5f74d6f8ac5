import KvBench.Conc.Logic
import KvBench.Dual.Ports

/-!
# The dual workers keep their lanes and their books

In every interleaving, a lane of a port is idle exactly when no worker holds it, and it then has no work
request outstanding. This module has the discipline that the workers keep to, and what each call of a manager
does to it; `KvBench.Dual.Books` follows the workers through their rounds.

What makes a release safe is that a worker has at most one work request at each port. It waits for all that
it has posted before the next round begins, and when one of them cannot be accounted for, it keeps the lane and
begins no other round.
-/

namespace KvBench.Dual

open KvBench.Bench KvBench.Conc KvBench.Events KvBench.Hist KvBench.Lanes KvBench.Manager

/-! ### The discipline -/

/-- The invariant of the managers. -/
structure PortInv (lanes : ℕ → ℕ) (s : Ports) : Prop where
  wf : ∀ p, (s.lanes p).WF
  jettys : ∀ p, (s.lanes p).jettys = List.range (lanes p)
  idle : ∀ p l, l ∈ (s.lanes p).idle ↔ l < lanes p ∧ s.holders p l = []
  one : ∀ p l, (s.holders p l).length ≤ 1
  held : ∀ p l, s.holders p l ≠ [] → l < lanes p
  nodup : s.out.Nodup
  /-- Whoever has posted a work request holds its lane. -/
  outHeld : ∀ r ∈ s.out, ∃ j, s.owner r.port r.wr.wid = some j ∧ j ∈ s.holders r.port r.wr.lane
  registered : ∀ p w, s.owner p w ≠ none → w < s.workerCount p
  count : ∀ p, s.workerCount p ≤ kMaxRegisteredWorkers

/-- What the thread `j` sees of a port. -/
structure Sees (j p : ℕ) (s s' : Ports) : Prop where
  owner : ∀ w, s'.owner p w = some j ↔ s.owner p w = some j
  holds : ∀ l, j ∈ s'.holders p l ↔ j ∈ s.holders p l
  delivered : ∀ r, s.delivered.count r ≤ s'.delivered.count r
  outs : ∀ r ∈ s'.out, r.port = p → s.owner p r.wr.wid = some j → r ∈ s.out
  /-- A slot changes only by the completion of a work request that is outstanding. -/
  slot : ∀ w k, s.owner p w = some j → s'.events p w k = s.events p w k ∨
    ∃ r ∈ s.out, ∃ ok, r.port = p ∧ r.wr.wid = w ∧ r ∉ s'.out ∧
      s.events p w k = some (r.wr.token, none) ∧ s'.events p w k = some (r.wr.token, some ok) ∧
      (ok = true → s.delivered.count r < s'.delivered.count r)

theorem Sees.refl (j p : ℕ) (s : Ports) : Sees j p s s where
  owner _ := Iff.rfl
  holds _ := Iff.rfl
  delivered _ := le_rfl
  outs _ h _ _ := h
  slot _ _ _ := .inl rfl

/-- What the thread `j` sees of the others and of the completions. -/
structure PortRely (j : ℕ) (s s' : Ports) : Prop where
  port : ∀ p, Sees j p s s'
  sent : s'.sent j = s.sent j
  fatal : s.fatal = true → s'.fatal = true

/-- A step of the thread `w` at a port: what the others see of it, and what it sees itself of the other
ports. -/
structure PortStep (w port : ℕ) (s s' : Ports) : Prop where
  sees : ∀ j p, ¬ (j = w ∧ p = port) → Sees j p s s'
  sent : ∀ j, j ≠ w → s'.sent j = s.sent j
  fatal : s.fatal = true → s'.fatal = true

theorem PortStep.refl (w port : ℕ) (s : Ports) : PortStep w port s s :=
  ⟨fun j p _ => Sees.refl j p s, fun _ _ => rfl, fun h => h⟩

theorem PortStep.rely {w port : ℕ} {s s' : Ports} (h : PortStep w port s s') {j : ℕ} (hj : j ≠ w) :
    PortRely j s s' :=
  ⟨fun p => h.sees j p fun hc => hj hc.1, h.sent j hj, h.fatal⟩

/-- The discipline of the dual workers. -/
def portDiscipline (n : ℕ) (lanes : ℕ → ℕ) : Discipline (Fin n) DualWorker Ports Act where
  inv := PortInv lanes
  rely j := PortRely j
  promise _ _ _ _ _ := True

/-! ### The steps -/

section Steps

variable {lanes : ℕ → ℕ} {s : Ports} {w port : ℕ}

/-- One entry of a table with two indices changes. -/
theorem update_update {α : Type} (f : ℕ → ℕ → α) (a b : ℕ) (x : α) (a' b' : ℕ) :
    Function.update f a (Function.update (f a) b x) a' b' = if a' = a ∧ b' = b then x else f a' b' := by
  by_cases ha : a' = a
  · subst ha
    by_cases hb : b' = b
    · subst hb
      simp
    · simp [hb]
  · simp [ha]

theorem setEvents_events (port wid : ℕ) (v : SlotView) (p q : ℕ) :
    (s.setEvents port wid v).events p q = if p = port ∧ q = wid then v else s.events p q :=
  update_update s.events port wid v p q

theorem setHolders_holders (port : ℕ) (pool : SendJettyPool Lane) (l : Lane) (ws : List ℕ) (p : ℕ)
    (l' : Lane) :
    (s.setHolders port pool l ws).holders p l' = if p = port ∧ l' = l then ws else s.holders p l' :=
  update_update s.holders port l ws p l'

/-- A lane has only one holder. -/
theorem PortInv.only (h : PortInv lanes s) {l : Lane} (hw : w ∈ s.holders port l) :
    s.holders port l = [w] := by
  have hone := h.one port l
  cases hl : s.holders port l with
  | nil =>
    rw [hl] at hw
    cases hw
  | cons x xs =>
    rw [hl] at hw hone
    have hxs : xs = [] := List.length_eq_zero_iff.1 (by simpa using hone)
    rw [hxs] at hw ⊢
    rw [List.mem_singleton.1 hw]

/-- A pool is replaced by one of the same lanes. -/
theorem PortInv.setPool (h : PortInv lanes s) {pool : SendJettyPool Lane} (hwf : pool.WF)
    (hjettys : pool.jettys = (s.lanes port).jettys) :
    (∀ p, (Function.update s.lanes port pool p).WF) ∧
      ∀ p, (Function.update s.lanes port pool p).jettys = List.range (lanes p) := by
  constructor
  · exact (Function.forall_update_iff s.lanes fun _ pool => pool.WF).2 ⟨hwf, fun p _ => h.wf p⟩
  · exact (Function.forall_update_iff s.lanes fun p pool => pool.jettys = List.range (lanes p)).2
      ⟨hjettys.trans (h.jettys port), fun p _ => h.jettys p⟩

/-- Only the event slots of one worker change: the invariant does not speak about them. -/
theorem PortInv.setEvents (h : PortInv lanes s) (port wid : ℕ) (v : SlotView) :
    PortInv lanes (s.setEvents port wid v) := { h with }

/-- Only their owner sees a change of event slots. -/
theorem setEvents_step {wid : ℕ} (v : SlotView) (hw : s.owner port wid = some w) :
    PortStep w port s (s.setEvents port wid v) := by
  refine { PortStep.refl w port s with
    sees := fun j p hjp => { Sees.refl j p s with slot := fun q k hq => .inl ?_ } }
  rw [setEvents_events, if_neg]
  rintro ⟨rfl, rfl⟩
  rw [hw] at hq
  exact hjp ⟨(Option.some.inj hq).symm, rfl⟩

/-- **`RegisterWorker`**: the number is new. -/
theorem register_step (h : PortInv lanes s) (w port : ℕ) :
    PortInv lanes (s.register w port).2 ∧ PortStep w port s (s.register w port).2 ∧
      (s.register w port).2.holders = s.holders ∧ (s.register w port).2.sent = s.sent ∧
      ∀ wid, (s.register w port).1 = some wid → (s.register w port).2.owner port wid = some w := by
  unfold Ports.register
  by_cases hfull : kMaxRegisteredWorkers ≤ s.workerCount port
  · rw [if_pos hfull]
    exact ⟨h, PortStep.refl w port s, rfl, rfl, fun wid hwid => absurd hwid (by simp)⟩
  rw [if_neg hfull]
  have hnew : s.owner port (s.workerCount port) = none := by
    by_contra hne
    exact absurd (h.registered _ _ hne) (lt_irrefl _)
  have howner := update_update s.owner port (s.workerCount port) (some w)
  refine ⟨{ h with outHeld := fun r hr => ?_, registered := fun p q hq => ?_, count := fun p => ?_ },
    { PortStep.refl w port s with
      sees := fun j p hjp => { Sees.refl j p s with owner := fun q => ?_ } },
    rfl, rfl, fun wid hwid => ?_⟩
  · obtain ⟨j, hj, hheld⟩ := h.outHeld r hr
    refine ⟨j, ?_, hheld⟩
    dsimp only
    rw [howner, if_neg]
    · exact hj
    · rintro ⟨hp, hq⟩
      rw [hp, hq, hnew] at hj
      cases hj
  · dsimp only at hq ⊢
    rw [howner] at hq
    by_cases hp : p = port
    · subst hp
      rw [Function.update_self]
      by_cases hnewq : q = s.workerCount p
      · omega
      · rw [if_neg fun hc => hnewq hc.2] at hq
        have := h.registered _ _ hq
        omega
    · rw [if_neg fun hc => hp hc.1] at hq
      rw [Function.update_of_ne hp]
      exact h.registered _ _ hq
  · have hroom : s.workerCount port + 1 ≤ kMaxRegisteredWorkers := by omega
    exact (Function.forall_update_iff s.workerCount fun _ count => count ≤ kMaxRegisteredWorkers).2
      ⟨hroom, fun p _ => h.count p⟩ p
  · dsimp only
    rw [howner]
    split_ifs with hc
    · have hj : w ≠ j := fun hwj => hjp ⟨hwj.symm, hc.1⟩
      rw [hc.1, hc.2, hnew]
      simp [hj]
    · rfl
  · obtain rfl := Option.some.inj hwid
    dsimp only
    rw [howner, if_pos ⟨rfl, rfl⟩]

/-- **`AcquireSendLane`**: the lane was held by nobody. -/
theorem acquire_step (h : PortInv lanes s) (w port : ℕ) :
    PortInv lanes (s.acquire w port).2 ∧ PortStep w port s (s.acquire w port).2 ∧
      (s.acquire w port).2.owner = s.owner ∧ (s.acquire w port).2.out = s.out ∧
      (s.acquire w port).2.events = s.events ∧ (s.acquire w port).2.sent = s.sent ∧
      (s.acquire w port).2.delivered = s.delivered ∧
      ((s.acquire w port).1 = none → (s.acquire w port).2.holders = s.holders) ∧
      ∀ l, (s.acquire w port).1 = some l → s.holders port l = [] ∧
        ∀ p l', w ∈ (s.acquire w port).2.holders p l' ↔ p = port ∧ l' = l ∨ w ∈ s.holders p l' := by
  obtain ⟨hwf, hjettys, hhead, htail⟩ := SendJettyPool.popIdle_spec (h.wf port)
  unfold Ports.acquire
  cases hpop : (s.lanes port).popIdle with
  | mk lane pool =>
    rw [hpop] at hwf hjettys hhead htail
    dsimp only at hwf hjettys hhead htail
    obtain ⟨hwf', hjettys'⟩ := h.setPool hwf hjettys
    cases lane with
    | none =>
      have hempty : (s.lanes port).idle = [] := List.head?_eq_none_iff.1 hhead.symm
      refine ⟨{ h with wf := hwf', jettys := hjettys', idle := fun p l => ?_ },
        { PortStep.refl w port s with sees := fun j p _ => { Sees.refl j p s with } },
        rfl, rfl, rfl, rfl, rfl, fun _ => rfl, fun l hl => ?_⟩
      · dsimp only
        by_cases hp : p = port
        · subst hp
          rw [Function.update_self, htail, ← h.idle, hempty]
          rfl
        · rw [Function.update_of_ne hp]
          exact h.idle p l
      · cases hl
    | some lane =>
      have hmem : lane ∈ (s.lanes port).idle := List.mem_of_mem_head? hhead.symm
      obtain ⟨hlt, hfree⟩ := (h.idle port lane).1 hmem
      have hcons : (s.lanes port).idle = lane :: (s.lanes port).idle.tail :=
        List.eq_cons_of_mem_head? hhead.symm
      have hnodup := (h.wf port).idle_nodup
      rw [hcons, List.nodup_cons] at hnodup
      refine ⟨{ h with
          wf := hwf', jettys := hjettys', idle := fun p l => ?_, one := fun p l => ?_,
          held := fun p l hl => ?_, outHeld := fun r hr => ?_ },
        { PortStep.refl w port s with
          sees := fun j p hjp => { Sees.refl j p s with holds := fun l => ?_ } },
        rfl, rfl, rfl, rfl, rfl, ?_, ?_⟩
      · rw [setHolders_holders]
        unfold Ports.setHolders
        dsimp only
        by_cases hp : p = port
        · subst hp
          rw [Function.update_self, htail]
          have hidle := h.idle p l
          rw [hcons, List.mem_cons] at hidle
          by_cases hl : l = lane
          · subst hl
            rw [if_pos ⟨rfl, rfl⟩]
            simp [hnodup.1]
          · rw [if_neg fun hc => hl hc.2, ← hidle]
            simp [hl]
        · rw [Function.update_of_ne hp, if_neg fun hc => hp hc.1]
          exact h.idle p l
      · rw [setHolders_holders]
        split_ifs with hc
        · rw [hfree]
          simp
        · exact h.one p l
      · rw [setHolders_holders] at hl
        split_ifs at hl with hc
        · rw [hc.1, hc.2]
          exact hlt
        · exact h.held p l hl
      · obtain ⟨j, hj, hheld⟩ := h.outHeld r hr
        refine ⟨j, hj, ?_⟩
        rw [setHolders_holders]
        split_ifs with hc
        · rw [← hc.1, ← hc.2]
          exact List.mem_cons_of_mem _ hheld
        · exact hheld
      · rw [setHolders_holders]
        split_ifs with hc
        · have hj : j ≠ w := fun hjw => hjp ⟨hjw, hc.1⟩
          rw [hc.1, hc.2, List.mem_cons]
          exact ⟨fun hmem => hmem.resolve_left hj, .inr⟩
        · rfl
      · intro hnone
        cases hnone
      · rintro l hl
        obtain rfl := Option.some.inj hl
        refine ⟨hfree, fun p l' => ?_⟩
        rw [setHolders_holders]
        split_ifs with hc
        · simp [hc]
        · simp [hc]

/-- **`ReleaseSendLane`** by the only holder, when nothing is outstanding on the lane. -/
theorem release_step (h : PortInv lanes s) {l : Lane} (hw : w ∈ s.holders port l)
    (hout : ∀ r ∈ s.out, r.port = port → r.wr.lane ≠ l) :
    PortInv lanes (s.release w port (some l)) ∧ PortStep w port s (s.release w port (some l)) ∧
      ∀ p l', w ∈ (s.release w port (some l)).holders p l' ↔ ¬ (p = port ∧ l' = l) ∧ w ∈ s.holders p l' := by
  have honly := h.only hw
  have hlt : l < lanes port := h.held port l (by rw [honly]; simp)
  have hbusy : l ∉ (s.lanes port).idle := by
    rw [h.idle, honly]
    simp
  have hmem : l ∈ (s.lanes port).jettys := by
    rw [h.jettys]
    exact List.mem_range.2 hlt
  obtain ⟨hwf, hjettys, hidle⟩ := SendJettyPool.release_spec (h.wf port) hmem hbusy
  obtain ⟨hwf', hjettys'⟩ := h.setPool hwf hjettys
  unfold Ports.release
  dsimp only
  rw [honly, List.erase_cons_head]
  refine ⟨{ h with
      wf := hwf', jettys := hjettys', idle := fun p l' => ?_, one := fun p l' => ?_,
      held := fun p l' hl' => ?_, outHeld := fun r hr => ?_ },
    { PortStep.refl w port s with
      sees := fun j p hjp => { Sees.refl j p s with holds := fun l' => ?_ } }, fun p l' => ?_⟩
  · rw [setHolders_holders]
    unfold Ports.setHolders
    dsimp only
    by_cases hp : p = port
    · subst hp
      rw [Function.update_self, hidle, List.mem_append, List.mem_singleton, h.idle]
      by_cases hl : l' = l
      · subst hl
        simp [hlt]
      · simp [hl]
    · rw [Function.update_of_ne hp, if_neg fun hc => hp hc.1]
      exact h.idle p l'
  · rw [setHolders_holders]
    split_ifs
    · simp
    · exact h.one p l'
  · rw [setHolders_holders] at hl'
    split_ifs at hl' with hc
    · exact absurd rfl hl'
    · exact h.held p l' hl'
  · obtain ⟨j, hj, hheld⟩ := h.outHeld r hr
    refine ⟨j, hj, ?_⟩
    rw [setHolders_holders, if_neg fun hc => hout r hr hc.1 hc.2]
    exact hheld
  · rw [setHolders_holders]
    split_ifs with hc
    · have hj : j ≠ w := fun hjw => hjp ⟨hjw, hc.1⟩
      rw [hc.1, hc.2, honly]
      simp [hj]
    · rfl
  · rw [setHolders_holders]
    split_ifs with hc
    · simp [hc]
    · simp [hc]

/-- **`PostWrite`** on a lane that the worker holds. -/
theorem post_step (h : PortInv lanes s) {wr : Wr} (howner : s.owner port wr.wid = some w)
    (hheld : w ∈ s.holders port wr.lane) (hnew : (⟨port, wr⟩ : PortWr) ∉ s.out) :
    let s' := { s with
      out := ⟨port, wr⟩ :: s.out, sent := Function.update s.sent w (⟨port, wr⟩ :: s.sent w) }
    PortInv lanes s' ∧ PortStep w port s s' := by
  refine ⟨{ h with nodup := List.nodup_cons.2 ⟨hnew, h.nodup⟩, outHeld := fun r hr => ?_ },
    { PortStep.refl w port s with
      sees := fun j p hjp => { Sees.refl j p s with
        outs := fun r hr hp hr' => ?_
        slot := fun _ _ _ => .inl rfl }
      sent := fun j hj => Function.update_of_ne hj _ _ }⟩
  · rcases List.mem_cons.1 hr with rfl | hr
    · exact ⟨w, howner, hheld⟩
    · exact h.outHeld r hr
  · rcases List.mem_cons.1 hr with rfl | hr
    · obtain rfl : port = p := hp
      rw [howner] at hr'
      exact absurd ⟨(Option.some.inj hr').symm, rfl⟩ hjp
    · exact hr

/-- **A completion.** -/
theorem completion_step (h : PortInv lanes s) (e : Completion) (hmem : e.r ∈ s.out) :
    PortInv lanes (e.run s) ∧ ∀ j, PortRely j s (e.run s) := by
  have hgone : e.r ∉ s.out.erase e.r := fun hc => (h.nodup.mem_erase_iff.1 hc).1 rfl
  have hdelivered : ∀ r, s.delivered.count r ≤
      (if e.ok then e.r :: s.delivered else s.delivered).count r := by
    intro r
    split
    · exact (List.sublist_cons_self _ _).count_le r
    · exact le_rfl
  refine ⟨{ h with
      nodup := h.nodup.erase _
      outHeld := fun r hr => h.outHeld r (List.mem_of_mem_erase hr) },
    fun j => ⟨fun p => { Sees.refl j p s with
      delivered := hdelivered
      outs := fun r hr _ _ => List.mem_of_mem_erase hr
      slot := fun q k _ => ?_ }, rfl, fun h => h⟩⟩
  show (s.setEvents _ _ _).events p q k = _ ∨ _
  rw [setEvents_events]
  by_cases hpq : p = e.r.port ∧ q = e.r.wr.wid
  · obtain ⟨rfl, rfl⟩ := hpq
    rw [if_pos ⟨rfl, rfl⟩]
    unfold Event.apply
    dsimp only
    split_ifs with hpend
    · by_cases hk : k = index e.r.wr.token
      · subst hk
        refine .inr ⟨e.r, hmem, e.ok, rfl, rfl, hgone, hpend, ?_, fun hok => ?_⟩
        · show (s.setEvents _ _ _).events _ _ _ = _
          rw [setEvents_events, if_pos ⟨rfl, rfl⟩]
          unfold Event.apply
          dsimp only
          rw [if_pos hpend, Function.update_self]
        · show _ < (if e.ok = true then e.r :: s.delivered else s.delivered).count e.r
          rw [if_pos hok, List.count_cons_self]
          exact Nat.lt_succ_self _
      · exact .inl (Function.update_of_ne hk _ _)
    · exact .inl rfl
  · rw [if_neg hpq]
    exact .inl rfl

end Steps

/-! ### What a worker knows -/

/-- The state of a port for a worker. -/
inductive PortStatus where
  | free
  | holding (l : Lane)
  /-- It holds a lane and an event that no work request carries. -/
  | armed (l : Lane) (wid token : ℕ)
  | awaiting (wr : Wr)
  /-- It has given up a work request. -/
  | lost

/-- Nothing of the worker is outstanding at the port. -/
def Quiet (j p : ℕ) (s : Ports) : Prop := ∀ r ∈ s.out, r.port = p → s.owner p r.wr.wid ≠ some j

/-- `l` is the only lane of the port that the worker holds. -/
def HoldsOnly (j p : ℕ) (l : Lane) (s : Ports) : Prop := ∀ l', j ∈ s.holders p l' ↔ l' = l

/-- What a state of a port means to a worker for which the work requests `paid` have been delivered. -/
def PortStatus.Holds (j p : ℕ) (paid : List PortWr) (s : Ports) : PortStatus → Prop
  | .free => ∀ l, j ∉ s.holders p l
  | .holding l => HoldsOnly j p l s ∧ Quiet j p s
  | .armed l wid t =>
    HoldsOnly j p l s ∧ Quiet j p s ∧ s.owner p wid = some j ∧ s.events p wid (index t) = some (t, none)
  | .awaiting wr =>
    HoldsOnly j p wr.lane s ∧ s.owner p wr.wid = some j ∧
      (∀ r ∈ s.out, r.port = p → s.owner p r.wr.wid = some j → r = ⟨p, wr⟩) ∧
      (s.events p wr.wid (index wr.token) = some (wr.token, none) ∨
        ∃ ok, s.events p wr.wid (index wr.token) = some (wr.token, some ok) ∧
          ⟨p, wr⟩ ∉ s.out ∧ (ok = true → paid.count ⟨p, wr⟩ < s.delivered.count ⟨p, wr⟩))
  | .lost => True

section Known

variable {lanes : ℕ → ℕ} {s s' : Ports} {j p : ℕ} {paid paid' : List PortWr}

/-- Who holds no lane has nothing outstanding. -/
theorem PortInv.quiet (h : PortInv lanes s) (hfree : PortStatus.free.Holds j p paid s) :
    Quiet j p s := by
  rintro r hr rfl howner
  obtain ⟨j', hj', hheld⟩ := h.outHeld r hr
  rw [howner] at hj'
  obtain rfl := Option.some.inj hj'
  exact hfree _ hheld

/-- On the lane of a worker that has nothing outstanding at the port, nothing is outstanding. -/
theorem PortInv.unused (h : PortInv lanes s) {l : Lane} (hheld : j ∈ s.holders p l)
    (hquiet : Quiet j p s) : ∀ r ∈ s.out, r.port = p → r.wr.lane ≠ l := by
  rintro r hr rfl rfl
  obtain ⟨j', hj', hheld'⟩ := h.outHeld r hr
  rw [h.only hheld, List.mem_singleton] at hheld'
  subst hheld'
  exact hquiet r hr rfl hj'

theorem HoldsOnly.sees {l : Lane} (h : HoldsOnly j p l s) (hs : Sees j p s s') : HoldsOnly j p l s' :=
  fun l' => (hs.holds l').trans (h l')

theorem Quiet.sees (h : Quiet j p s) (hs : Sees j p s s') : Quiet j p s' := by
  intro r hr hp howner
  have howner' := (hs.owner _).1 howner
  exact h r (hs.outs r hr hp howner') hp howner'

/-- **What a worker knows of a port stays true** when it does nothing there. -/
theorem PortStatus.Holds.sees {st : PortStatus} (h : st.Holds j p paid s) (hs : Sees j p s s')
    (hpaid : ∀ r, paid.count r ≤ s.delivered.count r) : st.Holds j p paid s' := by
  cases st with
  | free => exact fun l hl => h l ((hs.holds l).1 hl)
  | holding l => exact ⟨h.1.sees hs, h.2.sees hs⟩
  | armed l wid t =>
    obtain ⟨hheld, hquiet, howner, hslot⟩ := h
    refine ⟨hheld.sees hs, hquiet.sees hs, (hs.owner _).2 howner, ?_⟩
    rcases hs.slot wid (index t) howner with hsame | ⟨r, hr, ok, rfl, rfl, -⟩
    · rw [hsame, hslot]
    · exact absurd howner (hquiet r hr rfl)
  | awaiting wr =>
    obtain ⟨hheld, howner, honly, hslot⟩ := h
    have hmine : ∀ r ∈ s'.out, r.port = p → s.owner p r.wr.wid = some j → r ∈ s.out := hs.outs
    refine ⟨hheld.sees hs, (hs.owner _).2 howner, fun r hr hp hown => ?_, ?_⟩
    · have hown' := (hs.owner _).1 hown
      exact honly r (hmine r hr hp hown') hp hown'
    rcases hs.slot wr.wid (index wr.token) howner with hsame | ⟨r, hr, ok, hp, hw, hgone, -, hnew, hok⟩
    · rw [hsame]
      rcases hslot with hpend | ⟨ok, hdone, hgone, hok⟩
      · exact .inl hpend
      · refine .inr ⟨ok, hdone, fun hmem => hgone (hmine _ hmem rfl howner), fun h => ?_⟩
        exact (hok h).trans_le (hs.delivered _)
    · have hr' : r = ⟨p, wr⟩ := honly r hr hp (by rw [hw]; exact howner)
      subst hr'
      exact .inr ⟨ok, hnew, hgone, fun h => (hpaid _).trans_lt (hok h)⟩
  | lost => trivial

/-- What has been delivered at other ports does not matter. -/
theorem PortStatus.Holds.fewer {st : PortStatus} (h : st.Holds j p paid s)
    (hpaid : ∀ wr, paid'.count ⟨p, wr⟩ ≤ paid.count ⟨p, wr⟩) : st.Holds j p paid' s := by
  cases st with
  | awaiting wr =>
    obtain ⟨hheld, howner, honly, hslot⟩ := h
    refine ⟨hheld, howner, honly, hslot.imp_right ?_⟩
    rintro ⟨ok, hdone, hgone, hok⟩
    exact ⟨ok, hdone, hgone, fun h => (hpaid wr).trans_lt (hok h)⟩
  | _ => exact h

/-- What a worker knows: it has registered with the first `reg` managers, `v` are the states of the ports,
it has posted `sent`, and the work requests of `paid` have been delivered, each as often as it stands
there. -/
structure View (j reg : ℕ) (v : ℕ → PortStatus) (sent paid : List PortWr) (m : DualWorker) (s : Ports) :
    Prop where
  regs : ∀ p < reg, s.owner p (m.wid p) = some j
  ports : ∀ p, (v p).Holds j p paid s
  sent : s.sent j = sent
  paid : ∀ r, paid.count r ≤ s.delivered.count r

variable {reg : ℕ} {v v' : ℕ → PortStatus} {sent : List PortWr} {m m' : DualWorker}

theorem View.rely (h : View j reg v sent paid m s) (hr : PortRely j s s') :
    View j reg v sent paid m s' where
  regs p hp := ((hr.port p).owner _).2 (h.regs p hp)
  ports p := (h.ports p).sees (hr.port p) h.paid
  sent := hr.sent.trans h.sent
  paid r := (h.paid r).trans ((hr.port 0).delivered r)

/-- The memory matters only for the numbers under which the worker has registered. -/
theorem View.mem (h : View j reg v sent paid m s) (hwid : m'.wid = m.wid) :
    View j reg v sent paid m' s := by
  refine { h with regs := fun p hp => ?_ }
  rw [hwid]
  exact h.regs p hp

/-- A worker may forget what it knows of a port, and what has been delivered. -/
theorem View.weaken (h : View j reg v sent paid m s) (hv : ∀ p, v' p = v p ∨ v' p = .lost)
    (hpaid : paid'.Sublist paid) : View j reg v' sent paid' m s := by
  refine { h with ports := fun p => ?_, paid := fun r => (hpaid.count_le r).trans (h.paid r) }
  rcases hv p with hp | hp
  · rw [hp]
    exact (h.ports p).fewer fun wr => hpaid.count_le _
  · rw [hp]
    trivial

/-- **A step at one port.** -/
theorem View.step {port : ℕ} {st st' : PortStatus} {sent' : List PortWr}
    (h : View j reg (Function.update v port st) sent paid m s) (hstep : PortStep j port s s')
    (howner : s'.owner = s.owner) (hdelivered : s'.delivered = s.delivered)
    (hst : st'.Holds j port paid s') (hsent : s'.sent j = sent') :
    View j reg (Function.update v port st') sent' paid m s' where
  regs p hp := by
    rw [howner]
    exact h.regs p hp
  ports p := by
    by_cases hp : p = port
    · subst hp
      rw [Function.update_self]
      exact hst
    · have hother := h.ports p
      rw [Function.update_of_ne hp] at hother ⊢
      exact hother.sees (hstep.sees j p fun hc => hp hc.2) h.paid
  sent := hsent
  paid r := by
    rw [hdelivered]
    exact h.paid r

/-- The state of one port among the others. -/
theorem View.at {port : ℕ} {st : PortStatus} (h : View j reg (Function.update v port st) sent paid m s) :
    st.Holds j port paid s := by
  have := h.ports port
  rwa [Function.update_self] at this

end Known

/-! ### The calls of a manager -/

section Calls

variable {n reg port : ℕ} {lanes : ℕ → ℕ} {i : Fin n} {v : ℕ → PortStatus} {sent paid : List PortWr}
  {F : DualWorker → Prop} {β : Type} {l : Lane} {wid t : ℕ} {wr : Wr}

/-- The worker knows `View` of the state and `F` of its memory. -/
def Knows (i : Fin n) (reg : ℕ) (v : ℕ → PortStatus) (sent paid : List PortWr) (F : DualWorker → Prop)
    (m : DualWorker) (s : Ports) : Prop :=
  View i reg v sent paid m s ∧ F m

theorem Knows.stable (m : DualWorker) :
    (portDiscipline n lanes).Stable i (Knows i reg v sent paid F m) :=
  fun _ _ _ h hr _ => ⟨h.1.rely hr, h.2⟩

/-- An action at a port. -/
theorem port_call (port : ℕ) {e : Act β} {Q : β → DualWorker → Ports → Prop}
    (hrun : ∀ m s o, PortInv lanes s → View i reg v sent paid m s → F m → e.AllowedPorts s o →
      PortInv lanes (e.runPorts i o s).2 ∧ PortStep i port s (e.runPorts i o s).2 ∧
        Q (e.runPorts i o s).1 m (e.runPorts i o s).2) :
    Abides (ports n) (portDiscipline n lanes) i (Knows i reg v sent paid F) (Proc.act e) Q := by
  refine Discipline.spec_run Knows.stable ?_
  intro m s k hs hP o ho
  obtain ⟨hinv, hstep, hQ⟩ := hrun m s o hs hP.1 hP.2 ho
  exact ⟨⟨hinv, fun j hj => hstep.rely fun h => hj (Fin.ext h), trivial⟩, hQ⟩

/-- An action that changes nothing. -/
theorem quiet_call {e : Act β} (hrun : ∀ o s, (e.runPorts i o s).2 = s) :
    Abides (ports n) (portDiscipline n lanes) i (Knows i reg v sent paid F) (Proc.act e)
      (fun _ => Knows i reg v sent paid F) := by
  refine port_call 0 fun m s o hs hv hF _ => ?_
  rw [hrun]
  exact ⟨hs, PortStep.refl _ _ _, hv, hF⟩

/-- `AcquireSendLane`. -/
theorem acquire_call :
    Abides (ports n) (portDiscipline n lanes) i
      (Knows i reg (Function.update v port .free) sent paid F) (Proc.act (.acquireSendLane port))
      (fun r => r.elim (Knows i reg (Function.update v port .free) sent paid F)
        fun l => Knows i reg (Function.update v port (.holding l)) sent paid F) := by
  refine port_call port fun m s o hs hv hF _ => ?_
  have hfree : PortStatus.free.Holds i port paid s := hv.at
  obtain ⟨hinv, hstep, howner, hout, -, hsent, hdel, hnone, hsome⟩ := acquire_step hs i port
  refine ⟨hinv, hstep, ?_⟩
  have hnext : ∀ st : PortStatus, st.Holds i port paid (s.acquire i port).2 →
      Knows i reg (Function.update v port st) sent paid F m (s.acquire i port).2 := by
    intro st hst
    refine ⟨hv.step hstep howner hdel hst ?_, hF⟩
    rw [hsent]
    exact hv.sent
  unfold Act.runPorts
  cases hlane : (s.acquire i port).1 with
  | none =>
    refine hnext .free fun l => ?_
    rw [hnone hlane]
    exact hfree l
  | some l =>
    obtain ⟨-, hholders⟩ := hsome l hlane
    refine hnext (.holding l) ⟨fun l' => ?_, ?_⟩
    · rw [hholders]
      simp [hfree l']
    · unfold Quiet
      rw [hout, howner]
      exact hs.quiet hfree

/-- `ReleaseSendLane`. -/
theorem release_call :
    Abides (ports n) (portDiscipline n lanes) i
      (Knows i reg (Function.update v port (.holding l)) sent paid F)
      (Proc.act (.releaseSendLane port (some l)))
      (fun _ => Knows i reg (Function.update v port .free) sent paid F) := by
  refine port_call port fun m s o hs hv hF _ => ?_
  obtain ⟨hheld, hquiet⟩ : PortStatus.Holds i port paid s (.holding l) := hv.at
  have hmem : i.val ∈ s.holders port l := (hheld l).2 rfl
  obtain ⟨hinv, hstep, hholders⟩ := release_step hs hmem (hs.unused hmem hquiet)
  refine ⟨hinv, hstep, hv.step hstep rfl rfl (fun l' hl' => ?_) hv.sent, hF⟩
  obtain ⟨hne, hl⟩ := (hholders port l').1 hl'
  exact hne ⟨rfl, (hheld l').1 hl⟩

/-- `PostEvent`: `0`, or a new event. -/
theorem postEvent_call (hport : port < reg) (hwid : ∀ m, F m → m.wid port = wid) :
    Abides (ports n) (portDiscipline n lanes) i
      (Knows i reg (Function.update v port (.holding l)) sent paid F) (Proc.act (.postEvent port wid))
      (fun r m s => (r = (0, 0) ∧ Knows i reg (Function.update v port (.holding l)) sent paid F m s) ∨
        (r.1 = userCtxOf wid r.2 ∧ r.1 ≠ 0 ∧ wid < 2 ^ 24 ∧ r.2 < 2 ^ 40) ∧
          Knows i reg (Function.update v port (.armed l wid r.2)) sent paid F m s) := by
  refine port_call port fun m s o hs hv hF ho => ?_
  obtain ⟨hheld, hquiet⟩ : PortStatus.Holds i port paid s (.holding l) := hv.at
  have howner : s.owner port wid = some i.val := by
    rw [← hwid m hF]
    exact hv.regs port hport
  unfold Act.runPorts Ports.postEvent
  cases htok : o.token with
  | none => exact ⟨hs, PortStep.refl _ _ _, .inl ⟨rfl, hv, hF⟩⟩
  | some t =>
    obtain ⟨hlt, ⟨hpos, ht⟩, hslot⟩ := ho t htok
    have hwid24 : wid < 2 ^ 24 := by
      have := hs.count port
      unfold kMaxRegisteredWorkers at this
      omega
    have hstep := setEvents_step ((Event.acquired t).apply (s.events port wid)) howner
    refine ⟨hs.setEvents _ _ _, hstep, .inr ⟨⟨rfl, ?_, hwid24, ht⟩, ?_, hF⟩⟩
    · show userCtxOf wid t ≠ 0
      rw [userCtxOf_eq hwid24 ht]
      omega
    · refine hv.step hstep rfl rfl ⟨hheld, hquiet, howner, ?_⟩ hv.sent
      rw [setEvents_events, if_pos ⟨rfl, rfl⟩]
      unfold Event.apply
      simp

/-- `AbortEvent` for an event that no work request carries. -/
theorem abort_call :
    Abides (ports n) (portDiscipline n lanes) i
      (Knows i reg (Function.update v port (.armed l wid t)) sent paid F)
      (Proc.act (.abortEvent port wid t))
      (fun _ => Knows i reg (Function.update v port (.holding l)) sent paid F) := by
  refine port_call port fun m s o hs hv hF _ => ?_
  obtain ⟨hheld, hquiet, howner, -⟩ : PortStatus.Holds i port paid s (.armed l wid t) := hv.at
  have hstep := setEvents_step (takeOut (s.events port wid) t) howner
  exact ⟨hs.setEvents _ _ _, hstep, hv.step hstep rfl rfl ⟨hheld, hquiet⟩ hv.sent, hF⟩

/-- `PostWrite` with a new event. -/
theorem postWrite_call (hl : wr.lane = l) (hwid : wr.wid = wid) (ht : wr.token = t) :
    Abides (ports n) (portDiscipline n lanes) i
      (Knows i reg (Function.update v port (.armed l wid t)) sent paid F)
      (Proc.act (.postWrite port wr))
      (fun ok m s =>
        (ok = true ∧
          Knows i reg (Function.update v port (.awaiting wr)) (⟨port, wr⟩ :: sent) paid F m s) ∨
        (ok = false ∧ Knows i reg (Function.update v port (.armed l wid t)) sent paid F m s)) := by
  subst hl hwid ht
  refine port_call port fun m s o hs hv hF _ => ?_
  unfold Act.runPorts
  cases ho : o.ok with
  | false => exact ⟨hs, PortStep.refl _ _ _, .inr ⟨rfl, hv, hF⟩⟩
  | true =>
    obtain ⟨hheld, hquiet, howner, hslot⟩ :
      PortStatus.Holds i port paid s (.armed wr.lane wr.wid wr.token) := hv.at
    obtain ⟨hinv, hstep⟩ := post_step hs howner ((hheld _).2 rfl) fun hmem => hquiet _ hmem rfl howner
    refine ⟨hinv, hstep, .inl ⟨rfl, hv.step hstep rfl rfl ⟨hheld, howner, ?_, .inl hslot⟩ ?_, hF⟩⟩
    · intro r hr hp hown
      rcases List.mem_cons.1 hr with rfl | hr
      · rfl
      · exact absurd hown (hquiet r hr hp)
    · show Function.update s.sent i (⟨port, wr⟩ :: s.sent i) i = _
      rw [Function.update_self, hv.sent]

/-- `WaitEvent`: on success, the work request has been delivered. -/
theorem waitEvent_call (timeoutMs : ℤ) :
    Abides (ports n) (portDiscipline n lanes) i
      (Knows i reg (Function.update v port (.awaiting wr)) sent paid F)
      (Proc.act (.waitEvent port wr.wid wr.token timeoutMs))
      (fun done m s =>
        (done = true ∧
          Knows i reg (Function.update v port (.holding wr.lane)) sent (⟨port, wr⟩ :: paid) F m s) ∨
        (done = false ∧ Knows i reg (Function.update v port .lost) sent paid F m s)) := by
  refine port_call port fun m s o hs hv hF hallowed => ?_
  obtain ⟨hheld, howner, honly, hslot⟩ : PortStatus.Holds i port paid s (.awaiting wr) := hv.at
  have hstep := setEvents_step (takeOut (s.events port wr.wid) wr.token) howner
  refine ⟨hs.setEvents _ _ _, hstep, ?_⟩
  unfold Act.runPorts
  cases ho : o.ok with
  | false => exact .inr ⟨rfl, hv.step hstep rfl rfl trivial hv.sent, hF⟩
  | true =>
    have hdone := hallowed ho
    rcases hslot with hpend | ⟨ok, hfin, hgone, hok⟩
    · rw [hdone] at hpend
      simp at hpend
    · have hoktrue : ok = true := by
        rw [hdone] at hfin
        simpa using hfin.symm
      have hquiet : Quiet i port s := by
        intro r hr hp hown
        exact hgone (honly r hr hp hown ▸ hr)
      have hnext : View i reg (Function.update v port (.holding wr.lane)) sent paid m _ :=
        hv.step hstep rfl rfl ⟨hheld, hquiet⟩ hv.sent
      refine .inl ⟨rfl, { hnext with ports := fun p => ?_, paid := fun r => ?_ }, hF⟩
      · by_cases hp : p = port
        · subst hp
          rw [Function.update_self]
          exact ⟨hheld, hquiet⟩
        · refine (hnext.ports p).fewer fun wr' => ?_
          rw [List.count_cons_of_ne]
          exact fun heq => hp (congrArg PortWr.port heq).symm
      · by_cases hr : r = ⟨port, wr⟩
        · subst hr
          rw [List.count_cons_self]
          exact hok hoktrue
        · rw [List.count_cons_of_ne (Ne.symm hr)]
          exact hv.paid r

/-- `RegisterWorker` with the next manager. -/
theorem register_call (hv : v port = .free) :
    Abides (ports n) (portDiscipline n lanes) i (Knows i port v sent paid F)
      (Proc.act (.registerWorker port))
      (fun r m s => Knows i port v sent paid F m s ∧
        ∀ wid, r = some wid → s.owner port wid = some i.val) := by
  refine port_call port fun m s o hs hview hF _ => ?_
  obtain ⟨hinv, hstep, hholders, hsent, howner⟩ := register_step hs i port
  refine ⟨hinv, hstep, ⟨{ hview with
    regs := fun p hp => ?_
    ports := fun p => ?_
    sent := ?_
    paid := fun r => ?_ }, hF⟩, howner⟩
  · have hsees := hstep.sees i p fun hc => absurd hc.2 (by omega)
    exact (hsees.owner _).2 (hview.regs p hp)
  · by_cases hp : p = port
    · subst hp
      have hfree := hview.ports p
      rw [hv] at hfree ⊢
      intro l
      show i.val ∉ (s.register i p).2.holders p l
      rw [hholders]
      exact hfree l
    · exact (hview.ports p).sees (hstep.sees i p fun hc => hp hc.2) hview.paid
  · show (s.register i port).2.sent i = sent
    rw [hsent]
    exact hview.sent
  · have hsees := hstep.sees i (port + 1) fun hc => absurd hc.2 (by omega)
    exact (hview.paid r).trans (hsees.delivered r)

end Calls

end KvBench.Dual
