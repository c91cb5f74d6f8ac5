import KvBench.Bench.Track

/-!
# Posting, harvesting and giving up a request

What the pipelines do with one request: the probes of its work requests, the release of its lanes
when all are done, the posting of its twenty work requests, and the rollback when one of them cannot
be posted.
-/

namespace KvBench.Bench

open KvBench.Conc KvBench.Events Worker

/-- No fault is possible for the worker `w`: its posts and completions succeed, and it finds lanes
and event slots. -/
def Setup.Healthy (B : Setup) (w : ℕ) : Prop :=
  ((B.mode w).postsOk = true ∧ (B.mode w).cqesOk = true ∧ B.taken = []) ∧
    ((B.mode w).lanesOk = true ∨ B.roomy)

theorem Setup.Sound.healthy_of_roomy {B : Setup} (hB : B.Sound) (w : ℕ) (hr : B.roomy) :
    B.Healthy w :=
  ⟨⟨((hB.healthy hr).2 w).1, ((hB.healthy hr).2 w).2, (hB.healthy hr).1⟩, .inr hr⟩

section Requests

variable {B : Setup} {i : Fin B.n} {T : Prop} {m₀ : Worker} {fly rest : Set (ℕ × ℕ)}
  {k idx wr send : ℕ}

/-! ### Harvest -/

theorem harvestWr_spec (p : Pipe) (hfly : (m₀.wrSlots idx).done wr = false → (idx, wr) ∈ fly) :
    B.Triple i (fun m v _ => Track B i T m₀ fly rest k m v) (harvestWr p idx wr)
      (fun r => r.elim
        (fun m v _ => Track B i T m₀ fly rest k m v ∨ (m₀.wrSlots idx).done wr = false ∧
          ∃ ns, Track B i T (recordWr ns (markDone idx wr m₀)) (fly \ {(idx, wr)})
            (insert (idx, wr) rest) k m v)
        (fun _ m v _ => (B.mode i).cqesOk = false ∧
          Track B i T (m₀.note .probe) (fly \ {(idx, wr)}) (insert (idx, wr) rest) k m v)) := by
  unfold harvestWr
  refine Track.get_bind fun ev look => ?_
  refine Setup.Triple.ite (fun _ => Setup.Triple.pure fun m v n h => .inl h) fun hdone => ?_
  have hdone : (m₀.wrSlots idx).done wr = false := Bool.eq_false_iff.2 hdone
  refine Setup.Triple.bind (probe_track (hfly hdone)) fun r => ?_
  refine Setup.Triple.ite (fun hr => ?_) fun hr => Setup.Triple.ite (fun hr' => ?_) fun hr' => ?_
  · refine Setup.Triple.of_fact (p := (B.mode i).cqesOk = false) ?_ fun hc => ?_
    · rintro m v n - (⟨rfl, -⟩ | ⟨rfl | ⟨-, hc⟩, -⟩)
      · simp at hr
      · simp at hr
      · exact hc
    · refine Setup.Triple.pre (P := fun m v _ => Track B i T m₀ (fly \ {(idx, wr)})
        (insert (idx, wr) rest) k m v) ?_ ?_
      · refine Track.modify_bind (fun _ _ _ => rfl) (fun g hg => hg) ?_
        exact Track.say_bind (.inl trivial) (Setup.Triple.pure fun m v n h => ⟨hc, h⟩)
      · rintro m v n - (⟨rfl, -⟩ | ⟨-, h⟩)
        · simp at hr
        · exact h
  · refine Setup.Triple.pre (P := fun m v _ => Track B i T m₀ (fly \ {(idx, wr)})
      (insert (idx, wr) rest) k m v) ?_ ?_
    · refine Track.modify_bind (fun _ _ _ => rfl) (fun g hg => ?_) (Track.now_bind fun t => ?_)
      · exact hg.setSlot (fun _ => rfl) fun _ => rfl
      · refine Track.modify_bind (fun _ _ _ => rfl) (fun g hg => hg) ?_
        exact Setup.Triple.pure fun m v n h => .inr ⟨hdone, _, h⟩
    · rintro m v n - (⟨rfl, -⟩ | ⟨-, h⟩)
      · simp at hr'
      · exact h
  · refine Setup.Triple.pure ?_
    rintro m v n (⟨-, h⟩ | ⟨rfl | ⟨rfl, -⟩, -⟩)
    · exact .inl h
    · exact absurd rfl hr'
    · exact absurd rfl hr

/-- The first `j` lanes of the slot `idx` are gone. -/
def clearJettys (idx j : ℕ) : Worker → Worker :=
  setSlot idx fun s => { s with jetty := fun send => if send < j then none else s.jetty send }

theorem clearJettys_zero (idx : ℕ) (m : Worker) : clearJettys idx 0 m = m := by
  simp [clearJettys, setSlot, Function.update_eq_self]

theorem setJetty_clearJettys (idx j : ℕ) (m : Worker) :
    setJetty idx j none (clearJettys idx j m) = clearJettys idx (j + 1) m := by
  simp only [setJetty, clearJettys, setSlot, Function.update_self, Function.update_idem]
  congr 2
  congr 1
  funext send
  by_cases hs : send = j
  · subst hs
    simp
  · rw [Function.update_of_ne hs]
    have : send < j ↔ send < j + 1 := by omega
    simp [this]

/-- The lanes of a request all of whose work requests are done go back. -/
theorem releaseSends_spec (hrest : ∀ wr, (idx, wr) ∈ rest) :
    B.Triple i (fun m v _ => Track B i T m₀ fly rest k m v)
      (Proc.each (fun send _ => releaseSend idx send) 0 kvSendsPerReq ())
      (fun _ m v _ => Track B i T (clearJettys idx kvSendsPerReq m₀) fly rest k m v) := by
  refine (Setup.Triple.each (fun j _ m v _ => Track B i T (clearJettys idx j m₀) fly rest k m v)
    (fun j x _ _ => ?_) ()).conseq (fun m v n _ h => ?_) fun _ m v n _ h => ?_
  · unfold releaseSend
    refine Track.get_bind fun ev look => ?_
    refine Setup.Triple.bind (release_track fun wr _ => hrest wr) fun _ => ?_
    rw [← setJetty_clearJettys]
    exact Shut.clear
  · rwa [clearJettys_zero]
  · rwa [Nat.zero_add] at h

/-- The worker after `finishReq`. -/
def Worker.finished (size idx k ns : ℕ) (m : Worker) : Worker :=
  retire idx k { recordReq ns (deactivate idx (clearJettys idx kvSendsPerReq
    { m with bytes := m.bytes + size * kvSendsPerReq })) with ops := m.ops + 1 }

theorem finishReq_spec (p : Pipe) (pos : ℕ) (hrest : ∀ wr, (idx, wr) ∈ rest) :
    B.Triple i (fun m v _ => Track B i T m₀ fly rest k m v) (finishReq p idx pos)
      (fun _ m v _ => ∃ ns, Track B i T (finished p.size idx pos ns m₀) fly rest k m v) := by
  unfold finishReq
  refine Track.modify_bind (fun _ _ _ => rfl) (fun g hg => hg) ?_
  refine Setup.Triple.bind (releaseSends_spec hrest) fun _ => ?_
  refine Track.modify_bind (fun _ _ _ => rfl)
    (fun g hg => hg.setSlot (fun _ => rfl) fun _ => rfl) (Track.now_bind fun t => ?_)
  refine Track.modify_bind (fun _ _ _ => rfl) (fun g hg => hg) ?_
  refine Track.modify_bind (fun _ _ _ => rfl) (fun g hg => hg) (Track.count_bind ?_)
  exact (Track.modify (fun _ _ _ => rfl) fun g hg => hg).post fun _ m v n _ h => ⟨_, h⟩

/-! ### Rollback -/

/-- The worker `m'` is `m` up to the slot `idx`, the counters and the random state. -/
structure OutsideSlot (idx : ℕ) (m m' : Worker) : Prop where
  slots : ∀ idx', idx' ≠ idx → m'.wrSlots idx' = m.wrSlots idx'
  active : m'.activeSlots = m.activeSlots
  free : m'.freeSlots = m.freeSlots
  faults : m'.faults = m.faults

theorem OutsideSlot.refl (idx : ℕ) (m : Worker) : OutsideSlot idx m m :=
  ⟨fun _ _ => rfl, rfl, rfl, rfl⟩

theorem OutsideSlot.trans {m₁ m₂ m₃ : Worker} (h : OutsideSlot idx m₁ m₂)
    (h' : OutsideSlot idx m₂ m₃) : OutsideSlot idx m₁ m₃ where
  slots idx' hne := (h'.slots idx' hne).trans (h.slots idx' hne)
  active := h'.active.trans h.active
  free := h'.free.trans h.free
  faults := h'.faults.trans h.faults

theorem OutsideSlot.setSlot {m m' : Worker} (h : OutsideSlot idx m m') (f : WrSlot → WrSlot) :
    OutsideSlot idx m (setSlot idx f m') where
  slots idx' hne := (wrSlots_setSlot_of_ne m' f hne).trans (h.slots idx' hne)
  active := h.active
  free := h.free
  faults := h.faults

/-- The posted work requests from `wr` on of a request that is given up. -/
def pendingFrom (idx posted wr : ℕ) : Set (ℕ × ℕ) := {a | a.1 = idx ∧ wr ≤ a.2 ∧ a.2 < posted}

theorem pendingFrom_of_le {posted : ℕ} (idx : ℕ) (h : posted ≤ wr) :
    pendingFrom idx posted wr = ∅ := by
  ext a
  simp only [pendingFrom, Set.mem_ofPred_eq, Set.mem_empty_iff_false, iff_false]
  omega

/-- The next work request of the request is waited for. -/
theorem pendingFrom_succ (hothers : ∀ a ∈ fly, a.1 ≠ idx) (posted wr : ℕ) :
    (fly ∪ pendingFrom idx posted wr) \ {(idx, wr)} = fly ∪ pendingFrom idx posted (wr + 1) := by
  ext ⟨idx', wr'⟩
  have hne : (idx', wr') ∈ fly → idx' ≠ idx := hothers (idx', wr')
  simp only [pendingFrom, Set.mem_sdiff, Set.mem_union, Set.mem_ofPred_eq, Set.mem_singleton_iff,
    Prod.mk.injEq]
  constructor
  · rintro ⟨ha | ha, hdiff⟩
    · exact .inl ha
    · exact .inr (by omega)
  · rintro (ha | ha)
    · exact ⟨.inl ha, fun hc => hne ha hc.1⟩
    · exact ⟨.inr (by omega), by omega⟩

variable (B i T) in
/-- What holds during a rollback of the slot `idx` from the work request `wr` on: those up to it
since `first` are done with if `completed` is set, and the lanes up to `first` are gone. The memory
was `m₁` at the start, and `fly` are the work requests of other slots. -/
def Rolling (m₁ : Worker) (fly : Set (ℕ × ℕ)) (idx posted k first wr : ℕ) (completed : Bool)
    (m : Worker) (v : View) : Prop :=
  ∃ x : Worker × Set (ℕ × ℕ), ((OutsideSlot idx m₁ x.1 ∧
      ∀ send, (x.1.wrSlots idx).jetty send ≠ none →
        first ≤ send * kvWrPerSend ∧ send * kvWrPerSend < posted) ∧
      (∀ wr' ≥ posted, (idx, wr') ∈ x.2) ∧
      (completed = true → ∀ wr', first ≤ wr' → wr' < wr → (idx, wr') ∈ x.2)) ∧
    Track B i T x.1 (fly ∪ pendingFrom idx posted wr) x.2 k m v

section Rollback

variable (hothers : ∀ a ∈ fly, a.1 ≠ idx)
include hothers

theorem rollbackWr_spec (hB : B.Sound) (timeoutMs : ℤ) {posted first : ℕ} (hwr : wr < posted)
    (completed : Bool) :
    B.Triple i (fun m v _ => Rolling B i T m₀ fly idx posted k first wr completed m v)
      (rollbackWr timeoutMs idx wr completed)
      (fun completed m v _ => Rolling B i T m₀ fly idx posted k first (wr + 1) completed m v) := by
  refine Setup.Triple.of_exists fun x hx => ?_
  obtain ⟨⟨hout, hjs⟩, hge, hdone⟩ := hx
  unfold rollbackWr
  refine Track.get_bind fun ev look => ?_
  have hmem : (idx, wr) ∈ fly ∪ pendingFrom idx posted wr := .inr ⟨rfl, le_rfl, hwr⟩
  refine Setup.Triple.bind (wait_track hB hmem timeoutMs) fun b => ?_
  rw [pendingFrom_succ hothers]
  refine Setup.Triple.pre (P := fun m v _ => Track B i T x.1 (fly ∪ pendingFrom idx posted (wr + 1))
    (if b then insert (idx, wr) x.2 else x.2) k m v) ?_ fun m v n _ h => h.1
  cases b with
  | true =>
    refine Track.now_bind fun t => Track.modify_bind (fun _ _ _ => rfl) (fun g hg => hg) ?_
    refine Setup.Triple.pure fun m v n h => ⟨(recordWr _ x.1, insert (idx, wr) x.2),
      ⟨⟨?_, hjs⟩, ?_, ?_⟩, h⟩
    · exact ⟨hout.slots, hout.active, hout.free, hout.faults⟩
    · intro wr' hwr'
      exact Set.mem_insert_of_mem _ (hge wr' hwr')
    · intro hc wr' h1 h2
      rcases Nat.lt_succ_iff_lt_or_eq.1 h2 with hlt | rfl
      · exact Set.mem_insert_of_mem _ (hdone hc wr' h1 hlt)
      · exact Set.mem_insert _ _
  | false =>
    exact Setup.Triple.pure fun m v n h => ⟨x, ⟨⟨hout, hjs⟩, hge, fun hc => nomatch hc⟩, h⟩

theorem rollbackSend_spec (hB : B.Sound) (hT : ¬ T) (op : Op) (timeoutMs : ℤ) {posted : ℕ}
    (hsend : send * kvWrPerSend ≤ posted) :
    B.Triple i (fun m v _ => Rolling B i T m₀ fly idx posted k (send * kvWrPerSend)
        (send * kvWrPerSend) true m v)
      (rollbackSend op timeoutMs idx posted send)
      (fun _ m v _ => Rolling B i T m₀ fly idx posted k ((send + 1) * kvWrPerSend)
        ((send + 1) * kvWrPerSend) true m v) := by
  unfold rollbackSend
  refine Setup.Triple.bind (Setup.Triple.each (fun wr completed m v _ =>
    Rolling B i T m₀ fly idx posted k (send * kvWrPerSend) wr completed m v)
    (fun wr completed _ hwr => rollbackWr_spec hothers hB timeoutMs (by omega) completed) true)
    fun completed => ?_
  have hend : send * kvWrPerSend +
      (min (send * kvWrPerSend + kvWrPerSend) posted - send * kvWrPerSend) =
        min (send * kvWrPerSend + kvWrPerSend) posted := by omega
  rw [hend]
  refine Setup.Triple.of_exists fun x hx => ?_
  obtain ⟨⟨hout, hjs⟩, hge, hdone⟩ := hx
  have hnext : pendingFrom idx posted (min (send * kvWrPerSend + kvWrPerSend) posted) =
      pendingFrom idx posted ((send + 1) * kvWrPerSend) := by
    ext a
    simp only [pendingFrom, Set.mem_ofPred_eq, kvWrPerSend]
    omega
  rw [hnext]
  -- in either case the lane is given up, and noted in the slot
  have hshut : B.Triple i (fun m v _ => Shut B i T x.1 idx send
      (fly ∪ pendingFrom idx posted ((send + 1) * kvWrPerSend)) x.2 k m v)
      (modify (setJetty idx send none)) (fun _ m v _ => Rolling B i T m₀ fly idx posted k
        ((send + 1) * kvWrPerSend) ((send + 1) * kvWrPerSend) true m v) := by
    have hout' : OutsideSlot idx m₀ (setJetty idx send none x.1) := hout.setSlot _
    refine Shut.clear.post fun _ m v n _ h => ⟨(setJetty idx send none x.1, x.2),
      ⟨⟨hout', fun send' hj => ?_⟩, hge, fun _ wr' h1 h2 => ?_⟩, h⟩
    · rw [setJetty, wrSlots_setSlot_self] at hj
      have hne : send' ≠ send := by
        rintro rfl
        exact hj (Function.update_self _ _ _)
      simp only [Function.update_of_ne hne] at hj
      obtain ⟨h1, h2⟩ := hjs send' hj
      unfold kvWrPerSend at *
      omega
    · omega
  dsimp only
  refine Setup.Triple.ite (fun hc => ?_) fun _ => ?_
  · refine Track.get_bind fun ev look => Setup.Triple.bind (release_track fun wr hwr => ?_)
      fun _ => hshut
    by_cases hlt : wr < min (send * kvWrPerSend + kvWrPerSend) posted
    · exact hdone hc wr (by simp only [kvWrPerSend] at *; omega) hlt
    · exact hge wr (by simp only [kvWrPerSend] at *; omega)
  · exact Track.say_bind (.inl trivial) (hshut.pre fun m v n _ h => h.quarantine hT idx send)

/-- A rollback waits for the work requests that have been posted and gives up all lanes. -/
theorem rollback_spec (hB : B.Sound) (hT : ¬ T) (op : Op) (timeoutMs : ℤ) {posted : ℕ}
    (hjs : ∀ send, (m₀.wrSlots idx).jetty send ≠ none → send * kvWrPerSend < posted)
    (hrest : ∀ wr ≥ posted, (idx, wr) ∈ rest) :
    B.Triple i (fun m v _ => Track B i T m₀ (fly ∪ pendingFrom idx posted 0) rest k m v)
      (rollback op timeoutMs idx posted)
      (fun _ m v _ => ∃ x : Worker × Set (ℕ × ℕ), (OutsideSlot idx m₀ x.1 ∧
        ∀ send, (x.1.wrSlots idx).jetty send = none) ∧ Track B i T x.1 fly x.2 k m v) := by
  unfold rollback
  refine (Setup.Triple.each (fun j _ m v _ => Rolling B i T m₀ fly idx posted k (j * kvWrPerSend)
    (j * kvWrPerSend) true m v) (fun j _ _ hj => ?_) ()).conseq (fun m v n _ h => ?_)
    fun _ m v n _ h => ?_
  · refine rollbackSend_spec hothers hB hT op timeoutMs ?_
    simp only [kvWrPerSend] at *
    omega
  · refine ⟨(m₀, rest), ⟨⟨.refl _ _, fun send hj => ⟨by omega, hjs send hj⟩⟩, hrest,
      fun _ wr' h1 h2 => by omega⟩, ?_⟩
    rwa [Nat.zero_mul]
  · obtain ⟨x, ⟨⟨hout, hjs'⟩, -, -⟩, h⟩ := h
    refine ⟨x, ⟨hout, fun send => ?_⟩, ?_⟩
    · by_contra hj
      obtain ⟨h1, h2⟩ := hjs' send hj
      unfold kvWrPerSend at h1 h2
      omega
    · rwa [pendingFrom_of_le idx (by unfold kvWrPerSend; omega), Set.union_empty] at h

end Rollback

/-! ### Posting -/

/-- The pipeline `p` posts the work request `r` as the one with the number `wr` of a request in the
slot `idx`. -/
structure Pipe.Posts (p : Pipe) (ctx : Context) (idx wr : ℕ) (r : Wr) : Prop where
  localAddr : r.localAddr = (ctx.clientData + p.localOff r.wid idx (wr / kvWrPerSend) +
    wr % kvWrPerSend * (p.size / 2)) % 2 ^ 64
  remoteAddr : r.remoteAddr = (ctx.remoteSegVa + idx * (p.size * kvSendsPerReq) +
    wr / kvWrPerSend * p.size + wr % kvWrPerSend * (p.size / 2)) % 2 ^ 64
  len : r.len = p.size / 2 % 2 ^ 32
  read : r.read = decide (p.op = .get)

/-- The work requests that the pipeline `p` posts are as the setting demands. -/
def Pipe.Covered (p : Pipe) (B : Setup) (ctx : Context) : Prop :=
  ∀ (r : Wr) (idx wr : ℕ), r.wid < B.n → idx < B.slots → wr < kvWrPerReq →
    p.Posts ctx idx wr r → B.good (.slot idx wr) r

theorem Ghost.setTok_setTok (g : Ghost) (ρ : WrId) (x y : TokenState) :
    (g.setTok ρ x).setTok ρ y = g.setTok ρ y := by
  simp [Ghost.setTok]

theorem Ghost.setTok_undo {g : Ghost} {ρ : WrId} (h : g.tok ρ = .idle) (x : TokenState) :
    (g.setTok ρ x).setTok ρ .idle = g := by
  rw [Ghost.setTok_setTok]
  simp only [Ghost.setTok, ← h, Function.update_eq_self]

/-- The request in the slot `idx` has been rolled back: the slot is empty, and what is not of this
slot is as before. -/
structure RolledBack (idx : ℕ) (m m' : Worker) : Prop extends OutsideSlot idx m m' where
  jettys : ∀ send, (m'.wrSlots idx).jetty send = none
  inactive : (m'.wrSlots idx).active = false

variable (B i) in
/-- The request in the slot `idx` has been given up; `fly` are the work requests under way of the
others. -/
def GivenUp (m₀ : Worker) (fly : Set (ℕ × ℕ)) (idx : ℕ) (m : Worker) (v : View) : Prop :=
  ∃ x : Worker × Set (ℕ × ℕ) × ℕ, RolledBack idx m₀ x.1 ∧
    Track B i (B.Healthy i) x.1 fly x.2.1 x.2.2 m v

theorem GivenUp.outside {m₁ : Worker} {m : Worker} {v : View} (h : GivenUp B i m₁ fly idx m v)
    (hout : OutsideSlot idx m₀ m₁) : GivenUp B i m₀ fly idx m v := by
  obtain ⟨x, hx, htrack⟩ := h
  exact ⟨x, ⟨hout.trans hx.toOutsideSlot, hx.jettys, hx.inactive⟩, htrack⟩

/-- The first `wr` work requests of the slot `idx`. -/
def firstWrs (idx wr : ℕ) : Set (ℕ × ℕ) := {a | a.1 = idx ∧ a.2 < wr}

theorem firstWrs_zero (idx : ℕ) : firstWrs idx 0 = ∅ := by
  ext a
  simp [firstWrs]

theorem firstWrs_succ (idx wr : ℕ) : firstWrs idx (wr + 1) = insert (idx, wr) (firstWrs idx wr) := by
  ext ⟨idx', wr'⟩
  simp only [firstWrs, Set.mem_ofPred_eq, Set.mem_insert_iff, Prod.mk.injEq]
  omega

theorem firstWrs_eq_pendingFrom (idx wr : ℕ) : firstWrs idx wr = pendingFrom idx wr 0 := by
  ext a
  simp [firstWrs, pendingFrom]

section Failure

variable (ctx : Context) (p : Pipe)

/-- A request can only be given up when something went wrong. -/
theorem giveUp_spec (hB : B.Sound) (hT : ¬ B.Healthy i) (hothers : ∀ a ∈ fly, a.1 ≠ idx)
    (hjs : ∀ send, (m₀.wrSlots idx).jetty send ≠ none → send * kvWrPerSend < wr)
    (hrest : ∀ wr' ≥ wr, (idx, wr') ∈ rest) :
    B.Triple i (fun m v _ => Track B i (B.Healthy i) m₀ (fly ∪ firstWrs idx wr) rest k m v)
      (giveUp ctx p idx wr)
      (fun r m v _ => (r = some (-1) ∧ ¬ B.Healthy i) ∧ GivenUp B i m₀ fly idx m v) := by
  have hroll : ∀ op timeoutMs, B.Triple i
      (fun m v _ => Track B i (B.Healthy i) m₀ (fly ∪ firstWrs idx wr) rest k m v)
      (rollbackOf op timeoutMs idx wr)
      (fun _ m v _ => ∃ x : Worker × Set (ℕ × ℕ), (OutsideSlot idx m₀ x.1 ∧
        ∀ send, (x.1.wrSlots idx).jetty send = none) ∧
        Track B i (B.Healthy i) x.1 fly x.2 k m v) := by
    intro op timeoutMs
    rw [firstWrs_eq_pendingFrom]
    cases op <;> exact rollback_spec hothers hB hT _ timeoutMs hjs hrest
  unfold giveUp
  refine Setup.Triple.bind (hroll p.op ctx.args.timeoutMs) fun _ => ?_
  refine Setup.Triple.of_exists fun x hx => ?_
  obtain ⟨hout, hj⟩ := hx
  refine Track.modify_bind (fun _ _ _ => rfl)
    (fun g hg => hg.setSlot (fun _ => rfl) fun _ => rfl) ?_
  refine Setup.Triple.pure fun m v n h => ⟨⟨rfl, hT⟩, (deactivate idx x.1, x.2, k), ⟨?_, ?_, ?_⟩, h⟩
  · show OutsideSlot idx m₀ (deactivate idx x.1)
    exact hout.setSlot _
  · intro send
    rw [deactivate, wrSlots_setSlot_self]
    exact hj send
  · rw [deactivate, wrSlots_setSlot_self]

theorem returnLane_spec {l : Lane} (hj : (m₀.wrSlots idx).jetty (wr / kvWrPerSend) = some l)
    (hjs : ∀ send, (m₀.wrSlots idx).jetty send ≠ none → send * kvWrPerSend ≤ wr)
    (hrest : ∀ wr' ≥ wr, (idx, wr') ∈ rest) :
    B.Triple i (fun m v _ => Track B i T m₀ fly rest k m v) (returnLane idx wr (some l))
      (fun _ m v _ => ∃ m₁, (OutsideSlot idx m₀ m₁ ∧
        ∀ send, (m₁.wrSlots idx).jetty send ≠ none → send * kvWrPerSend < wr) ∧
        Track B i T m₁ fly rest k m v) := by
  unfold returnLane
  refine Setup.Triple.ite (fun heven => ?_) fun hodd => ?_
  · rw [← hj]
    refine Setup.Triple.bind (release_track fun wr' hwr' => hrest wr' ?_) fun _ =>
      Shut.clear.post fun _ m v n _ h => ⟨setJetty idx (wr / kvWrPerSend) none m₀,
        ⟨(OutsideSlot.refl _ _).setSlot _, fun send hs => ?_⟩, h⟩
    · simp only [kvWrPerSend] at *
      omega
    · rw [setJetty, wrSlots_setSlot_self] at hs
      have hne : send ≠ wr / kvWrPerSend := by
        rintro rfl
        exact hs (Function.update_self _ _ _)
      simp only [Function.update_of_ne hne] at hs
      have := hjs send hs
      unfold kvWrPerSend at *
      omega
  · refine Setup.Triple.pure fun m v n h => ⟨m₀, ⟨.refl _ _, fun send hs => ?_⟩, h⟩
    have := hjs send hs
    unfold kvWrPerSend at *
    omega

end Failure

/-- The worker after the work request `wr` has been posted with the token `t`. -/
def Worker.afterPost (idx wr t ns postNs : ℕ) (m : Worker) : Worker :=
  markPosted idx wr t (recordPost ns (stamp idx wr postNs m))

/-- Posting on the lane of the send. -/
theorem postOnLane_spec (ctx : Context) (p : Pipe) (hB : B.Sound) (hcov : p.Covered B ctx)
    (reqSeq : ℕ) (src dst : ℤ) {l : Lane} (hid : m₀.id = i) (hidx : idx < B.slots)
    (hwr : wr < kvWrPerReq) (hj : (m₀.wrSlots idx).jetty (wr / kvWrPerSend) = some l)
    (hjs : ∀ send, (m₀.wrSlots idx).jetty send ≠ none → send * kvWrPerSend ≤ wr)
    (hothers : ∀ a ∈ fly, a.1 ≠ idx) (hrest : ∀ wr' ≥ wr, (idx, wr') ∈ rest)
    (hall : (fly ∪ firstWrs idx wr)ᶜ ⊆ rest) :
    B.Triple i (fun m v _ => Track B i (B.Healthy i) m₀ (fly ∪ firstWrs idx wr) rest k m v)
      (postOnLane ctx p idx reqSeq wr src dst (some l))
      (fun r => r.elim
        (fun m v _ => ∃ x : ℕ × ℕ × ℕ, Track B i (B.Healthy i)
          (afterPost idx wr x.1 x.2.1 x.2.2 m₀) (insert (idx, wr) (fly ∪ firstWrs idx wr))
          (rest \ {(idx, wr)}) (k + 1) m v)
        fun rc m v _ => (rc = -1 ∧ ¬ B.Healthy i) ∧ GivenUp B i m₀ fly idx m v) := by
  have hvalid : (WrId.slot idx wr).Valid := ⟨hidx.trans_le hB.slots, hwr⟩
  -- giving up from here on, with the memory changed in the slot only
  have hgive : ∀ {m₁ : Worker}, OutsideSlot idx m₀ m₁ → (m₁.wrSlots idx).jetty =
      (m₀.wrSlots idx).jetty → ¬ B.Healthy i →
      B.Triple i (fun m v _ => Track B i (B.Healthy i) m₁ (fly ∪ firstWrs idx wr) rest k m v)
        (returnLane idx wr (some l) >>= fun _ => giveUp ctx p idx wr)
        (fun r => r.elim
          (fun m v _ => ∃ x : ℕ × ℕ × ℕ, Track B i (B.Healthy i)
            (afterPost idx wr x.1 x.2.1 x.2.2 m₀) (insert (idx, wr) (fly ∪ firstWrs idx wr))
            (rest \ {(idx, wr)}) (k + 1) m v)
          fun rc m v _ => (rc = -1 ∧ ¬ B.Healthy i) ∧ GivenUp B i m₀ fly idx m v) := by
    intro m₁ hout hsame hT
    refine Setup.Triple.bind (returnLane_spec (by rw [hsame]; exact hj)
      (by rw [hsame]; exact hjs) hrest) fun _ => ?_
    refine Setup.Triple.of_exists fun m₂ ⟨hout₂, hjs₂⟩ => ?_
    refine (giveUp_spec ctx p hB hT hothers hjs₂ hrest).post ?_
    rintro r m v n - ⟨⟨rfl, -⟩, h⟩
    exact ⟨⟨rfl, hT⟩, h.outside (hout.trans hout₂)⟩
  refine Setup.Triple.of_exists fun g hg => ?_
  have hidle : g.tok (.slot idx wr) = .idle := hg.rest idx wr (hrest wr le_rfl)
  unfold postOnLane
  refine Setup.Triple.bind (postEvent_spec hB hid hidle hvalid (hg.ne_lost hall)) ?_
  rintro ⟨ue, token⟩
  dsimp only
  refine Setup.Triple.ite (fun h0 => ?_) fun hne => ?_
  · refine Setup.Triple.of_fact (p := B.taken ≠ []) ?_ fun htaken => ?_
    · rintro m v n - (⟨-, htaken, -⟩ | ⟨hne, -⟩)
      · exact htaken
      · exact absurd h0 hne
    refine Setup.Triple.pre (P := fun m v _ => Track B i (B.Healthy i) m₀
      (fly ∪ firstWrs idx wr) rest k m v) ?_ ?_
    · refine Track.say_bind (.inr htaken) (hgive (.refl _ _) rfl ?_)
      exact fun hh => htaken hh.1.2.2
    · rintro m v n - (⟨-, -, h⟩ | ⟨hne, -⟩)
      · exact ⟨g, hg, h⟩
      · exact absurd h0 hne
  refine Setup.Triple.of_fact (p := ue = userCtxOf i token ∧ token < 2 ^ 40) ?_ ?_
  · rintro m v n - (⟨h0, -⟩ | ⟨-, hctx, h⟩)
    · exact absurd h0 hne
    · exact ⟨hctx, (h.core.small_fresh (Ghost.setTok_self _ _ _)).2⟩
  rintro ⟨hctx, ht40⟩
  refine Setup.Triple.pre (P := fun m v _ => Near B i (B.Healthy i) m₀
    (g.setTok (.slot idx wr) (.fresh token)) m v) ?_ ?_
  rotate_left
  · rintro m v n - (⟨h0, -⟩ | ⟨-, -, h⟩)
    · exact absurd h0 hne
    · exact h
  refine Near.now_bind fun postNs => Near.modify_bind (fun _ _ _ => rfl) ?_
  refine Near.now_bind fun t0 => Near.get_bind fun ev look => ?_
  have hg : Tracks (stamp idx wr postNs m₀).wrSlots (fly ∪ firstWrs idx wr) rest k g :=
    hg.setSlot (fun _ => rfl) fun _ => rfl
  have hsame : ((stamp idx wr postNs m₀).wrSlots idx).jetty = (m₀.wrSlots idx).jetty := by
    rw [stamp, wrSlots_setSlot_self]
  refine Setup.Triple.bind (postRw_spec hB (ρ := .slot idx wr) (Ghost.setTok_self _ _ _)
    ((hg.lane idx (wr / kvWrPerSend)).trans (hsame ▸ hj)) hctx ?_ ?_) fun ok => ?_
  · -- the first work request comes when the slot is empty
    intro hfirst ρ hreq t
    have hwr0 : wr = 0 := of_decide_eq_true hfirst
    cases ρ with
    | sync half => cases hreq
    | slot idx' wr' =>
      obtain rfl : idx' = idx := Option.some.inj hreq
      by_cases hw : wr' = wr
      · subst hw
        rw [Ghost.setTok_self]
        constructor <;> intro h <;> cases h
      · rw [Ghost.setTok_of_ne _ _ (by simpa using hw), hg.rest idx' wr' (hrest wr' (by omega))]
        constructor <;> intro h <;> cases h
  · have hi : (i : ℕ) < 2 ^ 24 := by have := hB.workers; omega
    obtain ⟨hwid, -⟩ := Wr.wid_of_userCtx (r := ⟨l, _, _, _, _, _, ue, decide (p.op = .get)⟩) hctx hi
      ht40
    refine hcov _ idx wr (hwid.trans_lt i.2) hidx hwr ⟨?_, rfl, rfl, rfl⟩
    show (ctx.clientData + p.localOff m₀.id idx _ + _) % _ = (ctx.clientData + p.localOff _ idx _ + _) % _
    rw [hwid, hid]
  cases ok with
  | true =>
    refine Setup.Triple.pre (P := fun m v _ => Near B i (B.Healthy i) (stamp idx wr postNs m₀)
      { g.setTok (.slot idx wr) (.posted token) with posts := g.posts + 1 } m v) ?_ ?_
    · refine Near.now_bind fun t1 => Near.modify_bind (fun _ _ _ => rfl) ?_
      refine Near.modify_bind (fun _ _ _ => rfl) (Setup.Triple.pure fun m v n h => ?_)
      exact ⟨(token, sub64 t1 t0, postNs), _, hg.markPosted ht40, h⟩
    · rintro m v n - (⟨-, h⟩ | ⟨hok, -⟩)
      · rwa [Ghost.setTok_setTok] at h
      · cases hok
  | false =>
    refine Setup.Triple.of_fact (p := ¬ B.Healthy i) ?_ fun hT => ?_
    · rintro m v n - (⟨hok, -⟩ | ⟨-, -, hpost⟩)
      · cases hok
      · intro hh
        rw [hh.1.1] at hpost
        cases hpost
    refine Setup.Triple.pre (P := fun m v _ => Near B i (B.Healthy i) (stamp idx wr postNs m₀)
      (g.setTok (.slot idx wr) (.fresh token)) m v) ?_ ?_
    · refine Near.now_bind fun t1 => Near.modify_bind (fun _ _ _ => rfl)
        (Near.say_bind (.inl trivial) ?_)
      refine Setup.Triple.bind (abortEvent_fresh hB (ρ := .slot idx wr) (Ghost.setTok_self _ _ _))
        fun _ => ?_
      rw [Ghost.setTok_undo hidle]
      have hstamp : OutsideSlot idx m₀ (stamp idx wr postNs m₀) :=
        (OutsideSlot.refl _ _).setSlot _
      have hout : OutsideSlot idx m₀ (recordPost (sub64 t1 t0) (stamp idx wr postNs m₀)) :=
        ⟨hstamp.slots, rfl, rfl, rfl⟩
      exact (hgive hout hsame hT).pre fun m v n _ h => ⟨g, hg, h⟩
    · rintro m v n - (⟨hok, -⟩ | ⟨-, h, -⟩)
      · cases hok
      · exact h

theorem chooseChips_spec (ctx : Context) :
    B.Triple i (fun m v _ => Track B i T m₀ fly rest k m v) (chooseChips ctx send)
      (fun _ m v _ => ∃ r : ℕ × ℕ, Track B i T { m₀ with rng := r.1, reads := r.2 } fly rest k m v) := by
  unfold chooseChips
  refine Setup.Triple.get_bind fun m₁ => ?_
  dsimp only
  refine Setup.Triple.set_bind (fun m v _ => ∃ r : ℕ × ℕ,
    Track B i T { m₀ with rng := r.1, reads := r.2 } fly rest k m v) ?_
    (Setup.Triple.pure fun m v n h => h)
  rintro m v n ⟨rfl, g, hg, ⟨ev, look, rfl⟩, hcore⟩
  exact ⟨(_, m₀.reads + 1), g, hg, ⟨ev, look, rfl⟩, hcore⟩

/-- A slot of whose request the first `wr` work requests have been posted. -/
structure HalfPosted (wr : ℕ) (s : WrSlot) : Prop where
  doneCnt : s.doneCnt = 0
  done : ∀ wr' < wr, s.done wr' = false
  free : ∀ send, (wr + 1) / kvWrPerSend ≤ send → s.jetty send = none
  held : wr % kvWrPerSend = 1 → ∃ l, s.jetty (wr / kvWrPerSend) = some l

theorem HalfPosted.jettys {s : WrSlot} (h : HalfPosted wr s) {send : ℕ} (hs : s.jetty send ≠ none) :
    send * kvWrPerSend < wr := by
  by_contra hge
  refine hs (h.free send ?_)
  unfold kvWrPerSend at *
  omega

/-- The slot after the work request `wr` has been posted on the lane `l`. -/
def WrSlot.afterPost (wr t postNs : ℕ) (l : Lane) (s : WrSlot) : WrSlot :=
  { s with
    jetty := Function.update s.jetty (wr / kvWrPerSend) (some l)
    wrPostNs := Function.update s.wrPostNs wr postNs
    eventToken := Function.update s.eventToken wr t
    done := Function.update s.done wr false }

theorem HalfPosted.next {s : WrSlot} (h : HalfPosted wr s) (t postNs : ℕ) (l : Lane) :
    HalfPosted (wr + 1) (s.afterPost wr t postNs l) where
  doneCnt := h.doneCnt
  done wr' hlt := by
    by_cases hw : wr' = wr
    · subst hw
      exact Function.update_self _ _ _
    · show Function.update s.done wr false wr' = false
      rw [Function.update_of_ne hw]
      exact h.done wr' (by omega)
  free send hs := by
    unfold kvWrPerSend at hs
    show Function.update s.jetty (wr / 2) (some l) send = none
    rw [Function.update_of_ne (by omega)]
    refine h.free send ?_
    unfold kvWrPerSend
    omega
  held hodd := by
    have hsame : (wr + 1) / kvWrPerSend = wr / kvWrPerSend := by
      unfold kvWrPerSend at *
      omega
    rw [hsame]
    exact ⟨l, Function.update_self _ _ _⟩

/-- The worker `m` while it posts a request: the slot `idx` is `s`, and the choices of chips have left
`rng` as the random state and the number of readings. -/
def Worker.posting (idx : ℕ) (s : WrSlot) (rng : ℕ × ℕ) (h : Hist.KvHist) (m : Worker) : Worker :=
  { m with
    wrSlots := Function.update m.wrSlots idx s
    rng := rng.1
    reads := rng.2
    histPost := h }

@[simp] theorem wrSlots_posting_self (idx : ℕ) (s : WrSlot) (rng : ℕ × ℕ) (h : Hist.KvHist)
    (m : Worker) : (posting idx s rng h m).wrSlots idx = s := Function.update_self _ _ _

theorem setSlot_posting (idx : ℕ) (f : WrSlot → WrSlot) (s : WrSlot) (rng : ℕ × ℕ) (h : Hist.KvHist)
    (m : Worker) : setSlot idx f (posting idx s rng h m) = posting idx (f s) rng h m := by
  simp [setSlot, posting]

theorem afterPost_posting {s : WrSlot} {l : Lane} (hj : s.jetty (wr / kvWrPerSend) = some l)
    (idx t ns postNs : ℕ) (rng : ℕ × ℕ) (h : Hist.KvHist) (m : Worker) :
    afterPost idx wr t ns postNs (posting idx s rng h m) =
      posting idx (s.afterPost wr t postNs l) rng (Hist.kvHistRecord h ns) m := by
  have hsame : Function.update s.jetty (wr / kvWrPerSend) (some l) = s.jetty := by
    rw [← hj, Function.update_eq_self]
  rw [Worker.afterPost, WrSlot.afterPost, stamp, setSlot_posting, hsame]
  exact setSlot_posting idx _ _ rng (Hist.kvHistRecord h ns) m

variable (B i) in
/-- The first `wr` work requests of the slot `idx` have been posted, on top of those that were under
way before. -/
def Posting (m₀ : Worker) (fly rest : Set (ℕ × ℕ)) (k idx wr : ℕ) (m : Worker) (v : View) : Prop :=
  ∃ x : WrSlot × (ℕ × ℕ) × Hist.KvHist, HalfPosted wr x.1 ∧
    Track B i (B.Healthy i) (posting idx x.1 x.2.1 x.2.2 m₀) (fly ∪ firstWrs idx wr)
      (rest \ firstWrs idx wr) (k + wr) m v

theorem OutsideSlot.posting (idx : ℕ) (s : WrSlot) (rng : ℕ × ℕ) (h : Hist.KvHist) (m : Worker) :
    OutsideSlot idx m (posting idx s rng h m) :=
  ⟨fun _ hne => Function.update_of_ne hne _ _, rfl, rfl, rfl⟩

/-- While a request is posted, every work request is under way or done with. -/
theorem compl_subset_posting (hall : flyᶜ ⊆ rest) (idx wr : ℕ) :
    (fly ∪ firstWrs idx wr)ᶜ ⊆ rest \ firstWrs idx wr := by
  intro a ha
  rw [Set.mem_compl_iff, Set.mem_union, not_or] at ha
  exact ⟨hall ha.1, ha.2⟩

section Step

variable (ctx : Context) (p : Pipe) (reqSeq : ℕ)

/-- The second half of `postWr`, with the lane `l` in the slot. -/
theorem postOnLane_posting (hB : B.Sound) (hcov : p.Covered B ctx) (hid : m₀.id = i)
    (hidx : idx < B.slots) (hwr : wr < kvWrPerReq) (hrest : ∀ wr, (idx, wr) ∈ rest)
    (hothers : ∀ a ∈ fly, a.1 ≠ idx) (hall : flyᶜ ⊆ rest) {s : WrSlot}
    {l : Lane} (hj : s.jetty (wr / kvWrPerSend) = some l)
    (hjs : ∀ send, s.jetty send ≠ none → send * kvWrPerSend ≤ wr)
    (hs : ∀ t postNs, HalfPosted (wr + 1) (s.afterPost wr t postNs l)) (rng : ℕ × ℕ) (h : Hist.KvHist)
    (src dst : ℤ) :
    B.Triple i (fun m v _ => Track B i (B.Healthy i) (posting idx s rng h m₀)
        (fly ∪ firstWrs idx wr) (rest \ firstWrs idx wr) (k + wr) m v)
      (postOnLane ctx p idx reqSeq wr src dst (some l))
      (fun r => r.elim (fun m v _ => Posting B i m₀ fly rest k idx (wr + 1) m v)
        fun rc m v _ => (rc = -1 ∧ ¬ B.Healthy i) ∧ GivenUp B i m₀ fly idx m v) := by
  have hid : (posting idx s rng h m₀).id = i := hid
  refine (postOnLane_spec ctx p hB hcov reqSeq src dst hid hidx hwr ?_ ?_ hothers ?_
    (compl_subset_posting hall idx wr)).post ?_
  · rw [wrSlots_posting_self]
    exact hj
  · rw [wrSlots_posting_self]
    exact hjs
  · intro wr' hge
    exact ⟨hrest wr', fun hmem => absurd hmem.2 (by simpa using hge)⟩
  · rintro (_ | rc) m v n - hr
    · obtain ⟨⟨t, ns, postNs⟩, htrack⟩ := hr
      refine ⟨(_, rng, Hist.kvHistRecord h ns), hs t postNs, ?_⟩
      rw [afterPost_posting hj] at htrack
      have hrest : (rest \ firstWrs idx wr) \ {(idx, wr)} = rest \ firstWrs idx (wr + 1) := by
        rw [firstWrs_succ, Set.sdiff_sdiff, Set.union_singleton]
      rwa [hrest, ← Set.union_insert, ← firstWrs_succ] at htrack
    · exact ⟨hr.1, hr.2.outside (.posting _ _ _ _ _)⟩

theorem postWr_spec (hB : B.Sound) (hcov : p.Covered B ctx) (hid : m₀.id = i)
    (hidx : idx < B.slots) (hwr : wr < kvWrPerReq) (hrest : ∀ wr, (idx, wr) ∈ rest)
    (hothers : ∀ a ∈ fly, a.1 ≠ idx) (hall : flyᶜ ⊆ rest) :
    B.Triple i (fun m v _ => Posting B i m₀ fly rest k idx wr m v) (postWr ctx p idx reqSeq wr)
      (fun r => r.elim (fun m v _ => Posting B i m₀ fly rest k idx (wr + 1) m v)
        fun rc m v _ => (rc = -1 ∧ ¬ B.Healthy i) ∧ GivenUp B i m₀ fly idx m v) := by
  refine Setup.Triple.of_exists fun ⟨s, rng, h⟩ hs => ?_
  unfold postWr
  refine Setup.Triple.bind (chooseChips_spec ctx) fun chips => Setup.Triple.of_some fun rng' => ?_
  change B.Triple i (fun m v _ => Track B i (B.Healthy i) (posting idx s rng' h m₀) _ _ _ m v) _ _
  dsimp only
  refine Setup.Triple.ite (fun heven => ?_) fun hodd => ?_
  · refine Setup.Triple.of_exists fun g hg => ?_
    have hnone : g.lane (.slot idx (wr / kvWrPerSend)) = none := by
      rw [hg.lane, wrSlots_posting_self]
      refine hs.free _ ?_
      unfold kvWrPerSend at *
      omega
    have hpiped : (SendId.slot idx (wr / kvWrPerSend)).Piped B.slots := by
      refine ⟨hidx, ?_⟩
      unfold kvWrPerSend kvSendsPerReq kvWrPerReq at *
      omega
    refine Setup.Triple.bind (acquireSendLane_spec hB hnone (hB.healthy_of_roomy i)
      fun _ => hpiped) ?_
    rintro (_ | l)
    · refine Setup.Triple.of_fact (p := ¬ B.Healthy i) ?_ fun hT => ?_
      · rintro m v n - (⟨-, -, hlanes, hroomy⟩ | ⟨l, hl, -⟩)
        · rintro ⟨-, hok | hr⟩
          · rw [hlanes] at hok
            cases hok
          · exact hroomy hr
        · cases hl
      refine Setup.Triple.pre (P := fun m v _ => Track B i (B.Healthy i) (posting idx s rng' h m₀)
        (fly ∪ firstWrs idx wr) (rest \ firstWrs idx wr) (k + wr) m v) ?_ ?_
      · refine Track.say_bind (.inl trivial) ((giveUp_spec ctx p hB hT hothers ?_ ?_).post ?_)
        · intro send hj
          rw [wrSlots_posting_self] at hj
          exact hs.jettys hj
        · intro wr' hge
          exact ⟨hrest wr', fun hmem => absurd hmem.2 (by simpa using hge)⟩
        · rintro r m v n - ⟨⟨rfl, -⟩, h⟩
          exact ⟨⟨rfl, hT⟩, h.outside (.posting _ _ _ _ _)⟩
      · rintro m v n - (⟨-, h, -⟩ | ⟨l, hl, -⟩)
        · exact ⟨g, hg, h⟩
        · cases hl
    · refine Setup.Triple.pre (P := fun m v _ => Near B i (B.Healthy i) (posting idx s rng' h m₀)
        (g.setLane (.slot idx (wr / kvWrPerSend)) (some l)) m v) ?_ ?_
      · refine Near.modify_bind (fun _ _ _ => rfl) ?_
        have hg' := hg.setJetty idx (wr / kvWrPerSend) (some l)
        rw [Worker.setJetty, setSlot_posting] at hg' ⊢
        refine (postOnLane_posting ctx p reqSeq hB hcov hid hidx hwr hrest hothers hall
          (Function.update_self _ _ _) (fun send hj => ?_) (fun t postNs => ?_) rng' h chips.1
          chips.2).pre fun m v n _ hn => ⟨_, hg', hn⟩
        · by_cases hsend : send = wr / kvWrPerSend
          · rw [hsend]
            exact Nat.div_mul_le_self wr kvWrPerSend
          · simp only [Function.update_of_ne hsend] at hj
            exact (hs.jettys hj).le
        · simpa [WrSlot.afterPost] using hs.next t postNs l
      · rintro m v n - (⟨hl, -⟩ | ⟨l', hl, h⟩)
        · cases hl
        · cases hl
          exact h
  · obtain ⟨l, hl⟩ := hs.held (by unfold kvWrPerSend at *; omega)
    refine Track.get_bind fun ev look => ?_
    change B.Triple i _ (postOnLane ctx p idx reqSeq wr chips.1 chips.2
      (((posting idx s rng' h m₀).wrSlots idx).jetty (wr / kvWrPerSend))) _
    rw [wrSlots_posting_self, hl]
    exact postOnLane_posting ctx p reqSeq hB hcov hid hidx hwr hrest hothers hall hl
      (fun send hj => (hs.jettys hj).le) (fun t postNs => hs.next t postNs l) rng' h chips.1 chips.2

/-- **Posting a request**: all of its work requests are under way, or something went wrong and the
request has been rolled back. -/
theorem postOne_spec (hB : B.Sound) (hcov : p.Covered B ctx) (hid : m₀.id = i)
    (hidx : idx < B.slots) (hrest : ∀ wr, (idx, wr) ∈ rest)
    (hothers : ∀ a ∈ fly, a.1 ≠ idx) (hall : flyᶜ ⊆ rest)
    (hfree : ∀ send, (m₀.wrSlots idx).jetty send = none)
    (hwatch : ∀ m v, Track B i (B.Healthy i) m₀ fly rest k m v →
      B.watch i (.call idx reqSeq) m v) :
    B.Triple i (fun m v _ => Track B i (B.Healthy i) m₀ fly rest k m v) (postOne ctx p idx reqSeq)
      (fun rc m v _ =>
        (rc = 0 ∧ ∃ x : WrSlot × (ℕ × ℕ) × Hist.KvHist, HalfPosted kvWrPerReq x.1 ∧
          Track B i (B.Healthy i)
            { posting idx x.1 x.2.1 x.2.2 m₀ with activeSlots := m₀.activeSlots ++ [idx] }
            (fly ∪ firstWrs idx kvWrPerReq) (rest \ firstWrs idx kvWrPerReq) (k + kvWrPerReq) m v) ∨
        ((rc = -1 ∧ ¬ B.Healthy i) ∧ GivenUp B i m₀ fly idx m v)) := by
  unfold postOne
  refine Track.visit_bind hwatch ?_
  refine Track.modify_bind (fun _ _ _ => rfl)
    (fun g hg => hg.setSlot (fun _ => rfl) fun _ => rfl) (Track.now_bind fun t => ?_)
  refine Track.modify_bind (fun _ _ _ => rfl)
    (fun g hg => hg.setSlot (fun _ => rfl) fun _ => rfl) ?_
  refine Setup.Triple.bind ((Setup.Triple.search
    (fun wr m v _ => Posting B i m₀ fly rest k idx wr m v)
    (fun rc m v _ => (rc = -1 ∧ ¬ B.Healthy i) ∧ GivenUp B i m₀ fly idx m v)
    (fun wr _ hwr => postWr_spec ctx p reqSeq hB hcov hid hidx (by simpa using hwr) hrest hothers
      hall)).pre ?_) ?_
  · intro m v n _ h
    refine ⟨({ m₀.wrSlots idx with reqSeq := reqSeq, doneCnt := 0, active := true, postNs := t },
      (m₀.rng, m₀.reads), m₀.histPost), ⟨rfl, ?_, fun send _ => hfree send, ?_⟩, ?_⟩
    · intro wr' hlt
      exact absurd hlt (Nat.not_lt_zero _)
    · intro hodd
      cases hodd
    · rw [firstWrs_zero, Set.union_empty, Set.sdiff_empty]
      simpa [setSlot, posting] using h
  · rintro (_ | rc)
    · refine Setup.Triple.of_exists fun x hx => ?_
      rw [Nat.zero_add] at hx
      refine Track.modify_bind (fun _ _ _ => rfl) (fun g hg => hg) ?_
      refine Setup.Triple.pure fun m v n h => .inl ⟨rfl, x, hx, ?_⟩
      rwa [Nat.zero_add] at h
    · exact Setup.Triple.pure fun m v n h => .inr h

end Step

end Requests

end KvBench.Bench
