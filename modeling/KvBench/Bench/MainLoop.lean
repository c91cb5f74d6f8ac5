import KvBench.Bench.Books

/-!
# The main loop of the pipelines

The harvest and the sending loop keep the books. The main loop ends: its deadline passes, and every
round of it is finite, since the harvest goes through the active slots once and each request that is
sent takes a free slot.
-/

namespace KvBench.Bench

open KvBench.Conc Worker

section Known

variable {B : Setup} {i : Fin B.n} {T : Prop} {size p₀ : ℕ} {base : Worker} {C C' : Worker → Prop}
  {α : Type} {R : α → Worker → View → ℕ → Prop}

variable (B i T) in
/-- The state of a pipeline between two requests. The worker started with the memory `base` and had
posted `p₀` work requests before; its memory now satisfies `C`. -/
def Known (size : ℕ) (base : Worker) (p₀ : ℕ) (C : Worker → Prop) (m : Worker) (v : View) : Prop :=
  ∃ x : Worker × ℕ, (Slots B.slots i x.1 ∧ Ledger size base x.2 x.1 ∧ C x.1) ∧
    Track B i T x.1 (flyOf x.1) (flyOf x.1)ᶜ
      (p₀ + (x.2 + x.1.activeSlots.length) * kvWrPerReq) m v

theorem Known.steady (size : ℕ) (base : Worker) (p₀ : ℕ) (C : Worker → Prop) (m : Worker) :
    B.Steady i (Known B i T size base p₀ C m) :=
  Setup.Steady.exists fun _ => (Setup.Steady.const _).and (Track.steady _ _ _ _ m)

theorem Known.weaken {m : Worker} {v : View} (h : Known B i T size base p₀ C m v)
    (hC : ∀ m₁, SameBut m₁ m → C m₁ → C' m₁) : Known B i T size base p₀ C' m v := by
  obtain ⟨x, ⟨hs, hl, hx⟩, ht⟩ := h
  exact ⟨x, ⟨hs, hl, hC x.1 ht.mem hx⟩, ht⟩

theorem SameBut.activeSlots {m₀ m : Worker} (h : SameBut m₀ m) : m.activeSlots = m₀.activeSlots := by
  obtain ⟨ev, look, rfl⟩ := h
  rfl

theorem SameBut.faults {m₀ m : Worker} (h : SameBut m₀ m) : m.faults = m₀.faults := by
  obtain ⟨ev, look, rfl⟩ := h
  rfl

theorem SameBut.freeSlots {m₀ m : Worker} (h : SameBut m₀ m) : m.freeSlots = m₀.freeSlots := by
  obtain ⟨ev, look, rfl⟩ := h
  rfl

theorem SameBut.wrSlots {m₀ m : Worker} (h : SameBut m₀ m) : m.wrSlots = m₀.wrSlots := by
  obtain ⟨ev, look, rfl⟩ := h
  rfl

variable (B i T) in
/-- The same without the counters. -/
def Windowed (C : Worker → Prop) (m : Worker) (v : View) : Prop :=
  ∃ x : Worker × ℕ, (Slots B.slots i x.1 ∧ C x.1) ∧
    Track B i T x.1 (flyOf x.1) (flyOf x.1)ᶜ x.2 m v

theorem Known.windowed {m : Worker} {v : View} (h : Known B i T size base p₀ C m v) :
    Windowed B i T C m v := by
  obtain ⟨x, ⟨hs, -, hx⟩, ht⟩ := h
  exact ⟨(x.1, p₀ + (x.2 + x.1.activeSlots.length) * kvWrPerReq), ⟨hs, hx⟩, ht⟩

variable (B i) in
/-- What holds at the points of the main loop. -/
def AtPlace : Place → Worker → View → Prop
  | .head reqActive => Windowed B i (B.Healthy i) (·.activeSlots.length = reqActive)
  | .harvest pos reqActive =>
    Windowed B i (B.Healthy i) fun x => x.activeSlots.length = reqActive ∧ pos ≤ reqActive
  | .send reqActive => Windowed B i (B.Healthy i) (·.activeSlots.length = reqActive)
  | .noFreeSlot => fun _ _ => False
  | .call idx _ => fun m v => ∃ x : Worker × List ℕ × ℕ,
    (Slots B.slots i x.1 ∧ x.1.freeSlots = idx :: x.2.1) ∧
      Track B i (B.Healthy i) { x.1 with freeSlots := x.2.1 } (flyOf x.1) (flyOf x.1)ᶜ x.2.2 m v

/-- What a worker that leaves its pipeline has met, against the requests it leaves active: no fault
and none of them, a completion that failed and some, or a request that could not be posted and as
many as were active then. -/
inductive Exit : List Fault → List ℕ → Prop
  | drained : Exit [] []
  | probe {active} (h : active ≠ []) : Exit [.probe] active
  | post (active) : Exit [.post active.length] active

variable (B i) in
/-- The state in which a pipeline returns: if no request is active, nothing is under way. -/
def Stopped (m : Worker) (v : View) : Prop :=
  ∃ x : Worker × Set (ℕ × ℕ) × Set (ℕ × ℕ) × ℕ,
    ((x.1.activeSlots = [] → x.2.1 = ∅) ∧ Exit x.1.faults x.1.activeSlots) ∧
      Track B i False x.1 x.2.1 x.2.2.1 x.2.2.2 m v

variable (B i) in
/-- The state in which the main loop returns `-1`. -/
def Failed (m : Worker) (v : View) : Prop := Stopped B i m v ∧ m.faults ≠ []

end Known

section Loops

variable {B : Setup} {i : Fin B.n} {p₀ : ℕ} {base : Worker} {p : Pipe} {ctx : Context}
  {idx wr pos : ℕ} {A : List ℕ}

/-- What is assumed of a pipeline in the setting `B`. -/
structure Pipe.Fits (p : Pipe) (B : Setup) (ctx : Context) : Prop where
  slots : B.slots = slotCount ctx.args
  covered : p.Covered B ctx
  fatal : p.fatalRc (-1) = true
  watched : ∀ (i : Fin B.n) (place : Place) (m : Worker) (v : View), AtPlace B i place m v →
    B.watch i place m v

/-! ### Harvest -/

theorem harvestWr_known (hidx : idx ∈ A) (hwr : wr < kvWrPerReq) :
    B.Triple i (fun m v _ => Known B i (B.Healthy i) p.size base p₀ (·.activeSlots = A) m v)
      (harvestWr p idx wr)
      (fun r => r.elim
        (fun m v _ => Known B i (B.Healthy i) p.size base p₀ (·.activeSlots = A) m v)
        (fun _ m v _ => (B.mode i).cqesOk = false ∧ Failed B i m v)) := by
  refine Setup.Triple.of_exists fun ⟨m₁, fin⟩ ⟨hs, hl, hA⟩ => ?_
  have hmem : idx ∈ m₁.activeSlots := hA ▸ hidx
  have hfly : (m₁.wrSlots idx).done wr = false → (idx, wr) ∈ flyOf m₁ := fun h => ⟨hmem, hwr, h⟩
  refine (harvestWr_spec p hfly).post ?_
  rintro (_ | _) m v n - h
  · rcases h with h | ⟨hdone, ns, h⟩
    · exact ⟨(m₁, fin), ⟨hs, hl, hA⟩, h⟩
    · refine ⟨(recordWr ns (markDone idx wr m₁), fin),
        ⟨hs.markDone hmem hwr hdone ns, hl.markDone hs hmem wr ns, hA⟩, ?_⟩
      have hcompl : (flyOf m₁ \ {(idx, wr)})ᶜ = insert (idx, wr) (flyOf m₁)ᶜ := by
        ext a
        simp only [Set.mem_compl_iff, Set.mem_sdiff, Set.mem_singleton_iff, Set.mem_insert_iff]
        tauto
      rw [flyOf_markDone, hcompl]
      exact h
  · have hne : m₁.activeSlots ≠ [] := List.ne_nil_of_mem hmem
    refine ⟨h.1, ⟨(m₁.note .probe, _, _, _), ⟨fun hnil => absurd hnil hne, ?_⟩,
      h.2.tidy False.elim⟩, ?_⟩
    · show Exit (.probe :: m₁.faults) m₁.activeSlots
      rw [hs.faults]
      exact .probe hne
    · rw [h.2.mem.faults]
      exact List.cons_ne_nil _ _

/-- The books after a request is finished. -/
theorem Known.finish {T : Prop} {m m₁ : Worker} {v : View} {fin ns : ℕ} (hs : Slots B.slots i m₁)
    (hl : Ledger p.size base fin m₁) (hpos : m₁.activeSlots[pos]? = some idx)
    (hcnt : kvWrPerReq ≤ (m₁.wrSlots idx).doneCnt)
    (h : Track B i T (finished p.size idx pos ns m₁) (flyOf m₁) (flyOf m₁)ᶜ
      (p₀ + (fin + m₁.activeSlots.length) * kvWrPerReq) m v) :
    Known B i T p.size base p₀
      (fun m₂ => m₂.activeSlots.length + 1 = m₁.activeSlots.length) m v := by
  have hret := finished_retired hs hpos p.size ns
  obtain ⟨hall, hdone⟩ := hs.all_done hret.mem hcnt
  refine ⟨(finished p.size idx pos ns m₁, fin + 1), ⟨hs.retire hret, ?_, hret.length.symm⟩, ?_⟩
  · refine hl.retire hs hret (k := 0) ?_ rfl rfl rfl (Grown.one _ ns) (Grown.refl _)
    omega
  · have hfly : flyOf (finished p.size idx pos ns m₁) = flyOf m₁ := by
      rw [hret.flyOf hs]
      refine Set.ext fun ⟨idx', wr'⟩ => ⟨fun ha => ha.1, fun ha => ⟨ha, ?_⟩⟩
      rintro rfl
      have := ha.2.2
      rw [hdone wr' ha.2.1] at this
      cases this
    have hlen : fin + 1 + (finished p.size idx pos ns m₁).activeSlots.length =
        fin + m₁.activeSlots.length := by
      have := hret.length
      omega
    rw [hfly, hlen]
    exact h

variable (B i base p₀ p) in
/-- Between two requests, with the local variables `l`. -/
def Between (l : Locals) (m : Worker) (v : View) : Prop :=
  Known B i (B.Healthy i) p.size base p₀ (·.activeSlots.length = l.reqActive) m v ∧
    l.nextReqNs < 2 ^ 64

variable (B i base p₀ p) in
/-- The outcome of a loop of the pipeline: it goes on, or something went wrong. -/
def Outcome (r : Option Locals) (m : Worker) (v : View) : Prop :=
  r.elim (¬ B.Healthy i ∧ Failed B i m v) fun l => Between B i p₀ base p l m v

theorem Between.steady (l : Locals) (m : Worker) : B.Steady i (Between B i p₀ base p l m) :=
  (Known.steady _ _ _ _ m).and (.const _)

theorem harvestRound_spec (hp : p.Fits B ctx) (kl : ℕ × Locals) (m₀ : Worker)
    (hnext : kl.2.nextReqNs < 2 ^ 64) (hpos : kl.1 ≤ kl.2.reqActive)
    (hlen₀ : m₀.activeSlots.length = kl.2.reqActive) :
    B.Triple i (fun m v _ => Known B i (B.Healthy i) p.size base p₀
        (·.activeSlots = m₀.activeSlots) m v)
      (harvestRound p kl)
      (Sum.elim
        (fun kl' m v _ => (Between B i p₀ base p kl'.2 m v ∧ kl'.1 ≤ kl'.2.reqActive) ∧
          m.activeSlots.length - kl'.1 < m₀.activeSlots.length - kl.1)
        (fun r m v _ => Outcome B i p₀ base p r m v)) := by
  unfold harvestRound
  refine Setup.Triple.bind (visit_spec (Known.steady _ _ _ _) fun m v h => ?_) fun _ => ?_
  · have hat : Known B i (B.Healthy i) p.size base p₀
        (fun x => x.activeSlots.length = kl.2.reqActive ∧ kl.1 ≤ kl.2.reqActive) m v :=
      h.weaken fun m₁ _ hA => ⟨(congrArg List.length hA).trans hlen₀, hpos⟩
    exact hp.watched i _ m v hat.windowed
  refine Setup.Triple.of_exists fun x hx => Track.get_bind fun ev look => ?_
  have hA : x.1.activeSlots = m₀.activeSlots := hx.2.2
  dsimp only
  rcases hat : x.1.activeSlots[kl.1]? with _ | idx
  · refine Setup.Triple.pure fun m v n h => ⟨⟨x, ⟨hx.1, hx.2.1, ?_⟩, h⟩, hnext⟩
    exact (congrArg List.length hA).trans hlen₀
  rw [hA] at hat
  have hidx : idx ∈ m₀.activeSlots := List.mem_of_getElem? hat
  have hlt : kl.1 < m₀.activeSlots.length := (List.getElem?_eq_some_iff.1 hat).1
  have hharvest : B.Triple i _ (Proc.search (harvestWr p idx) 0 kvWrPerReq) _ :=
    Setup.Triple.search
    (fun _ m v _ => Known B i (B.Healthy i) p.size base p₀ (·.activeSlots = m₀.activeSlots) m v)
    (fun _ m v _ => (B.mode i).cqesOk = false ∧ Failed B i m v)
    (fun wr _ hwr => harvestWr_known hidx (by simpa using hwr))
  refine Track.now_bind fun t0 => Setup.Triple.bind (hharvest.pre fun m v n _ h => ⟨x, hx, h⟩) ?_
  rintro (_ | _)
  · refine Setup.Triple.bind (now_any (Φ := Known B i (B.Healthy i) p.size base p₀
      (·.activeSlots = m₀.activeSlots)) (Known.steady _ _ _ _)) fun t1 => ?_
    refine Setup.Triple.of_exists fun ⟨m₁, fin⟩ ⟨hs, hl, hA⟩ => Track.get_bind fun ev look => ?_
    have hA : m₁.activeSlots = m₀.activeSlots := hA
    have hlen₁ : m₁.activeSlots.length = kl.2.reqActive := (congrArg List.length hA).trans hlen₀
    dsimp only
    refine Setup.Triple.ite (fun hcnt => ?_) fun hcnt => ?_
    · refine Setup.Triple.pure fun m v n h =>
        ⟨⟨⟨⟨(m₁, fin), ⟨hs, hl, hlen₁⟩, h⟩, hnext⟩, ?_⟩, ?_⟩
      · show kl.1 + 1 ≤ kl.2.reqActive
        omega
      · rw [h.mem.activeSlots, hA]
        show m₀.activeSlots.length - (kl.1 + 1) < _
        omega
    · have hcnt : kvWrPerReq ≤ (m₁.wrSlots idx).doneCnt := Nat.le_of_not_lt hcnt
      have hmem : idx ∈ m₁.activeSlots := hA ▸ hidx
      refine Setup.Triple.bind (finishReq_spec p kl.1 ?_) fun _ => ?_
      · intro wr hfly
        have hdone := (hs.all_done hmem hcnt).2 wr hfly.2.1
        rw [hfly.2.2] at hdone
        cases hdone
      · refine Setup.Triple.pure ?_
        rintro m v n ⟨ns, h⟩
        obtain ⟨y, hy, hyt⟩ := Known.finish hs hl (hA ▸ hat) hcnt h
        have hlen := hy.2.2
        rw [hlen₁] at hlen
        refine ⟨⟨⟨⟨y, ⟨hy.1, hy.2.1, ?_⟩, hyt⟩, hnext⟩, ?_⟩, ?_⟩
        · show y.1.activeSlots.length = kl.2.reqActive - 1
          omega
        · show kl.1 ≤ kl.2.reqActive - 1
          omega
        · rw [hyt.mem.activeSlots]
          show y.1.activeSlots.length - kl.1 < _
          omega
  · refine Setup.Triple.pure ?_
    rintro m v n ⟨hc, hb⟩
    refine ⟨?_, hb⟩
    rintro ⟨⟨-, hok, -⟩, -⟩
    rw [hc] at hok
    cases hok

theorem harvest_spec (hp : p.Fits B ctx) (l : Locals) :
    B.Triple i (fun m v _ => Between B i p₀ base p l m v) (Proc.loop (harvestRound p) (0, l))
      (fun r m v _ => Outcome B i p₀ base p r m v) := by
  refine (Setup.Triple.loop (fun kl m v _ => Between B i p₀ base p kl.2 m v ∧
    kl.1 ≤ kl.2.reqActive) (fun kl m _ => m.activeSlots.length - kl.1) (fun kl m₀ n₀ => ?_)
    (0, l)).pre fun m v n _ h => ⟨h, Nat.zero_le _⟩
  refine Setup.Triple.of_fact (p := (kl.2.nextReqNs < 2 ^ 64 ∧ kl.1 ≤ kl.2.reqActive) ∧
    m₀.activeSlots.length = kl.2.reqActive) ?_ ?_
  · rintro m v n - ⟨rfl, -, ⟨⟨x, ⟨-, -, hlen⟩, ht⟩, hnext⟩, hpos⟩
    exact ⟨⟨hnext, hpos⟩, (congrArg List.length ht.mem.activeSlots).trans hlen⟩
  rintro ⟨⟨hnext, hpos⟩, hlen⟩
  refine (harvestRound_spec hp kl m₀ hnext hpos hlen).pre ?_
  rintro m v n - ⟨rfl, -, ⟨h, -⟩, -⟩
  exact h.weaken fun m₁ hsame _ => hsame.activeSlots.symm

/-! ### Sending -/

section Pause

variable {Φ : Worker → View → Prop}

theorem waitUntil_spec (hB : B.Sound) (hΦ : ∀ m, B.Steady i (Φ m)) {wakeNs : ℕ}
    (hwake : wakeNs < 2 ^ 64) (t : ℕ) :
    B.Triple i (fun m v _ => Φ m v) (waitUntil wakeNs t) (fun _ m v _ => Φ m v) := by
  obtain ⟨k₀, hk⟩ := hB.live.floor wakeNs hwake
  have hspin : B.Triple i (fun m v _ => Φ m v) (Proc.loop (spinRound wakeNs) ())
      (fun _ m v _ => Φ m v) := by
    refine Setup.Triple.loop (fun _ m v _ => Φ m v) (fun _ _ n => k₀ - n) (fun _ m₀ n₀ => ?_) ()
    refine Setup.Triple.bind ((now_spec hΦ hk n₀).pre fun m v n _ h => ⟨h.2.2, h.2.1.ge⟩) ?_
    intro t
    refine Setup.Triple.ite (fun hlt => ?_) fun _ => Setup.Triple.pure fun m v n h => h.1.1
    refine Setup.Triple.pure fun m v n h => ⟨h.1.1, ?_⟩
    have h1 := h.1.2
    have h2 := h.2 hlt
    show k₀ - n < k₀ - n₀
    omega
  unfold waitUntil
  dsimp only
  refine Setup.Triple.ite (fun _ => ?_) fun _ => ?_
  · exact Setup.Triple.bind (sleepNs_spec hΦ _) fun _ => hspin
  · exact hspin

theorem pause_spec (hB : B.Sound) (hΦ : ∀ m, B.Steady i (Φ m)) {nextReqNs : ℕ}
    (hnext : nextReqNs < 2 ^ 64) :
    B.Triple i (fun m v _ => Φ m v) (pause ctx nextReqNs)
      (fun t m v _ => t < 2 ^ 64 ∧ Φ m v) := by
  have hlast : B.Triple i (fun m v _ => Φ m v)
      (now >>= fun t => pure ((t + intervalNs ctx.args) % 2 ^ 64))
      (fun t m v _ => t < 2 ^ 64 ∧ Φ m v) :=
    Setup.Triple.bind (now_any hΦ) fun t => Setup.Triple.pure fun m v n h =>
      ⟨Nat.mod_lt _ (by norm_num), h⟩
  unfold pause
  refine Setup.Triple.ite (fun _ => ?_) fun _ => Setup.Triple.pure fun m v n h => ⟨hnext, h⟩
  refine Setup.Triple.bind (now_any hΦ) fun t => ?_
  dsimp only
  refine Setup.Triple.ite (fun _ => ?_) fun _ => ?_
  · refine Setup.Triple.bind (now_any hΦ) fun t' => ?_
    exact Setup.Triple.bind (waitUntil_spec hB hΦ hnext t') fun _ => hlast
  · exact hlast

end Pause

theorem sendOne_spec (hB : B.Sound) (hp : p.Fits B ctx) {l : Locals} (hnext : l.nextReqNs < 2 ^ 64)
    (hlt : l.reqActive < B.slots) (F : List ℕ) :
    B.Triple i (fun m v _ => Known B i (B.Healthy i) p.size base p₀
        (fun x => x.freeSlots = F ∧ x.activeSlots.length = l.reqActive) m v)
      (sendOne p (postOne ctx p) l)
      (Sum.elim
        (fun l' m v _ => Between B i p₀ base p l' m v ∧ m.freeSlots.length < F.length)
        (fun r m v _ => Outcome B i p₀ base p r m v)) := by
  unfold sendOne
  refine Setup.Triple.of_exists fun ⟨m₁, fin⟩ ⟨hs, hl, hF, hlen⟩ => Track.get_bind fun ev look => ?_
  have hF : m₁.freeSlots = F := hF
  have hlen : m₁.activeSlots.length = l.reqActive := hlen
  dsimp only
  rw [hF]
  rcases F with _ | ⟨slot, rest⟩
  · -- a slot is free, since not all of them are active
    have hall := hs.perm.length_eq
    rw [hF, List.append_nil, List.length_range] at hall
    omega
  have hnot := hs.head_notMem hF
  have hmem : slot ∈ m₁.activeSlots ++ m₁.freeSlots := by simp [hF]
  dsimp only
  refine Track.modify_bind (fun _ _ _ => rfl) (fun g hg => hg) (Track.now_bind fun t0 => ?_)
  refine Setup.Triple.bind (postOne_spec ctx p l.reqSeq hB hp.covered hs.id (hs.lt hmem) ?_ ?_
    subset_rfl (hs.empty slot hnot) ?_) fun rc => ?_
  · intro wr hfly
    exact hnot hfly.1
  · rintro a ha rfl
    exact hnot ha.1
  · intro m v h
    exact hp.watched i _ m v ⟨(m₁, rest, _), ⟨hs, hF⟩, h⟩
  refine Setup.Triple.ite (fun hrc => ?_) fun hrc => ?_
  · refine Setup.Triple.of_fact (p := rc = -1 ∧ ¬ B.Healthy i) ?_ ?_
    · rintro m v n - (⟨hzero, -⟩ | ⟨h, -⟩)
      · exact absurd hzero hrc
      · exact h
    rintro ⟨rfl, hT⟩
    refine Setup.Triple.modify_bind (fun m v _ => Failed B i m v) ?_ ?_
    · rintro m v n (⟨hzero, -⟩ | ⟨-, x, hx, g, hg, ⟨ev, look, rfl⟩, hcore⟩)
      · exact absurd hzero hrc
      · refine ⟨⟨({ x.1 with
            freeSlots := slot :: x.1.freeSlots
            faults := .post x.1.activeSlots.length :: x.1.faults }, _, _, _), ⟨?_, ?_⟩, g, hg,
          ⟨ev, look, rfl⟩, hcore.mono False.elim⟩, List.cons_ne_nil _ _⟩
        · intro hnil
          have hnil : m₁.activeSlots = [] := hx.active.symm.trans hnil
          refine Set.eq_empty_iff_forall_notMem.2 fun a ha => ?_
          have ha : a.1 ∈ m₁.activeSlots := ha.1
          rw [hnil] at ha
          cases ha
        · have hnone : x.1.faults = [] := hx.faults.trans hs.faults
          show Exit (.post x.1.activeSlots.length :: x.1.faults) x.1.activeSlots
          rw [hnone]
          exact .post _
    · rw [hp.fatal]
      exact Setup.Triple.pure fun m v n h => ⟨hT, h⟩
  · refine Setup.Triple.pre (P := fun m v _ => Known B i (B.Healthy i) p.size base p₀
      (fun x => x.freeSlots = rest ∧ x.activeSlots.length = l.reqActive + 1) m v) ?_ ?_
    · refine Setup.Triple.bind (now_any (Known.steady _ _ _ _)) fun t1 => ?_
      refine Setup.Triple.pure ?_
      rintro m v n ⟨x, ⟨hs, hl, hrest, hlen'⟩, h⟩
      refine ⟨⟨⟨x, ⟨hs, hl, hlen'⟩, h⟩, hnext⟩, ?_⟩
      rw [h.mem.freeSlots, hrest]
      exact Nat.lt_succ_self _
    · rintro m v n - (⟨-, x, hx, h⟩ | ⟨⟨rfl, -⟩, -⟩)
      · refine ⟨(posted slot rest x.1 x.2.1 x.2.2 m₁, fin),
          ⟨hs.post hF hx, hl.post hs hF hx, rfl, ?_⟩, ?_⟩
        · simp [posted, hlen]
        have hlen : (fin + (posted slot rest x.1 x.2.1 x.2.2 m₁).activeSlots.length) * kvWrPerReq =
            (fin + m₁.activeSlots.length) * kvWrPerReq + kvWrPerReq := by
          simp [posted, ← Nat.add_assoc, Nat.succ_mul]
        rw [flyOf_posted hs hF hx, Set.compl_union, ← Set.sdiff_eq, hlen, ← Nat.add_assoc]
        exact h
      · exact absurd (by decide) hrc

theorem sendRound_spec (hB : B.Sound) (hp : p.Fits B ctx) (deadline : ℕ) (l : Locals)
    (hnext : l.nextReqNs < 2 ^ 64) (F : List ℕ) :
    B.Triple i (fun m v _ => Known B i (B.Healthy i) p.size base p₀
        (fun x => x.freeSlots = F ∧ x.activeSlots.length = l.reqActive) m v)
      (sendRound ctx p (postOne ctx p) deadline l)
      (Sum.elim
        (fun l' m v _ => Between B i p₀ base p l' m v ∧ m.freeSlots.length < F.length)
        (fun r m v _ => Outcome B i p₀ base p r m v)) := by
  have hstop : B.Triple i
      (fun m v _ => Known B i (B.Healthy i) p.size base p₀
        (fun x => x.freeSlots = F ∧ x.activeSlots.length = l.reqActive) m v)
      (pure (.inr (some l))) (Sum.elim
        (fun l' m v _ => Between B i p₀ base p l' m v ∧ m.freeSlots.length < F.length)
        (fun r m v _ => Outcome B i p₀ base p r m v)) :=
    Setup.Triple.pure fun m v n h => ⟨h.weaken fun _ _ hx => hx.2, hnext⟩
  unfold sendRound
  refine Setup.Triple.bind (visit_spec (Known.steady _ _ _ _) fun m v h => ?_) fun _ => ?_
  · exact hp.watched i _ m v (h.weaken fun _ _ hx => hx.2).windowed
  refine Setup.Triple.bind (now_any (Known.steady _ _ _ _)) fun t => ?_
  refine Setup.Triple.ite (fun _ => hstop) fun _ => ?_
  refine Setup.Triple.bind (loadFatal_spec (Known.steady _ _ _ _)) fun fatal => ?_
  refine Setup.Triple.ite (fun _ => hstop) fun _ => Setup.Triple.ite (fun _ => hstop) fun hlt => ?_
  refine Setup.Triple.bind (pause_spec hB (Known.steady _ _ _ _) hnext) fun next => ?_
  refine Setup.Triple.of_fact (p := next < 2 ^ 64) (fun m v n _ h => h.1) fun hnext' => ?_
  have hlt : l.reqActive < B.slots := by rw [hp.slots]; omega
  exact (sendOne_spec (l := { l with nextReqNs := next }) hB hp hnext' hlt F).pre
    fun m v n _ h => h.2

theorem send_spec (hB : B.Sound) (hp : p.Fits B ctx) (deadline : ℕ) (l : Locals) :
    B.Triple i (fun m v _ => Between B i p₀ base p l m v)
      (Proc.loop (sendRound ctx p (postOne ctx p) deadline) l)
      (fun r m v _ => Outcome B i p₀ base p r m v) := by
  refine Setup.Triple.loop (fun l m v _ => Between B i p₀ base p l m v)
    (fun _ m _ => m.freeSlots.length) (fun l m₀ n₀ => ?_) l
  refine Setup.Triple.of_fact (p := l.nextReqNs < 2 ^ 64) (fun m v n _ h => h.2.2.2) ?_
  intro hnext
  refine (sendRound_spec hB hp deadline l hnext m₀.freeSlots).pre ?_
  rintro m v n - ⟨rfl, -, h, -⟩
  exact h.weaken fun m₁ hsame hx => ⟨hsame.freeSlots.symm, hx⟩

/-! ### The main loop -/

theorem workRound_spec (hB : B.Sound) (hp : p.Fits B ctx) (deadline : ℕ) (l : Locals) :
    B.Triple i (fun m v _ => Between B i p₀ base p l m v)
      (workRound ctx p (postOne ctx p) deadline l)
      (Sum.elim (fun l' m v _ => Between B i p₀ base p l' m v)
        (fun r m v _ => Outcome B i p₀ base p r m v)) := by
  unfold workRound
  refine Setup.Triple.bind (harvest_spec hp l) ?_
  rintro (_ | l)
  · exact Setup.Triple.pure fun m v n h => h
  refine Setup.Triple.bind (send_spec hB hp deadline l) ?_
  rintro (_ | l)
  · exact Setup.Triple.pure fun m v n h => h
  refine Setup.Triple.bind (now_any (Between.steady l)) fun t => ?_
  refine Setup.Triple.pure ?_
  rintro m v n ⟨h, hnext⟩
  by_cases hpoll : l.lastPollNs ≠ 0
  · rw [if_pos hpoll]
    exact ⟨h, hnext⟩
  · rw [if_neg hpoll]
    exact ⟨h, hnext⟩

theorem keepsRunning_spec {Φ : Worker → View → Prop} (hΦ : ∀ m, B.Steady i (Φ m))
    {deadline k₀ : ℕ} (hk : ∀ k ≥ k₀, deadline ≤ B.pace.floor k) (n₀ : ℕ) :
    B.Triple i (fun m v n => Φ m v ∧ n₀ ≤ n) (keepsRunning deadline)
      (fun b m v n => Φ m v ∧ (b = true → n₀ < n ∧ n₀ < k₀)) := by
  have hno : ∀ {P : Worker → View → ℕ → Prop}, (∀ m v n, P m v n → Φ m v) →
      B.Triple i P (pure false) (fun b m v n => Φ m v ∧ (b = true → n₀ < n ∧ n₀ < k₀)) :=
    fun hP => Setup.Triple.pure fun m v n h => ⟨hP m v n h, fun hb => nomatch hb⟩
  unfold keepsRunning
  refine Setup.Triple.bind ((loadStop_spec hΦ).timed n₀) fun stop => ?_
  refine Setup.Triple.ite (fun _ => hno fun m v n h => h.1) fun _ => ?_
  refine Setup.Triple.bind ((loadFatal_spec hΦ).timed n₀) fun fatal => ?_
  refine Setup.Triple.ite (fun _ => hno fun m v n h => h.1) fun _ => ?_
  refine Setup.Triple.bind (now_spec hΦ hk n₀) fun t => Setup.Triple.pure ?_
  rintro m v n ⟨⟨h, hn⟩, hlt⟩
  exact ⟨h, fun hb => ⟨hn, hlt (of_decide_eq_true hb)⟩⟩

/-- The line after the main loop of the get pipeline. -/
theorem say_exiting_spec {Φ : Worker → View → Prop} (hΦ : ∀ m, B.Steady i (Φ m)) (op : Op)
    (a b c : ℕ) :
    B.Triple i (fun m v _ => Φ m v) (say (.exiting op a b c))
      (fun _ m v _ => Φ m v ∧ (op = .get → (B.mode i).whole = true →
        ∀ idx ∈ m.activeSlots, (m.wrSlots idx).doneCnt = 0)) := by
  refine Setup.Triple.quiet (fun m _ => hΦ m) (fun _ _ hs => ⟨hs, fun _ => rfl⟩)
    (fun _ _ _ _ _ => .inl trivial) ?_
  intro m s n o h ho
  refine ⟨h, ?_⟩
  rintro rfl
  exact ho

/-- **The main loop** ends, with the books in order unless something went wrong. -/
theorem mainLoop_spec (hB : B.Sound) (hp : p.Fits B ctx) {deadline : ℕ} (hdl : deadline < 2 ^ 64) :
    B.Triple i (fun m v _ => Known B i (B.Healthy i) p.size base p₀ (·.activeSlots = []) m v)
      (mainLoop ctx p (postOne ctx p) deadline)
      (fun b m v _ => if b then Known B i (B.Healthy i) p.size base p₀
          (fun m₁ => p.op = .get → (B.mode i).whole = true →
            ∀ idx ∈ m₁.activeSlots, (m₁.wrSlots idx).doneCnt = 0) m v
        else ¬ B.Healthy i ∧ Failed B i m v) := by
  obtain ⟨k₀, hk⟩ := hB.live.floor deadline hdl
  unfold mainLoop
  refine Setup.Triple.bind (now_lt (Known.steady _ _ _ _)) fun t => ?_
  refine Setup.Triple.bind ((Setup.Triple.loop (fun l m v _ => Between B i p₀ base p l m v)
    (fun _ _ n => k₀ - n) (fun l m₀ n₀ => ?_) _).pre
    fun m v n _ h => ⟨h.2.weaken fun _ _ hnil => congrArg List.length hnil, h.1⟩) ?_
    (Q := fun r m v _ => Outcome B i p₀ base p r m v)
  · unfold mainRound
    refine Setup.Triple.bind (((visit_spec (Between.steady l) fun m v h => ?_).timed n₀).pre
      fun m v n _ h => ⟨h.2.2, h.2.1.ge⟩) fun _ => ?_
    · exact hp.watched i _ m v h.1.windowed
    refine Setup.Triple.bind ((keepsRunning_spec (Between.steady l) hk n₀).pre
      fun m v n _ h => h) fun b => ?_
    refine Setup.Triple.ite (fun hb => ?_) fun _ => Setup.Triple.pure fun m v n h => h.1
    refine Setup.Triple.of_fact (p := n₀ < k₀) (fun m v n _ h => (h.2 hb).2) fun hlt => ?_
    refine (((workRound_spec hB hp deadline l).timed (n₀ + 1)).conseq
      (fun m v n _ h => ⟨h.1, (h.2 hb).1⟩) ?_)
    rintro (l' | r) m v n - ⟨h, hn⟩
    · exact ⟨h, by show k₀ - n < k₀ - n₀; omega⟩
    · exact h
  · rintro (_ | l)
    · exact Setup.Triple.pure fun m v n h => h
    refine Setup.Triple.bind (say_exiting_spec (Between.steady l) p.op _ _ _) fun _ => ?_
    refine Setup.Triple.pure ?_
    rintro m v n ⟨⟨h, -⟩, hwhole⟩
    rw [if_pos rfl]
    refine h.weaken fun m₁ hsame _ => ?_
    rw [← hsame.activeSlots, ← hsame.wrSlots]
    exact hwhole

end Loops

end KvBench.Bench
