import KvBench.Bench.MainLoop

/-!
# The drains, and the pipelines as a whole

After the main loop a pipeline waits for the requests that are still active. The write drain waits
for the work requests that are not done and releases the lanes send by send. The get drain waits for
all twenty work requests of a request and releases its lanes when all waits succeed; when the main
loop has already harvested one of them, that wait fails, so the books only balance when no request
was partly harvested.

`T` is the condition under which the waits of a drain succeed. Without it a drain may quarantine
lanes, and nothing is said about the counters.
-/

namespace KvBench.Bench

open KvBench.Conc KvBench.Hist Worker

/-! ### Between two requests -/

/-- What a drain with `failures` so far leaves to do; `total` requests were posted. -/
structure Left (B : Setup) (i : Fin B.n) (T : Prop) (size : ℕ) (base : Worker)
    (total failures : ℕ) (rest : Set (ℕ × ℕ)) (m : Worker) : Prop where
  slots : Slots B.slots i m
  books : T → failures = 0 ∧ ∃ fin, Ledger size base fin m ∧ fin + m.activeSlots.length = total
  rest : T → (flyOf m)ᶜ ⊆ rest

/-- The result of a pipeline all of whose waits succeeded, and which posted `total` requests. -/
structure Accounted (c size : ℕ) (base : Worker) (p₀ total : ℕ) (m : Worker) (v : View) : Prop where
  ops : m.ops = base.ops + total
  bytes : m.bytes = base.bytes + total * (size * kvSendsPerReq)
  errors : m.errors = base.errors
  req : Grown base.histReq m.histReq total
  wr : Grown base.histWr m.histWr (total * kvWrPerReq)
  posts : v.posted.length = p₀ + total * kvWrPerReq
  active : m.activeSlots = []
  free : m.freeSlots.Perm (List.range c)
  events : m.ev.freeSlots.Perm (List.range 256)
  lanes : ∀ l σ, ¬ v.holds l σ

section Books

variable {B : Setup} {i : Fin B.n} {T : Prop} {size p₀ total failures idx pos k : ℕ}
  {base m m₁ m₂ : Worker} {fly rest : Set (ℕ × ℕ)} {v : View}

/-- When no slot is active any more and all waits succeeded, the worker holds nothing. -/
theorem Left.accounted (h : Left B i T size base total failures rest m₁)
    (hnil : m₁.activeSlots = []) (htaken : T → B.taken = [])
    (ht : Track B i T m₁ fly rest (p₀ + total * kvWrPerReq) m v) (hT : T) :
    Accounted B.slots size base p₀ total m v := by
  obtain ⟨g, hg, ⟨ev, look, rfl⟩, hcore⟩ := ht
  obtain ⟨-, fin, hl, hfin⟩ := h.books hT
  obtain rfl : fin = total := by simpa [hnil] using hfin
  have hwr := hl.wr
  rw [hnil, List.map_nil, List.sum_nil, Nat.add_zero] at hwr
  have hidle : ∀ ρ, (g.tok ρ).live = none := by
    rintro (⟨idx, wr⟩ | half)
    · have hrest : (idx, wr) ∉ flyOf m₁ := by
        intro hfly
        have hmem := hfly.1
        rw [hnil] at hmem
        cases hmem
      rw [hg.rest idx wr (h.rest hT hrest)]
      rfl
    · rw [hg.tokSync half]
      rfl
  have hlane : ∀ σ, g.lane σ = none := by
    rintro (⟨idx, send⟩ | _)
    · rw [hg.lane, h.slots.empty idx (by simp [hnil])]
    · exact hg.laneSync
  have hperm := h.slots.perm
  rw [hnil, List.nil_append] at hperm
  refine ⟨hl.ops, hl.bytes, hl.errors, hl.req, hwr, hcore.posts.trans hg.posts, hnil, hperm, ?_, ?_⟩
  · refine (List.perm_ext_iff_of_nodup hcore.nodup List.nodup_range).2 fun k => ?_
    rw [hcore.free k, List.mem_range]
    constructor
    · intro hk
      exact hk.1.1
    · intro hk
      refine ⟨⟨hk, by simp [htaken hT]⟩, ?_⟩
      intro ρ t ht
      rw [hidle ρ] at ht
      cases ht
  · intro l σ hh
    have := hcore.tidy hT l σ hh
    rw [hlane σ] at this
    cases this

/-- The slot `idx` has been cleared in `m₂`. -/
theorem retired_of_cleared (hpos : m₁.activeSlots[pos]? = some idx)
    (hid : m₂.id = m₁.id) (hactive : m₂.activeSlots = m₁.activeSlots)
    (hfree : m₂.freeSlots = m₁.freeSlots)
    (hother : ∀ idx', idx' ≠ idx → m₂.wrSlots idx' = m₁.wrSlots idx')
    (hempty : ∀ send, (m₂.wrSlots idx).jetty send = none) (hfaults : m₂.faults = m₁.faults) :
    Retired idx pos m₁ (retire idx pos m₂) where
  at_pos := hpos
  id := hid
  active := congrArg (swapRemove · pos) hactive
  free := congrArg (idx :: ·) hfree
  other := hother
  empty := hempty
  faults := hfaults

/-- The request of the slot `idx` is done with. -/
theorem Left.retire {failures' : ℕ} {rest' : Set (ℕ × ℕ)}
    (h : Left B i T size base total failures rest m₁) (hret : Retired idx pos m₁ m₂)
    (hrest : T → (flyOf m₁ \ firstWrs idx kvWrPerReq)ᶜ ⊆ rest')
    (hbooks : T → ∀ fin, failures = 0 → Ledger size base fin m₁ →
      failures' = 0 ∧ Ledger size base (fin + 1) m₂) :
    Left B i T size base total failures' rest' m₂ where
  slots := h.slots.retire hret
  books hT := by
    obtain ⟨hf, fin, hl, hfin⟩ := h.books hT
    obtain ⟨hf', hl'⟩ := hbooks hT fin hf hl
    have hlen := hret.length
    exact ⟨hf', fin + 1, hl', by omega⟩
  rest hT := by
    refine .trans (Set.compl_subset_compl.2 ?_) (hrest hT)
    rintro ⟨idx', wr'⟩ ⟨hfly, hnot⟩
    rw [hret.flyOf h.slots]
    refine ⟨hfly, ?_⟩
    rintro rfl
    exact hnot ⟨rfl, hfly.2.1⟩

theorem flyOf_of_retired (hret : Retired idx pos m₁ m₂) (hs : Slots B.slots i m₁) :
    flyOf m₂ = flyOf m₁ \ firstWrs idx kvWrPerReq := by
  rw [hret.flyOf hs]
  ext a
  constructor
  · rintro ⟨hfly, hne⟩
    exact ⟨hfly, fun hfirst => hne hfirst.1⟩
  · rintro ⟨hfly, hnot⟩
    exact ⟨hfly, fun heq => hnot ⟨heq, hfly.2.1⟩⟩

theorem flyOf_of_nil (hnil : m₁.activeSlots = []) : flyOf m₁ = ∅ := by
  refine Set.eq_empty_iff_forall_notMem.2 fun a ha => ?_
  have hmem : a.1 ∈ m₁.activeSlots := ha.1
  rw [hnil] at hmem
  cases hmem

end Books

/-! ### The write drain -/

/-- The work requests before `wr` that had not been harvested. -/
def openWrs (s : WrSlot) (wr : ℕ) : ℕ := ((Finset.range wr).filter fun wr' => s.done wr' = false).card

theorem openWrs_succ (s : WrSlot) (wr : ℕ) :
    openWrs s (wr + 1) = openWrs s wr + if s.done wr = false then 1 else 0 := by
  unfold openWrs
  rw [Finset.range_add_one, Finset.filter_insert]
  split
  · rw [Finset.card_insert_of_notMem (by simp)]
  · rfl

theorem openWrs_add_harvested (s : WrSlot) : openWrs s kvWrPerReq + harvested s = kvWrPerReq := by
  have h := Finset.card_filter_add_card_filter_not (s := Finset.range kvWrPerReq)
    (fun wr => s.done wr = false)
  simpa [openWrs, harvested] using h

section WriteDrain

variable {B : Setup} {i : Fin B.n} {T : Prop} {m₁ : Worker} {k idx send wr first failures : ℕ}

/-- The request of the slot `idx`, with memory `m₁` when its drain began, has been drained up to the
work request `wr`; `h` is `hist_wr`. -/
structure Drained (T : Prop) (m₁ : Worker) (idx failures first wr : ℕ) (d : WriteDrain)
    (h : KvHist) (rest : Set (ℕ × ℕ)) : Prop where
  fine : T → d.sendCompleted = true ∧ d.requestCompleted = true ∧ d.failures = failures
  wrs : T → Grown m₁.histWr h (openWrs (m₁.wrSlots idx) wr)
  old : ∀ idx' ∈ m₁.activeSlots, ∀ wr' < kvWrPerReq, (m₁.wrSlots idx').done wr' = true →
    (idx', wr') ∈ rest
  send : d.sendCompleted = true → ∀ wr', first ≤ wr' → wr' < wr → (idx, wr') ∈ rest
  rest : T → (flyOf m₁ \ firstWrs idx wr)ᶜ ⊆ rest

variable (B i T) in
/-- The write drain at the work request `wr` of the send `send`. -/
def Draining (m₁ : Worker) (k idx failures send first wr : ℕ) (d : WriteDrain) (m : Worker)
    (v : View) : Prop :=
  ∃ x : KvHist × Set (ℕ × ℕ), Drained T m₁ idx failures first wr d x.1 x.2 ∧
    Track B i T (clearJettys idx send { m₁ with histWr := x.1 }) (flyOf m₁ \ firstWrs idx wr) x.2 k
      m v

theorem sdiff_firstWrs_succ (s : Set (ℕ × ℕ)) (idx wr : ℕ) :
    s \ firstWrs idx (wr + 1) = (s \ firstWrs idx wr) \ {(idx, wr)} := by
  rw [firstWrs_succ, Set.sdiff_sdiff, Set.union_singleton]

theorem compl_sdiff_firstWrs_succ {s rest : Set (ℕ × ℕ)} (h : (s \ firstWrs idx wr)ᶜ ⊆ rest) :
    (s \ firstWrs idx (wr + 1))ᶜ ⊆ insert (idx, wr) rest := by
  rw [sdiff_firstWrs_succ, Set.compl_sdiff]
  refine Set.union_subset ?_ (h.trans (Set.subset_insert _ _))
  rintro a rfl
  exact Set.mem_insert _ _

theorem drainWriteWr_spec (hB : B.Sound)
    (hT : T → (B.mode i).cqesOk = true ∧ (B.mode i).timely = true) (drainDeadline : ℕ)
    (hidx : idx ∈ m₁.activeSlots) (hwr : wr < kvWrPerReq) (d : WriteDrain) :
    B.Triple i (fun m v _ => Draining B i T m₁ k idx failures send first wr d m v)
      (drainWriteWr drainDeadline idx wr d)
      (fun d m v _ => Draining B i T m₁ k idx failures send first (wr + 1) d m v) := by
  refine Setup.Triple.of_exists ?_
  rintro ⟨h, rest⟩ hd
  have hslot : ((clearJettys idx send { m₁ with histWr := h }).wrSlots idx).done =
      (m₁.wrSlots idx).done := by
    rw [clearJettys, wrSlots_setSlot_self]
  unfold drainWriteWr
  refine Track.get_bind fun ev look => ?_
  refine Setup.Triple.ite (fun hdone => ?_) fun hdone => ?_
  · have hdone : (m₁.wrSlots idx).done wr = true := hslot ▸ hdone
    have hmem := hd.old idx hidx wr hwr hdone
    refine Setup.Triple.pure fun m v n ht => ⟨(h, rest), ⟨hd.fine, ?_, hd.old, ?_, ?_⟩, ?_⟩
    · intro hT
      rw [openWrs_succ, if_neg (by simp [hdone])]
      exact hd.wrs hT
    · intro hc wr' h1 h2
      rcases Nat.lt_succ_iff_lt_or_eq.1 h2 with hlt | rfl
      · exact hd.send hc wr' h1 hlt
      · exact hmem
    · intro hT
      exact (compl_sdiff_firstWrs_succ (hd.rest hT)).trans (Set.insert_subset hmem subset_rfl)
    · have hnot : (idx, wr) ∉ flyOf m₁ \ firstWrs idx wr := by
        rintro ⟨⟨-, -, hopen⟩, -⟩
        have hopen : (m₁.wrSlots idx).done wr = false := hopen
        rw [hdone] at hopen
        cases hopen
      rw [sdiff_firstWrs_succ, Set.sdiff_singleton_eq_self hnot]
      exact ht
  · have hdone : (m₁.wrSlots idx).done wr = false := by
      rw [← hslot]
      exact Bool.eq_false_iff.2 hdone
    have hfly : (idx, wr) ∈ flyOf m₁ \ firstWrs idx wr :=
      ⟨⟨hidx, hwr, hdone⟩, fun hmem => absurd hmem.2 (lt_irrefl wr)⟩
    refine Track.now_bind fun t => ?_
    refine Setup.Triple.bind (wait_track hB hfly _) fun b => ?_
    rw [← sdiff_firstWrs_succ]
    cases b with
    | true =>
      refine Setup.Triple.pre (P := fun m v _ => Track B i T
        (clearJettys idx send { m₁ with histWr := h }) (flyOf m₁ \ firstWrs idx (wr + 1))
        (insert (idx, wr) rest) k m v) ?_ fun m v n _ ht => ht.1
      refine Track.now_bind fun t' => Track.modify_bind (fun _ _ _ => rfl) (fun g hg => hg) ?_
      refine Setup.Triple.pure fun m v n ht => ⟨(_, _), ⟨hd.fine, ?_, ?_, ?_, ?_⟩, ht⟩
      · intro hT
        rw [openWrs_succ, if_pos hdone]
        exact (hd.wrs hT).trans (Grown.one _ _)
      · intro idx' h1 wr' h2 h3
        exact Set.mem_insert_of_mem _ (hd.old idx' h1 wr' h2 h3)
      · intro hc wr' h1 h2
        rcases Nat.lt_succ_iff_lt_or_eq.1 h2 with hlt | rfl
        · exact Set.mem_insert_of_mem _ (hd.send hc wr' h1 hlt)
        · exact Set.mem_insert _ _
      · intro hT
        exact compl_sdiff_firstWrs_succ (hd.rest hT)
    | false =>
      refine Setup.Triple.of_fact (p := ¬ T) ?_ fun hno => ?_
      · intro m v n _ ht hTT
        exact ht.2 rfl (hT hTT)
      refine Setup.Triple.pre (P := fun m v _ => Track B i T
        (clearJettys idx send { m₁ with histWr := h }) (flyOf m₁ \ firstWrs idx (wr + 1))
        rest k m v) ?_ fun m v n _ ht => ht.1
      refine Track.say_bind (.inl trivial) (Setup.Triple.pure fun m v n ht =>
        ⟨(h, rest), ⟨?_, ?_, hd.old, ?_, ?_⟩, ht⟩)
      · exact fun hTT => absurd hTT hno
      · exact fun hTT => absurd hTT hno
      · intro hc
        cases hc
      · exact fun hTT => absurd hTT hno

/-- One send of the write drain. -/
theorem drainWriteSend_spec (hB : B.Sound)
    (hT : T → (B.mode i).cqesOk = true ∧ (B.mode i).timely = true) (drainDeadline : ℕ)
    (hidx : idx ∈ m₁.activeSlots) (hsend : send < kvSendsPerReq) (d : WriteDrain) :
    B.Triple i (fun m v _ => Draining B i T m₁ k idx failures send (send * kvWrPerSend)
        (send * kvWrPerSend) { d with sendCompleted := true } m v)
      (drainWriteSend drainDeadline idx send d)
      (fun d m v _ => Draining B i T m₁ k idx failures (send + 1) ((send + 1) * kvWrPerSend)
        ((send + 1) * kvWrPerSend) { d with sendCompleted := true } m v) := by
  unfold drainWriteSend
  refine Setup.Triple.bind (Setup.Triple.each (fun wr d m v _ =>
    Draining B i T m₁ k idx failures send (send * kvWrPerSend) wr d m v)
    (fun wr d _ hwr => drainWriteWr_spec hB hT drainDeadline hidx ?_ d) _) fun d => ?_
  · unfold kvWrPerSend kvSendsPerReq kvWrPerReq at *
    omega
  rw [← Nat.succ_mul]
  refine Setup.Triple.of_exists fun ⟨h, rest⟩ hd => ?_
  -- in either case the lane is given up, and noted in the slot
  have hshut : B.Triple i (fun m v _ => Shut B i T (clearJettys idx send { m₁ with histWr := h })
      idx send (flyOf m₁ \ firstWrs idx ((send + 1) * kvWrPerSend)) rest k m v)
      (modify (setJetty idx send none) >>= fun _ => pure d)
      (fun d m v _ => Draining B i T m₁ k idx failures (send + 1) ((send + 1) * kvWrPerSend)
        ((send + 1) * kvWrPerSend) { d with sendCompleted := true } m v) := by
    refine Shut.clear_bind (Setup.Triple.pure fun m v n ht => ⟨(h, rest), ⟨?_, hd.wrs, hd.old, ?_,
      hd.rest⟩, ?_⟩)
    · intro hTT
      exact ⟨rfl, (hd.fine hTT).2⟩
    · intro _ wr' h1 h2
      exact absurd h2 (Nat.not_lt.2 h1)
    · rwa [setJetty_clearJettys] at ht
  dsimp only
  refine Setup.Triple.ite (fun hc => ?_) fun hc => ?_
  · refine Track.get_bind fun ev look => Setup.Triple.bind (release_track fun wr hwr => ?_)
      fun _ => hshut
    refine hd.send hc wr ?_ ?_
    · unfold kvWrPerSend at *
      omega
    · unfold kvWrPerSend at *
      omega
  · have hno : ¬ T := fun hTT => hc (hd.fine hTT).1
    exact hshut.pre fun m v n _ ht => ht.quarantine hno idx send

variable {size total : ℕ} {base : Worker}

variable (B i T) in
/-- The write drain between two requests. -/
def WriteLeft (size : ℕ) (base : Worker) (k total failures : ℕ) (m : Worker) (v : View) : Prop :=
  ∃ x : Worker × Set (ℕ × ℕ), (Left B i T size base total failures x.2 x.1 ∧
      ∀ idx ∈ x.1.activeSlots, ∀ wr < kvWrPerReq, (x.1.wrSlots idx).done wr = true →
        (idx, wr) ∈ x.2) ∧
    Track B i T x.1 (flyOf x.1) x.2 k m v

/-- What a drain leaves when no slot is active any more. -/
def DrainedAll (B : Setup) (i : Fin B.n) (T : Prop) (size : ℕ) (base : Worker)
    (k total failures : ℕ) (m : Worker) (v : View) : Prop :=
  ∃ x : Worker × Set (ℕ × ℕ), (Left B i T size base total failures x.2 x.1 ∧
      x.1.activeSlots = []) ∧ Track B i T x.1 ∅ x.2 k m v

/-- The counters after a drained request. -/
def Worker.counted (size ns : ℕ) (m : Worker) : Worker :=
  { recordReq ns m with ops := m.ops + 1, bytes := m.bytes + size * kvSendsPerReq }

theorem countDrained_spec {m₀ : Worker} {fly rest : Set (ℕ × ℕ)} (size idx : ℕ) :
    B.Triple i (fun m v _ => Track B i T m₀ fly rest k m v) (countDrained size idx)
      (fun _ m v _ => ∃ ns, Track B i T (counted size ns m₀) fly rest k m v) := by
  unfold countDrained
  refine Track.now_bind fun t => Track.modify_bind (fun _ _ _ => rfl) (fun g hg => hg) ?_
  refine Track.modify_bind (fun _ _ _ => rfl) (fun g hg => hg) ?_
  exact (count_spec (Track.steady _ _ _ _) _).post fun _ m v n _ h => ⟨_, h⟩

theorem wrSlots_clearJettys_of_ne (m : Worker) (j : ℕ) {idx' : ℕ} (h : idx' ≠ idx) :
    (clearJettys idx j m).wrSlots idx' = m.wrSlots idx' := wrSlots_setSlot_of_ne m _ h

theorem jetty_clearJettys {c w : ℕ} (hs : Slots c w m₁) (send : ℕ) :
    ((clearJettys idx kvSendsPerReq m₁).wrSlots idx).jetty send = none := by
  rw [clearJettys, wrSlots_setSlot_self]
  show (if send < kvSendsPerReq then none else (m₁.wrSlots idx).jetty send) = none
  split
  · rfl
  · exact hs.beyond idx send (by omega)

/-- The end of a round of the write drain: the slot goes back to the free stack. `m₂` is the memory
once the request has been counted, or not. -/
theorem drainWriteRound_end {rest rest' : Set (ℕ × ℕ)} {m₂ : Worker} {tail : List ℕ}
    {failures' : ℕ} (hleft : Left B i T size base total failures rest m₁)
    (hact : m₁.activeSlots = idx :: tail) (hid : m₂.id = m₁.id)
    (hactive : m₂.activeSlots = m₁.activeSlots) (hfree : m₂.freeSlots = m₁.freeSlots)
    (hslots : m₂.wrSlots = (clearJettys idx kvSendsPerReq m₁).wrSlots)
    (hfaults : m₂.faults = m₁.faults)
    (hrest : T → (flyOf m₁ \ firstWrs idx kvWrPerReq)ᶜ ⊆ rest')
    (hold : ∀ idx' ∈ m₁.activeSlots, ∀ wr' < kvWrPerReq, (m₁.wrSlots idx').done wr' = true →
      (idx', wr') ∈ rest')
    (hbooks : T → failures = 0 → failures' = 0 ∧ m₂.ops = m₁.ops + 1 ∧
      m₂.bytes = m₁.bytes + size * kvSendsPerReq ∧ m₂.errors = m₁.errors ∧
      Grown m₁.histReq m₂.histReq 1 ∧
      Grown m₁.histWr m₂.histWr (openWrs (m₁.wrSlots idx) kvWrPerReq)) :
    B.Triple i
      (fun m v _ => Track B i T m₂ (flyOf m₁ \ firstWrs idx kvWrPerReq) rest' k m v)
      (modify (deactivate idx) >>= fun _ => modify (retire idx 0) >>= fun _ =>
        pure (.inl failures' : ℕ ⊕ ℕ))
      (Sum.elim
        (fun failures m v _ => WriteLeft B i T size base k total failures m v ∧
          m.activeSlots.length < m₁.activeSlots.length)
        (fun failures m v _ => DrainedAll B i T size base k total failures m v)) := by
  have hs := hleft.slots
  have hret : Retired idx 0 m₁ (retire idx 0 (deactivate idx m₂)) := by
    refine retired_of_cleared (by simp [hact]) hid hactive hfree ?_ ?_ hfaults
    · intro idx' hi
      rw [deactivate, wrSlots_setSlot_of_ne _ _ hi, hslots, wrSlots_clearJettys_of_ne _ _ hi]
    · intro send
      rw [deactivate, wrSlots_setSlot_self, hslots]
      exact jetty_clearJettys hs send
  refine Track.modify_bind (fun _ _ _ => rfl)
    (fun g hg => hg.setSlot (fun _ => rfl) fun _ => rfl) ?_
  refine Track.modify_bind (fun _ _ _ => rfl) (fun g hg => hg) ?_
  refine Setup.Triple.pure fun m v n ht => ⟨⟨(retire idx 0 (deactivate idx m₂), rest'),
    ⟨hleft.retire hret hrest ?_, ?_⟩, ?_⟩, ?_⟩
  · intro hT fin hf hl
    obtain ⟨hf', hops, hbytes, herrors, hreq, hwr⟩ := hbooks hT hf
    refine ⟨hf', hl.retire hs hret ?_ hops hbytes herrors hreq hwr⟩
    rw [hs.count idx hret.mem]
    exact openWrs_add_harvested _
  · intro idx' hidx' wr' hwr' hdone
    obtain ⟨hmem, hne⟩ := (hret.mem_iff hs idx').1 hidx'
    have hdone : ((retire idx 0 (deactivate idx m₂)).wrSlots idx').done wr' = true := hdone
    rw [hret.other idx' hne] at hdone
    exact hold idx' hmem wr' hwr' hdone
  · rw [flyOf_of_retired hret hs]
    exact ht
  · rw [ht.mem.activeSlots, hret.length]
    exact Nat.lt_succ_self _

/-- One request of the write drain. -/
theorem drainWriteRound_spec (hB : B.Sound)
    (hT : T → (B.mode i).cqesOk = true ∧ (B.mode i).timely = true) {args : Argument}
    (drainDeadline : ℕ) (m₀ : Worker) :
    B.Triple i (fun m v _ => m = m₀ ∧ WriteLeft B i T args.sendSize base k total failures m v)
      (drainWriteRound args drainDeadline failures)
      (Sum.elim
        (fun failures m v _ => WriteLeft B i T args.sendSize base k total failures m v ∧
          m.activeSlots.length < m₀.activeSlots.length)
        (fun failures m v _ => DrainedAll B i T args.sendSize base k total failures m v)) := by
  refine Setup.Triple.pre (P := fun m v _ => ∃ x : Worker × Set (ℕ × ℕ),
    ((Left B i T args.sendSize base total failures x.2 x.1 ∧
      ∀ idx ∈ x.1.activeSlots, ∀ wr < kvWrPerReq, (x.1.wrSlots idx).done wr = true →
        (idx, wr) ∈ x.2) ∧ x.1.activeSlots = m₀.activeSlots) ∧
      Track B i T x.1 (flyOf x.1) x.2 k m v) ?_ ?_
  · refine Setup.Triple.of_exists fun ⟨m₁, rest⟩ ⟨⟨hleft, hold⟩, hA⟩ => ?_
    have hA : m₁.activeSlots = m₀.activeSlots := hA
    rw [← hA]
    unfold drainWriteRound
    refine Track.get_bind fun ev look => ?_
    generalize hlen : m₁.activeSlots.length = len
    dsimp only
    rcases hact : m₁.activeSlots with _ | ⟨idx, tail⟩
    · exact Setup.Triple.pure fun m v n h => ⟨(m₁, rest), ⟨hleft, hact⟩, flyOf_of_nil hact ▸ h⟩
    rw [← hlen]
    have hidx : idx ∈ m₁.activeSlots := by simp [hact]
    have hsends : B.Triple i _
        (Proc.each (drainWriteSend drainDeadline idx) 0 kvSendsPerReq ⟨true, true, failures⟩) _ :=
      Setup.Triple.each (fun send d m v _ => Draining B i T m₁ k idx failures send
        (send * kvWrPerSend) (send * kvWrPerSend) { d with sendCompleted := true } m v)
        (fun send d _ hsend =>
          drainWriteSend_spec hB hT drainDeadline hidx (by simpa using hsend) d) _
    refine Setup.Triple.bind (hsends.pre ?_) ?_
    · intro m v n _ h
      refine ⟨(m₁.histWr, rest), ⟨?_, ?_, hold, ?_, ?_⟩, ?_⟩
      · exact fun _ => ⟨rfl, rfl, rfl⟩
      · exact fun _ => Grown.refl _
      · intro _ wr' _ hlt
        exact absurd hlt (by simp)
      · intro hTT
        rw [Nat.zero_mul, firstWrs_zero, Set.sdiff_empty]
        exact hleft.rest hTT
      · rw [Nat.zero_mul, firstWrs_zero, Set.sdiff_empty, clearJettys_zero]
        exact h
    · intro d
      refine Setup.Triple.of_exists fun ⟨h, rest'⟩ hd => ?_
      rw [Nat.zero_add] at hd ⊢
      change Drained T m₁ idx failures kvWrPerReq kvWrPerReq _ h rest' at hd
      change B.Triple i (fun m v _ => Track B i T (clearJettys idx kvSendsPerReq
        { m₁ with histWr := h }) (flyOf m₁ \ firstWrs idx kvWrPerReq) rest' k m v) _ _
      refine Setup.Triple.ite (fun hc => ?_) fun hc => ?_
      · refine Setup.Triple.bind (countDrained_spec args.sendSize idx) fun _ =>
          Setup.Triple.of_some fun ns => ?_
        refine drainWriteRound_end hleft hact rfl rfl rfl rfl rfl hd.rest hd.old ?_
        intro hTT hf
        exact ⟨(hd.fine hTT).2.2.trans hf, rfl, rfl, rfl, Grown.one _ ns, hd.wrs hTT⟩
      · refine drainWriteRound_end hleft hact rfl rfl rfl rfl rfl hd.rest hd.old ?_
        intro hTT _
        exact absurd (hd.fine hTT).2.1 hc
  · rintro m v n - ⟨rfl, x, hx, ht⟩
    exact ⟨x, ⟨hx, ht.mem.activeSlots.symm⟩, ht⟩

/-- **The write drain** ends. -/
theorem drainWrite_spec (hB : B.Sound)
    (hT : T → (B.mode i).cqesOk = true ∧ (B.mode i).timely = true) {args : Argument}
    (drainDeadline failures : ℕ) :
    B.Triple i (fun m v _ => WriteLeft B i T args.sendSize base k total failures m v)
      (Proc.loop (drainWriteRound args drainDeadline) failures)
      (fun failures m v _ => DrainedAll B i T args.sendSize base k total failures m v) :=
  Setup.Triple.loop (fun failures m v _ => WriteLeft B i T args.sendSize base k total failures m v)
    (fun _ m _ => m.activeSlots.length) (fun _ m₀ _ => (drainWriteRound_spec hB hT drainDeadline
      m₀).pre fun _ _ _ _ h => ⟨h.1, h.2.2⟩) failures

end WriteDrain

/-! ### The get drain -/

/-- The first `j` lanes of the slot `idx` are given up. -/
def Ghost.shut (g : Ghost) (idx j : ℕ) : Ghost :=
  { g with
    lane := fun
      | .slot idx' send => if idx' = idx ∧ send < j then none else g.lane (.slot idx' send)
      | .sync => g.lane .sync }

theorem Ghost.shut_zero (g : Ghost) (idx : ℕ) : g.shut idx 0 = g := by
  obtain ⟨lane, tok, posts⟩ := g
  simp only [Ghost.shut, Nat.not_lt_zero, and_false, if_false, Ghost.mk.injEq, and_true]
  funext σ
  cases σ <;> rfl

theorem Ghost.shut_sub (g : Ghost) {idx j : ℕ} {σ : SendId} {l : Lane}
    (h : (g.shut idx j).lane σ = some l) : g.lane σ = some l := by
  rcases σ with ⟨idx', send⟩ | _
  · simp only [Ghost.shut] at h
    split at h
    · cases h
    · exact h
  · exact h

theorem Ghost.setLane_shut (g : Ghost) (idx j : ℕ) :
    (g.shut idx j).setLane (.slot idx j) none = g.shut idx (j + 1) := by
  simp only [Ghost.shut, Ghost.setLane, Ghost.mk.injEq, and_true]
  funext σ
  rcases σ with ⟨idx', send⟩ | _
  · by_cases heq : idx' = idx ∧ send = j
    · obtain ⟨rfl, rfl⟩ := heq
      simp
    · rw [Function.update_of_ne (by simpa using heq)]
      have : idx' = idx ∧ send < j ↔ idx' = idx ∧ send < j + 1 := by
        constructor
        · rintro ⟨h1, h2⟩
          exact ⟨h1, by omega⟩
        · rintro ⟨h1, h2⟩
          exact ⟨h1, by have : send ≠ j := fun h => heq ⟨h1, h⟩; omega⟩
      simp only [this]
  · rfl

section GetDrain

variable {B : Setup} {i : Fin B.n} {T : Prop} {m₁ m₂ : Worker} {k idx wr failures size total : ℕ}
  {fly rest : Set (ℕ × ℕ)} {base : Worker}

/-- All lanes of the slot `idx` are given up, in the slot and in the ghost state. -/
theorem Tracks.shut {g : Ghost} (h : Tracks m₂.wrSlots fly rest k g) (idx : ℕ)
    (hbeyond : ∀ send, kvSendsPerReq ≤ send → (m₂.wrSlots idx).jetty send = none) :
    Tracks (Worker.setSlot idx (fun s => { s with jetty := fun _ => none, active := false }) m₂).wrSlots
      fly rest k (g.shut idx kvSendsPerReq) := by
  set f : WrSlot → WrSlot := fun s => { s with jetty := fun _ => none, active := false } with hf
  have htok : ∀ idx', ((Worker.setSlot idx f m₂).wrSlots idx').eventToken =
      (m₂.wrSlots idx').eventToken := by
    intro idx'
    by_cases hi : idx' = idx
    · rw [hi, wrSlots_setSlot_self]
    · rw [wrSlots_setSlot_of_ne _ _ hi]
  refine ⟨fun idx' send => ?_, h.laneSync, h.tokSync, fun idx' wr => ?_, fun idx' wr => ?_,
    fun idx' wr => ?_, h.rest, h.posts⟩
  · by_cases hi : idx' = idx
    · subst hi
      rw [wrSlots_setSlot_self]
      show (if idx' = idx' ∧ send < kvSendsPerReq then none else g.lane (.slot idx' send)) = none
      split
      · rfl
      · rename_i hge
        rw [h.lane]
        exact hbeyond send (by simpa using hge)
    · rw [wrSlots_setSlot_of_ne _ _ hi, ← h.lane]
      exact if_neg fun hc => hi hc.1
  · rw [htok]
    exact h.tok idx' wr
  · rw [htok]
    exact h.small idx' wr
  · rw [htok]
    exact h.fly idx' wr

/-- The request of the slot `idx`, with memory `m₁` when its drain began, has been drained up to the
work request `wr`; `h` is `hist_wr`. -/
structure DrainedGet (T : Prop) (m₁ : Worker) (idx wr : ℕ) (allOk : Bool) (h : KvHist)
    (fly rest : Set (ℕ × ℕ)) : Prop where
  fine : T → allOk = true
  wrs : T → Grown m₁.histWr h wr
  seen : allOk = true → ∀ wr' < wr, (idx, wr') ∈ rest
  under : fly ⊆ flyOf m₁ \ firstWrs idx wr
  whole : T → fly = flyOf m₁ \ firstWrs idx wr
  rest : T → (flyOf m₁ \ firstWrs idx wr)ᶜ ⊆ rest

variable (B i T) in
/-- The get drain at the work request `wr`. Unless `T` holds, a wait can be for an event that is not
live, and can consume the event of another work request. -/
def DrainingGet (m₁ : Worker) (k idx wr : ℕ) (allOk : Bool) (m : Worker) (v : View) : Prop :=
  ∃ x : KvHist × Set (ℕ × ℕ) × Set (ℕ × ℕ), DrainedGet T m₁ idx wr allOk x.1 x.2.1 x.2.2 ∧
    Track B i T { m₁ with histWr := x.1 } x.2.1 x.2.2 k m v

/-- What a wait of the get drain does, for an event that is live or not. -/
theorem wait_track_any {m₀ : Worker} (hB : B.Sound) (remaining : ℤ) :
    B.Triple i (fun m v _ => Track B i T m₀ fly rest k m v)
      (waitEvent ((m₀.wrSlots idx).eventToken wr) remaining)
      (fun b m v _ => ∃ fly' : Set (ℕ × ℕ), (fly' ⊆ fly \ {(idx, wr)} ∧
          ((idx, wr) ∈ fly → fly' = fly \ {(idx, wr)} ∧
            (b = false → ¬ ((B.mode i).cqesOk = true ∧ (B.mode i).timely = true)))) ∧
        Track B i T m₀ fly' (if b then insert (idx, wr) rest else rest) k m v) := by
  by_cases hmem : (idx, wr) ∈ fly
  · refine (wait_track hB hmem remaining).post ?_
    rintro b m v n - ⟨ht, hb⟩
    exact ⟨_, ⟨subset_rfl, fun _ => ⟨rfl, hb⟩⟩, ht⟩
  · refine (wait_track_stale hB hmem remaining).post ?_
    rintro b m v n - ⟨fly', hsub, ht⟩
    refine ⟨fly', ⟨?_, fun h => absurd h hmem⟩, ht⟩
    rwa [Set.sdiff_singleton_eq_self hmem]

theorem drainGetWr_spec (hB : B.Sound)
    (hT : T → (B.mode i).cqesOk = true ∧ (B.mode i).timely = true) (remaining : ℤ)
    (hidx : idx ∈ m₁.activeSlots) (hwr : wr < kvWrPerReq)
    (hopen : T → (m₁.wrSlots idx).done wr = false) (allOk : Bool) :
    B.Triple i (fun m v _ => DrainingGet B i T m₁ k idx wr allOk m v)
      (drainGetWr remaining idx wr allOk)
      (fun allOk m v _ => DrainingGet B i T m₁ k idx (wr + 1) allOk m v) := by
  refine Setup.Triple.of_exists fun ⟨h, fly, rest⟩ hd => ?_
  have hd : DrainedGet T m₁ idx wr allOk h fly rest := hd
  have hfly : T → (idx, wr) ∈ fly := by
    intro hTT
    rw [hd.whole hTT]
    exact ⟨⟨hidx, hwr, hopen hTT⟩, fun hmem => absurd hmem.2 (lt_irrefl wr)⟩
  unfold drainGetWr
  refine Track.get_bind fun ev look => ?_
  refine Setup.Triple.bind (wait_track_any hB remaining) fun b => ?_
  refine Setup.Triple.of_exists fun fly' hfly' => ?_
  have hsub : fly' ⊆ flyOf m₁ \ firstWrs idx (wr + 1) := by
    rw [sdiff_firstWrs_succ]
    exact hfly'.1.trans (Set.sdiff_subset_sdiff_left hd.under)
  have hwhole : T → fly' = flyOf m₁ \ firstWrs idx (wr + 1) := by
    intro hTT
    rw [sdiff_firstWrs_succ, ← hd.whole hTT]
    exact (hfly'.2 (hfly hTT)).1
  cases b with
  | true =>
    simp only [if_true]
    refine Track.now_bind fun t => Track.modify_bind (fun _ _ _ => rfl) (fun g hg => hg) ?_
    refine Setup.Triple.pure fun m v n ht => ⟨(_, _, _), ⟨hd.fine, ?_, ?_, hsub, hwhole, ?_⟩, ht⟩
    · intro hTT
      exact (hd.wrs hTT).trans (Grown.one _ _)
    · intro hc wr' hlt
      rcases Nat.lt_succ_iff_lt_or_eq.1 hlt with hlt | rfl
      · exact Set.mem_insert_of_mem _ (hd.seen hc wr' hlt)
      · exact Set.mem_insert _ _
    · intro hTT
      exact compl_sdiff_firstWrs_succ (hd.rest hTT)
  | false =>
    have hno : ¬ T := fun hTT => (hfly'.2 (hfly hTT)).2 rfl (hT hTT)
    simp only [Bool.false_eq_true, if_false]
    refine Track.say_bind (.inl trivial) (Setup.Triple.pure fun m v n ht =>
      ⟨(h, fly', rest), ⟨?_, ?_, ?_, hsub, hwhole, ?_⟩, ht⟩)
    · exact fun hTT => absurd hTT hno
    · exact fun hTT => absurd hTT hno
    · exact fun hc => nomatch hc
    · exact fun hTT => absurd hTT hno

/-- A request all of whose waits succeeded. -/
theorem closeGet_spec (size : ℕ) (hrest : ∀ wr < kvWrPerReq, (idx, wr) ∈ rest) :
    B.Triple i (fun m v _ => Track B i T m₂ fly rest k m v) (closeGet size idx)
      (fun _ m v _ => ∃ ns, ∃ g, Tracks m₂.wrSlots fly rest k g ∧
        Near B i T (counted size ns m₂) (g.shut idx kvSendsPerReq) m v) := by
  unfold closeGet
  refine Setup.Triple.bind (countDrained_spec size idx) fun _ => Setup.Triple.of_some fun ns => ?_
  refine Setup.Triple.of_exists fun g hg => ?_
  refine (Setup.Triple.each (fun j _ m v _ => Near B i T (counted size ns m₂) (g.shut idx j) m v)
    (fun j _ _ hj => ?_) ()).conseq (fun m v n _ h => ?_) fun _ m v n _ h => ?_
  · refine Near.get_bind fun ev look => ?_
    rw [← Ghost.setLane_shut]
    refine Near.release ?_ ?_
    · show (if idx = idx ∧ j < j then none else g.lane (.slot idx j)) = _
      rw [if_neg (by simp), hg.lane]
    · refine hg.idle_of_send fun wr hwr => hrest wr ?_
      rw [Nat.zero_add] at hj
      unfold kvWrPerSend kvSendsPerReq kvWrPerReq at *
      omega
  · rwa [Ghost.shut_zero]
  · rw [Nat.zero_add] at h
    exact ⟨ns, g, hg, h⟩

variable (B i T) in
/-- The get drain between two requests. -/
def GetLeft (size : ℕ) (base : Worker) (k total failures : ℕ) (m : Worker) (v : View) : Prop :=
  ∃ x : Worker × Set (ℕ × ℕ) × Set (ℕ × ℕ), (Left B i T size base total failures x.2.2 x.1 ∧
      (x.2.1 ⊆ flyOf x.1 ∧ (T → x.2.1 = flyOf x.1)) ∧
      (T → ∀ idx ∈ x.1.activeSlots, ∀ wr < kvWrPerReq, (x.1.wrSlots idx).done wr = false)) ∧
    Track B i T x.1 x.2.1 x.2.2 k m v

/-- The end of a round of the get drain: the slot is cleared and goes back to the free stack. `m₂`
is the memory once the request has been counted, or not. -/
theorem drainGetRound_end {fly rest rest' : Set (ℕ × ℕ)} {tail : List ℕ} {failures' : ℕ} {g : Ghost}
    (hleft : Left B i T size base total failures rest m₁)
    (hopen : T → ∀ idx ∈ m₁.activeSlots, ∀ wr < kvWrPerReq, (m₁.wrSlots idx).done wr = false)
    (hact : m₁.activeSlots = idx :: tail) (hid : m₂.id = m₁.id)
    (hactive : m₂.activeSlots = m₁.activeSlots) (hfree : m₂.freeSlots = m₁.freeSlots)
    (hslots : m₂.wrSlots = m₁.wrSlots) (hfaults : m₂.faults = m₁.faults)
    (hfly : fly ⊆ flyOf m₁ \ firstWrs idx kvWrPerReq)
    (hwhole : T → fly = flyOf m₁ \ firstWrs idx kvWrPerReq)
    (hg : Tracks m₂.wrSlots fly rest' k g)
    (hrest : T → (flyOf m₁ \ firstWrs idx kvWrPerReq)ᶜ ⊆ rest')
    (hbooks : T → failures = 0 → failures' = 0 ∧ m₂.ops = m₁.ops + 1 ∧
      m₂.bytes = m₁.bytes + size * kvSendsPerReq ∧ m₂.errors = m₁.errors ∧
      Grown m₁.histReq m₂.histReq 1 ∧ Grown m₁.histWr m₂.histWr kvWrPerReq) :
    B.Triple i (fun m v _ => Near B i T m₂ (g.shut idx kvSendsPerReq) m v)
      (modify (setSlot idx fun s => { s with jetty := fun _ => none, active := false }) >>= fun _ =>
        modify (retire idx 0) >>= fun _ => pure (.inl failures' : ℕ ⊕ ℕ))
      (Sum.elim
        (fun failures m v _ => GetLeft B i T size base k total failures m v ∧
          m.activeSlots.length < m₁.activeSlots.length)
        (fun failures m v _ => DrainedAll B i T size base k total failures m v)) := by
  have hs := hleft.slots
  have hg := hg.shut idx fun send hsend => by rw [hslots]; exact hs.beyond idx send hsend
  set m₃ := setSlot idx (fun s => { s with jetty := fun _ => none, active := false }) m₂ with hm₃
  have hret : Retired idx 0 m₁ (retire idx 0 m₃) := by
    refine retired_of_cleared (by simp [hact]) hid hactive hfree ?_ ?_ hfaults
    · intro idx' hi
      rw [hm₃, wrSlots_setSlot_of_ne _ _ hi, hslots]
    · intro send
      rw [hm₃, wrSlots_setSlot_self]
  refine Near.modify_bind (fun _ _ _ => rfl) (Near.modify_bind (fun _ _ _ => rfl) ?_)
  rw [← flyOf_of_retired hret hs] at hfly hwhole
  refine Setup.Triple.pure fun m v n ht => ⟨⟨(retire idx 0 m₃, fly, rest'),
    ⟨hleft.retire hret hrest ?_, ⟨hfly, hwhole⟩, ?_⟩, _, hg, ht⟩, ?_⟩
  · intro hT fin hf hl
    obtain ⟨hf', hops, hbytes, herrors, hreq, hwr⟩ := hbooks hT hf
    refine ⟨hf', hl.retire hs hret ?_ hops hbytes herrors hreq hwr⟩
    have hnone : harvested (m₁.wrSlots idx) = 0 := by
      refine Finset.card_eq_zero.2 (Finset.filter_eq_empty_iff.2 ?_)
      intro wr hwr hdone
      rw [hopen hT idx hret.mem wr (Finset.mem_range.1 hwr)] at hdone
      cases hdone
    rw [hs.count idx hret.mem, hnone, Nat.add_zero]
  · intro hT idx' hidx' wr' hwr'
    obtain ⟨hmem, hne⟩ := (hret.mem_iff hs idx').1 hidx'
    show ((retire idx 0 m₃).wrSlots idx').done wr' = false
    rw [hret.other idx' hne]
    exact hopen hT idx' hmem wr' hwr'
  · rw [ht.mem.activeSlots, hret.length]
    exact Nat.lt_succ_self _

/-- One request of the get drain. -/
theorem drainGetRound_spec (hB : B.Sound)
    (hT : T → (B.mode i).cqesOk = true ∧ (B.mode i).timely = true) {args : Argument}
    (drainDeadline : ℕ) (m₀ : Worker) :
    B.Triple i (fun m v _ => m = m₀ ∧ GetLeft B i T args.valueSize base k total failures m v)
      (drainGetRound args drainDeadline failures)
      (Sum.elim
        (fun failures m v _ => GetLeft B i T args.valueSize base k total failures m v ∧
          m.activeSlots.length < m₀.activeSlots.length)
        (fun failures m v _ => DrainedAll B i T args.valueSize base k total failures m v)) := by
  refine Setup.Triple.pre (P := fun m v _ => ∃ x : Worker × Set (ℕ × ℕ) × Set (ℕ × ℕ),
    ((Left B i T args.valueSize base total failures x.2.2 x.1 ∧
      (x.2.1 ⊆ flyOf x.1 ∧ (T → x.2.1 = flyOf x.1)) ∧
      (T → ∀ idx ∈ x.1.activeSlots, ∀ wr < kvWrPerReq, (x.1.wrSlots idx).done wr = false)) ∧
        x.1.activeSlots = m₀.activeSlots) ∧
      Track B i T x.1 x.2.1 x.2.2 k m v) ?_ ?_
  · refine Setup.Triple.of_exists fun ⟨m₁, fly, rest⟩ ⟨⟨hleft, ⟨hfly, hwhole⟩, hopen⟩, hA⟩ => ?_
    have hA : m₁.activeSlots = m₀.activeSlots := hA
    have hfly : fly ⊆ flyOf m₁ := hfly
    have hwhole : T → fly = flyOf m₁ := hwhole
    rw [← hA]
    unfold drainGetRound
    refine Track.get_bind fun ev look => ?_
    generalize hlen : m₁.activeSlots.length = len
    dsimp only
    rcases hact : m₁.activeSlots with _ | ⟨idx, tail⟩
    · rw [flyOf_of_nil hact, Set.subset_empty_iff] at hfly
      exact Setup.Triple.pure fun m v n h => ⟨(m₁, rest), ⟨hleft, hact⟩, hfly ▸ h⟩
    rw [← hlen]
    have hidx : idx ∈ m₁.activeSlots := by simp [hact]
    have hwaits : ∀ remaining,
        B.Triple i (fun m v _ => DrainingGet B i T m₁ k idx 0 true m v)
          (Proc.each (drainGetWr remaining idx) 0 kvWrPerReq true)
          (fun allOk m v _ => DrainingGet B i T m₁ k idx (0 + kvWrPerReq) allOk m v) := by
      intro remaining
      refine Setup.Triple.each (fun wr allOk m v _ => DrainingGet B i T m₁ k idx wr allOk m v)
        (fun wr allOk _ hwr => ?_) true
      have hwr : wr < kvWrPerReq := by simpa using hwr
      exact drainGetWr_spec hB hT remaining hidx hwr (fun hTT => hopen hTT idx hidx wr hwr) allOk
    refine Track.now_bind fun t => Setup.Triple.bind ((hwaits _).pre ?_) ?_
    · intro m v n _ h
      refine ⟨(m₁.histWr, fly, rest), ⟨fun _ => rfl, fun _ => Grown.refl _, ?_, ?_, ?_, ?_⟩, h⟩
      · intro _ wr' hlt
        exact absurd hlt (Nat.not_lt_zero _)
      · rwa [firstWrs_zero, Set.sdiff_empty]
      · rwa [firstWrs_zero, Set.sdiff_empty]
      · intro hTT
        rw [firstWrs_zero, Set.sdiff_empty]
        exact hleft.rest hTT
    · intro allOk
      refine Setup.Triple.of_exists fun ⟨h, fly', rest'⟩ hd => ?_
      rw [Nat.zero_add] at hd
      dsimp only
      refine Setup.Triple.ite (fun hc => ?_) fun hc => ?_
      · refine Setup.Triple.bind (closeGet_spec args.valueSize (hd.seen hc)) fun _ =>
          Setup.Triple.of_some fun ns => Setup.Triple.of_exists fun g hg => ?_
        refine drainGetRound_end hleft hopen hact rfl rfl rfl rfl rfl hd.under hd.whole hg hd.rest ?_
        intro hTT hf
        refine ⟨?_, rfl, rfl, rfl, Grown.one _ ns, hd.wrs hTT⟩
        rw [if_pos hc]
        exact hf
      · have hno : ¬ T := fun hTT => hc (hd.fine hTT)
        refine Setup.Triple.of_exists fun g hg => ?_
        have hid : ({ m₁ with histWr := h } : Worker).id = m₁.id := rfl
        refine (drainGetRound_end hleft hopen hact hid rfl rfl rfl rfl hd.under hd.whole hg hd.rest
          fun hTT => absurd hTT hno).pre ?_
        rintro m v n - ⟨hmem, hcore⟩
        exact ⟨hmem, hcore.quarantine hno fun σ l => g.shut_sub⟩
  · rintro m v n - ⟨rfl, x, hx, ht⟩
    exact ⟨x, ⟨hx, ht.mem.activeSlots.symm⟩, ht⟩

/-- **The get drain** ends. -/
theorem drainGet_spec (hB : B.Sound)
    (hT : T → (B.mode i).cqesOk = true ∧ (B.mode i).timely = true) {args : Argument}
    (drainDeadline failures : ℕ) :
    B.Triple i (fun m v _ => GetLeft B i T args.valueSize base k total failures m v)
      (Proc.loop (drainGetRound args drainDeadline) failures)
      (fun failures m v _ => DrainedAll B i T args.valueSize base k total failures m v) :=
  Setup.Triple.loop (fun failures m v _ => GetLeft B i T args.valueSize base k total failures m v)
    (fun _ m _ => m.activeSlots.length) (fun _ m₀ _ => (drainGetRound_spec hB hT drainDeadline
      m₀).pre fun _ _ _ _ h => ⟨h.1, h.2.2⟩) failures

end GetDrain

end KvBench.Bench
