import KvBench.Bench.Undo
import KvBench.Bench.Window

/-!
# A call that gives up leaves nothing behind

`post_one_req` and `post_one_get` return `-1` when they find no lane, no event slot, or when liburma
refuses a work request. `rollback_complete` says what the worker and the shared state look like then,
wherever the call failed and whatever becomes of the work requests it had posted.

Two descriptions of the call are put together. What the discipline of the workers says about it
(`postOne_spec`) accounts for the event slots, and the exact account (`postOne_acts`) for the lanes
and the fates of the work requests. That the event slots can be used up at all is an assumption: some
of them are in use elsewhere from the start (`scarceClient`).
-/

namespace KvBench.Bench

open KvBench.Conc KvBench.Events KvBench.Hist KvBench.Lanes

/-! ### The lanes of a call that gave up -/

/-- A count of the only index with a property. -/
theorem count_eq_one {q : ℕ → Prop} [DecidablePred q] {S s : ℕ} (hs : s < S) (hq : q s)
    (huniq : ∀ s' < S, q s' → s' = s) : Nat.count q S = 1 := by
  have honly : (Finset.range S).filter q = {s} := by
    ext s'
    rw [Finset.mem_filter, Finset.mem_range, Finset.mem_singleton]
    constructor
    · rintro ⟨hlt, hq'⟩
      exact huniq s' hlt hq'
    · rintro rfl
      exact ⟨hs, hq⟩
  rw [Nat.count_eq_card_filter_range, honly, Finset.card_singleton]

theorem count_eq_zero {q : ℕ → Prop} [DecidablePred q] {S : ℕ} (hnone : ∀ s < S, ¬ q s) :
    Nat.count q S = 0 := by
  rw [Nat.count_eq_card_filter_range, Finset.card_eq_zero, Finset.filter_eq_empty_iff]
  intro s hs
  exact hnone s (Finset.mem_range.1 hs)

section Undone

variable {F₀ F : Face} {h₀ h : Sheet} {idx k S : ℕ} {wr : ℕ → Wr} {lane : ℕ → Lane}
  {fate : ℕ → Fate}

/-- A lane that the call took, it took once; it was free of the worker before, and is given back
exactly when all work requests that were posted on it landed. -/
theorem Undone.taken (hU : Undone F₀ h₀ idx wr lane fate k S F h) {l : Lane}
    (hl : h₀.acquired l < h.acquired l) :
    h₀.acquired l = h₀.released l ∧ h.acquired l = h₀.acquired l + 1 ∧
      h.released l = h₀.released l +
        if ∀ p ∈ entries idx wr fate k, p.wr.lane = l → p.fate = .landed then 1 else 0 := by
  have hacq : h.acquired l = h₀.acquired l + Nat.count (lane · = l) S := by rw [hU.sheet]
  have hrel : h.released l = h₀.released l + givenBack lane fate k S l := by rw [hU.sheet]
  obtain ⟨s, hs, rfl⟩ : ∃ s < S, lane s = l := by
    by_contra hno
    push Not at hno
    rw [hacq, count_eq_zero hno] at hl
    omega
  have hone : Nat.count (lane · = lane s) S = 1 :=
    count_eq_one hs rfl fun s' hs' heq => hU.lanes s' hs' s hs heq
  -- the work requests on this lane are those of the send `s`
  have hsend : SendLanded fate k s ↔
      ∀ p ∈ entries idx wr fate k, p.wr.lane = lane s → p.fate = .landed := by
    constructor
    · rintro hlanded p hp hlane
      obtain ⟨j, hj, rfl⟩ := mem_entries.1 hp
      obtain ⟨hwr, hlt⟩ := hU.wrLane j hj
      exact hlanded j hj (hU.lanes _ hlt s hs (hwr.symm.trans hlane))
    · intro hall j hj hjs
      obtain ⟨hwr, -⟩ := hU.wrLane j hj
      refine hall ⟨.slot idx j, wr j, fate j⟩ (mem_entries.2 ⟨j, hj, rfl⟩) ?_
      rw [hwr]
      exact congrArg lane hjs
  refine ⟨hU.idle s hs, by rw [hacq, hone], ?_⟩
  rw [hrel]
  congr 1
  by_cases hlanded : SendLanded fate k s
  · rw [if_pos (hsend.1 hlanded)]
    exact count_eq_one hs ⟨rfl, hlanded⟩ fun s' hs' heq => hU.lanes s' hs' s hs heq.1
  · rw [if_neg fun hc => hlanded (hsend.2 hc)]
    refine count_eq_zero ?_
    rintro s' hs' ⟨heq, hlanded'⟩
    rw [hU.lanes s' hs' s hs heq] at hlanded'
    exact hlanded hlanded'

end Undone

/-! ### The event slots of a worker -/

section Track

variable {B : Setup} {i : Fin B.n} {T : Prop} {m₀ m : Worker} {v : View} {k : ℕ}
  {fly rest : Set (ℕ × ℕ)}

/-- The free event slots are those that no work request under way uses. -/
theorem Track.mem_free (h : Track B i T m₀ fly rest k m v) (n : ℕ) :
    n ∈ m.ev.freeSlots ↔
      (n < 256 ∧ n ∉ B.taken) ∧ ∀ a ∈ fly, index ((m₀.wrSlots a.1).eventToken a.2) ≠ n := by
  obtain ⟨g, hg, -, hcore⟩ := h
  rw [hcore.free]
  refine and_congr_right fun _ => ⟨fun hall a ha => ?_, fun hall ρ t ht => ?_⟩
  · refine hall (.slot a.1 a.2) _ ?_
    rw [(hg.fly a.1 a.2).1 ha]
    rfl
  · obtain ⟨idx, wr, -, hfly, rfl, -⟩ := hg.posted_of_live ht
    exact hall (idx, wr) hfly

theorem Track.nodup (h : Track B i T m₀ fly rest k m v) : m.ev.freeSlots.Nodup := by
  obtain ⟨g, -, -, hcore⟩ := h
  exact hcore.nodup

theorem Track.zero (h : Track B i T m₀ fly rest k m v) {n : ℕ} (hn : n ∈ m.ev.freeSlots) :
    v.states n = 0 := by
  obtain ⟨g, -, -, hcore⟩ := h
  exact hcore.zero n (.inl hn)

theorem Track.evOk (h : Track B i T m₀ fly rest k m v) : m.EvOk :=
  fun n hn => ((h.mem_free n).1 hn).1.1

/-- A posted work request that is pending is under way. -/
theorem Track.mem_fly (h : Track B i T m₀ fly rest k m v) {p : Posted} (hp : p ∈ v.posted)
    (hpend : p.fate = .pending) {idx wr : ℕ} (hid : p.id = .slot idx wr) : (idx, wr) ∈ fly := by
  obtain ⟨g, hg, -, hcore⟩ := h
  have htok := (hcore.awaits (.slot idx wr) p.wr.token).2 ⟨p, hp, hid, hpend, rfl⟩
  rcases hg.tok idx wr with ht | ht | ht
  · rw [ht] at htok
    cases htok
  · exact (hg.fly idx wr).2 ht
  · rw [ht] at htok
    cases htok

/-- A live token is that of a pending work request. -/
theorem Track.awaits (h : Track B i T m₀ fly rest k m v) {t : ℕ}
    (ht : t ∈ Bench.liveTokens v.states) : ∃ p ∈ v.posted, p.fate = .pending ∧ p.wr.token = t := by
  rw [h.liveTokens] at ht
  obtain ⟨⟨idx, wr⟩, hfly, rfl⟩ := ht
  obtain ⟨g, hg, -, hcore⟩ := h
  obtain ⟨p, hp, -, hpend, htok⟩ := (hcore.awaits _ _).1 ((hg.fly idx wr).1 hfly)
  exact ⟨p, hp, hpend, htok⟩

/-- The event slots depend on the work requests under way only. -/
theorem Track.same_events {T' : Prop} {m₁ m' : Worker} {v' : View} {rest' : Set (ℕ × ℕ)} {k' : ℕ}
    (h : Track B i T m₀ fly rest k m v) (h' : Track B i T' m₁ fly rest' k' m' v')
    (hsame : ∀ a ∈ fly, m₁.wrSlots a.1 = m₀.wrSlots a.1) :
    m'.ev.freeSlots.Perm m.ev.freeSlots ∧
      Bench.liveTokens v'.states = Bench.liveTokens v.states := by
  constructor
  · refine (List.perm_ext_iff_of_nodup h'.nodup h.nodup).2 fun n => ?_
    rw [h.mem_free, h'.mem_free]
    refine and_congr_right fun _ => forall₂_congr fun a ha => ?_
    rw [hsame a ha]
  · rw [h.liveTokens, h'.liveTokens]
    ext t
    refine exists_congr fun a => and_congr_right fun ha => ?_
    rw [hsame a ha]

end Track

/-! ### The calls of a client -/

/-- The same setting, in which the worker's account is looked at where it calls a post function. -/
def Setup.watched (B : Setup) : Setup :=
  { B with watch := fun w place m v => ∀ h : w < B.n, AtPlace B ⟨w, h⟩ place m v }

section Watched

variable {B : Setup} {i : Fin B.n} {T : Prop} {m₀ m : Worker} {v : View} {k : ℕ}
  {fly rest : Set (ℕ × ℕ)}

theorem Core.watched_iff {ev : EventSlots} {g : Ghost} :
    Core B.watched i T ev g v ↔ Core B i T ev g v :=
  ⟨fun h => ⟨h.nodup, h.free, h.zero, h.valid, h.small, h.inj, h.fresh, h.posted, h.awaits, h.holds,
    h.outs, h.tidy, h.posts⟩, fun h => ⟨h.nodup, h.free, h.zero, h.valid, h.small, h.inj, h.fresh,
    h.posted, h.awaits, h.holds, h.outs, h.tidy, h.posts⟩⟩

theorem Track.watched_iff :
    Track B.watched i T m₀ fly rest k m v ↔ Track B i T m₀ fly rest k m v := by
  refine exists_congr fun g => and_congr_right fun _ => ?_
  exact ⟨fun h => ⟨h.mem, Core.watched_iff.1 h.core⟩, fun h => ⟨h.mem, Core.watched_iff.2 h.core⟩⟩

theorem AtPlace.watched {place : Place} (h : AtPlace B.watched i place m v) :
    AtPlace B i place m v := by
  cases place with
  | noFreeSlot => exact h
  | call idx reqSeq =>
    obtain ⟨x, hx, ht⟩ := h
    exact ⟨x, hx, Track.watched_iff.1 ht⟩
  | head reqActive =>
    obtain ⟨x, hx, ht⟩ := h
    exact ⟨x, hx, Track.watched_iff.1 ht⟩
  | send reqActive =>
    obtain ⟨x, hx, ht⟩ := h
    exact ⟨x, hx, Track.watched_iff.1 ht⟩
  | harvest pos reqActive =>
    obtain ⟨x, hx, ht⟩ := h
    exact ⟨x, hx, Track.watched_iff.1 ht⟩

end Watched

/-- The client whose workers find the event slots `taken` in use. -/
def scarceClient (ctx : Context) (hist : KvHist) (n lanes : ℕ) (taken : List ℕ) :
    Conf (Fin n) Worker Sys Act (Unit × Worker) :=
  start lanes (fun _ => clientWorkerMain ctx)
    fun i => { createWorker ctx.args hist i with ev := .without taken }

/-- Its setting. -/
def Setup.scarce (args : Argument) (n lanes N : ℕ) (taken : List ℕ) : Setup :=
  { Setup.plain args n lanes (fun _ => .any) (.grace N) with taken := taken }

section Scarce

variable (ctx : Context) (hist : KvHist) {n : ℕ} (lanes : ℕ) (taken : List ℕ)

theorem Setup.scarce_sound (args : Argument) (hn : n ≤ 1024) (N : ℕ) :
    (Setup.scarce args n lanes N taken).watched.Sound :=
  ⟨hn, slotCount_le args, Pace.grace_live N, False.elim, False.elim⟩

theorem Pipe.scarce_covered (p : Pipe) (N : ℕ) :
    p.Covered (Setup.scarce ctx.args n lanes N taken).watched ctx :=
  fun _ _ _ _ _ _ _ => trivial

theorem Context.scarce_fits (N : ℕ) :
    ctx.Fits (Setup.scarce ctx.args n lanes N taken).watched fun _ => True :=
  Context.fits_of_good rfl (fun _ _ => trivial) (fun _ _ _ _ h _ => h.watched) id

theorem scarceClient_good (hn : n ≤ 1024) {N : ℕ}
    {c : Conf (Fin n) Worker Sys Act (Unit × Worker)}
    (hr : Reachable (bench n (fun _ => .any) (.grace N)) (scarceClient ctx hist n lanes taken) c) :
    c.Good (Setup.scarce ctx.args n lanes N taken).watched.judgement fun _ _ _ => True := by
  have hB := Setup.scarce_sound lanes taken ctx.args hn N
  have hstart : (scarceClient ctx hist n lanes taken).Good
      (Setup.scarce ctx.args n lanes N taken).watched.judgement fun _ _ _ => True :=
    Setup.good_start_without (B := (Setup.scarce ctx.args n lanes N taken).watched)
      (Q := fun _ _ _ _ => True) (fun _ => rfl)
      fun i => clientWorkerMain_rested hB (ctx.scarce_fits lanes taken N)
        ⟨rfl, rfl, rfl, List.reverse_perm _, rfl⟩
  exact hstart.reachable (fun i _ => (Setup.Steady.const True).stable) hB.env hr

end Scarce

/-! ### The lanes that a worker takes exist -/

section Exist

variable {B : Setup} {s : Sys} {bound : ℕ → Lane → ℕ}

/-- An action keeps to the lanes of the pool. -/
theorem Inv.acquired_run (h : Inv B s) (hs : ∀ w l, bound w l < s.acquired w l → l < B.lanes)
    {β : Type} (v : ℕ) (o : Oracle) (e : Act β) :
    ∀ w l, bound w l < (e.run v o s).2.acquired w l → l < B.lanes := by
  cases e with
  | popIdle send =>
    intro w l
    unfold Act.run
    dsimp only
    split
    · exact hs w l
    · rename_i l' hl'
      have hlt := ((h.idle l').1 (h.mem_idle_of_popIdle hl')).1
      show bound w l < Function.update s.acquired v _ w l → _
      by_cases hw : w = v
      · subst hw
        rw [Function.update_self]
        by_cases hl : l = l'
        · subst hl
          exact fun _ => hlt
        · rw [Function.update_of_ne hl]
          exact hs w l
      · rw [Function.update_of_ne hw]
        exact hs w l
  | post id wr =>
    unfold Act.run
    dsimp only
    split <;> exact hs
  | _ => exact hs

/-- The lanes taken in a run are lanes of the pool. -/
theorem acquired_lt_of_reachable {α : Type} {c₀ c : Conf (Fin B.n) Worker Sys Act α}
    (hgood : ∀ c, Reachable (bench B.n B.mode B.pace) c₀ c → Inv B c.state)
    (hr : Reachable (bench B.n B.mode B.pace) c₀ c) (w : ℕ) (l : Lane)
    (hl : c₀.state.acquired w l < c.state.acquired w l) : l < B.lanes := by
  have hboth : Reachable (bench B.n B.mode B.pace) c₀ c ∧
      ∀ w l, c₀.state.acquired w l < c.state.acquired w l → l < B.lanes := by
    refine hr.induct (P := fun c => Reachable (bench B.n B.mode B.pace) c₀ c ∧
      ∀ w l, c₀.state.acquired w l < c.state.acquired w l → l < B.lanes) ⟨.refl _ _, ?_⟩ ?_
    · exact fun w l hlt => absurd hlt (lt_irrefl _)
    · rintro c mv ⟨hc, hacq⟩ hen
      refine ⟨hc.play hen, ?_⟩
      cases mv with
      | env e => cases e <;> exact hacq
      | thread v o =>
        unfold Conf.play
        dsimp only
        split
        · exact hacq
        · exact (hgood c hc).acquired_run hacq v o _
        · exact hacq
  exact hboth.2 w l hl

end Exist

/-! ### The call -/

/-- What a call of a post function for the slot `idx` that returned `-1` leaves behind. The worker `w`
made it with the memory `m` in the state `s` and returned with `m'` in `s'`; `new` are the work
requests it had posted. -/
structure CallUndone (w idx : ℕ) (m : Worker) (s : Sys) (new : List Posted) (m' : Worker)
    (s' : Sys) : Prop where
  posted : s'.posted w = new ++ s.posted w
  /-- The event slots that were free are free again, and empty. -/
  freeEvents : m'.ev.freeSlots.Perm m.ev.freeSlots
  emptyEvents : ∀ k ∈ m'.ev.freeSlots, s'.states w k = 0
  liveTokens : liveTokens (s'.states w) = liveTokens (s.states w)
  dead : ∀ p ∈ new, p.fate ≠ .pending ∧ p.wr.token ∉ Bench.liveTokens (s'.states w)
  /-- A lane of the call on which everything landed has been given back once, and unless another
  worker has taken it since, it is in the idle queue once. -/
  returned : ∀ l, s.acquired w l < s'.acquired w l →
    (∀ p ∈ new, p.wr.lane = l → p.fate = .landed) →
      s'.released w l = s.released w l + 1 ∧ (∀ σ, (w, σ) ∉ s'.holders l) ∧
        (s'.lanes.idle.count l = 1 ∨ ∃ v σ, v ≠ w ∧ (v, σ) ∈ s'.holders l)
  /-- Every other lane of the call is kept from use. -/
  kept : ∀ l, s.acquired w l < s'.acquired w l →
    ¬ (∀ p ∈ new, p.wr.lane = l → p.fate = .landed) → l ∉ s'.lanes.idle
  noJetty : ∀ send, (m'.wrSlots idx).jetty send = none
  inactive : (m'.wrSlots idx).active = false
  activeSlots : m'.activeSlots = m.activeSlots
  otherSlots : ∀ idx', idx' ≠ idx → m'.wrSlots idx' = m.wrSlots idx'

section Lanes

variable {B : Setup} {s : Sys} {w : ℕ} {l : Lane}

/-- A lane that the worker has given back as often as it took it. -/
theorem Inv.idle_or_taken (h : Inv B s) (hlt : l < B.lanes)
    (hbal : s.acquired w l = s.released w l) :
    (∀ σ, (w, σ) ∉ s.holders l) ∧
      (s.lanes.idle.count l = 1 ∨ ∃ v σ, v ≠ w ∧ (v, σ) ∈ s.holders l) := by
  have hnone : (s.holders l).countP (·.1 = w) = 0 := by
    have := h.balance w l
    omega
  have hnot : ∀ σ, (w, σ) ∉ s.holders l := by
    intro σ hσ
    have := List.countP_eq_zero.1 hnone _ hσ
    simp at this
  refine ⟨hnot, ?_⟩
  rcases hl : s.holders l with _ | ⟨⟨v, σ⟩, rest⟩
  · left
    exact List.count_eq_one_of_mem h.lanes.idle_nodup ((h.idle l).2 ⟨hlt, hl⟩)
  · right
    refine ⟨v, σ, ?_, by simp⟩
    rintro rfl
    exact hnot σ (by simp [hl])

/-- A lane that it has not given back is not idle. -/
theorem Inv.not_idle (h : Inv B s) (hbal : s.released w l < s.acquired w l) :
    l ∉ s.lanes.idle := by
  intro hidle
  have := h.balance w l
  rw [((h.idle l).1 hidle).2] at this
  simp at this
  omega

end Lanes

section Call

variable {B : Setup} {ctx : Context} {p : Pipe} {α : Type} {Q : Fin B.n → α → Sys → Prop}
  {c : Conf (Fin B.n) Worker Sys Act α} {c' : Conf (Fin B.n) Worker Sys Act (Option (ℤ × Worker))}
  {w : Fin B.n} {m m' m₁ : Worker} {idx reqSeq k : ℕ} {F : List ℕ}

theorem GivenUp.steady (i : Fin B.n) (m₀ : Worker) (fly : Set (ℕ × ℕ)) (idx : ℕ) (m : Worker) :
    B.Steady i (GivenUp B i m₀ fly idx m) :=
  Setup.Steady.exists fun _ => (Setup.Steady.const _).and (Track.steady _ _ _ _ m)

/-- The call, according to the discipline. -/
theorem call_good (hB : B.watched.Sound) (hcov : p.Covered B.watched ctx)
    (hgood : c.Good B.watched.judgement Q) (hs : Slots B.slots w m₁)
    (hF : m₁.freeSlots = idx :: F)
    (ht : Track B w (B.Healthy w) { m₁ with freeSlots := F } (flyOf m₁) (flyOf m₁)ᶜ k m
      (c.state.view w))
    (hr : Reachable (bench B.n B.mode B.pace) (c.detour w (postOne ctx p idx reqSeq m)) c') :
    c'.Good B.watched.judgement fun j r s => j = w → ∀ b ∈ r,
      b.1 = -1 → GivenUp B.watched w { m₁ with freeSlots := F } (flyOf m₁) idx b.2 (s.view w) := by
  have hnot := hs.head_notMem hF
  have hmem : idx ∈ m₁.activeSlots ++ m₁.freeSlots := by simp [hF]
  have hspec : B.watched.Triple w
      (fun m v _ => Track B.watched w (B.watched.Healthy w) { m₁ with freeSlots := F } (flyOf m₁)
        (flyOf m₁)ᶜ k m v) (postOne ctx p idx reqSeq)
      fun rc m v _ => rc = -1 →
        GivenUp B.watched w { m₁ with freeSlots := F } (flyOf m₁) idx m v := by
    have hid : ({ m₁ with freeSlots := F } : Worker).id = w := hs.id
    refine (postOne_spec ctx p reqSeq hB hcov hid (hs.lt hmem) ?_ ?_ subset_rfl
      (hs.empty idx hnot) ?_).post ?_
    · exact fun wr hfly => hnot hfly.1
    · rintro a ha rfl
      exact hnot ha.1
    · intro m v h _
      exact ⟨(m₁, F, k), ⟨hs, hF⟩, Track.watched_iff.1 h⟩
    · rintro rc m v n - (⟨rfl, -⟩ | ⟨-, h⟩) hrc
      · cases hrc
      · exact h
  have hok := hspec.holds m ⟨c.state, c.time w, hgood.inv⟩ (Track.watched_iff.2 ht)
  refine (hgood.detour hok).reachable ?_ hB.env hr
  intro j r s s' hinv hP hrely hinv' hj b hb hrc
  subst hj
  exact (GivenUp.steady j _ _ _ _).stable s s' hinv (hP rfl b hb hrc) hrely hinv'

/-- The call, in detail. -/
theorem call_sheet (hm : m.EvOk)
    (hgood : ∀ c', Reachable (bench B.n B.mode B.pace) (c.detour w (postOne ctx p idx reqSeq m)) c' →
      ∃ Q, c'.Good B.watched.judgement Q)
    (hr : Reachable (bench B.n B.mode B.pace) (c.detour w (postOne ctx p idx reqSeq m)) c')
    (hres : c'.result w = some (some (-1, m'))) :
    GaveUp m.face (sheetOf w c.state) idx m'.face (sheetOf w c'.state) := by
  have hfact : ∀ c', Reachable (bench B.n B.mode B.pace)
      (c.detour w (postOne ctx p idx reqSeq m)) c' →
      Factual sheets (bench B.n B.mode B.pace) (fun (i : Fin B.n) s => sheetOf i s) c' := by
    intro c' hc'
    obtain ⟨Q, hQ⟩ := hgood c' hc'
    exact factual_of_good (B := B.watched) hQ
  have hacts : Acts m.face (sheetOf w c.state) (postOne ctx p idx reqSeq) fun rc F' h' =>
      rc = -1 → GaveUp m.face (sheetOf w c.state) idx F' h' := by
    refine (postOne_acts reqSeq).post ?_
    rintro rc F' h' (⟨rfl, -⟩ | ⟨-, h⟩) hrc
    · cases hrc
    · exact h
  have hstart : (c.detour w (postOne ctx p idx reqSeq m)).Safe sheets
      (fun (i : Fin B.n) s => sheetOf i s) fun j r h => j = w → ∀ b ∈ r,
        b.1 = -1 → GaveUp m.face (sheetOf w c.state) idx b.2.face h := by
    refine Conf.Safe.detour (fun _ _ _ => trivial) c ?_
    exact sheets.safe.mono (hacts.holds m _ ⟨hm, rfl, rfl⟩) fun am h hQ => hQ.2
  exact (hr.safe hstart (recorded_sheets B.n B.mode B.pace) hfact).result hres rfl _ rfl rfl

/-- The two accounts together. -/
theorem CallUndone.of_accounts {i : Fin B.n} {T T' : Prop} {s s' : Sys} (hinv : Inv B s')
    (hacq : ∀ l, s.acquired i l < s'.acquired i l → l < B.lanes)
    (ht : Track B i T m₁ (flyOf m₁) (flyOf m₁)ᶜ k m (s.view i)) (hidx : idx ∉ m₁.activeSlots)
    {m₂ : Worker} {rest : Set (ℕ × ℕ)} {k' : ℕ} (hback : RolledBack idx m₁ m₂)
    (ht' : Track B i T' m₂ (flyOf m₁) rest k' m' (s'.view i))
    (hsheet : GaveUp m.face (sheetOf i s) idx m'.face (sheetOf i s')) :
    ∃ new, CallUndone i idx m s new m' s' := by
  obtain ⟨wr, lane, fate, j, S, hU⟩ := hsheet
  have hposted : s'.posted i = entries idx wr fate j ++ s.posted i :=
    congrArg Sheet.posted hU.sheet
  have hother : ∀ a ∈ flyOf m₁, a.1 ≠ idx := by
    rintro a ha rfl
    exact hidx ha.1
  obtain ⟨hperm, hlive⟩ := ht.same_events ht' fun a ha => hback.slots a.1 (hother a ha)
  refine ⟨entries idx wr fate j, hposted, hperm, fun n hn => ht'.zero hn, hlive, ?_, ?_, ?_, ?_, ?_,
    ?_, ?_⟩
  · intro p hp
    obtain ⟨a, ha, rfl⟩ := mem_entries.1 hp
    constructor
    · intro hpend
      have hmem : (⟨.slot idx a, wr a, fate a⟩ : Posted) ∈ (s'.view i).posted := by
        show _ ∈ s'.posted i
        rw [hposted]
        exact List.mem_append_left _ hp
      exact hother _ (ht'.mem_fly hmem hpend rfl) rfl
    · intro hmem
      have hold : (wr a).token ∈ Bench.liveTokens (s.states i) := (Set.ext_iff.1 hlive _).1 hmem
      obtain ⟨q, hq, hpend, htok⟩ := ht.awaits hold
      exact hU.distinct.new a ha q hq hpend htok
  · intro l hl hlanded
    obtain ⟨hbal, htook, hgave⟩ := hU.taken hl
    have hgave : s'.released i l = s.released i l + 1 := by
      rw [if_pos hlanded] at hgave
      exact hgave
    have hbal : s.acquired i l = s.released i l := hbal
    have htook : s'.acquired i l = s.acquired i l + 1 := htook
    obtain ⟨hnot, hidle⟩ := hinv.idle_or_taken (hacq l hl) (w := i) (by omega)
    exact ⟨hgave, hnot, hidle⟩
  · intro l hl hlanded
    obtain ⟨hbal, htook, hgave⟩ := hU.taken hl
    have hgave : s'.released i l = s.released i l := by
      rw [if_neg hlanded] at hgave
      exact hgave
    have hbal : s.acquired i l = s.released i l := hbal
    exact hinv.not_idle (w := i) (by omega)
  · intro send
    rw [ht'.mem.wrSlots]
    exact hback.jettys send
  · rw [ht'.mem.wrSlots]
    exact hback.inactive
  · rw [ht'.mem.activeSlots, ht.mem.activeSlots]
    exact hback.active
  · intro idx' hne
    rw [ht'.mem.wrSlots, ht.mem.wrSlots]
    exact hback.slots idx' hne

end Call

/-- **Rollback is complete.** A client may have any number of its event slots in use elsewhere. Take
any state in which one of its workers calls a post function, and any run from there in which the call
returns `-1`. Then the call has left nothing behind. -/
theorem rollback_complete (ctx : Context) (hist : KvHist) {n : ℕ} (hn : n ≤ 1024) (lanes : ℕ)
    (taken : List ℕ) {c : Conf (Fin n) Worker Sys Act (Unit × Worker)}
    (hr : Reachable (bench n (fun _ => .any) .free) (scarceClient ctx hist n lanes taken) c)
    {w : Fin n} {m : Worker} {idx reqSeq : ℕ} {rest : Unit → Prog Worker Act (Unit × Worker)}
    (hcall : c.prog w = .act m (.visit (.call idx reqSeq)) rest) {post : ℕ → ℕ → Code ℤ}
    (hpost : post = postOneReq ctx ∨ post = postOneGet ctx)
    {c' : Conf (Fin n) Worker Sys Act (Option (ℤ × Worker))}
    (hr' : Reachable (bench n (fun _ => .any) .free) (c.detour w (post idx reqSeq m)) c')
    {m' : Worker} (hres : c'.result w = some (some (-1, m'))) :
    ∃ new, CallUndone w idx m c.state new m' c'.state := by
  obtain ⟨p, rfl⟩ : ∃ p, post = postOne ctx p := by
    rcases hpost with rfl | rfl
    · exact ⟨_, rfl⟩
    · exact ⟨_, rfl⟩
  -- one grace period for the run up to the call and for the call
  obtain ⟨T, hT⟩ := hr.exists_time_le (T := 0) fun _ => le_rfl
  obtain ⟨N₁, hN₁⟩ := eventually_grace hr (T := 0) fun _ => le_rfl
  obtain ⟨N₂, hN₂⟩ := eventually_grace hr' (T := T) hT
  have hr := hN₁ (max N₁ N₂) (le_max_left _ _)
  have hr' := hN₂ (max N₁ N₂) (le_max_right _ _)
  generalize max N₁ N₂ = N at hr hr'
  have hgood := scarceClient_good ctx hist lanes taken hn hr
  have hB := Setup.scarce_sound lanes taken ctx.args hn N
  -- the account of the worker at the call
  obtain ⟨⟨m₁, F, k⟩, ⟨hs, hF⟩, ht⟩ :
      AtPlace (Setup.scarce ctx.args n lanes N taken) w (.call idx reqSeq) m (c.state.view w) :=
    hgood.promise hcall (o := ⟨0, true, false⟩) trivial w.2
  have hcov := p.scarce_covered ctx lanes taken N (n := n)
  have hgood' := fun c' (hc' : Reachable (bench n (fun _ => .any) (.grace N))
    (c.detour w (postOne ctx p idx reqSeq m)) c') => call_good hB hcov hgood hs hF ht hc'
  obtain ⟨⟨m₂, rest', k'⟩, hback, ht'⟩ := (hgood' c' hr').result hres rfl _ rfl rfl
  have hsheet := call_sheet (B := Setup.scarce ctx.args n lanes N taken) ht.evOk
    (fun c' hc' => ⟨_, hgood' c' hc'⟩) hr' hres
  have hinv : Inv _ c'.state := (hgood' c' hr').inv
  have hacq : ∀ l, c.state.acquired w l < c'.state.acquired w l → l < lanes :=
    fun l hl => acquired_lt_of_reachable (B := (Setup.scarce ctx.args n lanes N taken).watched)
      (fun c' hc' => (hgood' c' hc').inv) hr' w l hl
  exact CallUndone.of_accounts hinv hacq (Track.watched_iff.2 ht) (hs.head_notMem hF) hback ht' hsheet

/-- The memory and the arguments with which a thread is about to call a post function. -/
def callOf {α : Type} : Prog Worker Act α → Option (Worker × ℕ × ℕ)
  | .act m (.visit (.call idx reqSeq)) _ => some (m, idx, reqSeq)
  | _ => none

theorem prog_of_callOf {α : Type} {p : Prog Worker Act α} {m : Worker} {idx reqSeq : ℕ}
    (h : callOf p = some (m, idx, reqSeq)) :
    ∃ rest, p = .act m (.visit (.call idx reqSeq)) rest := by
  unfold callOf at h
  split at h
  · obtain ⟨rfl, rfl, rfl⟩ := h
    exact ⟨_, rfl⟩
  · cases h

/-- A worker with two lanes, about to post its first request. -/
def atCall : Conf (Fin 1) Worker Sys Act (Unit × Worker) :=
  (scarceClient (smallContext .write 1 1) freshHist 1 2 []).plays (bench 1 (fun _ => .any) .free)
    (steps 0 0 15)

/-- Its memory. -/
def caller : Worker :=
  ((callOf (atCall.prog 0)).map Prod.fst).getD (createWorker (smallArgs .write 1 1) freshHist 0)

/-- A work request of the request. -/
def callWr (wr : ℕ) : Outstanding where
  lane := wr / 2
  localAddr := 0x100000 + wr % 2 * 4096
  remoteAddr := 0x4000000 + wr * 4096
  len := 4096
  srcChip := 1
  dstChip := 1
  userCtx := 256 + wr
  read := false
  id := .slot 0 wr
  request := 1

/-- The call finds no third lane. Of the four work requests it has posted by then, the first two
complete, the third fails, and nothing is heard of the fourth. -/
def undoneCall : Conf (Fin 1) Worker Sys Act (Option (ℤ × Worker)) :=
  (atCall.detour 0 (postOneReq (smallContext .write 1 1) 0 0 caller)).plays
    (bench 1 (fun _ => .any) .free)
    (steps 0 0 26 ++ .env (.deliver (callWr 0) true) :: .env (.deliver (callWr 1) true) ::
      .env (.deliver (callWr 2) false) :: steps 0 0 18 ++ steps 0 2000000000 6)

theorem rollback_complete_no_third_lane :
    ((undoneCall.result 0).any fun r => r.any fun a => a.1 = -1) = true ∧
      (undoneCall.state.posted 0).map (·.fate) = [.aborted, .failed, .landed, .landed] ∧
      undoneCall.state.lanes.idle = [0] ∧
      ∀ m', undoneCall.result 0 = some (some (-1, m')) →
        ∃ new, CallUndone (0 : Fin 1) 0 caller atCall.state new m' undoneCall.state := by
  obtain ⟨hr', hfailed, hfates, hidle⟩ := Reachable.of_replay (d := undoneCall) rfl
    (fun c => ((c.result 0).any fun r => r.any fun a => a.1 = -1) = true ∧
      (c.state.posted 0).map (·.fate) = [.aborted, .failed, .landed, .landed] ∧
      c.state.lanes.idle = [0]) (by decide +kernel)
  refine ⟨hfailed, hfates, hidle, fun m' hres => ?_⟩
  have hr : Reachable (bench 1 (fun _ => .any) .free)
      (scarceClient (smallContext .write 1 1) freshHist 1 2 []) atCall :=
    Reachable.of_plays (by decide +kernel)
  have hargs : (callOf (atCall.prog 0)).map Prod.snd = some (0, 0) := by decide +kernel
  obtain ⟨⟨m, idx, reqSeq⟩, hcall, hzero⟩ := Option.map_eq_some_iff.1 hargs
  obtain ⟨rfl, rfl⟩ : idx = 0 ∧ reqSeq = 0 := by simpa using hzero
  have hm : caller = m := by
    unfold caller
    rw [hcall]
    rfl
  obtain ⟨rest, hprog⟩ := prog_of_callOf hcall
  rw [← hm] at hprog
  exact rollback_complete (smallContext .write 1 1) freshHist (n := 1) (by decide) 2 [] hr hprog
    (.inl rfl) hr' hres

end KvBench.Bench
