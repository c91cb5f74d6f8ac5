import KvBench.Bench.Clients

/-!
# The window of a pipeline

A pipeline keeps up to `concurrency` requests under way. `Window` is what holds of its slots and of
the event slots whenever the main loop comes to one of its heads, and `pipeline_window` says that it
does, for every worker and in every run.
-/

namespace KvBench.Bench

open KvBench.Conc KvBench.Events KvBench.Hist

/-! ### The heads of the loops -/

/-- The tokens that occupy event slots. -/
def liveTokens (states : ℕ → ℕ) : Set ℕ :=
  {t | ∃ k < kSlotCount, states k ≠ 0 ∧ states k >>> 2 = t}

/-- The window of a worker with `c` slots, of which `reqActive` are active. -/
structure Window (c reqActive : ℕ) (m : Worker) (states : ℕ → ℕ) : Prop where
  active_nodup : m.activeSlots.Nodup
  free_nodup : m.freeSlots.Nodup
  partition : ∀ k, k < c ↔ k ∈ m.activeSlots ∨ k ∈ m.freeSlots
  disjoint : ∀ k ∈ m.activeSlots, k ∉ m.freeSlots
  count : m.activeSlots.length = reqActive
  bound : reqActive ≤ c
  done : ∀ idx ∈ m.activeSlots, (m.wrSlots idx).doneCnt = harvested (m.wrSlots idx)
  tokens : liveTokens states = {t | ∃ a ∈ flyOf m, (m.wrSlots a.1).eventToken a.2 = t}
  distinct : ∀ a ∈ flyOf m, ∀ b ∈ flyOf m,
    (m.wrSlots a.1).eventToken a.2 = (m.wrSlots b.1).eventToken b.2 → a = b

/-- What holds at the points of the main loop: the position of the harvest is within the active
slots, the branch for an empty free stack is never taken, and the slot of a new request is neither
active nor free. -/
def Place.Ok (c : ℕ) : Place → Worker → (ℕ → ℕ) → Prop
  | .head reqActive, m, states => Window c reqActive m states
  | .harvest pos reqActive, m, states => Window c reqActive m states ∧ pos ≤ m.activeSlots.length
  | .send reqActive, m, states => Window c reqActive m states
  | .noFreeSlot, _, _ => False
  | .call idx _, m, _ => (m.activeSlots ++ idx :: m.freeSlots).Perm (List.range c)

section Window

variable {B : Setup} {i : Fin B.n} {T : Prop} {m₀ m : Worker} {v : View} {k : ℕ}
  {rest : Set (ℕ × ℕ)}

/-- The word of an event slot in use holds its token. -/
theorem Core.shift_of_posted {ev : EventSlots} {g : Ghost} (h : Core B i T ev g v) {ρ : WrId} {t : ℕ}
    (ht : g.tok ρ = .posted t) : v.states (index t) ≠ 0 ∧ v.states (index t) >>> 2 = t := by
  obtain ⟨hpos, ht40⟩ := h.small_posted ht
  rcases h.posted ρ t ht with ⟨hp, -⟩ | ⟨ok, hd, -⟩
  · rw [hp]
    exact ⟨pending_ne_zero hpos ht40, pending_shift ht40⟩
  · rw [hd]
    exact ⟨done_ne_zero ht40 ok, done_shift ht40 ok⟩

/-- A live token of a worker is that of a work request under way. -/
theorem Tracks.posted_of_live {ws : ℕ → WrSlot} {fly : Set (ℕ × ℕ)} {g : Ghost}
    (hg : Tracks ws fly rest k g) {ρ : WrId} {t : ℕ} (h : (g.tok ρ).live = some t) :
    ∃ idx wr, ρ = .slot idx wr ∧ (idx, wr) ∈ fly ∧ (ws idx).eventToken wr = t ∧
      g.tok ρ = .posted t := by
  cases ρ with
  | sync half =>
    rw [hg.tokSync half] at h
    cases h
  | slot idx wr =>
    rcases hg.tok idx wr with ht | ht | ht <;> rw [ht] at h
    · cases h
    · obtain rfl := Option.some.inj h
      exact ⟨idx, wr, rfl, (hg.fly idx wr).2 ht, rfl, ht⟩
    · cases h

/-- The live tokens are those of the work requests under way. -/
theorem Track.liveTokens {fly : Set (ℕ × ℕ)} (h : Track B i T m₀ fly rest k m v) :
    liveTokens v.states = {t | ∃ a ∈ fly, (m₀.wrSlots a.1).eventToken a.2 = t} := by
  obtain ⟨g, hg, -, hcore⟩ := h
  ext t
  constructor
  · rintro ⟨k, hk, hne, rfl⟩
    -- the slot is not free, so a token is in it
    have hnot : k ∉ m.ev.freeSlots := fun hmem => hne (hcore.zero k (.inl hmem))
    have htaken : k ∉ B.taken := fun hmem => hne (hcore.zero k (.inr hmem))
    obtain ⟨ρ, t, ht, rfl⟩ : ∃ ρ t, (g.tok ρ).live = some t ∧ index t = k := by
      by_contra hno
      push Not at hno
      exact hnot ((hcore.free k).2 ⟨⟨hk, htaken⟩, hno⟩)
    obtain ⟨idx, wr, -, hfly, htok, hpost⟩ := hg.posted_of_live ht
    exact ⟨(idx, wr), hfly, htok.trans (hcore.shift_of_posted hpost).2.symm⟩
  · rintro ⟨⟨idx, wr⟩, hfly, rfl⟩
    have hshift := hcore.shift_of_posted ((hg.fly idx wr).1 hfly)
    exact ⟨index _, index_lt _, hshift.1, hshift.2⟩

theorem Track.distinct {fly : Set (ℕ × ℕ)} (h : Track B i T m₀ fly rest k m v) :
    ∀ a ∈ fly, ∀ b ∈ fly,
      (m₀.wrSlots a.1).eventToken a.2 = (m₀.wrSlots b.1).eventToken b.2 → a = b := by
  obtain ⟨g, hg, -, hcore⟩ := h
  rintro ⟨idx, wr⟩ ha ⟨idx', wr'⟩ hb heq
  have ha := (hg.fly idx wr).1 ha
  have hb := (hg.fly idx' wr').1 hb
  have hρ := hcore.inj _ _ _ _ (by rw [ha]; rfl) (by rw [hb]; rfl) (congrArg index heq)
  simpa using hρ

/-- What the proof of the main loop carries along amounts to the window. -/
theorem Windowed.window {reqActive : ℕ}
    (h : Windowed B i T (·.activeSlots.length = reqActive) m v) :
    Window B.slots reqActive m v.states := by
  obtain ⟨⟨m₁, k⟩, ⟨hs, hlen⟩, ht⟩ := h
  have hlen : m₁.activeSlots.length = reqActive := hlen
  have htokens := ht.liveTokens
  have hdistinct := ht.distinct
  obtain ⟨ev, look, rfl⟩ := ht.mem
  have hnd := List.nodup_append'.1 hs.nodup
  have hall := hs.perm.length_eq
  rw [List.length_append, List.length_range] at hall
  refine ⟨hnd.1, hnd.2.1, fun k => ?_, fun k hk hk' => ?_, hlen, by omega, hs.count, htokens,
    hdistinct⟩
  · rw [← List.mem_range, ← hs.perm.mem_iff, List.mem_append]
  · exact hnd.2.2 hk hk'

theorem AtPlace.ok {place : Place} (h : AtPlace B i place m v) :
    place.Ok B.slots m v.states := by
  cases place with
  | head reqActive => exact Windowed.window h
  | send reqActive => exact Windowed.window h
  | harvest pos reqActive =>
    obtain ⟨x, ⟨hs, hlen, hpos⟩, ht⟩ := h
    refine ⟨Windowed.window ⟨x, ⟨hs, hlen⟩, ht⟩, ?_⟩
    rw [ht.mem.activeSlots, hlen]
    exact hpos
  | noFreeSlot => exact h
  | call idx reqSeq =>
    obtain ⟨x, ⟨hs, hfree⟩, ht⟩ := h
    show (m.activeSlots ++ idx :: m.freeSlots).Perm _
    rw [ht.mem.activeSlots, ht.mem.freeSlots]
    show (x.1.activeSlots ++ idx :: x.2.1).Perm _
    rw [← hfree]
    exact hs.perm

end Window

/-! ### In every run -/

/-- The setting in which the points of the main loops are watched. -/
def Setup.watching (args : Argument) (n lanes N : ℕ) : Setup where
  n := n
  lanes := lanes
  slots := slotCount args
  mode := fun _ => .any
  pace := .grace N
  good := fun _ _ => True
  watch := fun _ place m v => place.Ok (slotCount args) m v.states
  roomy := False
  taken := []

theorem Setup.watching_sound (args : Argument) {n : ℕ} (hn : n ≤ 1024) (lanes N : ℕ) :
    (Setup.watching args n lanes N).Sound :=
  ⟨hn, slotCount_le args, Pace.grace_live N, False.elim, False.elim⟩

theorem Context.watching_fits (ctx : Context) (n lanes N : ℕ) :
    ctx.Fits (.watching ctx.args n lanes N) fun _ => True :=
  Context.fits_of_good rfl (fun _ _ => trivial) (fun _ _ _ _ h => AtPlace.ok h) id

/-- **The window invariant.** Whenever a worker comes to the head of its main loop, of the harvest
or of the sending loop, its slots and event slots are in order; the branch for an empty free stack
is never taken, and `PostEvent` does not fail. -/
theorem pipeline_window (ctx : Context) (hist : KvHist) {n : ℕ} (hn : n ≤ 1024) (lanes : ℕ) {k : ℕ}
    (hk : 1 ≤ k ∧ k ≤ 10) (hconc : ctx.args.concurrency = k)
    {c : Conf (Fin n) Worker Sys Act (Unit × Worker)}
    (hr : Reachable (bench n (fun _ => .any) .free) (client ctx hist n lanes) c) (w : Fin n) :
    (∀ m place next, c.prog w = .act m (.visit place) next →
      place.Ok k m (c.state.states w)) ∧
    ∀ m op reqSeq wr next, c.prog w ≠ .act m (.print (.eventsExhausted op reqSeq wr)) next := by
  obtain ⟨N, hr⟩ := exists_grace hr fun _ => rfl
  have hB := Setup.watching_sound ctx.args hn lanes N
  have hgood := Setup.good_reachable (B := .watching ctx.args n lanes N)
    (Q := fun _ _ _ _ => True) hB rfl (fun _ => rfl) (fun _ _ _ => .const _)
    (fun i => clientWorkerMain_spec hB (ctx.watching_fits n lanes N) (createWorker_ready _ hist i)) hr
  have hslots := slotCount_of_concurrency hk hconc
  constructor
  · intro m place next hp
    have h := hgood.promise hp (o := ⟨0, true, false⟩) trivial
    rw [← hslots]
    exact h
  · intro m op reqSeq wr next hp
    rcases hgood.promise hp (o := ⟨0, true, false⟩) trivial with h | h
    · exact h
    · exact h rfl

/-- The point of the program a thread is at. -/
def placeOf {α : Type} : Prog Worker Act α → Option Place
  | .act _ (.visit place) _ => some place
  | _ => none

/-- A worker that has filled its window of one request and comes to the head of the main loop. -/
def fullWindow : Conf (Fin 1) Worker Sys Act (Unit × Worker) :=
  (client (smallContext .get 1 1) freshHist 1 10).plays (bench 1 (fun _ => .any) .free)
    (steps 0 0 134)

theorem pipeline_window_full :
    placeOf (fullWindow.prog 0) = some (.head 1) ∧
      (∀ m place next, fullWindow.prog 0 = .act m (.visit place) next →
        place.Ok 1 m (fullWindow.state.states (0 : Fin 1))) ∧
      ∀ m op reqSeq wr next,
        fullWindow.prog 0 ≠ .act m (.print (.eventsExhausted op reqSeq wr)) next := by
  obtain ⟨hr, hplace⟩ := Reachable.of_replay (d := fullWindow) rfl
    (fun c => placeOf (c.prog 0) = some (.head 1)) (by decide +kernel)
  refine ⟨hplace, ?_⟩
  have hn : 1 ≤ 1024 := by decide
  have hk : 1 ≤ 1 ∧ 1 ≤ 10 := by decide
  have hc : (smallContext .get 1 1).args.concurrency = ((1 : ℕ) : ℤ) := rfl
  exact pipeline_window (smallContext .get 1 1) freshHist hn 10 hk hc hr 0

end KvBench.Bench
