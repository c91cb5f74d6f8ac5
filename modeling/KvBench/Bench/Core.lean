import KvBench.Bench.Discipline

/-!
# What a worker knows

`Core` relates what a worker knows (`Ghost`: which lane each of its sends has, what became of the
event of each of its work requests) to its event slots and its view. A token is `fresh` between
`PostEvent` and the post, `posted` until it is consumed, and `lost` when `WaitEvent` has given it up:
its work request may then still be outstanding, and the lane must not be released. A worker with a
lost token issues no more tokens, so a late completion never meets its own token again.

Every call into `UrmaManager` moves one send or one work request on and leaves the rest of the ghost
state alone; the lemmas of the last section are these moves.
-/

namespace KvBench.Bench

open KvBench.Conc KvBench.Events KvBench.Lanes

/-! ### Ghost state -/

/-- The work requests that exist. -/
def WrId.Valid : WrId → Prop
  | .slot idx wr => idx < kvMaxConcurrency ∧ wr < kvWrPerReq
  | .sync half => half < kvWrPerSend

/-- What became of the event of a work request. -/
inductive TokenState where
  | idle
  | fresh (t : ℕ)
  | posted (t : ℕ)
  | lost (t : ℕ)

/-- The token that occupies an event slot. -/
def TokenState.live : TokenState → Option ℕ
  | .fresh t => some t
  | .posted t => some t
  | _ => none

/-- What a worker knows about its sends and work requests. -/
structure Ghost where
  lane : SendId → Option Lane
  tok : WrId → TokenState
  posts : ℕ

/-- A worker that holds nothing. -/
def Ghost.empty : Ghost := ⟨fun _ => none, fun _ => .idle, 0⟩

def Ghost.setLane (g : Ghost) (σ : SendId) (l : Option Lane) : Ghost :=
  { g with lane := Function.update g.lane σ l }

def Ghost.setTok (g : Ghost) (ρ : WrId) (x : TokenState) : Ghost :=
  { g with tok := Function.update g.tok ρ x }

/-- The ghost state of a worker fits its event slots `ev` and its view. `tidy` is the condition
under which the worker knows about every lane it holds, that is, has quarantined none. -/
structure Core (B : Setup) (i : Fin B.n) (tidy : Prop) (ev : EventSlots) (g : Ghost) (v : View) :
    Prop where
  nodup : ev.freeSlots.Nodup
  free : ∀ k, k ∈ ev.freeSlots ↔
    (k < 256 ∧ k ∉ B.taken) ∧ ∀ ρ t, (g.tok ρ).live = some t → index t ≠ k
  zero : ∀ k, k ∈ ev.freeSlots ∨ k ∈ B.taken → v.states k = 0
  valid : ∀ ρ t, (g.tok ρ).live = some t → ρ.Valid
  small : ∀ ρ t, (g.tok ρ).live = some t → (0 < t ∧ t < 2 ^ 40) ∧ index t ∉ B.taken
  inj : ∀ ρ ρ' t t', (g.tok ρ).live = some t → (g.tok ρ').live = some t' →
    index t = index t' → ρ = ρ'
  fresh : ∀ ρ t, g.tok ρ = .fresh t →
    v.states (index t) = pending t ∧ ∀ r ∈ v.outs, r.token ≠ t
  posted : ∀ ρ t, g.tok ρ = .posted t →
    (v.states (index t) = pending t ∧ ∃ r ∈ v.outs, r.token = t) ∨
    (∃ ok, v.states (index t) = done t ok ∧ ((B.mode i).cqesOk = true → ok = true) ∧
      ∀ r ∈ v.outs, r.token ≠ t)
  awaits : ∀ ρ t, g.tok ρ = .posted t ↔
    ∃ p ∈ v.posted, p.id = ρ ∧ p.fate = .pending ∧ p.wr.token = t
  holds : ∀ σ l, g.lane σ = some l → v.holds l σ
  outs : ∀ r ∈ v.outs, g.tok r.id = .posted r.token ∨ g.tok r.id = .lost r.token
  tidy : tidy → ∀ l σ, v.holds l σ → g.lane σ = some l
  posts : v.posted.length = g.posts

/-! ### Posted work requests -/

section Settle

variable {t : ℕ} {f : Fate} {l : List Posted}

@[simp] theorem length_settle : (settle t f l).length = l.length := List.length_map _

/-- Only the work request with the token stops pending. -/
theorem mem_settle_pending (hf : f ≠ .pending) {p : Posted} :
    p ∈ settle t f l ∧ p.fate = .pending ↔ (p ∈ l ∧ p.fate = .pending) ∧ p.wr.token ≠ t := by
  unfold settle
  rw [List.mem_map]
  constructor
  · rintro ⟨⟨q, hq, rfl⟩, hp⟩
    by_cases hc : q.wr.token = t ∧ q.fate = .pending
    · rw [if_pos hc] at hp
      exact absurd hp hf
    · rw [if_neg hc] at hp ⊢
      exact ⟨⟨hq, hp⟩, fun ht => hc ⟨ht, hp⟩⟩
  · rintro ⟨⟨hp, hpf⟩, ht⟩
    exact ⟨⟨p, hp, if_neg fun hc => ht hc.1⟩, hpf⟩

/-- Settling changes fates only. -/
theorem exists_of_mem_settle {p : Posted} (hp : p ∈ settle t f l) :
    ∃ q ∈ l, q.id = p.id ∧ q.wr = p.wr := by
  obtain ⟨q, hq, rfl⟩ := List.mem_map.1 hp
  refine ⟨q, hq, ?_⟩
  split <;> exact ⟨rfl, rfl⟩

theorem exists_of_mem_settleBy {β : Type} {e : SlotAct β} {r : β} {p : Posted}
    (hp : p ∈ settleBy e r l) : ∃ q ∈ l, q.id = p.id ∧ q.wr = p.wr := by
  cases e with
  | load k => exact ⟨p, hp, rfl, rfl⟩
  | casStrong k expected desired =>
    simp only [settleBy] at hp
    split at hp
    · exact exists_of_mem_settle hp
    · exact ⟨p, hp, rfl, rfl⟩
  | casWeak k expected desired =>
    simp only [settleBy] at hp
    split at hp
    · exact exists_of_mem_settle hp
    · exact ⟨p, hp, rfl, rfl⟩

/-- A compare-exchange that fails, or that does not clear the word, settles nothing. -/
theorem settleBy_casStrong {k expected desired : ℕ} {r : Option ℕ} (h : r ≠ none ∨ desired ≠ 0) :
    settleBy (.casStrong k expected desired) r l = l := by
  simp only [settleBy]
  rw [if_neg]
  rintro ⟨h1, h2⟩
  rcases h with h | h
  · exact h h1
  · exact h h2

theorem settleBy_clear {k : ℕ} {ok : Bool} (ht : t < 2 ^ 40) :
    settleBy (.casStrong k (done t ok) 0) none l = settle t (if ok then .landed else .failed) l := by
  simp only [settleBy, done_shift ht]
  rw [if_pos (by simp)]
  cases ok with
  | true => simp
  | false =>
    have hne : done t false ≠ done t true := fun h => by simpa using (done_inj ht ht h).2
    simp [hne]

end Settle

section CoreFacts

variable {B : Setup} {i : Fin B.n} {T : Prop} {ev : EventSlots} {g : Ghost} {v : View}

theorem Core.small_posted (h : Core B i T ev g v) {ρ : WrId} {t : ℕ} (ht : g.tok ρ = .posted t) :
    0 < t ∧ t < 2 ^ 40 := (h.small ρ t (by rw [ht]; rfl)).1

theorem Core.small_fresh (h : Core B i T ev g v) {ρ : WrId} {t : ℕ} (ht : g.tok ρ = .fresh t) :
    0 < t ∧ t < 2 ^ 40 := (h.small ρ t (by rw [ht]; rfl)).1

/-- A token somebody waits for is that of a posted work request. -/
theorem Core.exists_posted (h : Core B i T ev g v) {t : ℕ} (ht : v.Awaits t) :
    ∃ ρ, g.tok ρ = .posted t := by
  obtain ⟨p, hp, hf, ht⟩ := ht
  exact ⟨p.id, (h.awaits p.id t).2 ⟨p, hp, rfl, hf, ht⟩⟩

theorem Core.awaits_of_posted (h : Core B i T ev g v) {ρ : WrId} {t : ℕ}
    (ht : g.tok ρ = .posted t) : v.Awaits t := by
  obtain ⟨p, hp, -, hf, ht⟩ := (h.awaits ρ t).1 ht
  exact ⟨p, hp, hf, ht⟩

/-- Nobody waits for a token that has been issued and not posted. -/
theorem Core.not_awaits_of_fresh (h : Core B i T ev g v) {ρ : WrId} {t : ℕ}
    (ht : g.tok ρ = .fresh t) : ¬ v.Awaits t := by
  intro haw
  obtain ⟨ρ', hρ'⟩ := h.exists_posted haw
  obtain rfl : ρ' = ρ := h.inj ρ' ρ t t (by rw [hρ']; rfl) (by rw [ht]; rfl) rfl
  rw [ht] at hρ'
  cases hρ'

/-- The condition for knowing all lanes can be strengthened. -/
theorem Core.mono (h : Core B i T ev g v) {T' : Prop} (hT : T' → T) : Core B i T' ev g v :=
  { h with tidy := fun ht => h.tidy (hT ht) }

/-- A number for each work request. -/
def WrId.code : WrId → ℕ
  | .slot idx wr => idx * kvWrPerReq + wr
  | .sync half => kvMaxConcurrency * kvWrPerReq + half

theorem WrId.code_lt {ρ : WrId} (h : ρ.Valid) : ρ.code < 202 := by
  cases ρ <;> simp only [Valid, code, kvMaxConcurrency, kvWrPerReq, kvWrPerSend] at * <;> omega

theorem WrId.code_inj {ρ ρ' : WrId} (h : ρ.Valid) (h' : ρ'.Valid) (hc : ρ.code = ρ'.code) :
    ρ = ρ' := by
  cases ρ <;> cases ρ' <;>
    simp only [Valid, code, kvMaxConcurrency, kvWrPerReq, kvWrPerSend, WrId.slot.injEq,
      WrId.sync.injEq, reduceCtorEq] at * <;> omega

/-- There are more event slots than work requests. -/
theorem Core.free_ne_nil (h : Core B i T ev g v) (htaken : B.taken = []) : ev.freeSlots ≠ [] := by
  intro hnil
  have hlive : ∀ k : Fin 256, ∃ ρ t, (g.tok ρ).live = some t ∧ index t = k := by
    intro k
    by_contra hno
    push Not at hno
    have := (h.free k).2 ⟨⟨k.2, by simp [htaken]⟩, hno⟩
    simp [hnil] at this
  choose ρ t hρ hidx using hlive
  let f : Fin 256 → Fin 202 := fun k => ⟨(ρ k).code, WrId.code_lt (h.valid _ _ (hρ k))⟩
  have hf : Function.Injective f := by
    intro k k' hkk
    have hcode : (ρ k).code = (ρ k').code := congrArg Fin.val hkk
    have heq := WrId.code_inj (h.valid _ _ (hρ k)) (h.valid _ _ (hρ k')) hcode
    have ht : some (t k) = some (t k') := by rw [← hρ k, ← hρ k', heq]
    exact Fin.ext (by rw [← hidx k, ← hidx k', Option.some.inj ht])
  have := Fintype.card_le_of_injective f hf
  simp at this

/-- A completion changes the word of a slot only when its token is pending there. -/
theorem View.deliver_states {r : Outstanding} {ok : Bool} (h0 : 0 < r.token) {k : ℕ}
    (hk : k = index r.token → v.states k ≠ pending r.token) :
    (v.deliver r ok).states k = v.states k := by
  unfold View.deliver
  rw [complete_eq h0]
  split
  · rename_i hp
    by_cases hki : k = index r.token
    · subst hki
      exact absurd hp (hk rfl)
    · exact Function.update_of_ne hki _ _
  · rfl

theorem View.deliver_states_self {r : Outstanding} {ok : Bool} (h0 : 0 < r.token)
    (hp : v.states (index r.token) = pending r.token) :
    (v.deliver r ok).states (index r.token) = done r.token ok := by
  simp only [View.deliver, complete_eq h0, if_pos hp, Function.update_self]

theorem View.deliver_pending {r : Outstanding} {ok : Bool} {t : ℕ} (hv : v.Sane) (hr : r ∈ v.outs)
    (ht : t < 2 ^ 40) (hne : r.token ≠ t) (hp : v.states (index t) = pending t) :
    (v.deliver r ok).states (index t) = pending t := by
  rw [View.deliver_states (hv.small hr).1, hp]
  intro _ hpp
  exact hne (pending_inj ht (hv.small hr).2 (hp.symm.trans hpp)).symm

theorem View.deliver_done {r : Outstanding} {ok ok' : Bool} {t : ℕ} (hv : v.Sane)
    (hr : r ∈ v.outs) (ht : t < 2 ^ 40) (hd : v.states (index t) = done t ok') :
    (v.deliver r ok).states (index t) = done t ok' := by
  rw [View.deliver_states (hv.small hr).1, hd]
  intro _ hpp
  exact pending_ne_done (hv.small hr).2 ht ok' (hpp.symm.trans hd)

theorem Core.steady (T : Prop) (ev : EventSlots) (g : Ghost) : B.Steady i (Core B i T ev g) := by
  intro v r ok hv hr hok h
  obtain ⟨hr0, hr40⟩ := hv.small hr
  have hsub : ∀ r' ∈ (v.deliver r ok).outs, r' ∈ v.outs := fun r' hr' => hr'.1
  refine ⟨h.nodup, h.free, fun k hk => ?_, h.valid, h.small, h.inj, fun ρ t ht => ?_,
    fun ρ t ht => ?_, h.awaits, h.holds, fun r' hr' => h.outs r' (hsub r' hr'), h.tidy, h.posts⟩
  · rw [View.deliver_states hr0, h.zero k hk]
    intro _ hp
    exact pending_ne_zero hr0 hr40 (hp.symm.trans (h.zero k hk))
  · obtain ⟨hp, hno⟩ := h.fresh ρ t ht
    exact ⟨View.deliver_pending hv hr (h.small_fresh ht).2 (hno r hr) hp,
      fun r' hr' => hno r' (hsub r' hr')⟩
  · have ht40 := (h.small_posted ht).2
    rcases h.posted ρ t ht with ⟨hp, r', hr', hrt⟩ | ⟨ok', hd, hok', hno⟩
    · by_cases hrr : r.token = t
      · -- this is the completion of the work request itself
        subst hrr
        refine .inr ⟨ok, View.deliver_states_self hr0 hp, hok, fun r'' hr'' htt => hr''.2 ?_⟩
        exact hv.distinct r'' (hsub r'' hr'') r hr htt
      · refine .inl ⟨View.deliver_pending hv hr ht40 hrr hp, r', ⟨hr', ?_⟩, hrt⟩
        rintro rfl
        exact hrr hrt
    · exact .inr ⟨ok', View.deliver_done hv hr ht40 hd, hok', fun r' hr' => hno r' (hsub r' hr')⟩

end CoreFacts

/-! ### Accesses to the event slots -/

section Access

variable {B : Setup} {s : Sys} {w : ℕ}

/-- An access keeps the invariant unless it makes an outstanding token look done. -/
theorem Inv.access (h : Inv B s) {β : Type} {o : Oracle} {e : SlotAct β}
    (hdone : ∀ r ∈ s.out, r.wid = w → ∀ ok,
      (e.run o.spurious (s.states w)).2 (index r.token) ≠ done r.token ok) :
    Inv B (s.access w o e).2 := by
  refine { h with notDone := fun r hr ok => ?_, good := fun w' p hp => ?_ }
  · show Function.update s.states w _ r.wid (index r.token) ≠ _
    by_cases hw : r.wid = w
    · rw [hw, Function.update_self]
      exact hdone r hr hw ok
    · rw [Function.update_of_ne hw]
      exact h.notDone r hr ok
  · change p ∈ Function.update s.posted w _ w' at hp
    by_cases hw : w' = w
    · subst hw
      rw [Function.update_self] at hp
      obtain ⟨q, hq, hid, hwr⟩ := exists_of_mem_settleBy hp
      exact hid ▸ hwr ▸ h.good _ q hq
    · rw [Function.update_of_ne hw] at hp
      exact h.good w' p hp

theorem Sys.access_view_of_ne {β : Type} {o : Oracle} {e : SlotAct β} {w' : ℕ} (hw : w' ≠ w) :
    (s.access w o e).2.view w' = s.view w' := by
  simp [Sys.access, Sys.view, Function.update_of_ne hw]

theorem Sys.access_view {β : Type} {o : Oracle} {e : SlotAct β} :
    (s.access w o e).2.view w =
      { s.view w with
        states := (e.run o.spurious (s.states w)).2
        posted := settleBy e (e.run o.spurious (s.states w)).1 (s.posted w) } := by
  simp [Sys.access, Sys.view, Function.update_self]

/-- Clearing a word, or leaving the words alone, keeps the invariant. -/
theorem Inv.access_clear (h : Inv B s) {β : Type} {o : Oracle} {e : SlotAct β}
    (hclear : ∀ k, (e.run o.spurious (s.states w)).2 k = s.states w k ∨
      (e.run o.spurious (s.states w)).2 k = 0) : Inv B (s.access w o e).2 := by
  refine h.access fun r hr hw ok hd => ?_
  rcases hclear (index r.token) with heq | heq
  · rw [heq] at hd
    exact h.notDone r hr ok (hw ▸ hd)
  · rw [heq] at hd
    exact done_ne_zero ((h.sane r.wid).small ⟨hr, rfl⟩).2 ok hd.symm

end Access

/-! ### What the steps do to the ghost state -/

section Transitions

variable {B : Setup} {i : Fin B.n} {T : Prop} {ev : EventSlots} {g : Ghost} {v : View}
  {ρ : WrId} {σ : SendId} {t : ℕ} {l : Lane}

@[simp] theorem Ghost.setTok_self (g : Ghost) (ρ : WrId) (x : TokenState) :
    (g.setTok ρ x).tok ρ = x := Function.update_self _ _ _

theorem Ghost.setTok_of_ne (g : Ghost) {ρ ρ' : WrId} (x : TokenState) (h : ρ' ≠ ρ) :
    (g.setTok ρ x).tok ρ' = g.tok ρ' := Function.update_of_ne h _ _

@[simp] theorem Ghost.setTok_lane (g : Ghost) (ρ : WrId) (x : TokenState) :
    (g.setTok ρ x).lane = g.lane := rfl

@[simp] theorem Ghost.setTok_posts (g : Ghost) (ρ : WrId) (x : TokenState) :
    (g.setTok ρ x).posts = g.posts := rfl

@[simp] theorem Ghost.setLane_self (g : Ghost) (σ : SendId) (x : Option Lane) :
    (g.setLane σ x).lane σ = x := Function.update_self _ _ _

theorem Ghost.setLane_of_ne (g : Ghost) {σ σ' : SendId} (x : Option Lane) (h : σ' ≠ σ) :
    (g.setLane σ x).lane σ' = g.lane σ' := Function.update_of_ne h _ _

@[simp] theorem Ghost.setLane_tok (g : Ghost) (σ : SendId) (x : Option Lane) :
    (g.setLane σ x).tok = g.tok := rfl

@[simp] theorem Ghost.setLane_posts (g : Ghost) (σ : SendId) (x : Option Lane) :
    (g.setLane σ x).posts = g.posts := rfl

/-- `Acquire` takes the slot `k` from the free stack for the work request `ρ`. As no token is lost,
the outstanding work requests are those of live tokens, which are in other slots. -/
theorem Core.issue (h : Core B i T ev g v) {k : ℕ} {rest : List ℕ} (generations : ℕ → ℕ)
    (hk : ev.freeSlots = k :: rest) (hidle : g.tok ρ = .idle) (hvalid : ρ.Valid)
    (hnone : ∀ ρ' t', g.tok ρ' ≠ .lost t') (ht : 0 < t ∧ t < 2 ^ 40) (hidx : index t = k) :
    Core B i T ⟨generations, rest⟩ (g.setTok ρ (.fresh t))
      { v with states := Function.update v.states k (pending t) } := by
  obtain ⟨hk256, hkfree⟩ := (h.free k).1 (hk ▸ List.mem_cons_self)
  obtain ⟨hknd, hrest⟩ := List.nodup_cons.1 (hk ▸ h.nodup)
  -- the live tokens are the old ones, which are in other slots, and the new one
  have hlive : ∀ ρ' t', ((g.setTok ρ (.fresh t)).tok ρ').live = some t' →
      (ρ' = ρ ∧ t' = t) ∨ (ρ' ≠ ρ ∧ (g.tok ρ').live = some t' ∧ index t' ≠ k) := by
    intro ρ' t' hlive
    by_cases hρ : ρ' = ρ
    · subst hρ
      rw [Ghost.setTok_self] at hlive
      exact .inl ⟨rfl, (Option.some.inj hlive).symm⟩
    · rw [Ghost.setTok_of_ne _ _ hρ] at hlive
      exact .inr ⟨hρ, hlive, hkfree ρ' t' hlive⟩
  have hold : ∀ ρ' t', (g.tok ρ').live = some t' → ρ' ≠ ρ := by
    rintro ρ' t' hl rfl
    rw [hidle] at hl
    cases hl
  refine ⟨hrest, fun k' => ?_, fun k' hk' => ?_, fun ρ' t' hl => ?_, fun ρ' t' hl => ?_,
    fun ρ₁ ρ₂ t₁ t₂ h₁ h₂ he => ?_, fun ρ' t' hf => ?_, fun ρ' t' hp => ?_, fun ρ' t' => ?_, h.holds,
    fun r hr => ?_, h.tidy, h.posts⟩
  · have hfree := h.free k'
    rw [hk, List.mem_cons] at hfree
    constructor
    · intro hmem
      obtain ⟨hlt, hno⟩ := hfree.1 (.inr hmem)
      refine ⟨hlt, fun ρ' t' hl => ?_⟩
      rcases hlive ρ' t' hl with ⟨-, rfl⟩ | ⟨-, hl', -⟩
      · rintro rfl
        exact hknd (hidx ▸ hmem)
      · exact hno ρ' t' hl'
    · rintro ⟨hlt, hno⟩
      have hne : k' ≠ k := by
        rintro rfl
        exact hno ρ t (by rw [Ghost.setTok_self]; rfl) hidx
      refine (hfree.2 ⟨hlt, fun ρ' t' hl => ?_⟩).resolve_left hne
      exact hno ρ' t' (by rw [Ghost.setTok_of_ne _ _ (hold ρ' t' hl)]; exact hl)
  · have hne : k' ≠ k := by
      rintro rfl
      rcases hk' with hk' | hk'
      · exact hknd hk'
      · exact hk256.2 hk'
    refine (Function.update_of_ne hne _ _).trans (h.zero k' (hk'.imp_left fun hmem => ?_))
    exact hk ▸ List.mem_cons_of_mem _ hmem
  · rcases hlive ρ' t' hl with ⟨rfl, -⟩ | ⟨-, hl', -⟩
    · exact hvalid
    · exact h.valid ρ' t' hl'
  · rcases hlive ρ' t' hl with ⟨-, rfl⟩ | ⟨-, hl', -⟩
    · exact ⟨ht, hidx.symm ▸ hk256.2⟩
    · exact h.small ρ' t' hl'
  · rcases hlive ρ₁ t₁ h₁ with ⟨rfl, rfl⟩ | ⟨-, h₁', hi₁⟩ <;>
      rcases hlive ρ₂ t₂ h₂ with ⟨rfl, rfl⟩ | ⟨-, h₂', hi₂⟩
    · rfl
    · exact absurd (he.symm.trans hidx) hi₂
    · exact absurd (he.trans hidx) hi₁
    · exact h.inj ρ₁ ρ₂ t₁ t₂ h₁' h₂' he
  · have hl : ((g.setTok ρ (.fresh t)).tok ρ').live = some t' := by rw [hf]; rfl
    rcases hlive ρ' t' hl with ⟨-, rfl⟩ | ⟨hρ, -, hi'⟩
    · refine ⟨by simp only [hidx, Function.update_self], fun r hr hrt => ?_⟩
      rcases h.outs r hr with hp | hp
      · exact hkfree r.id r.token (by rw [hp]; rfl) (by rw [hrt, hidx])
      · exact hnone r.id r.token hp
    · rw [Ghost.setTok_of_ne _ _ hρ] at hf
      simp only [Function.update_of_ne hi']
      exact h.fresh ρ' t' hf
  · have hρ : ρ' ≠ ρ := by
      rintro rfl
      rw [Ghost.setTok_self] at hp
      cases hp
    rw [Ghost.setTok_of_ne _ _ hρ] at hp
    have hi' := hkfree ρ' t' (by rw [hp]; rfl)
    simp only [Function.update_of_ne hi']
    exact h.posted ρ' t' hp
  · rw [← h.awaits ρ' t']
    by_cases hρ : ρ' = ρ
    · subst hρ
      simp [hidle]
    · rw [Ghost.setTok_of_ne _ _ hρ]
  · have hρ : r.id ≠ ρ := by
      intro hρ
      have hout := h.outs r hr
      rw [hρ, hidle] at hout
      rcases hout with hout | hout <;> cases hout
    rw [Ghost.setTok_of_ne _ _ hρ]
    exact h.outs r hr

/-- The token of `ρ` is consumed and its slot goes back to the free stack. Unless the work request
is known not to be outstanding any more, the token is lost. -/
theorem Core.consume (h : Core B i T ev g v) (hl : (g.tok ρ).live = some t) {x : TokenState}
    (hx : x = .lost t ∨ x = .idle ∧ ∀ r ∈ v.outs, r.token ≠ t) {f : Fate} (hf : f ≠ .pending) :
    Core B i T (ev.release (index t)) (g.setTok ρ x)
      { v with states := Function.update v.states (index t) 0, posted := settle t f v.posted } := by
  have hxl : x.live = none := by rcases hx with rfl | ⟨rfl, -⟩ <;> rfl
  have hnot : index t ∉ ev.freeSlots := fun hmem => (h.free _).1 hmem |>.2 ρ t hl rfl
  -- the live tokens are the others, and they are in other slots
  have hlive : ∀ ρ' t', ((g.setTok ρ x).tok ρ').live = some t' →
      ρ' ≠ ρ ∧ (g.tok ρ').live = some t' ∧ index t' ≠ index t := by
    intro ρ' t' hl'
    have hρ : ρ' ≠ ρ := by
      rintro rfl
      rw [Ghost.setTok_self, hxl] at hl'
      cases hl'
    rw [Ghost.setTok_of_ne _ _ hρ] at hl'
    exact ⟨hρ, hl', fun he => hρ (h.inj ρ' ρ t' t hl' hl he)⟩
  refine ⟨List.nodup_cons.2 ⟨hnot, h.nodup⟩, fun k => ?_, fun k hk => ?_, fun ρ' t' hl' => ?_,
    fun ρ' t' hl' => ?_, fun ρ₁ ρ₂ t₁ t₂ h₁ h₂ he => ?_, fun ρ' t' hf => ?_, fun ρ' t' hp => ?_,
    fun ρ' t' => ?_, h.holds, fun r hr => ?_, h.tidy, length_settle.trans h.posts⟩
  · rw [EventSlots.release, List.mem_cons]
    constructor
    · rintro (rfl | hmem)
      · exact ⟨⟨index_lt t, (h.small ρ t hl).2⟩, fun ρ' t' hl' => (hlive ρ' t' hl').2.2⟩
      · obtain ⟨hlt, hno⟩ := (h.free k).1 hmem
        exact ⟨hlt, fun ρ' t' hl' => hno ρ' t' (hlive ρ' t' hl').2.1⟩
    · rintro ⟨hlt, hno⟩
      by_cases hk : k = index t
      · exact .inl hk
      · refine .inr ((h.free k).2 ⟨hlt, fun ρ' t' hl' => ?_⟩)
        by_cases hρ : ρ' = ρ
        · subst hρ
          rw [hl] at hl'
          exact Option.some.inj hl' ▸ fun he => hk he.symm
        · exact hno ρ' t' (by rw [Ghost.setTok_of_ne _ _ hρ]; exact hl')
  · by_cases hki : k = index t
    · subst hki
      exact Function.update_self _ _ _
    · refine (Function.update_of_ne hki _ _).trans (h.zero k (hk.imp_left fun hmem => ?_))
      exact (List.mem_cons.1 hmem).resolve_left hki
  · exact h.valid ρ' t' (hlive ρ' t' hl').2.1
  · exact h.small ρ' t' (hlive ρ' t' hl').2.1
  · exact h.inj ρ₁ ρ₂ t₁ t₂ (hlive ρ₁ t₁ h₁).2.1 (hlive ρ₂ t₂ h₂).2.1 he
  · obtain ⟨hρ, -, hi'⟩ := hlive ρ' t' (by rw [hf]; rfl)
    rw [Ghost.setTok_of_ne _ _ hρ] at hf
    simp only [Function.update_of_ne hi']
    exact h.fresh ρ' t' hf
  · obtain ⟨hρ, -, hi'⟩ := hlive ρ' t' (by rw [hp]; rfl)
    rw [Ghost.setTok_of_ne _ _ hρ] at hp
    simp only [Function.update_of_ne hi']
    exact h.posted ρ' t' hp
  · constructor
    · intro hp
      obtain ⟨hρ, -, hi'⟩ := hlive ρ' t' (by rw [hp]; rfl)
      rw [Ghost.setTok_of_ne _ _ hρ] at hp
      obtain ⟨p, hmem, hid, hpf, hpt⟩ := (h.awaits ρ' t').1 hp
      have hne : p.wr.token ≠ t := by
        rintro rfl
        exact hi' (by rw [hpt])
      obtain ⟨hmem', hpf'⟩ := (mem_settle_pending hf).2 ⟨⟨hmem, hpf⟩, hne⟩
      exact ⟨p, hmem', hid, hpf', hpt⟩
    · rintro ⟨p, hmem, hid, hpf, hpt⟩
      obtain ⟨⟨hmem, -⟩, hne⟩ := (mem_settle_pending hf).1 ⟨hmem, hpf⟩
      have hp := (h.awaits ρ' t').2 ⟨p, hmem, hid, hpf, hpt⟩
      have hρ : ρ' ≠ ρ := by
        rintro rfl
        rw [hp] at hl
        exact hne (hpt.trans (Option.some.inj hl))
      rwa [Ghost.setTok_of_ne _ _ hρ]
  · by_cases hρ : r.id = ρ
    · have hout := h.outs r hr
      rw [hρ] at hout ⊢
      rw [Ghost.setTok_self]
      rcases hout with hout | hout
      · rw [hout] at hl
        obtain rfl := Option.some.inj hl
        rcases hx with rfl | ⟨-, hno⟩
        · exact .inr rfl
        · exact absurd rfl (hno r hr)
      · rw [hout] at hl
        cases hl
    · rw [Ghost.setTok_of_ne _ _ hρ]
      exact h.outs r hr

/-- A token that is not live can be forgotten, unless its work request may be outstanding. -/
theorem Core.retok (h : Core B i T ev g v) (hl : (g.tok ρ).live = none) {x : TokenState}
    (hx : x.live = none)
    (hlost : ∀ r ∈ v.outs, r.id = ρ → g.tok ρ = .lost r.token → x = .lost r.token) :
    Core B i T ev (g.setTok ρ x) v := by
  have hlive : ∀ ρ', ((g.setTok ρ x).tok ρ').live = (g.tok ρ').live := by
    intro ρ'
    by_cases hρ : ρ' = ρ
    · subst hρ
      rw [Ghost.setTok_self, hx, hl]
    · rw [Ghost.setTok_of_ne _ _ hρ]
  have hne : ∀ ρ' t, ((g.setTok ρ x).tok ρ').live = some t → ρ' ≠ ρ := by
    rintro ρ' t ht rfl
    rw [hlive, hl] at ht
    cases ht
  refine ⟨h.nodup, fun k => ?_, h.zero, fun ρ' t ht => ?_, fun ρ' t ht => ?_,
    fun ρ₁ ρ₂ t₁ t₂ h₁ h₂ => ?_, fun ρ' t ht => ?_, fun ρ' t ht => ?_, fun ρ' t => ?_, h.holds,
    fun r hr => ?_, h.tidy, h.posts⟩
  · simp only [hlive]
    exact h.free k
  · exact h.valid ρ' t (hlive ρ' ▸ ht)
  · exact h.small ρ' t (hlive ρ' ▸ ht)
  · exact h.inj ρ₁ ρ₂ t₁ t₂ (hlive ρ₁ ▸ h₁) (hlive ρ₂ ▸ h₂)
  · have hρ := hne ρ' t (by rw [ht]; rfl)
    exact h.fresh ρ' t (by rwa [Ghost.setTok_of_ne _ _ hρ] at ht)
  · have hρ := hne ρ' t (by rw [ht]; rfl)
    exact h.posted ρ' t (by rwa [Ghost.setTok_of_ne _ _ hρ] at ht)
  · rw [← h.awaits ρ' t]
    by_cases hρ : ρ' = ρ
    · subst hρ
      rw [Ghost.setTok_self]
      constructor
      · rintro rfl
        cases hx
      · intro hp
        rw [hp] at hl
        cases hl
    · rw [Ghost.setTok_of_ne _ _ hρ]
  · by_cases hρ : r.id = ρ
    · have hout := h.outs r hr
      rw [hρ] at hout ⊢
      rw [Ghost.setTok_self]
      rcases hout with hout | hout
      · rw [hout] at hl
        cases hl
      · exact .inr (hlost r hr hρ hout)
    · rw [Ghost.setTok_of_ne _ _ hρ]
      exact h.outs r hr

/-- The work request of `ρ` is posted. -/
theorem Core.post (h : Core B i T ev g v) (ht : g.tok ρ = .fresh t) {r : Outstanding}
    (hr : r.token = t) (hid : r.id = ρ) :
    Core B i T ev { g.setTok ρ (.posted t) with posts := g.posts + 1 }
      { v with outs := insert r v.outs, posted := ⟨ρ, r.toWr, .pending⟩ :: v.posted } := by
  have hlt : (g.tok ρ).live = some t := by rw [ht]; rfl
  have hlive : ∀ ρ', ((g.setTok ρ (.posted t)).tok ρ').live = (g.tok ρ').live := by
    intro ρ'
    by_cases hρ : ρ' = ρ
    · subst hρ
      rw [Ghost.setTok_self, ht]
      rfl
    · rw [Ghost.setTok_of_ne _ _ hρ]
  have hother : ∀ ρ' t', ρ' ≠ ρ → (g.tok ρ').live = some t' → r.token ≠ t' := by
    rintro ρ' t' hρ hl' rfl
    exact hρ (h.inj ρ' ρ _ _ hl' hlt (by rw [hr]))
  refine ⟨h.nodup, fun k => ?_, h.zero, fun ρ' t ht => ?_, fun ρ' t ht => ?_,
    fun ρ₁ ρ₂ t₁ t₂ h₁ h₂ => ?_, fun ρ' t' ht' => ?_, fun ρ' t' ht' => ?_, fun ρ' t' => ?_, h.holds,
    fun r' hr' => ?_, h.tidy, congrArg (· + 1) h.posts⟩
  · simp only [hlive]
    exact h.free k
  · exact h.valid ρ' t (hlive ρ' ▸ ht)
  · exact h.small ρ' t (hlive ρ' ▸ ht)
  · exact h.inj ρ₁ ρ₂ t₁ t₂ (hlive ρ₁ ▸ h₁) (hlive ρ₂ ▸ h₂)
  · have hρ : ρ' ≠ ρ := by
      rintro rfl
      rw [Ghost.setTok_self] at ht'
      cases ht'
    rw [Ghost.setTok_of_ne _ _ hρ] at ht'
    obtain ⟨hp, hno⟩ := h.fresh ρ' t' ht'
    refine ⟨hp, fun r' hr' => ?_⟩
    rcases hr' with rfl | hr'
    · exact hother ρ' t' hρ (by rw [ht']; rfl)
    · exact hno r' hr'
  · by_cases hρ : ρ' = ρ
    · subst hρ
      rw [Ghost.setTok_self] at ht'
      obtain rfl : t = t' := by simpa using ht'
      exact .inl ⟨(h.fresh _ _ ht).1, r, .inl rfl, hr⟩
    · rw [Ghost.setTok_of_ne _ _ hρ] at ht'
      rcases h.posted ρ' t' ht' with ⟨hp, r', hr', hrt⟩ | ⟨ok, hd, hok, hno⟩
      · exact .inl ⟨hp, r', .inr hr', hrt⟩
      · refine .inr ⟨ok, hd, hok, fun r' hr' => ?_⟩
        rcases hr' with rfl | hr'
        · exact hother ρ' t' hρ (by rw [ht']; rfl)
        · exact hno r' hr'
  · simp only [List.mem_cons, exists_eq_or_imp, ← h.awaits ρ' t', true_and, hr]
    by_cases hρ : ρ' = ρ
    · subst hρ
      rw [Ghost.setTok_self, ht]
      simp
    · rw [Ghost.setTok_of_ne _ _ hρ]
      simp [Ne.symm hρ]
  · rcases hr' with rfl | hr'
    · rw [hid, Ghost.setTok_self, hr]
      exact .inl rfl
    · have hρ : r'.id ≠ ρ := by
        intro hρ
        have hout := h.outs r' hr'
        rw [hρ, ht] at hout
        rcases hout with hout | hout <;> cases hout
      rw [Ghost.setTok_of_ne _ _ hρ]
      exact h.outs r' hr'

/-- The send `σ` takes the lane `l`. -/
theorem Core.take (h : Core B i T ev g v) (hσ : g.lane σ = none) :
    Core B i T ev (g.setLane σ (some l))
      { v with holds := fun l' σ' => v.holds l' σ' ∨ (l' = l ∧ σ' = σ) } := by
  refine { h with holds := fun σ' l' hσ' => ?_, tidy := fun hT l' σ' hh => ?_ }
  · by_cases he : σ' = σ
    · subst he
      rw [Ghost.setLane_self] at hσ'
      exact .inr ⟨(Option.some.inj hσ').symm, rfl⟩
    · rw [Ghost.setLane_of_ne _ _ he] at hσ'
      exact .inl (h.holds σ' l' hσ')
  · rcases hh with hh | ⟨rfl, rfl⟩
    · have hlane := h.tidy hT l' σ' hh
      have he : σ' ≠ σ := by
        rintro rfl
        rw [hσ] at hlane
        cases hlane
      rwa [Ghost.setLane_of_ne _ _ he]
    · exact Ghost.setLane_self _ _ _

/-- The send `σ` gives its lane back. -/
theorem Core.giveBack (h : Core B i T ev g v) (hσ : g.lane σ = some l) :
    Core B i T ev (g.setLane σ none)
      { v with holds := fun l' σ' => v.holds l' σ' ∧ ¬ (l' = l ∧ σ' = σ) } := by
  have hne : ∀ σ' l', (g.setLane σ none).lane σ' = some l' → σ' ≠ σ := by
    rintro σ' l' hσ' rfl
    rw [Ghost.setLane_self] at hσ'
    cases hσ'
  refine { h with holds := fun σ' l' hσ' => ?_, tidy := fun hT l' σ' hh => ?_ }
  · have he := hne σ' l' hσ'
    rw [Ghost.setLane_of_ne _ _ he] at hσ'
    exact ⟨h.holds σ' l' hσ', fun hc => he hc.2⟩
  · have hlane := h.tidy hT l' σ' hh.1
    have he : σ' ≠ σ := by
      rintro rfl
      rw [hσ] at hlane
      exact hh.2 ⟨(Option.some.inj hlane).symm, rfl⟩
    rwa [Ghost.setLane_of_ne _ _ he]

/-- The worker gives up some of its lanes without releasing them. -/
theorem Core.quarantine (h : Core B i T ev g v) (hT : ¬ T) {lane : SendId → Option Lane}
    (hsub : ∀ σ l, lane σ = some l → g.lane σ = some l) : Core B i T ev { g with lane := lane } v :=
  { h with
    holds := fun σ l hσ => h.holds σ l (hsub σ l hσ)
    tidy := fun ht => absurd ht hT }

end Transitions

end KvBench.Bench
