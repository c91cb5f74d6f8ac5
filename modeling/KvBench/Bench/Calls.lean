import KvBench.Bench.Core

/-!
# The calls into `UrmaManager`, specified

Each call is specified by what it does to the ghost state. `Near` is the assertion they share: the
memory of the worker is some given one up to its event slots, and the ghost state fits.
-/

namespace KvBench.Bench

open KvBench.Conc KvBench.Events KvBench.Lanes

/-- The memory `m` is `m₀` up to the event slots. -/
def SameBut (m₀ m : Worker) : Prop := ∃ ev look, m = { m₀ with ev := ev, lastLook := look }

theorem SameBut.refl (m : Worker) : SameBut m m := ⟨m.ev, m.lastLook, rfl⟩

theorem SameBut.setEv {m₀ m : Worker} (h : SameBut m₀ m) (ev : EventSlots) :
    SameBut m₀ { m with ev := ev } := by
  obtain ⟨ev', look, rfl⟩ := h
  exact ⟨ev, look, rfl⟩

theorem SameBut.setLook {m₀ m : Worker} (h : SameBut m₀ m) (look : Option ℕ) :
    SameBut m₀ { m with lastLook := look } := by
  obtain ⟨ev, look', rfl⟩ := h
  exact ⟨ev, look, rfl⟩

/-- The memory is `m₀` up to the event slots, and the worker knows `g`. -/
structure Near (B : Setup) (i : Fin B.n) (T : Prop) (m₀ : Worker) (g : Ghost) (m : Worker)
    (v : View) : Prop where
  mem : SameBut m₀ m
  core : Core B i T m.ev g v

section Calls

variable {B : Setup} {i : Fin B.n} {T : Prop} {m₀ : Worker} {g : Ghost} {ρ : WrId} {σ : SendId}
  {t : ℕ} {l : Lane}

theorem Near.steady (T : Prop) (m₀ : Worker) (g : Ghost) (m : Worker) :
    B.Steady i (Near B i T m₀ g m) :=
  fun v r ok hv hr hok h => ⟨h.mem, Core.steady T m.ev g v r ok hv hr hok h.core⟩

/-! ### Event slots -/

@[simp] theorem eventPort_slots (m : Worker) : eventPort.slots m = m.ev := rfl

/-- The token that `Acquire` makes is a 40-bit word and names its slot. -/
theorem tokenOf_nextGeneration (generation : ℕ) {k : ℕ} (hk : k < 256) :
    (0 < tokenOf (nextGeneration generation) k ∧ tokenOf (nextGeneration generation) k < 2 ^ 40) ∧
      index (tokenOf (nextGeneration generation) k) = k := by
  rw [index_eq, tokenOf_eq _ hk]
  unfold nextGeneration
  split <;> omega

/-- The compare-exchange of `Acquire` succeeds. -/
theorem acquire_access {ev : EventSlots} {s : Sys} (hs : Inv B s)
    (h : Core B i T ev g (s.view i)) {k : ℕ} {rest : List ℕ} (hk : ev.freeSlots = k :: rest)
    (hidle : g.tok ρ = .idle) (hvalid : ρ.Valid) (hnone : ∀ ρ' t', g.tok ρ' ≠ .lost t')
    (ht : 0 < t ∧ t < 2 ^ 40) (hidx : index t = k) (generations : ℕ → ℕ) (o : Oracle) :
    Inv B (s.access i o (.casStrong k 0 (pending t))).2 ∧
      (s.access i o (.casStrong k 0 (pending t))).1 = none ∧
      Core B i T ⟨generations, rest⟩ (g.setTok ρ (.fresh t))
        ((s.access i o (.casStrong k 0 (pending t))).2.view i) := by
  have hzero : s.states i k = 0 := h.zero k (.inl (hk ▸ List.mem_cons_self))
  have hissue := h.issue generations hk hidle hvalid hnone ht hidx
  have hrun : SlotAct.run o.spurious (.casStrong k 0 (pending t)) (s.states i) =
      (none, Function.update (s.states i) k (pending t)) := by
    rw [SlotAct.run_casStrong, if_pos hzero]
  refine ⟨?_, congrArg Prod.fst hrun, ?_⟩
  · refine hs.access fun r hr hw ok hd => ?_
    by_cases hri : index r.token = k
    · simp only [hrun, hri, Function.update_self] at hd
      exact pending_ne_done ht.2 r.token_lt ok hd
    · simp only [hrun, Function.update_of_ne hri] at hd
      exact hs.notDone r hr ok (hw ▸ hd)
  · rw [Sys.access_view, hrun, settleBy_casStrong (.inr (pending_ne_zero ht.1 ht.2))]
    exact hissue

/-- `Acquire` fails only when the event slots are used up. -/
theorem acquire_spec (hidle : g.tok ρ = .idle) (hvalid : ρ.Valid)
    (hnone : ∀ ρ' t', g.tok ρ' ≠ .lost t') :
    B.Triple i (fun m v _ => Near B i T m₀ g m v) eventPort.acquire
      (fun r m v _ => (r = none ∧ B.taken ≠ [] ∧ Near B i T m₀ g m v) ∨
        ∃ t, r = some t ∧ Near B i T m₀ (g.setTok ρ (.fresh t)) m v) := by
  refine Setup.Triple.get_bind fun m₁ => ?_
  cases hk : m₁.ev.freeSlots with
  | nil =>
    simp only [eventPort_slots, hk]
    refine Setup.Triple.pure ?_
    rintro m v n ⟨rfl, h⟩
    exact .inl ⟨rfl, fun htaken => h.core.free_ne_nil htaken hk, h⟩
  | cons k rest =>
    simp only [eventPort_slots, hk]
    refine Setup.Triple.of_fact (p := k < 256) ?_ fun hk256 => ?_
    · rintro m v n - ⟨rfl, h⟩
      exact ((h.core.free k).1 (hk ▸ List.mem_cons_self)).1.1
    obtain ⟨ht, hidx⟩ := tokenOf_nextGeneration (m₁.ev.generations k) hk256
    generalize tokenOf (nextGeneration (m₁.ev.generations k)) k = t at ht hidx
    generalize Function.update m₁.ev.generations k _ = generations
    refine Setup.Triple.modify_bind (fun m v _ => SameBut m₀ m ∧
      m.ev = ⟨generations, rest⟩ ∧ Core B i T m₁.ev g v) ?_ ?_
    · rintro m v n ⟨rfl, h⟩
      exact ⟨h.mem.setEv _, rfl, h.core⟩
    refine Setup.Triple.bind (Q := fun r m v _ => r = none ∧
      Near B i T m₀ (g.setTok ρ (.fresh t)) m v)
      (Setup.Triple.act (fun m n => ?_) ?_) fun r => ?_
    · exact (Setup.Steady.const _).and ((Setup.Steady.const _).and (Core.steady _ _ _))
    · rintro m s n o hs ⟨hmem, hev, hcore⟩ -
      obtain ⟨hinv, hres, hcore'⟩ := acquire_access hs hcore hk hidle hvalid hnone ht hidx
        generations o
      refine ⟨⟨hinv, fun w hw => Sys.access_view_of_ne hw, ?_⟩, hres, hmem, hev ▸ hcore'⟩
      intro hzero
      exact absurd hzero (pending_ne_zero ht.1 ht.2)
    · cases r with
      | none => exact Setup.Triple.pure fun m v n h => .inr ⟨_, rfl, h.2⟩
      | some x => exact Setup.Triple.absurd fun m v n _ h => nomatch h.1

/-- `PostEvent` fails only when the event slots are used up. -/
theorem postEvent_spec (hB : B.Sound) (hid : m₀.id = i) (hidle : g.tok ρ = .idle)
    (hvalid : ρ.Valid) (hnone : ∀ ρ' t', g.tok ρ' ≠ .lost t') :
    B.Triple i (fun m v _ => Near B i T m₀ g m v) postEvent
      (fun r m v _ => (r.1 = 0 ∧ B.taken ≠ [] ∧ Near B i T m₀ g m v) ∨
        (r.1 ≠ 0 ∧ r.1 = userCtxOf i r.2 ∧ Near B i T m₀ (g.setTok ρ (.fresh r.2)) m v)) := by
  refine Setup.Triple.bind (acquire_spec hidle hvalid hnone) fun r => ?_
  cases r with
  | none =>
    refine Setup.Triple.pure ?_
    rintro m v n (⟨-, h⟩ | ⟨t, h, -⟩)
    · exact .inl ⟨rfl, h⟩
    · exact nomatch h
  | some t =>
    refine Setup.Triple.get_bind fun m₁ => Setup.Triple.pure ?_
    rintro m v n ⟨rfl, ⟨h, -⟩ | ⟨t', ht, h⟩⟩
    · exact nomatch h
    obtain rfl := Option.some.inj ht
    have hid' : m.id = i := by
      obtain ⟨ev, look, rfl⟩ := h.mem
      exact hid
    have hi : (i : ℕ) < 2 ^ 24 := by have := hB.workers; omega
    obtain ⟨hpos, hlt⟩ := h.core.small_fresh (ρ := ρ) (Ghost.setTok_self _ _ _)
    refine .inr ⟨?_, by rw [hid']; rfl, h⟩
    show userCtxOf m.id t ≠ 0
    rw [hid', userCtxOf_eq hi hlt]
    omega

/-- A compare-exchange that clears the word of a live token. -/
theorem consume_access {ev : EventSlots} {s : Sys} (hs : Inv B s)
    (h : Core B i T ev g (s.view i)) (hl : (g.tok ρ).live = some t) {x : TokenState}
    (hx : x = .lost t ∨ x = .idle ∧ ∀ r ∈ (s.view i).outs, r.token ≠ t) {o : Oracle}
    {e : SlotAct (Option ℕ)}
    (hrun : e.run o.spurious (s.states i) = (none, Function.update (s.states i) (index t) 0))
    {f : Fate} (hf : f ≠ .pending) (hsettle : settleBy e none (s.posted i) = settle t f (s.posted i)) :
    Inv B (s.access i o e).2 ∧ (s.access i o e).1 = none ∧
      Core B i T (ev.release (index t)) (g.setTok ρ x) ((s.access i o e).2.view i) := by
  refine ⟨hs.access_clear fun k => ?_, congrArg Prod.fst hrun, ?_⟩
  · rw [hrun]
    by_cases hk : k = index t
    · subst hk
      exact .inr (Function.update_self _ _ _)
    · exact .inl (Function.update_of_ne hk _ _)
  · rw [Sys.access_view, hrun, hsettle]
    exact h.consume hl hx hf

/-- The word of a live token. -/
theorem Core.word {ev : EventSlots} {v : View} (h : Core B i T ev g v)
    (hl : (g.tok ρ).live = some t) :
    v.states (index t) = pending t ∨ ∃ ok, v.states (index t) = done t ok := by
  cases hρ : g.tok ρ with
  | idle => rw [hρ] at hl; cases hl
  | lost t' => rw [hρ] at hl; cases hl
  | fresh t' =>
    rw [hρ] at hl
    obtain rfl := Option.some.inj hl
    exact .inl (h.fresh ρ _ hρ).1
  | posted t' =>
    rw [hρ] at hl
    obtain rfl := Option.some.inj hl
    rcases h.posted ρ _ hρ with ⟨hp, -⟩ | ⟨ok, hd, -⟩
    · exact .inl hp
    · exact .inr ⟨ok, hd⟩

theorem done_steady (ht : t < 2 ^ 40) (ok : Bool) :
    B.Steady i (fun v => v.states (index t) = done t ok) :=
  fun _ _ _ hv hr _ hd => View.deliver_done hv hr ht hd

theorem load_spec {Φ : Worker → View → Prop} (hΦ : ∀ m, B.Steady i (Φ m)) (k : ℕ) :
    B.Triple i (fun m v _ => Φ m v) (Proc.act (eventPort.access (.load k)))
      (fun value m v _ => Φ m v ∧ v.states k = value ∧
        ((B.mode i).timely = true → ∀ r ∈ v.outs, m.lastLook ≠ some r.token)) := by
  refine Setup.Triple.act (fun m _ => hΦ m) fun m s n o hs h ho => ?_
  have hview : (s.access i o (.load k)).2.view i = s.view i := Sys.access_view
  refine ⟨⟨hs.access_clear fun _ => .inl rfl, fun w hw => Sys.access_view_of_ne hw, trivial⟩, ?_⟩
  show Φ m ((s.access i o (.load k)).2.view i) ∧
    ((s.access i o (.load k)).2.view i).states k = (s.view i).states k ∧
    ((B.mode i).timely = true →
      ∀ r ∈ ((s.access i o (.load k)).2.view i).outs, m.lastLook ≠ some r.token)
  rw [hview]
  exact ⟨h, rfl, fun htime r hr => ho htime r hr.1 hr.2⟩

/-- No work request with the token `t` is outstanding. -/
def View.Gone (v : View) (t : ℕ) : Prop := ∀ r ∈ v.outs, r.token ≠ t

/-- `Probe` of a posted work request. When it is the last look of a `WaitEvent` and completions are
timely, it finds the completion. -/
theorem probeEvent_spec (ht : g.tok ρ = .posted t) (look : Prop) :
    B.Triple i (fun m v _ => Near B i T m₀ g m v ∧ (look → m.lastLook = some t)) (probeEvent t)
      (fun r m v _ =>
        (r = 0 ∧ ¬ (look ∧ (B.mode i).timely = true) ∧
          Near B i T m₀ g m v ∧ (look → m.lastLook = some t)) ∨
        ((r = 1 ∨ r = -1 ∧ (B.mode i).cqesOk = false) ∧
          Near B i T m₀ (g.setTok ρ .idle) m v ∧ v.Gone t)) := by
  refine Setup.Triple.of_fact (p := 0 < t ∧ t < 2 ^ 40)
    (fun m v n _ h => h.1.core.small_posted ht) fun ⟨ht0, ht40⟩ => ?_
  unfold probeEvent Port.probe
  rw [if_neg (by omega)]
  refine Setup.Triple.bind (Q := fun value m v _ =>
    (Near B i T m₀ g m v ∧ (look → m.lastLook = some t)) ∧
    ((value ≠ done t true ∧ value ≠ done t false ∧ ¬ (look ∧ (B.mode i).timely = true)) ∨
      ∃ ok, value = done t ok ∧ v.states (index t) = done t ok)) ?_ fun value => ?_
  · refine (load_spec (fun m => (Near.steady _ _ _ m).and (.const _)) (index t)).post ?_
    rintro value m v n - ⟨⟨h, hlook⟩, hval, htimely⟩
    refine ⟨⟨h, hlook⟩, ?_⟩
    rcases h.core.posted ρ t ht with ⟨hp, r, hr, hrt⟩ | ⟨ok, hd, -, -⟩
    · rw [← hval, hp]
      refine .inl ⟨pending_ne_done ht40 ht40 true, pending_ne_done ht40 ht40 false, ?_⟩
      rintro ⟨hl, htime⟩
      exact htimely htime r hr (hrt ▸ hlook hl)
    · exact .inr ⟨ok, hval ▸ hd, hd⟩
  · unfold Port.probeValue
    refine Setup.Triple.ite (fun hne => ?_) fun heq => ?_
    · refine Setup.Triple.pure fun m v n ⟨h, hval⟩ => .inl ⟨rfl, ?_, h⟩
      rcases hval with ⟨-, -, hno⟩ | ⟨ok, rfl, -⟩
      · exact hno
      · cases ok
        · exact absurd rfl hne.2
        · exact absurd rfl hne.1
    · -- the compare-exchange
      refine Setup.Triple.of_fact (p := ∃ ok, value = done t ok)
        (fun m v n _ ⟨_, hval⟩ => ?_) fun ⟨ok, hok⟩ => ?_
      · rcases hval with ⟨h1, h2, -⟩ | ⟨ok, rfl, -⟩
        · exact absurd ⟨h1, h2⟩ heq
        · exact ⟨ok, rfl⟩
      subst hok
      refine Setup.Triple.bind (Q := fun r m v _ => r = none ∧ SameBut m₀ m ∧
        ((B.mode i).cqesOk = true → ok = true) ∧
        Core B i T (m.ev.release (index t)) (g.setTok ρ .idle) v ∧ v.Gone t)
        (Setup.Triple.act (P := fun m v _ => Near B i T m₀ g m v ∧
          v.states (index t) = done t ok) (fun m n => ?_) ?_ |>.pre ?_) fun r => ?_
      · exact (Near.steady _ _ _ _).and (done_steady ht40 ok)
      · rintro m s n o hs ⟨h, hd⟩ -
        obtain ⟨hok, hno⟩ : ((B.mode i).cqesOk = true → ok = true) ∧
            ∀ r ∈ (s.view i).outs, r.token ≠ t := by
          rcases h.core.posted ρ t ht with ⟨hp, -⟩ | ⟨ok', hd', hok', hno⟩
          · exact absurd (hp.symm.trans hd) (pending_ne_done ht40 ht40 ok)
          · exact ⟨(done_inj ht40 ht40 (hd'.symm.trans hd)).2 ▸ hok', hno⟩
        obtain ⟨hinv, hnone, hcore⟩ := consume_access hs h.core (x := .idle)
          (o := o) (e := .casStrong (index t) (done t ok) 0) (by rw [ht]; rfl) (.inr ⟨rfl, hno⟩)
          (by rw [SlotAct.run_casStrong]; exact if_pos hd)
          (f := if ok then .landed else .failed) (by cases ok <;> decide) (settleBy_clear ht40)
        refine ⟨⟨hinv, fun w hw => Sys.access_view_of_ne hw, fun _ _ => ?_⟩, hnone, h.mem, hok,
          hcore, ?_⟩
        · rw [done_shift ht40]
          exact h.core.awaits_of_posted ht
        show ((s.access i o (.casStrong (index t) (done t ok) 0)).2.view i).Gone t
        rw [Sys.access_view]
        exact hno
      · rintro m v n - ⟨⟨h, -⟩, hval⟩
        refine ⟨h, ?_⟩
        rcases hval with ⟨h1, h2, -⟩ | ⟨ok', hok', hd⟩
        · cases ok
          · exact absurd rfl h2
          · exact absurd rfl h1
        · rw [hd, hok']
      · cases r with
        | some x => exact Setup.Triple.absurd fun m v n _ h => nomatch h.1
        | none =>
          refine Setup.Triple.modify_bind (fun m v _ => ((B.mode i).cqesOk = true → ok = true) ∧
            Near B i T m₀ (g.setTok ρ .idle) m v ∧ v.Gone t) ?_ (Setup.Triple.pure ?_)
          · rintro m v n ⟨-, hmem, hok, hcore, hgone⟩
            exact ⟨hok, ⟨hmem.setEv _, hcore⟩, hgone⟩
          · rintro m v n ⟨hok, h⟩
            refine .inr ⟨?_, h⟩
            cases ok
            · refine .inr ⟨if_neg fun he => ?_, ?_⟩
              · exact nomatch (done_inj ht40 ht40 he).2
              · exact Bool.eq_false_iff.2 fun hc => nomatch hok hc
            · exact .inl (if_pos rfl)

/-- One round of `Abort`: a failed compare-exchange is spurious, or the completion arrived between
the reading of the word and the exchange. -/
theorem abortRound_spec (hl : (g.tok ρ).live = some t) {x : TokenState}
    (hx : x = .lost t ∨ x = .idle ∧ g.tok ρ = .fresh t) (ht40 : t < 2 ^ 40) (value n₀ : ℕ)
    {k₀ : ℕ} (hk : ∀ k ≥ k₀, B.pace.spurious k = false) :
    B.Triple i (fun m v n => n = n₀ ∧
        (Near B i T m₀ g m v ∧ (g.tok ρ = .posted t → m.lastLook = some t)) ∧
        (value = pending t ∨ ∃ ok, value = done t ok ∧ v.states (index t) = done t ok))
      (eventPort.abortRound t value)
      (Sum.elim
        (fun found m v n => ((Near B i T m₀ g m v ∧ (g.tok ρ = .posted t → m.lastLook = some t)) ∧
          (found = pending t ∨ ∃ ok, found = done t ok ∧ v.states (index t) = done t ok)) ∧
          2 * (k₀ - n) + (if found = pending t then 1 else 0) <
            2 * (k₀ - n₀) + (if value = pending t then 1 else 0))
        (fun _ m v _ => Near B i T m₀ (g.setTok ρ x) m v)) := by
  unfold Port.abortRound
  refine Setup.Triple.of_fact (p := value >>> 2 = t) (fun m v n _ ⟨_, _, hval⟩ => ?_) fun hshift => ?_
  · rcases hval with rfl | ⟨ok, rfl, -⟩
    · exact pending_shift ht40
    · exact done_shift ht40 ok
  rw [if_pos hshift]
  refine Setup.Triple.bind (Q := fun r m v n => n = n₀ + 1 ∧
    (SameBut m₀ m ∧ (g.tok ρ = .posted t → m.lastLook = some t)) ∧
    r.elim (Core B i T (m.ev.release (index t)) (g.setTok ρ x) v)
      (fun found => Core B i T m.ev g v ∧ v.states (index t) = found ∧
        (n₀ < k₀ ∨ value = pending t ∧ found ≠ value))) (Setup.Triple.act (fun m n => ?_) ?_)
    fun r => ?_
  · refine (Setup.Steady.const _).and (((Near.steady _ _ _ _).and (.const _)).and ?_)
    intro v r ok hv hr hok hval
    rcases hval with hp | ⟨ok', hval, hd⟩
    · exact .inl hp
    · exact .inr ⟨ok', hval, View.deliver_done hv hr ht40 hd⟩
  · rintro m s n o hs ⟨rfl, ⟨h, hlook⟩, hval⟩ ho
    -- the word is that of a posted work request only past the deadline
    have hkeep : (s.view i).Awaits (value >>> 2) → m.lastLook = some (value >>> 2) := by
      rw [hshift]
      intro haw
      obtain ⟨ρ', hρ'⟩ := h.core.exists_posted haw
      obtain rfl : ρ' = ρ := h.core.inj ρ' ρ t t (by rw [hρ']; rfl) hl rfl
      exact hlook hρ'
    by_cases hex : s.states i (index t) = value ∧ o.spurious = false
    · have hx' : x = .lost t ∨ x = .idle ∧ ∀ r ∈ (s.view i).outs, r.token ≠ t :=
        hx.imp_right fun ⟨hidle, hf⟩ => ⟨hidle, (h.core.fresh ρ t hf).2⟩
      obtain ⟨hinv, hnone, hcore⟩ := consume_access hs h.core hl hx' (o := o)
        (e := .casWeak (index t) value 0) (if_pos hex) (f := .aborted) (by decide)
        (by simp only [settleBy, hshift, if_true])
      refine ⟨⟨hinv, fun w hw => Sys.access_view_of_ne hw, hkeep⟩, rfl, ⟨h.mem, hlook⟩, ?_⟩
      show Option.elim (s.access i o (.casWeak (index t) value 0)).1 _ _
      rw [hnone]
      exact hcore
    · have hrun : SlotAct.run o.spurious (.casWeak (index t) value 0) (s.states i) =
          (some (s.states i (index t)), s.states i) := if_neg hex
      have hview : (s.access i o (.casWeak (index t) value 0)).2.view i = s.view i := by
        rw [Sys.access_view, hrun]
        rfl
      have hfst : (s.access i o (.casWeak (index t) value 0)).1 =
        some ((s.view i).states (index t)) := congrArg Prod.fst hrun
      refine ⟨⟨hs.access_clear fun k => .inl ?_, fun w hw => Sys.access_view_of_ne hw, hkeep⟩, rfl,
        ⟨h.mem, hlook⟩, ?_⟩
      · rw [hrun]
      · show Option.elim (s.access i o (.casWeak (index t) value 0)).1 _ fun found =>
          Core B i T m.ev g ((s.access i o (.casWeak (index t) value 0)).2.view i) ∧
            ((s.access i o (.casWeak (index t) value 0)).2.view i).states (index t) = found ∧
            (n < k₀ ∨ value = pending t ∧ found ≠ value)
        rw [hfst, hview]
        refine ⟨h.core, rfl, ?_⟩
        by_cases hn : n < k₀
        · exact .inl hn
        · -- no spurious failure any more, so the word has changed
          have hsp : o.spurious = false := by
            by_contra hsp
            have := ho (Bool.eq_true_of_not_eq_false hsp)
            rw [hk n (by omega)] at this
            cases this
          have hne : (s.view i).states (index t) ≠ value := fun he => hex ⟨he, hsp⟩
          rcases hval with hp | ⟨ok, rfl, hd⟩
          · exact .inr ⟨hp, hne⟩
          · exact absurd hd hne
  · cases r with
    | none =>
      refine Setup.Triple.modify_bind (fun m v _ => Near B i T m₀ (g.setTok ρ x) m v) ?_
        (Setup.Triple.pure fun m v n h => h)
      rintro m v n ⟨-, ⟨hmem, -⟩, hcore⟩
      exact ⟨hmem.setEv _, hcore⟩
    | some found =>
      refine Setup.Triple.pure ?_
      rintro m v n ⟨rfl, ⟨hmem, hlook⟩, hcore, hfound, hprogress⟩
      have hword := hcore.word hl
      rw [hfound] at hword
      refine ⟨⟨⟨⟨hmem, hcore⟩, hlook⟩, ?_⟩, ?_⟩
      · rcases hword with hp | ⟨ok, hd⟩
        · exact .inl hp
        · exact .inr ⟨ok, hd, hfound.trans hd⟩
      · rcases hprogress with hlt | ⟨hp, hne⟩
        · split <;> split <;> omega
        · rw [if_pos hp, if_neg fun hf => hne (hf.trans hp.symm)]
          omega

/-- `Abort` gives up a live token: the slot is free again. If the work request was posted, it may
still be outstanding; that happens only at the end of `WaitEvent`. -/
theorem abortEvent_spec (hB : B.Sound) (hl : (g.tok ρ).live = some t) {x : TokenState}
    (hx : x = .lost t ∨ x = .idle ∧ g.tok ρ = .fresh t) :
    B.Triple i (fun m v _ => Near B i T m₀ g m v ∧ (g.tok ρ = .posted t → m.lastLook = some t))
      (abortEvent t) (fun _ m v _ => Near B i T m₀ (g.setTok ρ x) m v) := by
  refine Setup.Triple.of_fact (p := 0 < t ∧ t < 2 ^ 40) (fun m v n _ h => (h.1.core.small ρ t hl).1)
    fun ⟨ht0, ht40⟩ => ?_
  obtain ⟨k₀, hk⟩ := hB.live.spurious
  unfold abortEvent Port.abort
  rw [if_neg (by omega)]
  refine Setup.Triple.bind (Setup.Triple.bind
    (load_spec (fun m => (Near.steady _ _ _ m).and (.const _)) (index t))
    fun value => ?_) (Q := fun _ m v _ => Near B i T m₀ (g.setTok ρ x) m v)
    fun _ => Setup.Triple.pure fun m v n h => h
  refine (Setup.Triple.loop (fun value m v _ =>
    (Near B i T m₀ g m v ∧ (g.tok ρ = .posted t → m.lastLook = some t)) ∧
    (value = pending t ∨ ∃ ok, value = done t ok ∧ v.states (index t) = done t ok))
    (fun value _ n => 2 * (k₀ - n) + (if value = pending t then 1 else 0))
    (fun value m₁ n₀ => ?_) value).pre ?_
  · exact (abortRound_spec hl hx ht40 value n₀ hk).pre fun m v n _ h => h.2
  · rintro m v n - ⟨h, hval, -⟩
    refine ⟨h, ?_⟩
    rcases h.1.core.word hl with hp | ⟨ok, hd⟩
    · exact .inl (hval ▸ hp)
    · exact .inr ⟨ok, hval ▸ hd, hd⟩

/-- `Abort` of a token that was not posted. -/
theorem abortEvent_fresh (hB : B.Sound) (ht : g.tok ρ = .fresh t) :
    B.Triple i (fun m v _ => Near B i T m₀ g m v) (abortEvent t)
      (fun _ m v _ => Near B i T m₀ (g.setTok ρ .idle) m v) := by
  refine (abortEvent_spec hB (by rw [ht]; rfl) (.inr ⟨rfl, ht⟩)).pre fun m v n _ h => ⟨h, ?_⟩
  intro hp
  rw [ht] at hp
  cases hp

/-- One round of the loop of `WaitEvent`, given what `Probe` does. -/
theorem waitRound_spec {X : ℤ → Worker → View → Prop}
    (hprobe : B.Triple i (fun m v _ => Near B i T m₀ g m v) (probeEvent t)
      (fun r m v _ => (r = 0 ∧ Near B i T m₀ g m v) ∨ (r ≠ 0 ∧ X r m v)))
    {deadline k₀ : ℕ} (hk : ∀ k ≥ k₀, deadline ≤ B.pace.floor k) (n₀ : ℕ) :
    B.Triple i (fun m v n => Near B i T m₀ g m v ∧ n₀ ≤ n) (waitRound t deadline ())
      (Sum.elim (fun _ m v n => Near B i T m₀ g m v ∧ k₀ - n < k₀ - n₀)
        (fun r m v _ => r.elim (Near B i T m₀ g m v) fun ok =>
          ∃ r, ok = decide (r = 1) ∧ X r m v)) := by
  unfold waitRound
  refine Setup.Triple.bind (hprobe.timed n₀) fun r => ?_
  refine Setup.Triple.ite (fun hr => ?_) fun hr => ?_
  · refine Setup.Triple.pure ?_
    rintro m v n ⟨⟨rfl, -⟩ | ⟨-, h⟩, -⟩
    · exact absurd rfl hr
    · exact ⟨r, rfl, h⟩
  · refine ((Setup.Triple.bind (now_spec (Near.steady T m₀ g) hk n₀) fun c => ?_)).pre ?_
    · refine Setup.Triple.ite (fun hc => ?_) fun hc => ?_
      · exact Setup.Triple.pure fun m v n h => h.1.1
      · refine Setup.Triple.of_fact (p := n₀ < k₀) (fun m v n _ h => h.2 (by omega)) fun hlt => ?_
        refine Setup.Triple.bind (((sleepNs_spec (Near.steady T m₀ g) _).timed (n₀ + 1)).pre
          fun m v n _ h => h.1) fun _ => Setup.Triple.pure fun m v n ⟨h, hn⟩ => ⟨h, ?_⟩
        omega
    · rintro m v n - ⟨⟨-, h⟩ | ⟨hr', -⟩, hn⟩
      · exact ⟨h, hn⟩
      · exact absurd hr' hr

/-- `WaitEvent` up to its deadline, given what `Probe` does. -/
theorem waitLoop_spec (hB : B.Sound) {X : ℤ → Worker → View → Prop}
    (hprobe : B.Triple i (fun m v _ => Near B i T m₀ g m v) (probeEvent t)
      (fun r m v _ => (r = 0 ∧ Near B i T m₀ g m v) ∨ (r ≠ 0 ∧ X r m v)))
    {deadline : ℕ} (hdl : deadline < 2 ^ 64) :
    B.Triple i (fun m v _ => Near B i T m₀ g m v) (Proc.loop (waitRound t deadline) ())
      (fun r m v _ => r.elim (Near B i T m₀ g m v) fun ok => ∃ r, ok = decide (r = 1) ∧ X r m v) := by
  obtain ⟨k₀, hk⟩ := hB.live.floor deadline hdl
  exact Setup.Triple.loop (fun _ m v _ => Near B i T m₀ g m v) (fun _ _ n => k₀ - n)
    (fun _ m₁ n₀ => (waitRound_spec hprobe hk n₀).pre fun m v n _ h => ⟨h.2.2, h.2.1.ge⟩) ()

/-- A consumed token may also count as lost. -/
theorem Near.lose {m : Worker} {v : View} (h : Near B i T m₀ (g.setTok ρ .idle) m v) (t : ℕ) :
    Near B i T m₀ (g.setTok ρ (.lost t)) m v := by
  have hcore := h.core.retok (ρ := ρ) (x := .lost t) (by rw [Ghost.setTok_self]; rfl) rfl
    fun r _ _ hr => by rw [Ghost.setTok_self] at hr; cases hr
  refine ⟨h.mem, ?_⟩
  simpa [Ghost.setTok] using hcore

/-- The end of `WaitEvent`, past the deadline. -/
theorem finalLook_spec (hB : B.Sound) (ht : g.tok ρ = .posted t) :
    B.Triple i (fun m v _ => Near B i T m₀ g m v) (finalLook t)
      (fun b m v _ =>
        (b = true ∧ Near B i T m₀ (g.setTok ρ .idle) m v ∧ v.Gone t) ∨
        (b = false ∧ Near B i T m₀ (g.setTok ρ (.lost t)) m v ∧
          ¬ ((B.mode i).cqesOk = true ∧ (B.mode i).timely = true))) := by
  have hlive : (g.tok ρ).live = some t := by rw [ht]; rfl
  unfold finalLook
  refine Setup.Triple.modify_bind (fun m v _ => (Near B i T m₀ g m v ∧ m.lastLook = some t))
    (fun m v n h => ⟨⟨h.mem.setLook _, h.core⟩, rfl⟩) ?_
  refine Setup.Triple.bind ((probeEvent_spec ht True).pre fun m v n _ h => ⟨h.1, fun _ => h.2⟩)
    fun r => ?_
  refine Setup.Triple.when_bind (I := fun m v _ =>
    (r = 1 ∧ Near B i T m₀ (g.setTok ρ .idle) m v ∧ v.Gone t) ∨
    (r ≠ 1 ∧ Near B i T m₀ (g.setTok ρ (.lost t)) m v ∧
      ¬ ((B.mode i).cqesOk = true ∧ (B.mode i).timely = true))) (fun hr => ?_) (fun hr => ?_) ?_
  · subst hr
    refine Setup.Triple.of_fact (p := ¬ ((B.mode i).timely = true)) ?_ fun hno => ?_
    · rintro m v n - (⟨-, hno, -⟩ | ⟨hr | ⟨hr, -⟩, -⟩)
      · exact fun htime => hno ⟨trivial, htime⟩
      · exact absurd hr (by decide)
      · exact absurd hr (by decide)
    · refine (abortEvent_spec hB hlive (.inl rfl)).conseq ?_
        fun _ m v n _ h => .inr ⟨by decide, h, fun hc => hno hc.2⟩
      rintro m v n - (⟨-, -, h, hlook⟩ | ⟨hr | ⟨hr, -⟩, -⟩)
      · exact ⟨h, fun _ => hlook trivial⟩
      · exact absurd hr (by decide)
      · exact absurd hr (by decide)
  · rintro m v n - (⟨h0, -⟩ | ⟨rfl | ⟨rfl, hc⟩, h, hgone⟩)
    · exact absurd h0 hr
    · exact .inl ⟨rfl, h, hgone⟩
    · exact .inr ⟨by decide, h.lose t, fun hcc => by simp [hc] at hcc⟩
  · refine Setup.Triple.modify_bind (fun m v _ =>
      (r = 1 ∧ Near B i T m₀ (g.setTok ρ .idle) m v ∧ v.Gone t) ∨
      (r ≠ 1 ∧ Near B i T m₀ (g.setTok ρ (.lost t)) m v ∧
        ¬ ((B.mode i).cqesOk = true ∧ (B.mode i).timely = true))) ?_ (Setup.Triple.pure ?_)
    · rintro m v n (⟨hr, h, hgone⟩ | ⟨hr, h, hno⟩)
      · exact .inl ⟨hr, ⟨h.mem.setLook _, h.core⟩, hgone⟩
      · exact .inr ⟨hr, ⟨h.mem.setLook _, h.core⟩, hno⟩
    · rintro m v n (⟨hr, h⟩ | ⟨hr, h⟩)
      · exact .inl ⟨decide_eq_true hr, h⟩
      · exact .inr ⟨decide_eq_false hr, h⟩

/-- **`WaitEvent`** of a posted work request consumes its completion, or gives its token up. -/
theorem waitEvent_spec (hB : B.Sound) (ht : g.tok ρ = .posted t) (timeoutMs : ℤ) :
    B.Triple i (fun m v _ => Near B i T m₀ g m v) (waitEvent t timeoutMs)
      (fun b m v _ =>
        (b = true ∧ Near B i T m₀ (g.setTok ρ .idle) m v ∧ v.Gone t) ∨
        (b = false ∧ Near B i T m₀ (g.setTok ρ (.lost t)) m v ∧
          ¬ ((B.mode i).cqesOk = true ∧ (B.mode i).timely = true))) := by
  have hprobe : B.Triple i (fun m v _ => Near B i T m₀ g m v) (probeEvent t) (fun r m v _ =>
      (r = 0 ∧ Near B i T m₀ g m v) ∨ (r ≠ 0 ∧ (r = 1 ∨ (B.mode i).cqesOk = false) ∧
        Near B i T m₀ (g.setTok ρ .idle) m v ∧ v.Gone t)) := by
    refine (probeEvent_spec ht False).conseq (fun m v n _ h => ⟨h, False.elim⟩) ?_
    rintro r m v n - (⟨hr, -, h, -⟩ | ⟨rfl | ⟨rfl, hc⟩, h⟩)
    · exact .inl ⟨hr, h⟩
    · exact .inr ⟨by decide, .inl rfl, h⟩
    · exact .inr ⟨by decide, .inr hc, h⟩
  unfold waitEvent
  refine Setup.Triple.bind (now_any (Near.steady T m₀ g)) fun c => ?_
  refine Setup.Triple.bind (waitLoop_spec hB hprobe (Nat.mod_lt _ (by norm_num))) fun r => ?_
  cases r with
  | some ok =>
    refine Setup.Triple.pure ?_
    rintro m v n ⟨r, rfl, hr, h, hgone⟩
    by_cases hr1 : r = 1
    · exact .inl ⟨decide_eq_true hr1, h, hgone⟩
    · exact .inr ⟨decide_eq_false hr1, h.lose t, fun hc => by
        simp [hr.resolve_left hr1] at hc⟩
  | none => exact finalLook_spec hB ht

/-! ### Waiting for a consumed event

The get drain also waits for events that the main loop has consumed. Their tokens are not live, so
such a wait ends at its deadline and touches nothing. -/

section Stale

variable (hstale : ∀ ρ, (g.tok ρ).live ≠ some t) (ht40 : t < 2 ^ 40)
include hstale ht40

/-- The slot of a token that is not live does not have a word of this token. -/
theorem Core.word_stale {ev : EventSlots} {v : View} (h : Core B i T ev g v) (h0 : t ≠ 0) :
    (∀ ok, v.states (index t) ≠ done t ok) ∧ v.states (index t) >>> 2 ≠ t := by
  by_cases hfree : index t ∈ ev.freeSlots ∨ index t ∈ B.taken
  · rw [h.zero _ hfree]
    exact ⟨fun ok => (done_ne_zero ht40 ok).symm, fun hz => h0 hz.symm⟩
  · -- another token occupies the slot
    obtain ⟨ρ, t', hl, hidx⟩ : ∃ ρ t', (g.tok ρ).live = some t' ∧ index t' = index t := by
      by_contra hno
      push Not at hno
      push Not at hfree
      exact hfree.1 ((h.free _).2 ⟨⟨index_lt t, hfree.2⟩, hno⟩)
    have hne : t' ≠ t := fun he => hstale ρ (he ▸ hl)
    have ht' := (h.small ρ t' hl).1.2
    have hword := h.word hl
    rw [hidx] at hword
    rcases hword with hp | ⟨ok', hd⟩
    · rw [hp]
      exact ⟨fun ok => pending_ne_done ht' ht40 ok, by rwa [pending_shift ht']⟩
    · rw [hd]
      exact ⟨fun ok he => hne (done_inj ht' ht40 he).1, by rwa [done_shift ht']⟩

theorem probeEvent_stale :
    B.Triple i (fun m v _ => Near B i T m₀ g m v) (probeEvent t)
      (fun r m v _ => r = 0 ∧ Near B i T m₀ g m v) := by
  unfold probeEvent Port.probe
  refine Setup.Triple.ite (fun _ => Setup.Triple.pure fun m v n h => ⟨rfl, h⟩) fun h0 => ?_
  refine Setup.Triple.bind (load_spec (Near.steady T m₀ g) (index t)) fun value => ?_
  refine Setup.Triple.of_fact (p := ∀ ok, value ≠ done t ok) ?_ fun hval => ?_
  · rintro m v n - ⟨h, rfl, -⟩
    exact (h.core.word_stale hstale ht40 h0).1
  · unfold Port.probeValue
    rw [if_pos ⟨hval true, hval false⟩]
    exact Setup.Triple.pure fun m v n h => ⟨rfl, h.1⟩

theorem abortEvent_stale :
    B.Triple i (fun m v _ => Near B i T m₀ g m v) (abortEvent t)
      (fun _ m v _ => Near B i T m₀ g m v) := by
  unfold abortEvent Port.abort
  refine Setup.Triple.bind (Q := fun _ m v _ => Near B i T m₀ g m v)
    (Setup.Triple.ite (fun _ => Setup.Triple.pure fun m v n h => h) fun h0 => ?_)
    fun _ => Setup.Triple.pure fun m v n h => h
  refine Setup.Triple.bind (load_spec (Near.steady T m₀ g) (index t)) fun value => ?_
  refine Setup.Triple.of_fact (p := value >>> 2 ≠ t) ?_ fun hval => ?_
  · rintro m v n - ⟨h, rfl, -⟩
    exact (h.core.word_stale hstale ht40 h0).2
  · refine (Setup.Triple.loop (fun value m v _ => value >>> 2 ≠ t ∧ Near B i T m₀ g m v)
      (fun _ _ _ => 0) (fun value m₁ n₀ => ?_) value).pre fun m v n _ h => ⟨hval, h.1⟩
    refine Setup.Triple.of_fact (p := value >>> 2 ≠ t) (fun m v n _ h => h.2.2.1) fun hval => ?_
    unfold Port.abortRound
    rw [if_neg hval]
    exact Setup.Triple.pure fun m v n h => h.2.2.2

/-- `WaitEvent` of an event that is not live. -/
theorem waitEvent_stale (hB : B.Sound) (timeoutMs : ℤ) :
    B.Triple i (fun m v _ => Near B i T m₀ g m v) (waitEvent t timeoutMs)
      (fun b m v _ => b = false ∧ Near B i T m₀ g m v) := by
  have hprobe : B.Triple i (fun m v _ => Near B i T m₀ g m v) (probeEvent t)
      (fun r m v _ => r = 0 ∧ Near B i T m₀ g m v) := probeEvent_stale hstale ht40
  unfold waitEvent
  refine Setup.Triple.bind (now_any (Near.steady T m₀ g)) fun c => ?_
  refine Setup.Triple.bind (waitLoop_spec hB (X := fun _ _ _ => False)
    (hprobe.post fun r m v n _ h => .inl h) (Nat.mod_lt _ (by norm_num))) fun r => ?_
  cases r with
  | some ok => exact Setup.Triple.absurd fun m v n _ ⟨_, _, h⟩ => h
  | none =>
    unfold finalLook
    refine Setup.Triple.modify_bind (fun m v _ => Near B i T m₀ g m v)
      (fun m v n h => ⟨h.mem.setLook _, h.core⟩) ?_
    refine Setup.Triple.bind hprobe fun r => ?_
    refine Setup.Triple.of_fact (p := r = 0) (fun m v n _ h => h.1) fun hr => ?_
    subst hr
    refine Setup.Triple.when_bind (I := fun m v _ => Near B i T m₀ g m v)
      (fun _ => (abortEvent_stale hstale ht40).pre fun m v n _ h => h.2)
      (fun _ m v n _ h => h.2) ?_
    · exact Setup.Triple.modify_bind (fun m v _ => Near B i T m₀ g m v)
        (fun m v n h => ⟨h.mem.setLook _, h.core⟩)
        (Setup.Triple.pure fun m v n h => ⟨rfl, h⟩)

end Stale

/-! ### Lanes -/

/-- Where a send stands among those of its thread. -/
def SendId.place : SendId → ℕ × ℕ
  | .slot idx send => (idx, send)
  | .sync => (0, 0)

/-- With a lane for every send, a send that holds none finds one. -/
theorem Inv.idle_ne_nil {s : Sys} (hB : B.Sound) (hs : Inv B s) (hroomy : B.roomy)
    (hσ : σ.Piped B.slots) (hfree : ∀ l, ((i : ℕ), σ) ∉ s.holders l) : s.lanes.idle ≠ [] := by
  intro hnil
  have hheld : ∀ l : Fin B.lanes, ∃ a, a ∈ s.holders l := by
    intro l
    refine List.exists_mem_of_ne_nil _ fun hl => ?_
    have := (hs.idle l).2 ⟨l.2, hl⟩
    simp [hnil] at this
  choose a ha using hheld
  -- the lanes and the send itself are different sends
  let f : Option (Fin B.lanes) → ℕ × SendId := fun o => o.elim ((i : ℕ), σ) a
  have hf : Function.Injective f := by
    rintro (_ | l) (_ | l') h
    · rfl
    · have h : ((i : ℕ), σ) = a l' := h
      exact absurd (h ▸ ha l') (hfree l')
    · have h : a l = ((i : ℕ), σ) := h
      exact absurd (h ▸ ha l) (hfree l)
    · have h : a l = a l' := h
      exact congrArg some (Fin.ext ((hs.roomy hroomy l' _ _ (ha l')).2.2 l (h ▸ ha l)))
  have hmem : ∀ o, (f o).1 < B.n ∧ (f o).2.Piped B.slots := by
    rintro (_ | l)
    · exact ⟨i.2, hσ⟩
    · exact ⟨(hs.roomy hroomy l _ _ (ha l)).1, (hs.roomy hroomy l _ _ (ha l)).2.1⟩
  let code : ℕ × SendId → ℕ × ℕ × ℕ := fun b => (b.1, b.2.place)
  have hcode : Function.Injective (code ∘ f) := by
    intro o o' h
    refine hf ?_
    have h1 := (hmem o).2
    have h2 := (hmem o').2
    revert h h1 h2
    show code (f o) = code (f o') → _
    obtain ⟨w, _ | _⟩ := f o <;> obtain ⟨w', _ | _⟩ := f o' <;>
      simp +contextual [code, SendId.place, SendId.Piped]
  have hcard := Finset.card_le_card_of_injOn
    (s := (Finset.univ : Finset (Option (Fin B.lanes))))
    (t := Finset.range B.n ×ˢ Finset.range B.slots ×ˢ Finset.range kvSendsPerReq) (code ∘ f)
    (fun o _ => ?_) hcode.injOn
  · have := hB.capacity hroomy
    simp only [Finset.card_univ, Fintype.card_option, Fintype.card_fin, Finset.card_product,
      Finset.card_range] at hcard
    omega
  · have h1 := hmem o
    revert h1
    show _ → code (f o) ∈ _
    obtain ⟨w, _ | _⟩ := f o <;> simp [code, SendId.place, SendId.Piped]

/-- Taking the first idle lane keeps the invariant. -/
theorem Inv.pop {s : Sys} (hs : Inv B s) {rest : List Lane} (hidle : s.lanes.idle = l :: rest)
    (hroomy : B.roomy → σ.Piped B.slots ∧ ∀ l, ((i : ℕ), σ) ∉ s.holders l) (o : Oracle) :
    Inv B ((Act.popIdle σ).run i o s).2 ∧ ((Act.popIdle σ).run i o s).1 = some l ∧
      (∀ w, w ≠ (i : ℕ) → ((Act.popIdle σ).run i o s).2.view w = s.view w) ∧
      ((Act.popIdle σ).run i o s).2.view i =
        { s.view i with holds := fun l' σ' => (s.view i).holds l' σ' ∨ (l' = l ∧ σ' = σ) } := by
  obtain ⟨hwf, hjettys, hpop, htail⟩ := SendJettyPool.popIdle_spec hs.lanes
  have hsome : s.lanes.popIdle.1 = some l := by rw [hpop, hidle]; rfl
  have hrest : s.lanes.popIdle.2.idle = rest := by rw [htail, hidle]; rfl
  obtain ⟨hlt, hnil⟩ := (hs.idle l).1 (hidle ▸ List.mem_cons_self)
  obtain ⟨hnot, -⟩ := List.nodup_cons.1 (hidle ▸ hs.lanes.idle_nodup)
  have hstate : ((Act.popIdle σ).run i o s).2 =
      { s with
        lanes := s.lanes.popIdle.2
        holders := Function.update s.holders l [((i : ℕ), σ)]
        acquired := Function.update s.acquired i
          (Function.update (s.acquired i) l (s.acquired i l + 1)) } := by
    simp only [Act.run, hsome, hnil]
  have hmem : ∀ l' b, b ∈ Function.update s.holders l [((i : ℕ), σ)] l' ↔
      b ∈ s.holders l' ∨ (l' = l ∧ b = ((i : ℕ), σ)) := by
    intro l' b
    by_cases hl : l' = l
    · subst hl
      simp [hnil]
    · simp [hl]
  rw [hstate]
  refine ⟨⟨hwf, hjettys.trans hs.jettys, fun l' => ?_, fun l' => ?_, fun l' hl' => ?_,
    fun w l' => ?_, fun r hr => ?_, hs.outCtx, hs.notDone, hs.outWid, hs.outToken, hs.outGood,
    hs.outRequest, hs.good, fun hr l' w σ' hh => ?_⟩, hsome, fun w hw => ?_, ?_⟩
  · by_cases hl : l' = l
    · subst hl
      simp [hrest, hnot]
    · have := hs.idle l'
      rw [hidle, List.mem_cons] at this
      simp only [hrest, Function.update_of_ne hl]
      exact ⟨fun h => this.1 (.inr h), fun h => (this.2 h).resolve_left hl⟩
  · by_cases hl : l' = l
    · subst hl
      simp
    · simpa only [Function.update_of_ne hl] using hs.one l'
  · by_cases hl : l' = l
    · exact hl ▸ hlt
    · exact hs.held l' (by simpa only [Function.update_of_ne hl] using hl')
  · have hb := hs.balance w l'
    by_cases hl : l' = l
    · subst hl
      rw [hnil] at hb
      by_cases hw : w = i
      · subst hw
        simp only [Function.update_self]
        simp at hb ⊢
        omega
      · simp only [Function.update_of_ne hw, Function.update_self]
        simp [Ne.symm hw] at hb ⊢
        omega
    · by_cases hw : w = i
      · subst hw
        simpa only [Function.update_self, Function.update_of_ne hl] using hb
      · simpa only [Function.update_of_ne hw, Function.update_of_ne hl] using hb
  · exact (hmem _ _).2 (.inl (hs.outHeld r hr))
  · obtain ⟨hpiped, hfree⟩ := hroomy hr
    rcases (hmem _ _).1 hh with hold | ⟨rfl, hnew⟩
    · obtain ⟨h1, h2, h3⟩ := hs.roomy hr l' w σ' hold
      refine ⟨h1, h2, fun l'' hh' => ?_⟩
      rcases (hmem _ _).1 hh' with hold' | ⟨-, hnew⟩
      · exact h3 l'' hold'
      · exact absurd (hnew ▸ hold) (hfree l')
    · obtain ⟨rfl, rfl⟩ := Prod.mk.inj hnew
      refine ⟨i.2, hpiped, fun l'' hh' => ?_⟩
      rcases (hmem _ _).1 hh' with hold' | ⟨hl, -⟩
      · exact absurd hold' (hfree l'')
      · exact hl
  · simp only [Sys.view, hmem, Prod.mk.injEq, hw, false_and, and_false, or_false]
  · simp only [Sys.view, hmem, Prod.mk.injEq, true_and]

/-- `AcquireSendLane` for a send without a lane. -/
theorem acquireSendLane_spec (hB : B.Sound) (hσ : g.lane σ = none) (hT : B.roomy → T)
    (hpiped : B.roomy → σ.Piped B.slots) :
    B.Triple i (fun m v _ => Near B i T m₀ g m v) (acquireSendLane σ)
      (fun r m v _ =>
        (r = none ∧ Near B i T m₀ g m v ∧ (B.mode i).lanesOk = false ∧ ¬ B.roomy) ∨
        ∃ l, r = some l ∧ Near B i T m₀ (g.setLane σ (some l)) m v) := by
  refine Setup.Triple.act (fun m n => Near.steady _ _ _ m) fun m s n o hs h ho => ?_
  -- in a roomy system the worker knows all lanes it holds
  have hfree : B.roomy → ∀ l, ((i : ℕ), σ) ∉ s.holders l := by
    intro hr l hl
    have := h.core.tidy (hT hr) l σ hl
    rw [hσ] at this
    cases this
  cases hidle : s.lanes.idle with
  | nil =>
    obtain ⟨hwf, hjettys, hpop, htail⟩ := SendJettyPool.popIdle_spec hs.lanes
    rw [hidle] at hpop htail
    have hrun : (Act.popIdle σ).run i o s = (none, { s with lanes := s.lanes.popIdle.2 }) := by
      simp only [Act.run, hpop, List.head?_nil]
    rw [hrun]
    refine ⟨⟨{ hs with
        lanes := hwf
        jettys := hjettys.trans hs.jettys
        idle := fun l => ?_ }, fun w hw => rfl, trivial⟩, .inl ⟨rfl, h, ?_, fun hr => ?_⟩⟩
    · show l ∈ s.lanes.popIdle.2.idle ↔ _
      rw [htail]
      have := hs.idle l
      rwa [hidle] at this
    · exact Bool.eq_false_iff.2 fun hok => ho hok hidle
    · exact hs.idle_ne_nil hB hr (hpiped hr) (hfree hr) hidle
  | cons l rest =>
    obtain ⟨hinv, hsome, hother, hview⟩ :=
      hs.pop hidle (fun hr => ⟨hpiped hr, hfree hr⟩) o
    refine ⟨⟨hinv, hother, trivial⟩, .inr ⟨l, hsome, h.mem, ?_⟩⟩
    rw [hview]
    exact h.core.take hσ

/-- Releasing a lane that only this send holds and that has no outstanding work request keeps the
invariant. -/
theorem Inv.giveBack {s : Sys} (hs : Inv B s) (hheld : ((i : ℕ), σ) ∈ s.holders l)
    (hout : ∀ r ∈ s.out, r.lane ≠ l) (o : Oracle) :
    Inv B ((Act.release σ l).run i o s).2 ∧
      (∀ w, w ≠ (i : ℕ) → ((Act.release σ l).run i o s).2.view w = s.view w) ∧
      ((Act.release σ l).run i o s).2.view i =
        { s.view i with holds := fun l' σ' => (s.view i).holds l' σ' ∧ ¬ (l' = l ∧ σ' = σ) } := by
  have hsingle : s.holders l = [((i : ℕ), σ)] := by
    have hone := hs.one l
    match hl : s.holders l with
    | [] => simp [hl] at hheld
    | [x] => simp_all
    | x :: y :: tl => simp [hl] at hone
  have hne : s.holders l ≠ [] := by simp [hsingle]
  have hlt := hs.held l hne
  obtain ⟨hwf, hjettys, hidle⟩ := SendJettyPool.release_spec hs.lanes
    (j := l) (by simpa [hs.jettys] using hlt) fun hmem => hne ((hs.idle l).1 hmem).2
  have hstate : ((Act.release σ l).run i o s).2 =
      { s with
        lanes := s.lanes.release l
        holders := Function.update s.holders l []
        released := Function.update s.released i
          (Function.update (s.released i) l (s.released i l + 1)) } := by
    simp only [Act.run, hsingle, List.erase_cons_head]
  have hmem : ∀ l' b, b ∈ Function.update s.holders l [] l' ↔
      b ∈ s.holders l' ∧ ¬ (l' = l ∧ b = ((i : ℕ), σ)) := by
    intro l' b
    by_cases hl : l' = l
    · subst hl
      simp [hsingle]
    · simp [hl]
  rw [hstate]
  refine ⟨⟨hwf, hjettys.trans hs.jettys, fun l' => ?_, fun l' => ?_, fun l' hl' => ?_,
    fun w l' => ?_, fun r hr => ?_, hs.outCtx, hs.notDone, hs.outWid, hs.outToken, hs.outGood,
    hs.outRequest, hs.good, fun hr l' w σ' hh => ?_⟩, fun w hw => ?_, ?_⟩
  · simp only [hidle, List.mem_append, List.mem_singleton]
    by_cases hl : l' = l
    · subst hl
      simp [hlt]
    · simp [hl, hs.idle l']
  · by_cases hl : l' = l
    · subst hl
      simp
    · simpa only [Function.update_of_ne hl] using hs.one l'
  · by_cases hl : l' = l
    · exact hl ▸ hlt
    · exact hs.held l' (by simpa only [Function.update_of_ne hl] using hl')
  · have hb := hs.balance w l'
    by_cases hl : l' = l
    · subst hl
      rw [hsingle] at hb
      by_cases hw : w = i
      · subst hw
        simp only [Function.update_self]
        simp at hb ⊢
        omega
      · simp only [Function.update_of_ne hw, Function.update_self]
        simp [Ne.symm hw] at hb ⊢
        omega
    · by_cases hw : w = i
      · subst hw
        simpa only [Function.update_self, Function.update_of_ne hl] using hb
      · simpa only [Function.update_of_ne hw, Function.update_of_ne hl] using hb
  · exact (hmem _ _).2 ⟨hs.outHeld r hr, fun hc => hout r hr hc.1⟩
  · obtain ⟨h1, h2, h3⟩ := hs.roomy hr l' w σ' ((hmem _ _).1 hh).1
    exact ⟨h1, h2, fun l'' hh' => h3 l'' ((hmem _ _).1 hh').1⟩
  · simp only [Sys.view, hmem, Prod.mk.injEq, hw, false_and, and_false, not_false_eq_true, and_true]
  · simp only [Sys.view, hmem, Prod.mk.injEq, true_and]

/-- **`ReleaseSendLane`** of a send all of whose work requests are done with. -/
theorem releaseSendLane_spec (hσ : g.lane σ = some l)
    (hidle : ∀ ρ : WrId, ρ.send = σ → g.tok ρ = .idle) :
    B.Triple i (fun m v _ => Near B i T m₀ g m v) (releaseSendLane σ (some l))
      (fun _ m v _ => Near B i T m₀ (g.setLane σ none) m v) := by
  refine Setup.Triple.act (fun m n => Near.steady _ _ _ m) fun m s n o hs h ho => ?_
  have hheld : ((i : ℕ), σ) ∈ s.holders l := h.core.holds σ l hσ
  -- an outstanding work request on the lane would belong to this worker and to this send
  have hout : ∀ r ∈ s.out, r.lane ≠ l := by
    intro r hr hrl
    have heq := hs.eq_of_holders (hrl ▸ hs.outHeld r hr) hheld
    have htok := h.core.outs r ⟨hr, congrArg Prod.fst heq⟩
    rw [hidle r.id (congrArg Prod.snd heq)] at htok
    rcases htok with htok | htok <;> cases htok
  obtain ⟨hinv, hother, hview⟩ := hs.giveBack hheld hout o
  refine ⟨⟨hinv, hother, trivial⟩, h.mem, ?_⟩
  show Core B i T m.ev (g.setLane σ none) (((Act.release σ l).run i o s).2.view i)
  rw [hview]
  exact h.core.giveBack hσ

/-! ### Posts -/

/-- A post by the worker `i` on the lane of the send, with a token that is not outstanding, keeps
the invariant. The first work request of a request comes when none of the slot is outstanding. -/
theorem Inv.post {s : Sys} (hs : Inv B s) {wr : Wr} (hwid : wr.wid = i) (hgood : B.good ρ wr)
    (hheld : ((i : ℕ), ρ.send) ∈ s.holders wr.lane) (hpos : 0 < wr.token)
    (hno : ∀ r ∈ (s.view i).outs, r.token ≠ wr.token)
    (hdone : ∀ ok, s.states i (index wr.token) ≠ done wr.token ok)
    (hfirst : ρ.first = true → ∀ r ∈ (s.view i).outs, r.id.req ≠ ρ.req) :
    Inv B (s.addPost i ρ wr) := by
  refine { hs with
    outHeld := fun r hr => ?_
    outCtx := ?_
    notDone := fun r hr => ?_
    outWid := fun r hr => ?_
    outToken := fun r hr => ?_
    outGood := fun r hr => ?_
    outRequest := fun r hr => ?_
    good := fun w p hp => ?_ }
  · rcases List.mem_cons.1 hr with rfl | hr
    · exact hwid ▸ hheld
    · exact hs.outHeld r hr
  · show (List.map _ (_ :: s.out)).Nodup
    rw [List.map_cons, List.nodup_cons]
    refine ⟨fun hmem => ?_, hs.outCtx⟩
    obtain ⟨r, hr, hrc⟩ := List.mem_map.1 hmem
    have hrw : r.wid = wr.wid := congrArg (· >>> kRidShift) hrc
    have hrt : r.token = wr.token := congrArg (· &&& kRidMask) hrc
    exact hno r ⟨hr, hrw.trans hwid⟩ hrt
  · rcases List.mem_cons.1 hr with rfl | hr
    · exact fun ok => hwid ▸ hdone ok
    · exact hs.notDone r hr
  · rcases List.mem_cons.1 hr with rfl | hr
    · exact hwid ▸ i.2
    · exact hs.outWid r hr
  · rcases List.mem_cons.1 hr with rfl | hr
    · exact hpos
    · exact hs.outToken r hr
  · rcases List.mem_cons.1 hr with rfl | hr
    · exact hgood
    · exact hs.outGood r hr
  · show r.request = Function.update s.requests i _ r.wid r.id.req
    rcases List.mem_cons.1 hr with rfl | hr
    · rw [hwid, Function.update_self, Function.update_self]
    · rw [hs.outRequest r hr]
      by_cases hw : r.wid = i
      · rw [hw, Function.update_self]
        by_cases hreq : r.id.req = ρ.req
        · -- the request is not a new one
          have hold : ρ.first = false :=
            Bool.eq_false_iff.2 fun hf => hfirst hf r ⟨hr, hw⟩ hreq
          rw [hreq, Function.update_self, Sys.requestOf, hold]
          simp
        · rw [Function.update_of_ne hreq]
      · rw [Function.update_of_ne hw]
  · change p ∈ Function.update s.posted i _ w at hp
    by_cases hw : w = i
    · subst hw
      rw [Function.update_self] at hp
      rcases List.mem_cons.1 hp with rfl | hp
      · exact hgood
      · exact hs.good _ p hp
    · rw [Function.update_of_ne hw] at hp
      exact hs.good w p hp

/-- The worker sees its post, the others do not. -/
theorem Sys.addPost_view {s : Sys} {wr : Wr} (hwid : wr.wid = i) :
    (∀ w, w ≠ (i : ℕ) → (s.addPost i ρ wr).view w = s.view w) ∧
      (s.addPost i ρ wr).view i =
        { s.view i with
          outs := insert ⟨wr, ρ, s.requestOf i ρ⟩ (s.view i).outs
          posted := ⟨ρ, wr, .pending⟩ :: (s.view i).posted } := by
  constructor
  · intro w hw
    have hne : wr.wid ≠ w := fun he => hw (he.symm.trans hwid)
    have houts : {r | r ∈ (⟨wr, ρ, s.requestOf i ρ⟩ : Outstanding) :: s.out ∧ r.wid = w} =
        {r | r ∈ s.out ∧ r.wid = w} := by
      ext r
      simp only [Set.mem_ofPred_eq, List.mem_cons]
      constructor
      · rintro ⟨rfl | hr, hrw⟩
        · exact absurd hrw hne
        · exact ⟨hr, hrw⟩
      · rintro ⟨hr, hrw⟩
        exact ⟨.inr hr, hrw⟩
    simp only [Sys.view, Sys.addPost, houts, Function.update_of_ne hw]
  · have houts : {r | r ∈ (⟨wr, ρ, s.requestOf i ρ⟩ : Outstanding) :: s.out ∧ r.wid = i} =
        insert ⟨wr, ρ, s.requestOf i ρ⟩ {r | r ∈ s.out ∧ r.wid = i} := by
      ext r
      simp only [Set.mem_ofPred_eq, List.mem_cons, Set.mem_insert_iff]
      constructor
      · rintro ⟨rfl | hr, hrw⟩
        · exact .inl rfl
        · exact .inr ⟨hr, hrw⟩
      · rintro (rfl | ⟨hr, hrw⟩)
        · exact ⟨.inl rfl, hwid⟩
        · exact ⟨.inr hr, hrw⟩
    simp only [Sys.view, Sys.addPost, houts, Function.update_self]

/-- A post with a fresh token on the lane of the send. -/
theorem post_spec (hB : B.Sound) (ht : g.tok ρ = .fresh t) {wr : Wr}
    (hσ : g.lane ρ.send = some wr.lane) (hctx : wr.userCtx = userCtxOf i t) (hgood : B.good ρ wr)
    (hfirst : ρ.first = true → ∀ ρ', ρ'.req = ρ.req → ∀ t',
      g.tok ρ' ≠ .posted t' ∧ g.tok ρ' ≠ .lost t') :
    B.Triple i (fun m v _ => Near B i T m₀ g m v) (Proc.act (.post ρ wr))
      (fun ok m v _ =>
        (ok = true ∧ Near B i T m₀ { g.setTok ρ (.posted t) with posts := g.posts + 1 } m v) ∨
        (ok = false ∧ Near B i T m₀ g m v ∧ (B.mode i).postsOk = false)) := by
  refine Setup.Triple.act (fun m n => Near.steady _ _ _ m) fun m s n o hs h ho => ?_
  have hi : (i : ℕ) < 2 ^ 24 := by have := hB.workers; omega
  obtain ⟨hpos, ht40⟩ := h.core.small_fresh ht
  obtain ⟨hwid, rfl⟩ := Wr.wid_of_userCtx hctx hi ht40
  have hkeep : ¬ (s.view i).Awaits wr.token := h.core.not_awaits_of_fresh ht
  by_cases hok : o.postOk = true
  · obtain ⟨hpend, hno⟩ := h.core.fresh ρ _ ht
    have hpend : s.states i (index wr.token) = pending wr.token := hpend
    have hrun : (Act.post ρ wr).run i o s = (true, s.addPost i ρ wr) := by
      simp only [Act.run, hok, if_true]
    obtain ⟨hother, hview⟩ := Sys.addPost_view (ρ := ρ) (s := s) hwid
    rw [hrun]
    refine ⟨⟨?_, hother, hkeep⟩, .inl ⟨rfl, h.mem, ?_⟩⟩
    · refine hs.post hwid hgood (h.core.holds _ _ hσ) hpos hno
        (fun ok => hpend ▸ pending_ne_done ht40 ht40 ok) fun hf r hr hreq => ?_
      rcases h.core.outs r hr with htok | htok
      · exact (hfirst hf r.id hreq r.token).1 htok
      · exact (hfirst hf r.id hreq r.token).2 htok
    · rw [hview]
      exact h.core.post ht rfl rfl
  · have hrun : (Act.post ρ wr).run i o s = (false, s) := by
      simp only [Act.run, hok, if_false, Bool.false_eq_true]
    rw [hrun]
    exact ⟨⟨hs, fun w hw => rfl, hkeep⟩,
      .inr ⟨rfl, h, Bool.eq_false_iff.2 fun hp => hok (ho hp)⟩⟩

/-- `PostWrite` and `PostRead` with a fresh token on the lane of the send. -/
theorem postRw_spec (hB : B.Sound) (ht : g.tok ρ = .fresh t) (hσ : g.lane ρ.send = some l)
    {read : Bool} {localAddr remoteAddr len : ℕ} {src dst : ℤ} {userCtx : ℕ}
    (hctx : userCtx = userCtxOf i t)
    (hfirst : ρ.first = true → ∀ ρ', ρ'.req = ρ.req → ∀ t',
      g.tok ρ' ≠ .posted t' ∧ g.tok ρ' ≠ .lost t')
    (hgood : B.good ρ ⟨l, localAddr % 2 ^ 64, remoteAddr % 2 ^ 64, len % 2 ^ 32,
      (src % 2 ^ 32).toNat, (dst % 2 ^ 32).toNat, userCtx, read⟩) :
    B.Triple i (fun m v _ => Near B i T m₀ g m v)
      (postRw ρ read (some l) localAddr remoteAddr len src dst userCtx)
      (fun ok m v _ =>
        (ok = true ∧ Near B i T m₀ { g.setTok ρ (.posted t) with posts := g.posts + 1 } m v) ∨
        (ok = false ∧ Near B i T m₀ g m v ∧ (B.mode i).postsOk = false)) :=
  post_spec hB ht hσ hctx hgood hfirst

end Calls

end KvBench.Bench
