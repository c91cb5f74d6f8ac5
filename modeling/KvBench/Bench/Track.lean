import KvBench.Bench.Calls

/-!
# What a worker knows about the slots of its pipeline

`Tracks` relates the ghost state to the slots of a pipeline: the lane of a send is the one its slot
names, `fly` are the work requests under way, and those of `rest` are done with; the others have been
given up. `Track` is the assertion that some such ghost state fits. The rules below say
how it moves with the steps of the pipelines; they leave the memory of the worker explicit.
-/

namespace KvBench.Bench

open KvBench.Conc KvBench.Events Worker

/-- The ghost state `g` fits the slots `ws` of a pipeline, of which `k` work requests have been
posted so far. -/
structure Tracks (ws : ℕ → WrSlot) (fly rest : Set (ℕ × ℕ)) (k : ℕ) (g : Ghost) : Prop where
  lane : ∀ idx send, g.lane (.slot idx send) = (ws idx).jetty send
  laneSync : g.lane .sync = none
  tokSync : ∀ half, g.tok (.sync half) = .idle
  tok : ∀ idx wr, g.tok (.slot idx wr) = .idle ∨
    g.tok (.slot idx wr) = .posted ((ws idx).eventToken wr) ∨
    g.tok (.slot idx wr) = .lost ((ws idx).eventToken wr)
  small : ∀ idx wr, (ws idx).eventToken wr < 2 ^ 40
  fly : ∀ idx wr, (idx, wr) ∈ fly ↔ g.tok (.slot idx wr) = .posted ((ws idx).eventToken wr)
  rest : ∀ idx wr, (idx, wr) ∈ rest → g.tok (.slot idx wr) = .idle
  posts : g.posts = k

section Tracks

variable {ws ws' : ℕ → WrSlot} {fly rest fly' rest' : Set (ℕ × ℕ)} {k : ℕ} {g : Ghost}
  {idx wr send t : ℕ}

theorem Tracks.mono (h : Tracks ws fly rest k g) (hr : rest' ⊆ rest) : Tracks ws fly rest' k g :=
  { h with rest := fun idx wr ha => h.rest idx wr (hr ha) }

/-- Nothing has been given up when every work request is under way or done with. -/
theorem Tracks.ne_lost (h : Tracks ws fly rest k g) (hall : flyᶜ ⊆ rest) (ρ : WrId) (t : ℕ) :
    g.tok ρ ≠ .lost t := by
  intro hlost
  cases ρ with
  | sync half =>
    rw [h.tokSync half] at hlost
    cases hlost
  | slot idx wr =>
    by_cases ha : (idx, wr) ∈ fly
    · rw [(h.fly idx wr).1 ha] at hlost
      cases hlost
    · rw [h.rest idx wr (hall ha)] at hlost
      cases hlost

/-- Only the lanes and the tokens of the slots matter. -/
theorem Tracks.congr (h : Tracks ws fly rest k g) (hj : ∀ idx, (ws' idx).jetty = (ws idx).jetty)
    (ht : ∀ idx, (ws' idx).eventToken = (ws idx).eventToken) : Tracks ws' fly rest k g where
  lane idx send := by rw [hj]; exact h.lane idx send
  laneSync := h.laneSync
  tokSync := h.tokSync
  tok idx wr := by rw [ht]; exact h.tok idx wr
  small idx wr := by rw [ht]; exact h.small idx wr
  fly idx wr := by rw [ht]; exact h.fly idx wr
  rest := h.rest
  posts := h.posts

/-- What becomes of the event of one work request. -/
theorem Tracks.setTok (h : Tracks ws fly rest k g) {x : TokenState}
    (hx : x = .idle ∨ x = .lost ((ws idx).eventToken wr))
    (hr : ∀ a ∈ rest', a ≠ (idx, wr) ∧ a ∈ rest ∨ a = (idx, wr) ∧ x = .idle) :
    Tracks ws (fly \ {(idx, wr)}) rest' k (g.setTok (.slot idx wr) x) := by
  have hne : ∀ idx' wr', (idx', wr') ≠ (idx, wr) → WrId.slot idx' wr' ≠ .slot idx wr := by
    intro idx' wr' hne heq
    exact hne (by simpa using heq)
  refine ⟨h.lane, h.laneSync, fun half => ?_, fun idx' wr' => ?_, h.small, fun idx' wr' => ?_,
    fun idx' wr' ha => ?_, h.posts⟩
  · rw [Ghost.setTok_of_ne _ _ (by simp)]
    exact h.tokSync half
  · by_cases heq : (idx', wr') = (idx, wr)
    · obtain ⟨rfl, rfl⟩ := Prod.mk.inj heq
      rw [Ghost.setTok_self]
      exact hx.imp_right .inr
    · rw [Ghost.setTok_of_ne _ _ (hne _ _ heq)]
      exact h.tok idx' wr'
  · by_cases heq : (idx', wr') = (idx, wr)
    · obtain ⟨rfl, rfl⟩ := Prod.mk.inj heq
      rw [Ghost.setTok_self]
      rcases hx with rfl | rfl <;> simp
    · rw [Ghost.setTok_of_ne _ _ (hne _ _ heq), ← h.fly idx' wr']
      exact ⟨fun ha => ha.1, fun ha => ⟨ha, heq⟩⟩
  · rcases hr _ ha with ⟨heq, hmem⟩ | ⟨heq, rfl⟩
    · rw [Ghost.setTok_of_ne _ _ (hne _ _ heq)]
      exact h.rest idx' wr' hmem
    · obtain ⟨rfl, rfl⟩ := Prod.mk.inj heq
      exact Ghost.setTok_self _ _ _

/-- A work request is done with. -/
theorem Tracks.settle (h : Tracks ws fly rest k g) (idx wr : ℕ) :
    Tracks ws (fly \ {(idx, wr)}) (insert (idx, wr) rest) k (g.setTok (.slot idx wr) .idle) := by
  refine h.setTok (.inl rfl) fun a ha => ?_
  rcases ha with rfl | ha
  · exact .inr ⟨rfl, rfl⟩
  · by_cases heq : a = (idx, wr)
    · exact .inr ⟨heq, rfl⟩
    · exact .inl ⟨heq, ha⟩

/-- A work request that was posted is given up. -/
theorem Tracks.lose (h : Tracks ws fly rest k g)
    (hp : g.tok (.slot idx wr) = .posted ((ws idx).eventToken wr)) :
    Tracks ws (fly \ {(idx, wr)}) rest k
      (g.setTok (.slot idx wr) (.lost ((ws idx).eventToken wr))) := by
  refine h.setTok (.inr rfl) fun a ha => .inl ⟨?_, ha⟩
  rintro rfl
  have := h.rest idx wr ha
  rw [hp] at this
  cases this

/-- The lane of a send changes, in the slot and in the ghost state. -/
theorem Tracks.setLane (h : Tracks ws fly rest k g) (x : Option Lane)
    (hself : (ws' idx).jetty = Function.update (ws idx).jetty send x)
    (hother : ∀ idx', idx' ≠ idx → (ws' idx').jetty = (ws idx').jetty)
    (ht : ∀ idx, (ws' idx).eventToken = (ws idx).eventToken) :
    Tracks ws' fly rest k (g.setLane (.slot idx send) x) where
  lane idx' send' := by
    by_cases hi : idx' = idx
    · subst hi
      rw [hself]
      by_cases hs : send' = send
      · subst hs
        rw [Ghost.setLane_self, Function.update_self]
      · rw [Ghost.setLane_of_ne _ _ (by simpa using hs), Function.update_of_ne hs]
        exact h.lane idx' send'
    · rw [Ghost.setLane_of_ne _ _ (by simp [hi]), hother idx' hi]
      exact h.lane idx' send'
  laneSync := by
    rw [Ghost.setLane_of_ne _ _ (by simp)]
    exact h.laneSync
  tokSync := h.tokSync
  tok idx' wr := by rw [ht]; exact h.tok idx' wr
  small idx' wr := by rw [ht]; exact h.small idx' wr
  fly idx' wr := by rw [ht]; exact h.fly idx' wr
  rest := h.rest
  posts := h.posts

@[simp] theorem wrSlots_setSlot_self (m : Worker) (idx : ℕ) (f : WrSlot → WrSlot) :
    (setSlot idx f m).wrSlots idx = f (m.wrSlots idx) := Function.update_self _ _ _

theorem wrSlots_setSlot_of_ne (m : Worker) {idx idx' : ℕ} (f : WrSlot → WrSlot) (h : idx' ≠ idx) :
    (setSlot idx f m).wrSlots idx' = m.wrSlots idx' := Function.update_of_ne h _ _

/-- A change of a slot that does not concern its lanes and tokens. -/
theorem Tracks.setSlot {m : Worker} (h : Tracks m.wrSlots fly rest k g) {f : WrSlot → WrSlot}
    (hj : ∀ s, (f s).jetty = s.jetty) (ht : ∀ s, (f s).eventToken = s.eventToken) :
    Tracks (setSlot idx f m).wrSlots fly rest k g := by
  refine h.congr (fun idx' => ?_) fun idx' => ?_ <;> by_cases hi : idx' = idx
  · rw [hi, wrSlots_setSlot_self, hj]
  · rw [wrSlots_setSlot_of_ne m f hi]
  · rw [hi, wrSlots_setSlot_self, ht]
  · rw [wrSlots_setSlot_of_ne m f hi]

theorem Tracks.setJetty {m : Worker} (h : Tracks m.wrSlots fly rest k g) (idx send : ℕ)
    (x : Option Lane) :
    Tracks (setJetty idx send x m).wrSlots fly rest k (g.setLane (.slot idx send) x) := by
  refine h.setLane x ?_ (fun idx' hi => ?_) fun idx' => ?_
  · rw [Worker.setJetty, wrSlots_setSlot_self]
  · rw [Worker.setJetty, wrSlots_setSlot_of_ne m _ hi]
  · by_cases hi : idx' = idx
    · rw [hi, Worker.setJetty, wrSlots_setSlot_self]
    · rw [Worker.setJetty, wrSlots_setSlot_of_ne m _ hi]

/-- A work request has been posted with the token `t`, and its slot says so. -/
theorem Tracks.markPosted {m : Worker} (h : Tracks m.wrSlots fly rest k g) (ht : t < 2 ^ 40) :
    Tracks (markPosted idx wr t m).wrSlots (insert (idx, wr) fly) (rest \ {(idx, wr)}) (k + 1)
      { g.setTok (.slot idx wr) (.posted t) with posts := g.posts + 1 } := by
  have hself : ((Worker.markPosted idx wr t m).wrSlots idx).eventToken =
      Function.update (m.wrSlots idx).eventToken wr t := by
    rw [Worker.markPosted, wrSlots_setSlot_self]
  -- the other tokens stay as they are
  have hother : ∀ idx' wr', (idx', wr') ≠ (idx, wr) →
      ((Worker.markPosted idx wr t m).wrSlots idx').eventToken wr' =
          (m.wrSlots idx').eventToken wr' ∧
        (g.setTok (.slot idx wr) (.posted t)).tok (.slot idx' wr') = g.tok (.slot idx' wr') := by
    intro idx' wr' hne
    refine ⟨?_, Ghost.setTok_of_ne _ _ fun heq => hne (by simpa using heq)⟩
    by_cases hi : idx' = idx
    · subst hi
      rw [hself, Function.update_of_ne fun hw => hne (by rw [hw])]
    · rw [Worker.markPosted, wrSlots_setSlot_of_ne m _ hi]
  refine ⟨fun idx' send => ?_, h.laneSync, fun half => ?_, fun idx' wr' => ?_, fun idx' wr' => ?_,
    fun idx' wr' => ?_, fun idx' wr' ha => ?_, by rw [← h.posts]⟩
  · show g.lane _ = _
    rw [h.lane]
    by_cases hi : idx' = idx
    · rw [hi, Worker.markPosted, wrSlots_setSlot_self]
    · rw [Worker.markPosted, wrSlots_setSlot_of_ne m _ hi]
  · exact (Ghost.setTok_of_ne g (ρ := .slot idx wr) (.posted t) (by simp)).trans (h.tokSync half)
  · by_cases heq : (idx', wr') = (idx, wr)
    · obtain ⟨rfl, rfl⟩ := Prod.mk.inj heq
      rw [hself, Function.update_self]
      exact .inr (.inl (Ghost.setTok_self _ _ _))
    · show (g.setTok _ _).tok _ = _ ∨ (g.setTok _ _).tok _ = _ ∨ (g.setTok _ _).tok _ = _
      rw [(hother _ _ heq).1, (hother _ _ heq).2]
      exact h.tok idx' wr'
  · by_cases heq : (idx', wr') = (idx, wr)
    · obtain ⟨rfl, rfl⟩ := Prod.mk.inj heq
      rwa [hself, Function.update_self]
    · rw [(hother _ _ heq).1]
      exact h.small idx' wr'
  · by_cases heq : (idx', wr') = (idx, wr)
    · obtain ⟨rfl, rfl⟩ := Prod.mk.inj heq
      rw [hself, Function.update_self]
      exact ⟨fun _ => Ghost.setTok_self _ _ _, fun _ => Set.mem_insert _ _⟩
    · show _ ↔ (g.setTok _ _).tok _ = _
      rw [(hother _ _ heq).1, (hother _ _ heq).2, ← h.fly idx' wr']
      exact ⟨fun ha => ha.resolve_left heq, .inr⟩
  · exact (hother _ _ ha.2).2.trans (h.rest idx' wr' ha.1)

end Tracks

/-! ### Rules for `Near` -/

section Near

variable {B : Setup} {i : Fin B.n} {T : Prop} {m₀ : Worker} {g : Ghost} {α : Type}
  {R : α → Worker → View → ℕ → Prop}

theorem Near.modify_bind {f : Worker → Worker} {x : PUnit → Code α}
    (hf : ∀ m ev look, f { m with ev := ev, lastLook := look } =
      { f m with ev := ev, lastLook := look })
    (hx : B.Triple i (fun m v _ => Near B i T (f m₀) g m v) (x ⟨⟩) R) :
    B.Triple i (fun m v _ => Near B i T m₀ g m v) (modify f >>= x) R := by
  refine Setup.Triple.modify_bind _ ?_ hx
  rintro m v n ⟨⟨ev, look, rfl⟩, hcore⟩
  refine ⟨⟨ev, look, hf m₀ ev look⟩, ?_⟩
  rw [hf m₀ ev look]
  exact hcore

theorem Near.get_bind {x : Worker → Code α}
    (hx : ∀ ev look, B.Triple i (fun m v _ => Near B i T m₀ g m v)
      (x { m₀ with ev := ev, lastLook := look }) R) :
    B.Triple i (fun m v _ => Near B i T m₀ g m v) (get >>= x) R := by
  refine Setup.Triple.get_bind fun m₁ => ?_
  refine Setup.Triple.of_fact (p := SameBut m₀ m₁) (fun m v n _ h => h.1 ▸ h.2.mem) ?_
  rintro ⟨ev, look, rfl⟩
  exact (hx ev look).pre fun m v n _ h => h.2

theorem Near.now_bind {x : ℕ → Code α}
    (hx : ∀ t, B.Triple i (fun m v _ => Near B i T m₀ g m v) (x t) R) :
    B.Triple i (fun m v _ => Near B i T m₀ g m v) (now >>= x) R :=
  (now_any (Near.steady T m₀ g)).bind hx

theorem Near.say_bind {line : Message} {x : Unit → Code α} (hline : line.Calm ∨ B.taken ≠ [])
    (hx : B.Triple i (fun m v _ => Near B i T m₀ g m v) (x ()) R) :
    B.Triple i (fun m v _ => Near B i T m₀ g m v) (say line >>= x) R :=
  (say_spec (Near.steady T m₀ g) hline).bind fun _ => hx

end Near

/-! ### Rules for `Track` -/

section Track

variable {B : Setup} {i : Fin B.n} {T : Prop} {m₀ : Worker} {fly rest fly' rest' : Set (ℕ × ℕ)}
  {k idx wr send : ℕ} {α : Type} {R : α → Worker → View → ℕ → Prop}

variable (B i T) in
/-- The memory is `m₀` up to the event slots, and a ghost state tracks its slots. -/
def Track (m₀ : Worker) (fly rest : Set (ℕ × ℕ)) (k : ℕ) (m : Worker) (v : View) : Prop :=
  ∃ g, Tracks m₀.wrSlots fly rest k g ∧ Near B i T m₀ g m v

/-- Parameters of an assertion are available to the proof. -/
theorem Setup.Triple.of_some {ι : Sort*} {P : ι → Worker → View → ℕ → Prop} {x : Code α}
    (hx : ∀ a, B.Triple i (P a) x R) : B.Triple i (fun m v n => ∃ a, P a m v n) x R :=
  Spec.of_exists hx

/-- And facts about them. -/
theorem Setup.Triple.of_exists {ι : Sort*} {p : ι → Prop} {P : ι → Worker → View → ℕ → Prop}
    {x : Code α} (hx : ∀ a, p a → B.Triple i (P a) x R) :
    B.Triple i (fun m v n => ∃ a, p a ∧ P a m v n) x R :=
  Spec.of_exists fun a => Spec.and (hx a)

theorem Track.steady (m₀ : Worker) (fly rest : Set (ℕ × ℕ)) (k : ℕ) (m : Worker) :
    B.Steady i (Track B i T m₀ fly rest k m) :=
  Setup.Steady.exists fun g => (Setup.Steady.const _).and (Near.steady T m₀ g m)

theorem Track.mem {m : Worker} {v : View} (h : Track B i T m₀ fly rest k m v) : SameBut m₀ m :=
  let ⟨_, _, hn⟩ := h
  hn.mem

theorem Track.mono {m : Worker} {v : View} (h : Track B i T m₀ fly rest k m v)
    (hr : rest' ⊆ rest) : Track B i T m₀ fly rest' k m v :=
  let ⟨g, ht, hn⟩ := h
  ⟨g, ht.mono hr, hn⟩

/-- The condition for knowing all lanes can be strengthened. -/
theorem Track.tidy {T' : Prop} {m : Worker} {v : View} (h : Track B i T m₀ fly rest k m v)
    (hT : T' → T) : Track B i T' m₀ fly rest k m v :=
  let ⟨g, ht, hn⟩ := h
  ⟨g, ht, hn.mem, hn.core.mono hT⟩

theorem Track.modify_bind {f : Worker → Worker} {x : PUnit → Code α}
    (hf : ∀ m ev look, f { m with ev := ev, lastLook := look } =
      { f m with ev := ev, lastLook := look })
    (ht : ∀ g, Tracks m₀.wrSlots fly rest k g → Tracks (f m₀).wrSlots fly rest k g)
    (hx : B.Triple i (fun m v _ => Track B i T (f m₀) fly rest k m v) (x ⟨⟩) R) :
    B.Triple i (fun m v _ => Track B i T m₀ fly rest k m v) (modify f >>= x) R :=
  Setup.Triple.of_exists fun g hg => Near.modify_bind hf <|
    hx.pre fun _ _ _ _ h => ⟨g, ht g hg, h⟩

theorem Track.modify {f : Worker → Worker}
    (hf : ∀ m ev look, f { m with ev := ev, lastLook := look } =
      { f m with ev := ev, lastLook := look })
    (ht : ∀ g, Tracks m₀.wrSlots fly rest k g → Tracks (f m₀).wrSlots fly rest k g) :
    B.Triple i (fun m v _ => Track B i T m₀ fly rest k m v) (modify f)
      (fun _ m v _ => Track B i T (f m₀) fly rest k m v) := by
  refine Setup.Triple.modify ?_
  rintro m v n ⟨g, hg, ⟨ev, look, rfl⟩, hcore⟩
  refine ⟨g, ht g hg, ⟨ev, look, hf m₀ ev look⟩, ?_⟩
  rw [hf m₀ ev look]
  exact hcore

theorem Track.get_bind {x : Worker → Code α}
    (hx : ∀ ev look, B.Triple i (fun m v _ => Track B i T m₀ fly rest k m v)
      (x { m₀ with ev := ev, lastLook := look }) R) :
    B.Triple i (fun m v _ => Track B i T m₀ fly rest k m v) (get >>= x) R :=
  Setup.Triple.of_exists fun g hg => Near.get_bind fun ev look =>
    (hx ev look).pre fun _ _ _ _ h => ⟨g, hg, h⟩

theorem Track.now_bind {x : ℕ → Code α}
    (hx : ∀ t, B.Triple i (fun m v _ => Track B i T m₀ fly rest k m v) (x t) R) :
    B.Triple i (fun m v _ => Track B i T m₀ fly rest k m v) (now >>= x) R :=
  (now_any (Track.steady m₀ fly rest k)).bind hx

theorem Track.say_bind {line : Message} {x : Unit → Code α} (hline : line.Calm ∨ B.taken ≠ [])
    (hx : B.Triple i (fun m v _ => Track B i T m₀ fly rest k m v) (x ()) R) :
    B.Triple i (fun m v _ => Track B i T m₀ fly rest k m v) (say line >>= x) R :=
  (say_spec (Track.steady m₀ fly rest k) hline).bind fun _ => hx

theorem Track.visit_bind {place : Place} {x : Unit → Code α}
    (hplace : ∀ m v, Track B i T m₀ fly rest k m v → B.watch i place m v)
    (hx : B.Triple i (fun m v _ => Track B i T m₀ fly rest k m v) (x ()) R) :
    B.Triple i (fun m v _ => Track B i T m₀ fly rest k m v) (visit place >>= x) R :=
  (visit_spec (Track.steady m₀ fly rest k) hplace).bind fun _ => hx

theorem Track.count_bind {ids : List WrId} {x : Unit → Code α}
    (hx : B.Triple i (fun m v _ => Track B i T m₀ fly rest k m v) (x ()) R) :
    B.Triple i (fun m v _ => Track B i T m₀ fly rest k m v) (count ids >>= x) R :=
  (count_spec (Track.steady m₀ fly rest k) ids).bind fun _ => hx

/-- The probe of a work request under way. -/
theorem probe_track (hfly : (idx, wr) ∈ fly) :
    B.Triple i (fun m v _ => Track B i T m₀ fly rest k m v)
      (probeEvent ((m₀.wrSlots idx).eventToken wr))
      (fun r m v _ =>
        (r = 0 ∧ Track B i T m₀ fly rest k m v) ∨
        ((r = 1 ∨ r = -1 ∧ (B.mode i).cqesOk = false) ∧
          Track B i T m₀ (fly \ {(idx, wr)}) (insert (idx, wr) rest) k m v)) := by
  refine Setup.Triple.of_exists fun g hg => ?_
  refine (probeEvent_spec ((hg.fly idx wr).1 hfly) False).conseq
    (fun m v n _ h => ⟨h, False.elim⟩) ?_
  rintro r m v n - (⟨hr, -, h, -⟩ | ⟨hr, h, -⟩)
  · exact .inl ⟨hr, g, hg, h⟩
  · exact .inr ⟨hr, _, hg.settle idx wr, h⟩

/-- The wait for a work request under way. -/
theorem wait_track (hB : B.Sound) (hfly : (idx, wr) ∈ fly) (timeoutMs : ℤ) :
    B.Triple i (fun m v _ => Track B i T m₀ fly rest k m v)
      (waitEvent ((m₀.wrSlots idx).eventToken wr) timeoutMs)
      (fun b m v _ =>
        Track B i T m₀ (fly \ {(idx, wr)}) (if b then insert (idx, wr) rest else rest) k m v ∧
          (b = false → ¬ ((B.mode i).cqesOk = true ∧ (B.mode i).timely = true))) := by
  refine Setup.Triple.of_exists fun g hg => ?_
  have hp := (hg.fly idx wr).1 hfly
  refine (waitEvent_spec hB hp timeoutMs).post ?_
  rintro b m v n - (⟨rfl, h, -⟩ | ⟨rfl, h, hno⟩)
  · exact ⟨⟨_, hg.settle idx wr, h⟩, fun hb => nomatch hb⟩
  · exact ⟨⟨_, hg.lose hp, h⟩, fun _ => hno⟩

/-- The wait for a work request that is not under way. A token of the same value may be in use for
another one, and is then consumed. -/
theorem wait_track_stale (hB : B.Sound) (hfly : (idx, wr) ∉ fly) (timeoutMs : ℤ) :
    B.Triple i (fun m v _ => Track B i T m₀ fly rest k m v)
      (waitEvent ((m₀.wrSlots idx).eventToken wr) timeoutMs)
      (fun b m v _ => ∃ fly' ⊆ fly,
        Track B i T m₀ fly' (if b then insert (idx, wr) rest else rest) k m v) := by
  refine Setup.Triple.of_exists fun g hg => ?_
  have hdead : (g.tok (.slot idx wr)).live = none := by
    rcases hg.tok idx wr with ht | ht | ht
    · rw [ht]; rfl
    · exact absurd ((hg.fly idx wr).2 ht) hfly
    · rw [ht]; rfl
  by_cases hlive : ∃ ρ, (g.tok ρ).live = some ((m₀.wrSlots idx).eventToken wr)
  · -- the token is in use for another work request
    obtain ⟨ρ, hρ⟩ := hlive
    obtain ⟨idx', wr', rfl⟩ : ∃ idx' wr', ρ = .slot idx' wr' := by
      cases ρ with
      | slot idx' wr' => exact ⟨idx', wr', rfl⟩
      | sync half =>
        rw [hg.tokSync half] at hρ
        cases hρ
    have hp' : g.tok (.slot idx' wr') = .posted ((m₀.wrSlots idx').eventToken wr') ∧
        (m₀.wrSlots idx').eventToken wr' = (m₀.wrSlots idx).eventToken wr := by
      rcases hg.tok idx' wr' with ht | ht | ht <;> rw [ht] at hρ
      · cases hρ
      · exact ⟨ht, Option.some.inj hρ⟩
      · cases hρ
    refine (waitEvent_spec hB (hp'.2 ▸ hp'.1) timeoutMs).post ?_
    have hne : WrId.slot idx wr ≠ .slot idx' wr' := by
      intro heq
      rw [heq, hρ] at hdead
      cases hdead
    rintro b m v n - (⟨rfl, h, hgone⟩ | ⟨rfl, h, -⟩)
    · refine ⟨_, Set.sdiff_subset.trans Set.sdiff_subset, _,
        ((hg.settle idx' wr').settle idx wr).mono
          (Set.insert_subset_insert (Set.subset_insert _ _)), h.mem, ?_⟩
      refine h.core.retok ?_ rfl fun r hr _ htok => ?_
      · rw [Ghost.setTok_of_ne _ _ hne]
        exact hdead
      · rw [Ghost.setTok_of_ne _ _ hne] at htok
        rcases hg.tok idx wr with ht | ht | ht <;> rw [ht] at htok
        · cases htok
        · cases htok
        · exact absurd (TokenState.lost.inj htok).symm (hgone r hr)
    · rw [← hp'.2] at h
      exact ⟨_, Set.sdiff_subset, _, hg.lose hp'.1, h⟩
  · push Not at hlive
    refine (waitEvent_stale hlive (hg.small idx wr) hB timeoutMs).post ?_
    rintro b m v n - ⟨rfl, h⟩
    exact ⟨fly, subset_rfl, g, hg, h⟩

variable (B i T) in
/-- Between giving up the lane of a send and noting it in the slot. -/
def Shut (m₀ : Worker) (idx send : ℕ) (fly rest : Set (ℕ × ℕ)) (k : ℕ) (m : Worker) (v : View) :
    Prop :=
  ∃ g, Tracks m₀.wrSlots fly rest k g ∧ Near B i T m₀ (g.setLane (.slot idx send) none) m v

/-- `ReleaseSendLane` of a send that may have no lane. -/
theorem Near.release {g : Ghost} {σ : SendId} {x : Option Lane} (hlane : g.lane σ = x)
    (hidle : ∀ ρ : WrId, ρ.send = σ → g.tok ρ = .idle) :
    B.Triple i (fun m v _ => Near B i T m₀ g m v) (releaseSendLane σ x)
      (fun _ m v _ => Near B i T m₀ (g.setLane σ none) m v) := by
  cases x with
  | none =>
    have hsame : g.setLane σ none = g := by
      simp only [Ghost.setLane, ← hlane, Function.update_eq_self]
    rw [hsame]
    exact Setup.Triple.pure fun m v n h => h
  | some l => exact releaseSendLane_spec hlane hidle

/-- The work requests of a send are done with. -/
theorem Tracks.idle_of_send {ws : ℕ → WrSlot} {g : Ghost} (hg : Tracks ws fly rest k g)
    (hrest : ∀ wr, wr / kvWrPerSend = send → (idx, wr) ∈ rest) (ρ : WrId)
    (hρ : ρ.send = .slot idx send) : g.tok ρ = .idle := by
  cases ρ with
  | slot idx' wr =>
    obtain ⟨rfl, hwr⟩ : idx' = idx ∧ wr / kvWrPerSend = send := by simpa [WrId.send] using hρ
    exact hg.rest idx' wr (hrest wr hwr)
  | sync half => cases hρ

/-- A lane is released when the work requests of its send are done with. -/
theorem release_track (hrest : ∀ wr, wr / kvWrPerSend = send → (idx, wr) ∈ rest) :
    B.Triple i (fun m v _ => Track B i T m₀ fly rest k m v)
      (releaseSendLane (.slot idx send) ((m₀.wrSlots idx).jetty send))
      (fun _ m v _ => Shut B i T m₀ idx send fly rest k m v) :=
  Setup.Triple.of_exists fun g hg =>
    (Near.release (hg.lane idx send) (hg.idle_of_send hrest)).post fun _ _ _ _ _ h => ⟨g, hg, h⟩

/-- A lane is quarantined. -/
theorem Track.quarantine {m : Worker} {v : View} (h : Track B i T m₀ fly rest k m v) (hT : ¬ T)
    (idx send : ℕ) : Shut B i T m₀ idx send fly rest k m v := by
  obtain ⟨g, hg, hn⟩ := h
  refine ⟨g, hg, hn.mem, hn.core.quarantine hT fun σ l hσ => ?_⟩
  by_cases he : σ = .slot idx send
  · rw [he, Function.update_self] at hσ
    cases hσ
  · rwa [Function.update_of_ne he] at hσ

theorem Shut.steady (m₀ : Worker) (idx send : ℕ) (fly rest : Set (ℕ × ℕ)) (k : ℕ) (m : Worker) :
    B.Steady i (Shut B i T m₀ idx send fly rest k m) :=
  Setup.Steady.exists fun _ => (Setup.Steady.const _).and (Near.steady T m₀ _ m)

theorem Shut.clear_bind {x : PUnit → Code α}
    (hx : B.Triple i (fun m v _ => Track B i T (setJetty idx send none m₀) fly rest k m v) (x ⟨⟩) R) :
    B.Triple i (fun m v _ => Shut B i T m₀ idx send fly rest k m v)
      (modify (setJetty idx send none) >>= x) R :=
  Setup.Triple.of_exists fun _ hg => Near.modify_bind (fun _ _ _ => rfl) <|
    hx.pre fun _ _ _ _ h => ⟨_, hg.setJetty _ _ none, h⟩

theorem Shut.clear :
    B.Triple i (fun m v _ => Shut B i T m₀ idx send fly rest k m v)
      (modify (setJetty idx send none))
      (fun _ m v _ => Track B i T (setJetty idx send none m₀) fly rest k m v) := by
  refine Setup.Triple.modify ?_
  rintro m v n ⟨g, hg, ⟨ev, look, rfl⟩, hcore⟩
  exact ⟨_, hg.setJetty _ _ none, ⟨ev, look, rfl⟩, hcore⟩

end Track

end KvBench.Bench
