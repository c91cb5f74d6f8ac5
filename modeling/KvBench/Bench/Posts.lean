import KvBench.Bench.Clients
import KvBench.Bench.Frames

/-!
# The posts of a pipeline, in order

A pipeline posts request after request, and each request is posted as a whole or is the last one that
the worker posts. So the `k`-th work request that a worker posts is the one numbered `k % 20` of its
request number `k / 20`, all of whose work requests are in one slot; and it names the chips of the
`k`-th choice (`chipAt`), since the choices are made one for each work request.
-/

namespace KvBench.Bench

open KvBench.Conc KvBench.Events KvBench.Hist

/-! ### The choices of a worker -/

/-- The generator of the worker `i`, as `create_workers` and `run_chip_query` seed it. -/
def seedOf (args : Argument) (i : ℕ) : ℕ := (args.seed + i * 2654435761) % 2 ^ 32

/-- What a call of `pick_send_chip` does to the generator. -/
def drawn : AffinityMode → ℕ → ℕ
  | .affinity, rng => rng
  | .anti, rng => rngNext rng
  | .none, rng => rngNext (rngNext rng)

/-- The chips of the `k`-th work request that the worker `i` posts. -/
def chipAt (ctx : Context) (i k : ℕ) : ℤ × ℤ :=
  (pickSendChip ctx.args (ctx.cpus i k) i ((drawn ctx.args.affinityMode)^[k] (seedOf ctx.args i))
    (k % kvWrPerReq / kvWrPerSend)).1

theorem pickSendChip_rng (args : Argument) (cpus : Cpus) (i rng sendIdx : ℕ) :
    (pickSendChip args cpus i rng sendIdx).2 = drawn args.affinityMode rng := by
  unfold pickSendChip drawn
  cases args.affinityMode <;> dsimp only <;> split <;> (try split) <;> rfl

/-! ### What a worker posts -/

/-- The posts of a worker, the last first. -/
structure Posts where
  worker : ℕ
  list : List (WrId × Wr)

/-- The last post is in the slot `idx`. -/
def Posts.LastIn (h : Posts) (idx : ℕ) : Prop := ∃ wr r rest, h.list = (.slot idx wr, r) :: rest

/-- The work request comes next after the posts `h`. -/
def Posts.Next (ctx : Context) (h : Posts) (id : WrId) (r : Wr) : Prop :=
  (∃ idx, id = .slot idx (h.list.length % kvWrPerReq) ∧
    (h.list.length % kvWrPerReq ≠ 0 → h.LastIn idx)) ∧
    r.srcChip = ((chipAt ctx h.worker h.list.length).1 % 2 ^ 32).toNat ∧
    r.dstChip = ((chipAt ctx h.worker h.list.length).2 % 2 ^ 32).toNat

/-- What a worker owes: its posts are numbered and name the chips of its choices, in their order. -/
def inOrder (ctx : Context) : Private Worker Posts Act where
  step
    | .post id r, ok, h => if ok then { h with list := (id, r) :: h.list } else h
    | _, _, h => h
  fact _ _ _ _ := True
  duty _ h e := match e with
    | .post id r => h.Next ctx id r
    | _ => True

section Run

variable {ctx : Context}

/-- The worker has made `k` choices. -/
structure Drawn (ctx : Context) (k : ℕ) (m : Worker) (h : Posts) : Prop where
  id : m.id = h.worker
  reads : m.reads = k
  rng : m.rng = (drawn ctx.args.affinityMode)^[k] (seedOf ctx.args h.worker)

/-- Of the last request, `k` work requests have been posted, in the slot `idx`. -/
structure Posts.Part (h : Posts) (idx k : ℕ) : Prop where
  length : ∃ reqs, h.list.length = reqs * kvWrPerReq + k
  slot : 0 < k → h.LastIn idx

/-- The worker is between two requests. -/
def AtReq (ctx : Context) (m : Worker) (h : Posts) : Prop :=
  Drawn ctx h.list.length m h ∧ ∃ reqs, h.list.length = reqs * kvWrPerReq

/-- The worker is at the work request `k` of a request in the slot `idx`. -/
def AtWr (ctx : Context) (idx k : ℕ) (m : Worker) (h : Posts) : Prop :=
  Drawn ctx h.list.length m h ∧ h.Part idx k

/-- The worker has chosen the chips of the work request `k`. -/
def Chose (ctx : Context) (idx k : ℕ) (chips : ℤ × ℤ) (m : Worker) (h : Posts) : Prop :=
  Drawn ctx (h.list.length + 1) m h ∧ chips = chipAt ctx h.worker h.list.length ∧ h.Part idx k

theorem Posts.Part.mod_eq {h : Posts} {idx k : ℕ} (hh : h.Part idx k) (hk : k < kvWrPerReq) :
    h.list.length % kvWrPerReq = k := by
  obtain ⟨reqs, hlen⟩ := hh.length
  unfold kvWrPerReq at hk hlen ⊢
  omega

theorem AtReq.atWr {m : Worker} {h : Posts} (hr : AtReq ctx m h) (idx : ℕ) : AtWr ctx idx 0 m h :=
  ⟨hr.1, hr.2, fun h0 => absurd h0 (lt_irrefl 0)⟩

/-- A request that is posted as a whole is over. -/
theorem AtWr.atReq {idx : ℕ} {m : Worker} {h : Posts} (ha : AtWr ctx idx kvWrPerReq m h) :
    AtReq ctx m h := by
  obtain ⟨reqs, hlen⟩ := ha.2.length
  exact ⟨ha.1, reqs + 1, by rw [hlen]; ring⟩

theorem inOrder_duty {β : Type} {e : Act β} (m : Worker) (h : Posts) (he : e.quiet = true) :
    (inOrder ctx).duty m h e := by
  cases e with
  | post id r => simp [Act.quiet] at he
  | _ => trivial

theorem inOrder_step {β : Type} {e : Act β} (r : β) (h : Posts) (he : e.quiet = true) :
    (inOrder ctx).step e r h = h := by
  cases e with
  | post id r => simp [Act.quiet] at he
  | _ => rfl

/-- Quiet steps add nothing to the posts, so what depends on the generator and the posts is kept. -/
theorem framed_of_drawn {P : Worker → Posts → Prop}
    (hP : ∀ {m m' : Worker} {h}, m'.id = m.id → m'.reads = m.reads → m'.rng = m.rng → P m h →
      P m' h) : Unbooked (inOrder ctx) P where
  memory hm h := hP (congrArg Frame.id hm) (congrArg Frame.reads hm) (congrArg Frame.rng hm) h
  counters {m h} _ _ hm := hP (m := m) rfl rfl rfl hm
  owed _ := trivial
  counted h _ := h
  duty he _ := inOrder_duty _ _ he
  step he h _ := by
    rw [inOrder_step _ _ he]
    exact h

theorem Drawn.memory {k : ℕ} {m m' : Worker} {h : Posts} (hd : Drawn ctx k m h) (hid : m'.id = m.id)
    (hreads : m'.reads = m.reads) (hrng : m'.rng = m.rng) : Drawn ctx k m' h :=
  ⟨hid.trans hd.id, hreads.trans hd.reads, hrng.trans hd.rng⟩

theorem atReq_framed : Unbooked (inOrder ctx) (AtReq ctx) :=
  framed_of_drawn fun hid hreads hrng h => ⟨h.1.memory hid hreads hrng, h.2⟩

theorem atWr_framed (idx k : ℕ) : Unbooked (inOrder ctx) (AtWr ctx idx k) :=
  framed_of_drawn fun hid hreads hrng h => ⟨h.1.memory hid hreads hrng, h.2⟩

theorem anything_framed : Unbooked (inOrder ctx) fun _ _ => True := framed_of_drawn fun _ _ _ h => h

theorem postPlan_inOrder (idx : ℕ) :
    PostPlan (inOrder ctx) ctx idx (AtWr ctx idx) (Chose ctx idx) fun _ _ => True where
  before k := (atWr_framed idx k).toFramed
  chosen k chips :=
    (framed_of_drawn fun hid hreads hrng h => ⟨h.1.memory hid hreads hrng, h.2⟩).toFramed
  lost := anything_framed.toFramed
  drop _ _ _ _ _ := trivial
  choose k hk := by
    refine Spec.get_bind fun m₀ => Spec.set_bind (Chose ctx idx k
      (pickSendChip ctx.args (ctx.cpus m₀.id m₀.reads) m₀.id m₀.rng (k / kvWrPerSend)).1) ?_ ?_
    · rintro m h ⟨rfl, hdrawn, hpart⟩
      refine ⟨⟨hdrawn.id, congrArg (· + 1) hdrawn.reads, ?_⟩, ?_, hpart⟩
      · show (pickSendChip ctx.args (ctx.cpus m.id m.reads) m.id m.rng (k / kvWrPerSend)).2 = _
        rw [pickSendChip_rng, hdrawn.rng, ← Function.iterate_succ_apply' (drawn _)]
      · unfold chipAt
        rw [hdrawn.id, hdrawn.reads, hdrawn.rng, hpart.mod_eq hk]
    · exact Spec.pure fun m h hC => hC
  post k hk chips r hsrc hdst := by
    refine Keeps.act (fun m h hC => ?_) fun m h ok hC _ => ?_
    · obtain ⟨-, rfl, hpart⟩ := hC
      refine ⟨⟨idx, by rw [hpart.mod_eq hk], fun hne => hpart.slot ?_⟩, hsrc, hdst⟩
      rw [hpart.mod_eq hk] at hne
      exact Nat.pos_of_ne_zero hne
    · obtain ⟨hdrawn, -, ⟨reqs, hlen⟩, -⟩ := hC
      cases ok with
      | false => trivial
      | true =>
        refine ⟨⟨hdrawn.id, hdrawn.reads, hdrawn.rng⟩, ⟨reqs, ?_⟩, fun _ => ⟨k, r, h.list, rfl⟩⟩
        show h.list.length + 1 = _
        omega

/-- One request: it is posted as a whole, or nothing is posted any more. -/
theorem postOne_inOrder (p : Pipe) (idx reqSeq : ℕ) :
    Keeps (inOrder ctx) (AtReq ctx) (postOne ctx p idx reqSeq) fun rc m h =>
      (rc = 0 ∧ AtReq ctx m h) ∨ rc = -1 := by
  have hF : Unbooked (inOrder ctx) (AtReq ctx) := atReq_framed
  have hvisit : Quiet (inOrder ctx) (AtReq ctx) (visit (.call idx reqSeq)) :=
    Keeps.act (fun _ _ _ => trivial) fun _ _ _ h _ => h
  refine Spec.bind hvisit fun _ => hF.update_bind (fun _ => rfl) ?_
  refine Spec.bind hF.now fun t => hF.update_bind (fun _ => rfl) ?_
  refine Spec.bind (((postPlan_inOrder idx).postWrs p reqSeq).pre fun m h hA => hA.atWr idx) fun r => ?_
  cases r with
  | some rc => exact Spec.pure fun m h hX => .inr hX.1
  | none =>
    refine Spec.modify_bind (AtReq ctx) (fun m h hA => ?_) (Spec.pure fun m h hA => .inl ⟨rfl, hA⟩)
    have hreq : AtReq ctx m h := AtWr.atReq hA
    exact ⟨hreq.1.memory rfl rfl rfl, hreq.2⟩

theorem schedule_inOrder {p : Pipe} (hp : p.fatalRc (-1) = true) :
    Schedule (inOrder ctx) ctx p (postOne ctx p) (fun _ => AtReq ctx) (fun _ => AtReq ctx)
      (fun _ => AtReq ctx) fun _ _ => True where
  idle _ := atReq_framed
  lost := anything_framed
  pause n := atReq_framed.pause ctx n
  back _ _ _ h := h
  pop _ _ _ _ h := ⟨h.1.memory rfl rfl rfl, h.2⟩
  stamp _ := atReq_framed.now
  post slot seq _ := by
    refine (postOne_inOrder p slot seq).post ?_
    rintro rc m h (h0 | rfl)
    · exact .inl h0
    · exact .inr ⟨by decide, hp, trivial⟩

theorem clientWorkerMain_inOrder (hop : ctx.args.op ≠ .mixed) :
    Keeps (inOrder ctx) (AtReq ctx) (clientWorkerMain ctx) fun _ _ _ => True :=
  (clientWorkerMain_keeps (S := AtReq ctx) hop atReq_framed.toFramed
    (fun _ _ _ _ h => ⟨h.1.memory rfl rfl rfl, h.2⟩) atReq_framed.now (schedule_inOrder rfl)
    (schedule_inOrder rfl)).post fun _ _ _ _ => trivial

end Run

/-! ### Whole runs -/

/-- The posts of the worker `w`, as its history. -/
def postsOf (w : ℕ) (s : Sys) : Posts := ⟨w, (s.posted w).map fun p => (p.id, p.wr)⟩

theorem map_settleBy {β : Type} (e : SlotAct β) (r : β) (l : List Posted) :
    (settleBy e r l).map (fun p => (p.id, p.wr)) = l.map fun p => (p.id, p.wr) := by
  have hsettle : ∀ t fate, (settle t fate l).map (fun p => (p.id, p.wr)) =
      l.map fun p => (p.id, p.wr) := by
    intro t fate
    unfold settle
    rw [List.map_map]
    refine List.map_congr_left fun p _ => ?_
    simp only [Function.comp_apply]
    split <;> rfl
  cases e with
  | load index => rfl
  | casStrong index expected desired =>
    show List.map _ (if r = none ∧ desired = 0 then settle _ _ l else l) = _
    split
    · exact hsettle _ _
    · rfl
  | casWeak index expected desired =>
    show List.map _ (if r = none then settle _ _ l else l) = _
    split
    · exact hsettle _ _
    · rfl

theorem postsOf_access {β : Type} (s : Sys) (w : ℕ) (o : Oracle) (e : SlotAct β) :
    postsOf w (s.access w o e).2 = postsOf w s := by
  unfold postsOf Sys.access
  simp [map_settleBy]

theorem recorded_inOrder (ctx : Context) (n : ℕ) :
    Recorded (inOrder ctx) (bench n (fun _ => .any) .free) fun i s => postsOf i s where
  own {β} w o e s := by
    cases e with
    | load index => exact postsOf_access s w o _
    | casStrong index expected desired => exact postsOf_access s w o _
    | casWeak index expected desired => exact postsOf_access s w o _
    | popIdle send =>
      show postsOf w ((Act.popIdle send).run w o s).2 = postsOf w s
      unfold Act.run
      dsimp only
      split <;> rfl
    | post id r =>
      show postsOf w ((Act.post id r).run w o s).2 =
        (inOrder ctx).step (.post id r) ((Act.post id r).run w o s).1 (postsOf w s)
      unfold Act.run
      dsimp only
      split
      · simp [postsOf, Sys.addPost, inOrder]
      · rfl
    | _ => rfl
  other {β} v w o e s hne := by
    have hw : (w : ℕ) ≠ v := fun h => hne (Fin.ext h)
    have hslot : ∀ {γ : Type} (a : SlotAct γ), postsOf w (s.access v o a).2 = postsOf w s :=
      fun a => by simp [postsOf, Sys.access, Function.update_of_ne hw]
    cases e with
    | load index => exact hslot _
    | casStrong index expected desired => exact hslot _
    | casWeak index expected desired => exact hslot _
    | popIdle send =>
      show postsOf w ((Act.popIdle send).run v o s).2 = postsOf w s
      unfold Act.run
      dsimp only
      split <;> rfl
    | post id r =>
      show postsOf w ((Act.post id r).run v o s).2 = postsOf w s
      unfold Act.run
      dsimp only
      split
      · simp [postsOf, Sys.addPost, Function.update_of_ne hw]
      · rfl
    | _ => rfl
  env w e s := by cases e <;> rfl

/-- The posts are numbered in order, those of a request in one slot, and name the chips of the
choices. -/
def Posts.Ordered (ctx : Context) (h : Posts) : Prop :=
  ∃ slot : ℕ → ℕ, ∀ k p, h.list.reverse[k]? = some p →
    p.1 = .slot (slot (k / kvWrPerReq)) (k % kvWrPerReq) ∧
    p.2.srcChip = ((chipAt ctx h.worker k).1 % 2 ^ 32).toNat ∧
    p.2.dstChip = ((chipAt ctx h.worker k).2 % 2 ^ 32).toNat

theorem Posts.Ordered.add {ctx : Context} {h : Posts} (hh : h.Ordered ctx) {id : WrId} {wr : Wr}
    (hnext : h.Next ctx id wr) : ({ h with list := (id, wr) :: h.list } : Posts).Ordered ctx := by
  obtain ⟨slot, hslot⟩ := hh
  obtain ⟨⟨idx, rfl, hlast⟩, hchips⟩ := hnext
  -- the slot of a request is that of its first work request
  refine ⟨Function.update slot (h.list.length / kvWrPerReq) idx, fun k p hk => ?_⟩
  rw [List.reverse_cons] at hk
  rcases Nat.lt_or_ge k h.list.length with hlt | hge
  · rw [List.getElem?_append_left (by simpa using hlt)] at hk
    obtain ⟨hid, hrest⟩ := hslot k p hk
    refine ⟨?_, hrest⟩
    by_cases hreq : k / kvWrPerReq = h.list.length / kvWrPerReq
    · have hpart : h.list.length % kvWrPerReq ≠ 0 := by
        unfold kvWrPerReq at hreq ⊢
        omega
      obtain ⟨wr', r, rest, hlist⟩ := hlast hpart
      have hend : h.list.reverse[h.list.length - 1]? = some (.slot idx wr', r) := by
        rw [hlist]
        simp
      have hsame : (h.list.length - 1) / kvWrPerReq = h.list.length / kvWrPerReq := by
        unfold kvWrPerReq at hpart ⊢
        omega
      obtain ⟨hidx, -⟩ := WrId.slot.inj (hslot _ _ hend).1
      rw [hid, hreq, Function.update_self, ← hsame, ← hidx]
    · rw [Function.update_of_ne hreq]
      exact hid
  · have hkl : k = h.list.length := by
      by_contra hne
      rw [List.getElem?_eq_none (by simp; omega)] at hk
      cases hk
    subst hkl
    rw [List.getElem?_append_right (by simp)] at hk
    simp only [List.length_reverse, Nat.sub_self, List.getElem?_cons_zero, Option.some.injEq] at hk
    subst hk
    rw [Function.update_self]
    exact ⟨rfl, hchips⟩

theorem Posts.Ordered.step {ctx : Context} {h : Posts} (hh : h.Ordered ctx) {β : Type} {m : Worker}
    {e : Act β} {r : β} (hduty : (inOrder ctx).duty m h e) :
    ((inOrder ctx).step e r h).Ordered ctx := by
  cases e with
  | post id wr =>
    cases r with
    | false => exact hh
    | true => exact hh.add hduty
  | _ => exact hh

theorem createWorker_atReq (ctx : Context) (hist : KvHist) (w : ℕ) :
    AtReq ctx (createWorker ctx.args hist w) ⟨w, []⟩ := by
  refine ⟨⟨rfl, rfl, ?_⟩, 0, rfl⟩
  rw [List.length_nil, Function.iterate_zero, id_eq]
  rfl

/-- **The posts are in order**, in every run of a pipeline and for every worker. -/
theorem posts_ordered {ctx : Context} (hop : ctx.args.op ≠ .mixed) {hist : KvHist} {n lanes : ℕ}
    {c : Conf (Fin n) Worker Sys Act (Unit × Worker)}
    (hr : Reachable (bench n (fun _ => .any) .free) (client ctx hist n lanes) c) (w : Fin n) :
    ∃ slot : ℕ → ℕ, ∀ k p, (c.state.posted w).reverse[k]? = some p →
      p.id = .slot (slot (k / kvWrPerReq)) (k % kvWrPerReq) ∧
      p.wr.srcChip = ((chipAt ctx w k).1 % 2 ^ 32).toNat ∧
      p.wr.dstChip = ((chipAt ctx w k).2 % 2 ^ 32).toNat := by
  have hsafe : (client ctx hist n lanes).Safe (inOrder ctx) (fun (i : Fin n) s => postsOf i s)
      fun _ _ _ => True := fun v =>
    (clientWorkerMain_inOrder hop).holds (createWorker ctx.args hist v) (postsOf v (.initial lanes))
      (createWorker_atReq ctx hist v)
  have hordered : (postsOf w c.state).Ordered ctx := by
    refine hr.history (G := Posts.Ordered ctx) hsafe (recorded_inOrder ctx n)
      (fun _ _ => fun _ _ _ _ _ _ _ => trivial) ?_ ?_ w
    · intro β m h e r hduty _ hh
      exact hh.step hduty
    · intro v
      refine ⟨fun _ => 0, ?_⟩
      rintro k p ⟨⟩
  obtain ⟨slot, hslot⟩ := hordered
  refine ⟨slot, fun k p hk => hslot k (p.id, p.wr) ?_⟩
  unfold postsOf
  rw [← List.map_reverse, List.getElem?_map, hk]
  rfl

end KvBench.Bench
