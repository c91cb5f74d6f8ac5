import KvBench.Urma.Runs

/-!
# The teardown

`destroy_context` drops the connection, stops and deletes the manager, and frees the workers. Every
handle is destroyed exactly once by then (`destroyContext_balanced`). The order is another matter: `Clear`
drops the context while the manager still has its own reference to the registered segment, so the
segment is unregistered after its context is gone (`destroyContext_segment`); and lanes that have been
left in the slots of workers outlive `urma_uninit`. An `Init` that fails half way is cleaned up in good
order, but without `urma_uninit` (`initFailed_destroyContext`).
-/

namespace KvBench.Urma

open KvBench.Lanes KvBench.Own KvBench.Own.Fallible

/-! ### Dropping all references of a member -/

/-- The references are right. -/
def Sys.Sound (s : Sys) : Prop := Store.Sound Kind.MayUse Kind.Shared s.refs s.store

/-- References are dropped, and no handle is made. -/
structure Dropped (s s' : Sys) : Prop where
  sound : s'.Sound
  objs : s'.store.objs = s.store.objs
  calls_eq : calls s'.store = calls s.store
  log : s.store.log <:+ s'.store.log

section Drops

variable {s s' s'' : Sys} {M : List (Kind × ℕ)}

theorem Dropped.trans (h : Dropped s s') (h' : Dropped s' s'') : Dropped s s'' :=
  ⟨h'.sound, h'.objs.trans h.objs, h'.calls_eq.trans h.calls_eq, h.log.trans h'.log⟩

theorem dropAll_log {N : Multiset (Kind × ℕ)} {t : Store Kind Call}
    (hs : Store.Sound Kind.MayUse Kind.Shared (M + N) t) :
    t.log <:+ (t.dropAll (M.map Prod.snd)).log := by
  induction M generalizing t with
  | nil => exact List.suffix_rfl
  | cons p M ih =>
    rw [← Multiset.cons_coe, Multiset.cons_add] at hs
    obtain ⟨-, l, hlog, -⟩ := hs.owned_cons.drop_frame
    exact List.IsSuffix.trans ⟨l, hlog.symm⟩ (ih hs.drop)

/-- Members that have the references `M` are reset. -/
theorem Dropped.of_refs (hs : s.Sound) (hrefs : s.refs = M + s'.refs)
    (hstore : s'.store = s.store.dropAll (M.map Prod.snd)) : Dropped s s' := by
  unfold Sys.Sound at hs
  rw [hrefs] at hs
  refine ⟨?_, ?_, ?_, ?_⟩
  · unfold Sys.Sound
    rw [hstore]
    exact hs.dropAll
  · rw [hstore, hs.dropAll_objs]
  · rw [hstore, calls_dropAll hs]
  · rw [hstore]
    exact dropAll_log hs

theorem clear_refs (s : Sys) : s.refs = s.mgr.resource.refs + s.clear.refs := by
  simp only [Sys.refs, Sys.clear]
  have hempty : (UrmaResource.empty.refs : Multiset (Kind × ℕ)) = 0 := rfl
  rw [hempty]
  abel

theorem clear_dropped (hs : s.Sound) : Dropped s s.clear := .of_refs hs (clear_refs s) rfl

theorem resetLocalSeg_dropped (hs : s.Sound) : Dropped s s.resetLocalSeg := by
  refine .of_refs (M := ofKind .localSegment s.mgr.localSeg.toList) hs ?_ (by rw [map_snd_ofKind]; rfl)
  simp only [Sys.refs, Sys.resetLocalSeg, Option.toList, coe_ofKind_nil]
  abel

theorem resetConns_dropped (hs : s.Sound) : Dropped s s.resetConns := by
  refine .of_refs (M := s.conns.flatMap UrmaConnection.refs) hs ?_ rfl
  simp only [Sys.refs, Sys.resetConns, List.flatMap_nil, Multiset.coe_nil]
  abel

theorem freeBenchWorkers_dropped (hs : s.Sound) : Dropped s s.freeBenchWorkers := by
  refine .of_refs (M := ofKind .jetty s.lanes) hs ?_ (by rw [map_snd_ofKind]; rfl)
  simp only [Sys.refs, Sys.freeBenchWorkers, coe_ofKind_nil]
  abel

end Drops

/-! ### The end of a run -/

section End

variable {s : Sys}

theorem note_sound (hs : s.Sound) (x : Call) : Sys.Sound { s with store := s.store.note x } :=
  Store.Sound.note hs x

theorem Running.sound (h : Running s) : s.Sound := by
  have := h.inv.sound
  rwa [zero_add] at this

/-- Nothing is left for the destructor after `Stop`. -/
theorem deleteManager_of_stopped (h1 : s.mgr.initialized = false) (h2 : s.mgr.localSeg = none)
    (h3 : s.mgr.resource = .empty) : s.deleteManager = s := by
  obtain ⟨store, answers, asked, ⟨resource, initialized, pollStarted, eventMode, localSeg⟩, conns,
    lanes⟩ := s
  subst h1 h2 h3
  rfl

/-- The state when the poll thread has been joined. -/
def Sys.joined (s : Sys) : Sys :=
  { s.resetConns with store := s.resetConns.store.note .pollJoin, mgr.pollStarted := false }

/-- The state before `urma_uninit`. -/
def Sys.cleared (s : Sys) : Sys := s.joined.clear.resetLocalSeg

theorem Running.destroyContext_eq (h : Running s) :
    s.destroyContext = s.cleared.uninit.freeBenchWorkers := by
  have hstop : s.resetConns.stop = s.cleared.uninit := by
    unfold Sys.stop
    rw [if_pos (show s.resetConns.mgr.initialized = true from h.initialized)]
    unfold Sys.cleared Sys.joined Sys.joinPoll
    rw [if_pos (show s.resetConns.mgr.pollStarted = true from h.pollStarted)]
  unfold Sys.destroyContext
  rw [hstop, deleteManager_of_stopped rfl rfl rfl]

theorem joined_sound (hs : s.Sound) : s.joined.Sound := note_sound (resetConns_dropped hs).sound .pollJoin

theorem cleared_dropped (hs : s.Sound) : Dropped s.joined s.cleared :=
  (clear_dropped (joined_sound hs)).trans (resetLocalSeg_dropped (clear_dropped (joined_sound hs)).sound)

/-- What is left before `urma_uninit` are the lanes in the slots of workers. -/
theorem cleared_refs (s : Sys) : s.cleared.refs = ofKind .jetty s.lanes := by
  simp [Sys.refs, Sys.cleared, Sys.resetLocalSeg, Sys.clear, Sys.joined, Sys.resetConns,
    UrmaResource.coe_refs, UrmaResource.empty, SendJettyPool.empty]

theorem end_dropped (hs : s.Sound) : Dropped s.cleared.uninit s.cleared.uninit.freeBenchWorkers :=
  freeBenchWorkers_dropped (note_sound (cleared_dropped hs).sound .uninit)

end End

/-- **Nothing is leaked and nothing freed twice**: after `destroy_context` every handle that was ever made
has been destroyed exactly once, and the poll thread has been joined before `urma_uninit`. -/
theorem destroyContext_balanced (s t : Sys) (hs : Reachable s) (ht : t = s.destroyContext) :
    (∀ h < t.store.objs.length, t.store.log.countP (Entry.Makes h) = 1 ∧
      t.store.log.countP (Entry.Unmakes h) = 1) ∧
      calls t.store = [.uninit, .pollJoin, .pollStart, .init] := by
  have hrun := hs.running
  have hend := end_dropped hrun.sound
  have hcleared := cleared_dropped hrun.sound
  rw [← hrun.destroyContext_eq, ← ht] at hend
  have hrefs : t.refs = 0 := by
    rw [ht, hrun.destroyContext_eq]
    simp [Sys.refs, Sys.freeBenchWorkers, Sys.uninit, Sys.cleared, Sys.resetLocalSeg, Sys.clear, Sys.joined,
      Sys.resetConns, UrmaResource.coe_refs, UrmaResource.empty, SendJettyPool.empty]
  have howned : Store.Owned 0 t.store := by
    have := hend.sound.owned
    rwa [hrefs] at this
  refine ⟨fun h hlt => ⟨?_, ?_⟩, ?_⟩
  · rw [howned.made_once, if_pos hlt]
  · rw [howned.gone_once, if_pos ⟨hlt, howned.gone_of_zero h⟩]
  · have hjoined : calls s.joined.store = [.pollJoin, .pollStart, .init] := by
      show Call.pollJoin :: calls s.resetConns.store = _
      rw [(resetConns_dropped hrun.sound).calls_eq, hrun.inv.calls_eq]
    rw [hend.calls_eq]
    show Call.uninit :: calls s.cleared.store = _
    rw [hcleared.calls_eq, hjoined]

theorem destroyContext_balanced_client :
    0 < exampleClient.destroyContext.store.objs.length ∧
      (exampleClient.destroyContext.store.log.countP (Entry.Makes 0) = 1 ∧
        exampleClient.destroyContext.store.log.countP (Entry.Unmakes 0) = 1) ∧
      calls exampleClient.destroyContext.store = [.uninit, .pollJoin, .pollStart, .init] := by
  have hpos : 0 < exampleClient.destroyContext.store.objs.length := by decide +kernel
  obtain ⟨honce, hcalls⟩ := destroyContext_balanced exampleClient _ exampleClient_reachable rfl
  exact ⟨hpos, honce 0 hpos, hcalls⟩

/-- What can be reached depends on the objects only. -/
theorem reached_congr {R : Multiset ℕ} {t t' : Store Kind Call} (hobjs : t'.objs = t.objs) {h : ℕ}
    (hh : t.Reached R h) : t'.Reached R h := by
  induction hh with
  | root hh => exact .root hh
  | held _ hmem ih =>
    refine .held ih ?_
    unfold Store.holdsOf at hmem ⊢
    rwa [hobjs]

theorem joined_objs {s : Sys} (hs : s.Sound) : s.joined.store.objs = s.store.objs :=
  (resetConns_dropped hs).objs

/-- **The poll thread and the lanes.** The thread that polls is joined while the queue it polls and the
JFCE it waits for are alive. When `urma_uninit` is called, what is still alive are the lanes that have
been left in the slots of workers, and what they hold. -/
theorem destroyContext_alive (s t : Sys) (hs : Reachable s) (ht : t = s.destroyContext) :
    (∃ alive, .mark .pollJoin alive ∈ t.store.log ∧ (∀ jfc ∈ s.mgr.resource.jfc, jfc ∈ alive) ∧
      ∀ jfce ∈ s.mgr.resource.jfce, jfce ∈ alive) ∧
    ∃ alive, .mark .uninit alive ∈ t.store.log ∧
      ∀ h, h ∈ alive ↔ s.store.Reached s.lanes h := by
  have hrun := hs.running
  have hsound := hrun.sound
  have hend := end_dropped hsound
  have hcleared := cleared_dropped hsound
  have hreset := resetConns_dropped hsound
  rw [← hrun.destroyContext_eq, ← ht] at hend
  have hlog : s.joined.store.log <:+ t.store.log :=
    (hcleared.log.trans (List.suffix_cons _ _)).trans hend.log
  refine ⟨⟨s.resetConns.store.alive, ?_, fun jfc hjfc => ?_, fun jfce hjfce => ?_⟩,
    s.cleared.store.alive, ?_, fun h => ?_⟩
  · exact hlog.subset List.mem_cons_self
  · have hcount := hreset.sound.alive (mem_refs_jfc (s := s.resetConns) hjfc)
    exact Store.mem_alive.2 ⟨hreset.sound.owned.lt_length hcount, hcount⟩
  · have hcount := hreset.sound.alive (mem_refs_jfce (s := s.resetConns) hjfce)
    exact Store.mem_alive.2 ⟨hreset.sound.owned.lt_length hcount, hcount⟩
  · exact hend.log.subset List.mem_cons_self
  · have howned := hcleared.sound.owned
    rw [cleared_refs, Multiset.map_coe, map_snd_ofKind] at howned
    have hobjs : s.cleared.store.objs = s.store.objs := hcleared.objs.trans (joined_objs hsound)
    rw [howned.mem_alive_iff]
    exact ⟨reached_congr hobjs.symm, reached_congr hobjs⟩

theorem destroyContext_alive_abandoned :
    exampleClient.lanes.length = 1 ∧
      ∃ alive, .mark .uninit alive ∈ exampleClient.destroyContext.store.log ∧
        ∀ h, h ∈ alive ↔ exampleClient.store.Reached exampleClient.lanes h :=
  ⟨rfl, (destroyContext_alive exampleClient _ exampleClient_reachable rfl).2⟩

/-! ### The order of the teardown -/

section Order

variable {s : Sys} {C : List Call} {ctx seg : ℕ}

/-- All references of the resource but the one to the context, in the order of `Clear`. -/
def UrmaResource.front (r : UrmaResource) : List (Kind × ℕ) :=
  r.members.dropLast.flatMap fun m => ofKind m.1 m.2

theorem UrmaResource.refs_eq (r : UrmaResource) :
    r.refs = r.front ++ ofKind .context r.context.toList := by
  simp [UrmaResource.refs, UrmaResource.front, UrmaResource.members]

theorem UrmaResource.front_ne_context {r : UrmaResource} {p : Kind × ℕ} (hp : p ∈ r.front) :
    p.1 ≠ .context := by
  simp only [UrmaResource.front, UrmaResource.members, List.dropLast, List.mem_flatMap] at hp
  obtain ⟨m, hm, hp⟩ := hp
  obtain ⟨_, -, rfl⟩ := List.mem_map.1 hp
  simp only [List.mem_cons, List.not_mem_nil, or_false] at hm
  rcases hm with rfl | rfl | rfl | rfl | rfl | rfl <;> exact Kind.noConfusion

theorem UrmaResource.front_pairwise (r : UrmaResource) :
    r.front.Pairwise fun p q => p.1.rank ≤ q.1.rank := by
  have := r.refs_pairwise
  rw [r.refs_eq] at this
  exact (List.pairwise_append.1 this).1

theorem front_orderly {N : Multiset (Kind × ℕ)} {t : Store Kind Call} {r : UrmaResource}
    (hs : Store.Sound Kind.MayUse Kind.Shared (r.front + N) t)
    (hN : ∀ q ∈ N, q.1 = .context ∨ q.1 = .localSegment) :
    Store.Orderly t (t.dropAll (r.front.map Prod.snd)) := by
  refine hs.dropAll_orderly Kind.flat Kind.mayGo_self (r.front_pairwise.imp Kind.mayGo_of_rank) ?_
  intro p hp q hq
  rcases hN q hq with hq | hq <;> rw [hq]
  · refine Kind.mayGo_of_rank ?_
    cases p.1 <;> decide
  · exact Kind.mayGo_segment (UrmaResource.front_ne_context hp)

/-- A context holds nothing, and nothing holds a context. -/
theorem context_count {N : Multiset (Kind × ℕ)} {t : Store Kind Call}
    (hs : Store.Sound Kind.MayUse Kind.Shared ((.context, ctx) ::ₘ N) t)
    (hN : ∀ q ∈ N, q.1 ≠ .context) : t.count ctx = 1 ∧ t.holdsOf ctx = [] := by
  have hkind := hs.typed _ (Multiset.mem_cons_self _ _)
  have hnot : ctx ∉ N.map Prod.snd := by
    intro hmem
    obtain ⟨q, hq, hctx⟩ := Multiset.mem_map.1 hmem
    have hq' := hs.typed q (Multiset.mem_cons_of_mem hq)
    rw [hctx, hkind] at hq'
    exact hN q hq (Option.some.inj hq').symm
  have hheld : t.held ctx = 0 := by
    refine Finset.sum_eq_zero fun g _ => ?_
    rw [List.count_eq_zero.2, ite_self]
    intro hmem
    obtain ⟨-, b, hb, hshared⟩ := hs.kinded.holds g ctx hmem
    rw [hkind] at hb
    exact absurd (Option.some.inj hb ▸ hshared) (by simp [Kind.Shared])
  refine ⟨?_, List.eq_nil_iff_forall_not_mem.2 fun x hx => ?_⟩
  · rw [hs.owned_cons.count_eq, hheld, Multiset.count_cons_self, Multiset.count_eq_zero.2 hnot]
  · obtain ⟨huse, -⟩ := hs.kinded.holds ctx x hx
    obtain ⟨a, b, ha, -, hmay, -⟩ := hs.kinded.uses ctx x huse
    rw [hkind] at ha
    obtain rfl := Option.some.inj ha
    exact absurd hmay (by simp [Kind.MayUse, Kind.uses])

/-- The context is deleted while the segment is registered. -/
theorem context_fault {t : Store Kind Call}
    (hs : Store.Sound Kind.MayUse Kind.Shared ((.context, ctx) ::ₘ {(.localSegment, seg)}) t)
    (huses : t.usesOf seg = [ctx]) : (t.drop ctx).log = .gone ctx [seg] :: t.log := by
  obtain ⟨hcount, hholds⟩ := context_count hs (by simp)
  have hseg : t.kindOf seg = some .localSegment := hs.typed (.localSegment, seg) (by simp)
  have hctx : t.kindOf ctx = some .context := hs.typed (.context, ctx) (by simp)
  have hne : seg ≠ ctx := by
    rintro rfl
    exact Kind.noConfusion (Option.some.inj (hseg.symm.trans hctx))
  have hlive : t.count seg ≠ 0 := hs.alive (k := .localSegment) (by simp)
  have hmem : ∀ g, g ∈ (t.users ctx).filter (· ≠ ctx) ↔ g = seg := by
    intro g
    rw [List.mem_filter, Store.mem_users]
    constructor
    · rintro ⟨⟨⟨-, hg⟩, huse⟩, -⟩
      -- whatever lives is one of the two, since neither holds anything
      have halive := hs.owned.alive_induct (p := fun g => g = ctx ∨ g = seg) (by simp) ?_ hg
      · refine halive.resolve_left fun h => ?_
        rw [h] at huse
        obtain ⟨a, b, ha, -, hmay, -⟩ := hs.kinded.uses ctx ctx huse
        rw [hctx] at ha
        obtain rfl := Option.some.inj ha
        exact absurd hmay (by simp [Kind.MayUse, Kind.uses])
      · rintro x - (rfl | rfl) y hy
        · rw [hholds] at hy
          exact absurd hy List.not_mem_nil
        · obtain ⟨huse, b, hb, hshared⟩ := hs.kinded.holds _ y hy
          rw [huses, List.mem_singleton] at huse
          exact .inl huse
    · rintro rfl
      exact ⟨⟨⟨hs.owned.lt_length hlive, hlive⟩, by rw [huses]; exact List.mem_singleton_self _⟩,
        by simpa using hne⟩
  have hnodup : ((t.users ctx).filter (· ≠ ctx)).Nodup :=
    ((List.nodup_range.filter _).filter _).filter _
  have heq : (t.users ctx).filter (· ≠ ctx) = [seg] :=
    List.perm_singleton.1 ((List.perm_ext_iff_of_nodup hnodup (List.nodup_singleton seg)).2
      fun g => (hmem g).trans List.mem_singleton.symm)
  rw [Store.drop_last hcount hholds, Store.unmake_log, heq]

/-- The last reference of all. -/
theorem drop_only_orderly {t : Store Kind Call} {k : Kind} {h : ℕ}
    (hs : Store.Sound Kind.MayUse Kind.Shared ((k, h) ::ₘ 0) t) : Store.Orderly t (t.drop h) := by
  refine hs.drop_orderly Kind.flat fun p hp => ?_
  rw [Multiset.cons_zero, Multiset.mem_singleton] at hp
  rw [hp]
  exact Kind.mayGo_self k

theorem Running.joined_faults (h : Running s) : s.joined.store.faults = [] := by
  have hswap : Inv [.pollStart, .init] (s.conns.flatMap UrmaConnection.refs + 0)
      { s with conns := [] } := by
    refine h.inv.move rfl ?_
    simp only [Sys.refs, List.flatMap_nil, Multiset.coe_nil]
    abel
  have hjoined := (hswap.dropAll_top fun p hp => rank_of_mem_refs hp).note .pollJoin
  refine List.filter_eq_nil_iff.2 fun e he => ?_
  simpa using hjoined.clean e he

theorem joined_refs (hlanes : s.lanes = []) (hctx : s.mgr.resource.context = some ctx) :
    s.joined.refs = s.mgr.resource.front +
      ((.context, ctx) ::ₘ (ofKind .localSegment s.mgr.localSeg.toList : Multiset (Kind × ℕ))) := by
  simp only [Sys.refs, Sys.joined, Sys.resetConns, UrmaResource.refs_eq, hctx, hlanes, Option.toList,
    List.flatMap_nil, Multiset.coe_nil, coe_ofKind_nil, ← Multiset.coe_add, coe_ofKind_singleton,
    ← Multiset.singleton_add]
  abel

/-- `Clear` and what comes after it, as calls of the library. -/
theorem cleared_store (hctx : s.mgr.resource.context = some ctx) : s.cleared.store =
    ((s.joined.store.dropAll (s.mgr.resource.front.map Prod.snd)).drop ctx).dropAll
      s.mgr.localSeg.toList := by
  show ((s.joined.store.dropAll (s.mgr.resource.refs.map Prod.snd)).dropAll _) = _
  rw [UrmaResource.refs_eq, hctx, List.map_append, Store.dropAll_append]
  rfl

end Order

/-- **The segment outlives its context.** When no lane has been left in a slot, everything that
`destroy_context` does is in order, with one exception if a buffer has been registered: the context is
deleted while the segment is still registered with it. -/
theorem destroyContext_segment (s t : Sys) (hs : Reachable s) (ht : t = s.destroyContext)
    (hlanes : s.lanes = []) (ctx : ℕ) (hctx : s.mgr.resource.context = some ctx) :
    t.store.faults = s.mgr.localSeg.toList.map fun seg => .gone ctx [seg] := by
  have hrun := hs.running
  have hjoined : Store.Sound _ _ s.joined.refs s.joined.store := joined_sound hrun.sound
  rw [joined_refs hlanes hctx] at hjoined
  have hfront := front_orderly hjoined fun q hq => by
    rcases Multiset.mem_cons.1 hq with rfl | hq
    · exact .inl rfl
    · obtain ⟨_, -, rfl⟩ := List.mem_map.1 (Multiset.mem_coe.1 hq)
      exact .inr rfl
  have hobjs := hjoined.dropAll_objs.trans (joined_objs hrun.sound)
  have hu := hjoined.dropAll
  -- what comes after `Clear` adds no fault
  have hlast : t.store.faults = s.cleared.store.faults := by
    rw [ht, hrun.destroyContext_eq]
    show ((s.cleared.store.note .uninit).dropAll s.lanes).faults = _
    rw [hlanes, Store.dropAll_nil]
    exact (Store.Orderly.note _ _).faults_eq
  rw [hlast, cleared_store hctx]
  cases hseg : s.mgr.localSeg with
  | none =>
    rw [hseg] at hu
    exact ((hfront.trans (drop_only_orderly hu)).faults_eq).trans hrun.joined_faults
  | some seg =>
    have huses : Store.usesOf _ seg = [ctx] := (by
      unfold Store.usesOf
      rw [hobjs]
      exact hrun.segment_uses seg hseg ctx hctx)
    rw [hseg] at hu
    have hlog := context_fault hu huses
    show (Store.drop _ seg).faults = [.gone ctx [seg]]
    rw [(drop_only_orderly (k := .localSegment) hu.drop).faults_eq]
    unfold Store.faults
    rw [hlog, List.filter_cons_of_pos (by simp [Entry.Clean])]
    exact congrArg (_ :: ·) (hfront.faults_eq.trans hrun.joined_faults)

theorem destroyContext_segment_registered :
    (runOps (fun _ => true) ⟨2, 1, false, true⟩ [.registerBuffer]).destroyContext.store.faults =
      [.gone 0 [8]] :=
  destroyContext_segment _ _ ⟨fun _ => true, ⟨2, 1, false, true⟩, [.registerBuffer], rfl, rfl⟩ rfl rfl 0
    rfl

/-! ### A failed `Init` -/

section InitFailed

variable {s : Sys} {C : List Call} {e : Failure}

/-- `Clear` is in order when there are no other references. -/
theorem clear_inv (hs : Inv C 0 s) (hrest : s.clear.refs = 0) : Inv C 0 s.clear := by
  have hswap : Inv C (s.mgr.resource.refs + 0) { s with mgr := { s.mgr with resource := .empty } } := by
    refine hs.move rfl ?_
    rw [clear_refs s, add_zero, zero_add]
    rfl
  refine hswap.dropAll s.mgr.resource.refs_pairwise fun p _ q hq => ?_
  rw [zero_add] at hq
  change q ∈ s.clear.refs at hq
  rw [hrest] at hq
  exact absurd hq (Multiset.notMem_zero q)

theorem InitFailed.clear_refs (h : InitFailed e s) : s.clear.refs = 0 := by
  simp [Sys.refs, Sys.clear, UrmaResource.coe_refs, UrmaResource.empty, SendJettyPool.empty, h.localSeg,
    h.conns, h.lanes]

theorem InitFailed.resetConns_eq (h : InitFailed e s) : s.resetConns = s := by
  unfold Sys.resetConns
  rw [h.conns]
  show { s with conns := [] } = s
  rw [← h.conns]

theorem resetLocalSeg_of_none (h : s.mgr.localSeg = none) : s.resetLocalSeg = s := by
  unfold Sys.resetLocalSeg
  rw [h]
  show { s with mgr := { s.mgr with localSeg := none } } = s
  rw [← h]

theorem freeBenchWorkers_of_nil (h : s.lanes = []) : s.freeBenchWorkers = s := by
  unfold Sys.freeBenchWorkers
  rw [h]
  show { s with lanes := [] } = s
  rw [← h]

/-- Without the flag, `Stop` does nothing, and the destructor clears the resource. -/
theorem InitFailed.destroyContext_of_early (h : InitFailed e s) (he : e ≠ .pollThread) :
    s.destroyContext = s.clear := by
  have hstop : s.stop = s := by
    unfold Sys.stop
    rw [h.initialized, decide_eq_false he]
    rfl
  unfold Sys.destroyContext Sys.deleteManager
  rw [h.resetConns_eq, hstop, hstop, resetLocalSeg_of_none h.localSeg]
  exact freeBenchWorkers_of_nil h.lanes

/-- When only the thread is missing, `Stop` does everything. -/
theorem InitFailed.destroyContext_of_late (h : InitFailed .pollThread s) :
    s.destroyContext = s.clear.uninit := by
  have hstop : s.stop = s.clear.uninit := by
    have hinit : s.mgr.initialized = true := h.initialized
    have hjoin : s.joinPoll = s := by
      unfold Sys.joinPoll
      rw [h.pollStarted]
      rfl
    unfold Sys.stop
    rw [if_pos hinit, hjoin, resetLocalSeg_of_none (s := s.clear) h.localSeg]
  unfold Sys.destroyContext
  rw [h.resetConns_eq, hstop, deleteManager_of_stopped (s := s.clear.uninit) rfl h.localSeg rfl]
  exact freeBenchWorkers_of_nil h.lanes

end InitFailed

/-- The calls of a process whose `Init` fails. -/
def callsOfFailure : Failure → List Call
  | .init => []
  | .pollThread => [.uninit, .init]
  | _ => [.init]

/-- **A failed `Init`** is cleaned up in good order, wherever it failed: every handle is destroyed, and
none before those made from it. But `urma_uninit` is called only if everything but the thread was there,
and not after the failures between `urma_init` and that. -/
theorem initFailed_destroyContext (answers : ℕ → Bool) (a : InitArgs) (e : Failure) (s t : Sys)
    (hfail : initialRun answers a = (.error e, s)) (ht : t = s.destroyContext) :
    t.store.faults = [] ∧ t.store.alive = [] ∧ calls t.store = callsOfFailure e := by
  have h : InitFailed e s := (managerInit_spec answers a).error rfl hfail
  have hclear := clear_inv h.inv h.clear_refs
  have hfaults : s.clear.store.faults = [] :=
    List.filter_eq_nil_iff.2 fun e he => by simpa using hclear.clean e he
  have halive : s.clear.store.alive = [] := by
    have howned := hclear.sound.owned
    rw [h.clear_refs] at howned
    exact List.filter_eq_nil_iff.2 fun x _ => by simpa using howned.gone_of_zero x
  by_cases he : e = .pollThread
  · subst he
    rw [ht, h.destroyContext_of_late]
    refine ⟨(Store.Orderly.note _ _).faults_eq.trans hfaults, halive, ?_⟩
    exact (hclear.note .uninit).calls_eq
  · rw [ht, h.destroyContext_of_early he]
    refine ⟨hfaults, halive, ?_⟩
    rw [hclear.calls_eq]
    cases e <;> first | rfl | exact absurd rfl he

/-- The third call that creates something fails, and the library stays initialized. -/
theorem initFailed_destroyContext_createJfc :
    calls (initialRun (fun n => n ≠ 6) ⟨2, 1, false, true⟩).2.destroyContext.store = [.init] :=
  (initFailed_destroyContext (fun n => n ≠ 6) ⟨2, 1, false, true⟩ .createJfc _ _ rfl rfl).2.2

end KvBench.Urma
