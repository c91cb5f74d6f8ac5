import KvBench.Urma.Lifecycle

/-!
# Runs of the manager

What the steps between `Init` and the teardown do to the handles. `Exchange` is all or nothing: it
makes the two handles of a connection, or none that stay (`exchange_spec`).
-/

namespace KvBench.Urma

open KvBench.Lanes KvBench.Own KvBench.Own.Fallible

/-! ### `Exchange` -/

/-- The handles `l` have been made since `s₀`, there is one reference to each, and nothing else has
changed. -/
structure Grown (s₀ : Sys) (l : List ℕ) (s : Sys) : Prop where
  mgr : s.mgr = s₀.mgr
  conns : s.conns = s₀.conns
  lanes : s.lanes = s₀.lanes
  objs : s₀.store.objs <+: s.store.objs
  count : ∀ h, s.store.count h = s₀.store.count h + l.count h
  plain : ∀ h ∈ l, s.store.holdsOf h = [] ∧ s₀.store.objs.length ≤ h
  nodup : l.Nodup

/-- The jetty has been bound to the target while both were alive. -/
def Bound (jetty target : ℕ) (s : Sys) : Prop :=
  ∃ alive, .mark (.bind jetty target) alive ∈ s.store.log ∧ jetty ∈ alive ∧ target ∈ alive

section Exchange

variable {C : List Call} {L : Multiset (Kind × ℕ)} {s₀ s : Sys} {l : List ℕ} {h : ℕ} {k : Kind}

theorem Grown.refl (s : Sys) : Grown s [] s :=
  ⟨rfl, rfl, rfl, List.prefix_rfl, by simp, by simp, List.nodup_nil⟩

theorem Grown.asked (hg : Grown s₀ l s) (n : ℕ) : Grown s₀ l { s with asked := n } :=
  ⟨hg.1, hg.2, hg.3, hg.4, hg.5, hg.6, hg.7⟩

theorem Grown.note (hg : Grown s₀ l s) (x : Call) : Grown s₀ l { s with store := s.store.note x } :=
  ⟨hg.1, hg.2, hg.3, hg.4, hg.5, hg.6, hg.7⟩

theorem Grown.lt_length (hg : Grown s₀ l s) (hs : Inv C L s) (hh : h ∈ l) :
    h < s.store.objs.length := by
  refine hs.sound.owned.lt_length fun hz => ?_
  have := hg.count h
  have := List.count_pos_iff.2 hh
  omega

theorem Grown.new (hg : Grown s₀ l s) (hs : Inv C L s) {o : Obj Kind} (ho : o.holds = []) :
    Grown s₀ (s.store.objs.length :: l) { s with store := s.store.new o } where
  mgr := hg.mgr
  conns := hg.conns
  lanes := hg.lanes
  objs := hg.objs.trans (List.prefix_append _ _)
  count h := by
    have hold := hg.count h
    have hfresh := hs.sound.owned.fresh _ le_rfl
    show Function.update s.store.count _ 1 h = _
    by_cases hh : h = s.store.objs.length
    · subst hh
      rw [Function.update_self, List.count_cons_self]
      omega
    · rw [Function.update_of_ne hh, List.count_cons_of_ne fun h' => hh h'.symm, hold]
  plain := by
    refine List.forall_mem_cons.2 ⟨⟨?_, hg.objs.length_le⟩, fun h hh => ?_⟩
    · simpa [Store.holdsOf] using ho
    · obtain ⟨hplain, hle⟩ := hg.plain h hh
      refine ⟨?_, hle⟩
      unfold Store.holdsOf at hplain ⊢
      rwa [Store.new_getElem? (hg.lt_length hs hh).ne]
  nodup := List.nodup_cons.2 ⟨fun hh => lt_irrefl _ (hg.lt_length hs hh), hg.nodup⟩

theorem Grown.drop (hg : Grown s₀ (h :: l) s) (hs : Inv C ((k, h) ::ₘ L) s) :
    Grown s₀ l { s with store := s.store.drop h } := by
  have hsound := hs.sound
  rw [Multiset.cons_add] at hsound
  have hobjs := hsound.owned_cons.drop_frame.1
  refine ⟨hg.mgr, hg.conns, hg.lanes, hobjs ▸ hg.objs, fun x => ?_, fun x hx => ?_,
    (List.nodup_cons.1 hg.nodup).2⟩
  · show (s.store.drop h).count x = _
    rw [Store.drop_count (hg.plain h List.mem_cons_self).1]
    have hx := hg.count x
    by_cases hxh : x = h
    · subst hxh
      rw [List.count_cons_self] at hx
      rw [Function.update_self]
      omega
    · rw [List.count_cons_of_ne fun h' => hxh h'.symm] at hx
      rw [Function.update_of_ne hxh, hx]
  · obtain ⟨hplain, hle⟩ := hg.plain x (List.mem_cons_of_mem h hx)
    refine ⟨?_, hle⟩
    unfold Store.holdsOf at hplain ⊢
    rwa [hobjs]

theorem Inv.drop_top (hs : Inv C ((k, h) ::ₘ L) s) (hk : k.rank = 0) :
    Inv C L { s with store := s.store.drop h } :=
  Inv.dropAll_top (M := [(k, h)]) (by simpa using hs) (by simpa using hk)

/-- A local reference to an imported handle goes out of scope, and the failure is passed on. -/
theorem unref_throw_spec {α : Type} {Q : α → Sys → Prop} (hk : k.rank = 0) (e : Failure) :
    Triple (fun s => Inv C ((k, h) ::ₘ L) s ∧ Grown s₀ (h :: l) s) (do unref h; throw e) Q
      (fun _ s => Inv C L s ∧ Grown s₀ l s) := by
  refine .bind (.modify (Q := fun _ s => Inv C L s ∧ Grown s₀ l s) ?_) fun _ => .throw fun _ h => h
  rintro s ⟨hs, hg⟩
  exact ⟨hs.drop_top hk, hg.drop hs⟩

theorem importHandle_spec (hk : k.MayUse .context) (f : Failure) :
    Triple (fun s => Inv C L s ∧ Grown s₀ l s) (importHandle k f)
      (fun h s => Inv C ((k, h) ::ₘ L) s ∧ Grown s₀ (h :: l) s)
      (fun _ s => Inv C L s ∧ Grown s₀ l s) := by
  refine .get_bind fun s₁ hs₁ => ?_
  cases hctx : s₁.mgr.resource.context with
  | none =>
    refine .throw ?_
    rintro s rfl
    exact hs₁
  | some ctx =>
    refine (make_run_spec (P := fun s => (Inv C L s ∧ Grown s₀ l s) ∧
      s.mgr.resource.context = some ctx) ?_ ⟨k, [ctx], []⟩ f).conseq ?_ ?_ fun _ _ h => h.2.1
    · rintro s n ⟨⟨hs, hg⟩, hctx⟩
      exact ⟨⟨hs.move rfl rfl, hg.asked n⟩, hctx⟩
    · rintro s rfl
      exact ⟨hs₁, hctx⟩
    · rintro _ _ ⟨s, ⟨⟨hs, hg⟩, hctx⟩, rfl, rfl⟩
      refine ⟨Inv.new (o := ⟨k, [ctx], []⟩) (H := []) (by simpa using hs) rfl (by simp) ?_, hg.new hs rfl⟩
      intro h hh
      rw [List.mem_singleton.1 hh]
      exact ⟨.context, Multiset.mem_add.2 (.inr (mem_refs_context hctx)), hk, by simp [Kind.Shared]⟩

theorem importRemoteJetty_spec (preferRtp : Bool) :
    Triple (fun s => Inv C L s ∧ Grown s₀ l s) (importRemoteJetty preferRtp)
      (fun h s => Inv C ((.targetJetty, h) ::ₘ L) s ∧ Grown s₀ (h :: l) s)
      (fun _ s => Inv C L s ∧ Grown s₀ l s) := by
  refine .ite (fun _ => importHandle_spec (by decide) _) fun _ => ?_
  exact .tryCatch (importHandle_spec (by decide) _) fun _ => importHandle_spec (by decide) _

theorem Inv.mem_alive (hs : Inv C L s) (hmem : (k, h) ∈ L + s.refs) : h ∈ s.store.alive := by
  have hcount := hs.sound.alive hmem
  exact Store.mem_alive.2 ⟨hs.sound.owned.lt_length hcount, hcount⟩

theorem mem_refs_pool (hh : h ∈ s.mgr.resource.sendJettyPool.jettys) : (.jetty, h) ∈ s.refs := by
  simp [Sys.refs, UrmaResource.coe_refs, ofKind, hh]

/-- The loop, with the jettys `done` that have been bound before. -/
theorem bindJettys_spec {target : ℕ} (htarget : (.targetJetty, target) ∈ L) (done jettys : List ℕ)
    (hjettys : ∀ j ∈ jettys, j ∈ s₀.mgr.resource.sendJettyPool.jettys) :
    Triple (fun s => (Inv C L s ∧ Grown s₀ l s) ∧ ∀ j ∈ done, Bound j target s)
      (bindJettys target jettys)
      (fun _ s => (Inv C L s ∧ Grown s₀ l s) ∧ ∀ j ∈ done ++ jettys, Bound j target s)
      (fun _ s => Inv C L s ∧ Grown s₀ l s) := by
  induction jettys generalizing done with
  | nil => exact .pure fun s h => by rwa [List.append_nil]
  | cons j jettys ih =>
    obtain ⟨hj, hjettys⟩ := List.forall_mem_cons.1 hjettys
    have hrest := ih (done ++ [j]) hjettys
    rw [List.append_assoc, List.singleton_append] at hrest
    refine .bind ((ask_spec ?_ .bindJetty).conseq (fun _ h => h) (fun _ _ h => h) fun _ _ h => h.2.1)
      fun _ => .bind (.modify ?_) fun _ => hrest
    · rintro s n ⟨⟨hs, hg⟩, hdone⟩
      exact ⟨⟨hs.move rfl rfl, hg.asked n⟩, hdone⟩
    · rintro s ⟨⟨hs, hg⟩, hdone⟩
      refine ⟨⟨hs.note (.bind j target), hg.note _⟩, fun x hx => ?_⟩
      rcases List.mem_append.1 hx with hx | hx
      · obtain ⟨alive, hmem, hrest⟩ := hdone x hx
        exact ⟨alive, List.mem_cons_of_mem _ hmem, hrest⟩
      · rw [List.mem_singleton.1 hx]
        refine ⟨s.store.alive, List.mem_cons_self, ?_, ?_⟩
        · exact hs.mem_alive (Multiset.mem_add.2 (.inr (mem_refs_pool (hg.mgr ▸ hj))))
        · exact hs.mem_alive (Multiset.mem_add.2 (.inl htarget))

theorem bindPool_spec {target : ℕ} (htarget : (.targetJetty, target) ∈ L) (a : ExchangeArgs) :
    Triple (fun s => Inv C L s ∧ Grown s₀ l s) (bindPool a target)
      (fun _ s => (Inv C L s ∧ Grown s₀ l s) ∧ (a.transMode = 1 ∨ a.transMode = 3 →
        ∀ j ∈ s₀.mgr.resource.sendJettyPool.jettys, Bound j target s))
      (fun _ s => Inv C L s ∧ Grown s₀ l s) := by
  refine .get_bind fun s₁ hs₁ => .ite (fun _ => ?_) fun hmode => ?_
  · rw [hs₁.2.mgr]
    refine (bindJettys_spec htarget [] _ fun _ h => h).conseq ?_ (fun _ _ h => ⟨h.1, fun _ => h.2⟩)
      fun _ _ h => h
    rintro s rfl
    exact ⟨hs₁, by simp⟩
  · refine .pure ?_
    rintro s rfl
    exact ⟨hs₁, fun h => absurd h hmode⟩

/-- A connection of two handles that did not exist before. -/
structure Connected (s₀ : Sys) (a : ExchangeArgs) (c : UrmaConnection) (s : Sys) : Prop where
  inv : Inv C ((.remoteSegment, c.remoteSeg) ::ₘ (.targetJetty, c.targetJetty) ::ₘ 0) s
  grown : Grown s₀ [c.remoteSeg, c.targetJetty] s
  bound : a.transMode = 1 ∨ a.transMode = 3 →
    ∀ j ∈ s₀.mgr.resource.sendJettyPool.jettys, Bound j c.targetJetty s

theorem finishExchange_spec (a : ExchangeArgs) (target : ℕ) :
    Triple (fun s => Inv C ((.targetJetty, target) ::ₘ 0) s ∧ Grown s₀ [target] s)
      (finishExchange a target) (fun c s => c.targetJetty = target ∧ Connected (C := C) s₀ a c s)
      (fun _ s => Inv C ((.targetJetty, target) ::ₘ 0) s ∧ Grown s₀ [target] s) := by
  refine .bind (importHandle_spec (by decide) _) fun seg => .bind (.tryCatch
    (bindPool_spec (Multiset.mem_cons_of_mem (Multiset.mem_cons_self _ _)) a)
    fun e => unref_throw_spec (by decide) e) fun _ => .pure ?_
  rintro s ⟨⟨hs, hg⟩, hbound⟩
  exact ⟨rfl, hs, hg, hbound⟩

theorem exchange_spec (hs₀ : Inv C 0 s₀) (a : ExchangeArgs) :
    Triple (fun s => s = s₀) (exchange a)
      (fun _ s => ∃ c s', Connected (C := C) s₀ a c s' ∧ s = { s' with conns := s'.conns ++ [c] })
      (fun _ s => Inv C 0 s ∧ Grown s₀ [] s) := by
  have hstart : ∀ s, s = s₀ → Inv C 0 s ∧ Grown s₀ [] s := by
    rintro s rfl
    exact ⟨hs₀, .refl s⟩
  refine .get_bind fun s₁ hs₁ => .ite (fun _ => ?_) fun _ => ?_
  · exact .throw fun s hs => hstart s (hs.trans hs₁)
  refine .bind ((ask_spec (P := fun s => Inv C 0 s ∧ Grown s₀ [] s) ?_ .sockSyncData).conseq
    (fun s hs => hstart s (hs.trans hs₁)) (fun _ _ h => h) fun _ _ h => h.2) fun _ => .ite (fun _ => ?_)
    fun _ => ?_
  · exact fun s n h => ⟨h.1.move rfl rfl, h.2.asked n⟩
  · exact .throw fun _ h => h
  refine .bind (importRemoteJetty_spec a.preferRtp) fun target => .bind (.tryCatch
    ((finishExchange_spec a target).conseq (fun _ h => h) (fun _ _ h => h.2) fun _ _ h => h)
    fun e => unref_throw_spec (by decide) e) fun c => .modify ?_
  exact fun s hs => ⟨c, s, hs, rfl⟩

theorem Connected.inv_conns {a : ExchangeArgs} {c : UrmaConnection} (h : Connected (C := C) s₀ a c s) :
    Inv C 0 { s with conns := s.conns ++ [c] } := by
  refine h.inv.move rfl ?_
  simp only [Sys.refs, List.flatMap_append, List.flatMap_singleton, UrmaConnection.refs,
    ← Multiset.coe_add, ← Multiset.cons_coe, Multiset.coe_nil, ← Multiset.singleton_add]
  abel

end Exchange

/-! ### The other steps -/

section Steps

variable {C : List Call} {L : Multiset (Kind × ℕ)} {s₀ s : Sys} {seg ctx : ℕ}

/-- The segment `seg` of the current context is registered with the resource, and the caller has a
reference to it. -/
structure Registered (s₀ : Sys) (seg : ℕ) (s : Sys) : Prop where
  mgr : s.mgr = { s₀.mgr with resource := { s₀.mgr.resource with localSeg := some seg } }
  conns : s.conns = s₀.conns
  lanes : s.lanes = s₀.lanes
  uses : ∀ ctx ∈ s₀.mgr.resource.context, s.store.usesOf seg = [ctx]

theorem map_snd_ofKind (k : Kind) (l : List ℕ) : (ofKind k l).map Prod.snd = l := by
  simp [ofKind]

theorem usesOf_of_grown {t t' : Store Kind Call} (h : t.objs <+: t'.objs) {g : ℕ}
    (hg : g < t.objs.length) : t'.usesOf g = t.usesOf g := by
  obtain ⟨l, hl⟩ := h
  unfold Store.usesOf
  rw [← hl, List.getElem?_append_left hg]

/-- References to objects that nothing uses are dropped. -/
theorem Inv.drop_leaves {M : List (Kind × ℕ)} (hs : Inv C (M + L) s) (hM : ∀ p ∈ M, p.1.rank = 0) :
    Inv C L { s with store := s.store.dropAll (M.map Prod.snd) } ∧
      (s.store.dropAll (M.map Prod.snd)).objs = s.store.objs := by
  have hsound := hs.sound
  rw [add_assoc] at hsound
  exact ⟨hs.dropAll_top hM, hsound.dropAll_objs⟩

/-- Old segments are dropped. -/
theorem Inv.drop_segment {old : List ℕ} (hs : Inv C (ofKind .localSegment old + L) s) :
    Inv C L { s with store := s.store.dropAll old } ∧ (s.store.dropAll old).objs = s.store.objs := by
  have hdrop := hs.drop_leaves fun p hp => by
    obtain ⟨_, -, rfl⟩ := List.mem_map.1 hp
    rfl
  rwa [map_snd_ofKind] at hdrop

theorem registerSegment_spec (hs₀ : Inv C 0 s₀) :
    Triple (fun s => s = s₀) registerSegment
      (fun seg s => Inv C ((.localSegment, seg) ::ₘ 0) s ∧ Registered s₀ seg s)
      (fun _ s => Inv C 0 s ∧ Grown s₀ [] s) := by
  refine .get_bind fun s₁ hs₁ => ?_
  obtain rfl := hs₁
  cases hctx : s₁.mgr.resource.context with
  | none =>
    refine .throw ?_
    rintro s rfl
    exact ⟨hs₀, .refl s⟩
  | some ctx =>
    refine .bind ((make_run_spec (P := fun s => Inv C 0 s ∧ Grown s₁ [] s)
      (fun s n h => ⟨h.1.move rfl rfl, h.2.asked n⟩) _ _).conseq ?_ (fun _ _ h => h) fun _ _ h => h.2)
      fun seg => .get_bind fun s₂ hs₂ => ?_
    · rintro s rfl
      exact ⟨hs₀, .refl s⟩
    obtain ⟨s, ⟨hs, hg⟩, rfl, rfl⟩ := hs₂
    have hctx' : s.mgr.resource.context = some ctx := hg.mgr ▸ hctx
    have hnew : Inv C ((Kind.localSegment, s.store.objs.length) ::ₘ 0) _ :=
      Inv.new (o := ⟨.localSegment, [ctx], []⟩) (H := []) (by simpa using hs) rfl (by simp) fun h hh => by
        rw [List.mem_singleton.1 hh]
        exact ⟨.context, Multiset.mem_add.2 (.inr (mem_refs_context hctx')), by simp [Kind.MayUse, Kind.uses],
          by simp [Kind.Shared]⟩
    -- the new segment is in the member, and the old one in a local variable
    have hswap : Inv C (ofKind .localSegment s.mgr.resource.localSeg.toList + 0)
        { s with
          store := s.store.new ⟨.localSegment, [ctx], []⟩
          mgr.resource.localSeg := some s.store.objs.length } := by
      refine hnew.move rfl ?_
      simp only [Sys.refs, UrmaResource.coe_refs, Option.toList, coe_ofKind_singleton,
        ← Multiset.singleton_add]
      abel
    obtain ⟨hdrop, hobjs⟩ := hswap.drop_segment
    have hfinal := hdrop.copy (k := .localSegment) (h := s.store.objs.length)
      (by simp [Sys.refs, UrmaResource.coe_refs])
    refine .bind (.modify (Q := fun _ t => t = { s with
      store := s.store.new ⟨.localSegment, [ctx], []⟩
      mgr.resource.localSeg := some s.store.objs.length }) ?_) fun _ =>
      .bind (.modify (Q := fun _ t => t = { s with
        store := (s.store.new ⟨.localSegment, [ctx], []⟩).dropAll s.mgr.resource.localSeg.toList
        mgr.resource.localSeg := some s.store.objs.length }) ?_) fun _ =>
      .bind (.modify (Q := fun _ t => t = { s with
        store := ((s.store.new ⟨.localSegment, [ctx], []⟩).dropAll
          s.mgr.resource.localSeg.toList).copy s.store.objs.length
        mgr.resource.localSeg := some s.store.objs.length }) ?_) fun _ => .pure ?_
    · rintro t rfl
      rfl
    · rintro t rfl
      rfl
    · rintro t rfl
      rfl
    · rintro t rfl
      refine ⟨hfinal, ⟨?_, hg.conns, hg.lanes, ?_⟩⟩
      · rw [← hg.mgr]
      · intro c hc
        rw [hctx, Option.mem_some_iff] at hc
        subst hc
        unfold Store.usesOf
        rw [Store.copy_objs, hobjs]
        simp

theorem registerBuffer_spec (hs₀ : Inv C 0 s₀) :
    Triple (fun s => s = s₀) registerBuffer
      (fun _ s => Inv C 0 s ∧ ∃ seg, s.mgr = { s₀.mgr with
        resource := { s₀.mgr.resource with localSeg := some seg }
        localSeg := some seg } ∧ ∀ ctx ∈ s₀.mgr.resource.context, s.store.usesOf seg = [ctx])
      (fun _ s => Inv C 0 s ∧ Grown s₀ [] s) := by
  refine .bind (registerSegment_spec hs₀) fun seg => .get_bind fun s₁ hs₁ => ?_
  obtain ⟨hs₁, hreg⟩ := hs₁
  have hswap : Inv C (ofKind .localSegment s₁.mgr.localSeg.toList + 0)
      { s₁ with mgr.localSeg := some seg } := by
    refine hs₁.move rfl ?_
    simp only [Sys.refs, Option.toList, coe_ofKind_singleton, ← Multiset.singleton_add]
    abel
  obtain ⟨hdrop, hobjs⟩ := hswap.drop_segment
  refine .bind (.modify (Q := fun _ t => t = { s₁ with mgr.localSeg := some seg }) ?_) fun _ =>
    .modify ?_
  · rintro t rfl
    rfl
  · rintro t rfl
    refine ⟨hdrop, seg, ?_, fun ctx hctx => ?_⟩
    · show { s₁.mgr with localSeg := some seg } = _
      rw [hreg.mgr]
    · have := hreg.uses ctx hctx
      unfold Store.usesOf at this ⊢
      show ((s₁.store.dropAll s₁.mgr.localSeg.toList).objs[seg]?).elim _ _ = _
      rw [hobjs]
      exact this

theorem flatMap_eraseIdx (conns : List UrmaConnection) (i : ℕ) :
    (conns.flatMap UrmaConnection.refs : Multiset (Kind × ℕ)) =
      conns[i]?.elim [] UrmaConnection.refs + (conns.eraseIdx i).flatMap UrmaConnection.refs := by
  induction conns generalizing i with
  | nil => simp
  | cons c conns ih =>
    cases i with
    | zero => simp
    | succ i =>
      simp only [List.flatMap_cons, List.getElem?_cons_succ, List.eraseIdx_cons_succ, ← Multiset.coe_add,
        ih i]
      abel

theorem rank_of_mem_refs {l : List UrmaConnection} {p : Kind × ℕ}
    (hp : p ∈ l.flatMap UrmaConnection.refs) : p.1.rank = 0 := by
  obtain ⟨c, -, hp⟩ := List.mem_flatMap.1 hp
  rcases List.mem_pair.1 hp with rfl | rfl <;> rfl

theorem closeConn_inv (hs : Inv C 0 s) (i : ℕ) : Inv C 0 { s with
    store := s.store.dropAll ((s.conns[i]?.elim [] UrmaConnection.refs).map Prod.snd)
    conns := s.conns.eraseIdx i } ∧
    (s.store.dropAll ((s.conns[i]?.elim [] UrmaConnection.refs).map Prod.snd)).objs = s.store.objs := by
  have hswap : Inv C (s.conns[i]?.elim [] UrmaConnection.refs + 0)
      { s with conns := s.conns.eraseIdx i } := by
    refine hs.move rfl ?_
    simp only [Sys.refs, flatMap_eraseIdx s.conns i]
    abel
  refine hswap.drop_leaves fun p hp => rank_of_mem_refs (l := s.conns) ?_
  cases hc : s.conns[i]? with
  | none => simp [hc] at hp
  | some c =>
    rw [hc] at hp
    exact List.mem_flatMap.2 ⟨c, List.mem_of_getElem? hc, hp⟩

theorem popIdleFrom_jettys (p : SendJettyPool ℕ) (q : List ℕ) :
    (p.popIdleFrom q).2.jettys = p.jettys ∧ ∀ j ∈ (p.popIdleFrom q).1, j ∈ p.jettys := by
  induction q with
  | nil => exact ⟨rfl, by simp [SendJettyPool.popIdleFrom]⟩
  | cons idx rest ih =>
    unfold SendJettyPool.popIdleFrom
    split_ifs with h
    · exact ih
    · exact ⟨rfl, fun j hj => List.mem_of_getElem? hj⟩

theorem release_jettys (p : SendJettyPool ℕ) (j : ℕ) : (p.release j).jettys = p.jettys := by
  unfold SendJettyPool.release
  cases p.jettyIndices j with
  | none => rfl
  | some idx =>
    show (if _ then p else _ : SendJettyPool ℕ).jettys = _
    split_ifs <;> rfl

/-- The pool may be anything as long as it has the same jettys. -/
theorem Inv.pool (hs : Inv C L s) {pool : SendJettyPool ℕ}
    (hpool : pool.jettys = s.mgr.resource.sendJettyPool.jettys) :
    Inv C L { s with mgr.resource.sendJettyPool := pool } := by
  refine hs.move rfl ?_
  simp only [Sys.refs, UrmaResource.coe_refs, hpool]

theorem acquireSendLane_inv (hs : Inv C 0 s) {jetty : ℕ} {pool : SendJettyPool ℕ}
    (hpop : s.mgr.resource.sendJettyPool.popIdle = (some jetty, pool)) : Inv C 0 { s with
      store := s.store.copy jetty
      mgr.resource.sendJettyPool := pool
      lanes := jetty :: s.lanes } := by
  obtain ⟨hjettys, hmem⟩ := popIdleFrom_jettys s.mgr.resource.sendJettyPool
    s.mgr.resource.sendJettyPool.idleIndices
  rw [← SendJettyPool.popIdle, hpop] at hjettys hmem
  have hcopy := (hs.copy (k := .jetty) (h := jetty)
    (Multiset.mem_add.2 (.inr (mem_refs_pool (hmem jetty rfl))))).pool hjettys
  refine hcopy.move rfl ?_
  simp only [Sys.refs, ofKind, List.map_cons, ← Multiset.cons_coe, ← Multiset.singleton_add]
  abel

/-- A slot with a lane is reset. -/
theorem resetLane_inv (hs : Inv C 0 s) {jetty : ℕ} (hmem : jetty ∈ s.lanes) : Inv C 0 { s with
      lanes := s.lanes.erase jetty
      store := s.store.drop jetty } ∧ (s.store.drop jetty).objs = s.store.objs := by
  have hswap : Inv C (([(.jetty, jetty)] : List (Kind × ℕ)) + 0)
      { s with lanes := s.lanes.erase jetty } := by
    refine hs.move rfl ?_
    have hperm : (ofKind .jetty s.lanes : Multiset (Kind × ℕ)) =
        {(.jetty, jetty)} + ofKind .jetty (s.lanes.erase jetty) :=
      Multiset.coe_eq_coe.2 ((List.perm_cons_erase hmem).map _)
    simp only [Sys.refs, hperm, Multiset.coe_singleton]
    abel
  exact hswap.drop_leaves (by simp [Kind.rank])

end Steps

/-! ### Runs -/

section Running

variable {s₀ s : Sys}

theorem Running.segment_lt (h : Running s) {seg : ℕ} (hseg : seg ∈ s.mgr.localSeg) :
    seg < s.store.objs.length := by
  refine h.inv.sound.owned.lt_length (h.inv.alive (k := .localSegment) ?_)
  simp [Sys.refs, Option.mem_def.1 hseg]

/-- The members that the poll thread and the segment depend on stay as they are. -/
theorem Running.of_grown (h : Running s₀) (hs : Inv [.pollStart, .init] 0 s)
    {p : SendJettyPool ℕ}
    (hmgr : s.mgr = { s₀.mgr with resource := { s₀.mgr.resource with sendJettyPool := p } })
    (hobjs : s₀.store.objs <+: s.store.objs) : Running s := by
  refine ⟨hs, ?_, ?_, ?_, ?_, ?_, ?_, ?_⟩ <;> rw [hmgr]
  · exact h.initialized
  · exact h.pollStarted
  · exact h.context
  · exact h.jfce
  · exact h.jfc
  · exact h.segment
  · intro seg hseg ctx hctx
    rw [usesOf_of_grown hobjs (h.segment_lt hseg)]
    exact h.segment_uses seg hseg ctx hctx

theorem Running.of_same (h : Running s₀) (hs : Inv [.pollStart, .init] 0 s) (hg : Grown s₀ [] s) :
    Running s :=
  h.of_grown (p := s₀.mgr.resource.sendJettyPool) hs hg.mgr hg.objs

/-- **A step** keeps the invariant, whether it fails or not. -/
theorem Running.step (h : Running s) (op : Op) : Running (op.run s) := by
  unfold Op.run
  rcases hop : exec op.code s with ⟨r, t⟩
  cases op with
  | registerBuffer =>
    have hspec := registerBuffer_spec h.inv
    cases r with
    | error e => exact h.of_same (hspec.error rfl hop).1 (hspec.error rfl hop).2
    | ok =>
      obtain ⟨ht, seg, hmgr, huses⟩ := hspec.ok rfl hop
      refine ⟨ht, ?_, ?_, ?_, ?_, ?_, ?_, ?_⟩ <;> rw [hmgr]
      · exact h.initialized
      · exact h.pollStarted
      · exact h.context
      · exact h.jfce
      · exact h.jfc
      · rintro _ ⟨⟩ ctx hctx
        exact huses ctx hctx
  | exchange a =>
    have hspec := exchange_spec h.inv a
    cases r with
    | error e => exact h.of_same (hspec.error rfl hop).1 (hspec.error rfl hop).2
    | ok =>
      obtain ⟨c, s', hc, rfl⟩ := hspec.ok rfl hop
      exact h.of_grown (p := s.mgr.resource.sendJettyPool) hc.inv_conns hc.grown.mgr hc.grown.objs
  | closeConn i =>
    obtain ⟨rfl, rfl⟩ := Prod.mk.inj hop
    obtain ⟨hinv, hobjs⟩ := closeConn_inv h.inv i
    exact h.of_grown (p := s.mgr.resource.sendJettyPool) hinv rfl (hobjs ▸ List.prefix_rfl)
  | acquireSendLane =>
    obtain ⟨rfl, rfl⟩ := Prod.mk.inj hop
    rcases hpop : s.mgr.resource.sendJettyPool.popIdle with ⟨_ | jetty, pool⟩
    · have hjettys := (popIdleFrom_jettys s.mgr.resource.sendJettyPool
        s.mgr.resource.sendJettyPool.idleIndices).1
      rw [← SendJettyPool.popIdle, hpop] at hjettys
      simp only [hpop]
      exact h.of_grown (h.inv.pool hjettys) rfl List.prefix_rfl
    · simp only [hpop]
      exact h.of_grown (acquireSendLane_inv h.inv hpop) rfl List.prefix_rfl
  | releaseSendLane jetty =>
    obtain ⟨rfl, rfl⟩ := Prod.mk.inj hop
    by_cases hmem : jetty ∈ s.lanes
    · simp only [if_pos hmem]
      obtain ⟨hinv, hobjs⟩ := resetLane_inv h.inv hmem
      exact h.of_grown (hinv.pool (release_jettys _ _)) rfl (hobjs ▸ List.prefix_rfl)
    · simp only [if_neg hmem]
      exact h
  | quarantineLane jetty =>
    obtain ⟨rfl, rfl⟩ := Prod.mk.inj hop
    by_cases hmem : jetty ∈ s.lanes
    · simp only [if_pos hmem]
      obtain ⟨hinv, hobjs⟩ := resetLane_inv h.inv hmem
      exact h.of_grown (p := s.mgr.resource.sendJettyPool) hinv rfl (hobjs ▸ List.prefix_rfl)
    · simp only [if_neg hmem]
      exact h

/-- The state after `Init` and the steps `ops`. -/
def runOps (answers : ℕ → Bool) (a : InitArgs) (ops : List Op) : Sys :=
  ops.foldl (fun s op => op.run s) (initialRun answers a).2

theorem initialRun_running {answers : ℕ → Bool} {a : InitArgs}
    (hinit : (initialRun answers a).1 = .ok ()) : Running (initialRun answers a).2 :=
  (managerInit_spec answers a).ok rfl (Prod.ext hinit rfl)

/-- The states of a process between a successful `Init` and the teardown. -/
def Reachable (s : Sys) : Prop :=
  ∃ answers a ops, (initialRun answers a).1 = .ok () ∧ s = runOps answers a ops

/-- **Every run** keeps the invariant. -/
theorem Reachable.running (hs : Reachable s) : Running s := by
  obtain ⟨answers, a, ops, hinit, rfl⟩ := hs
  have key : ∀ (ops : List Op) (s : Sys), Running s → Running (ops.foldl (fun s op => op.run s) s) := by
    intro ops
    induction ops with
    | nil => exact fun _ h => h
    | cons op ops ih => exact fun s h => ih _ (h.step op)
  exact key ops _ (initialRun_running hinit)

end Running

/-! ### What a run does to the handles -/

/-- **Accounting.** After any steps in any order, and whatever has failed: nothing was made from a
handle that was gone nor destroyed before what was made from it; every handle was made once, and
destroyed once if the program cannot reach it any more and not at all if it can. -/
theorem handles_accounted (s : Sys) (hs : Reachable s) :
    (∀ e ∈ s.store.log, e.Clean) ∧
      ∀ h < s.store.objs.length, s.store.log.countP (Entry.Makes h) = 1 ∧
        (s.store.log.countP (Entry.Unmakes h) = 0 ↔ s.store.Reached (s.refs.map Prod.snd) h) ∧
        s.store.log.countP (Entry.Unmakes h) ≤ 1 := by
  have hrun := hs.running.inv
  have howned := hrun.sound.owned
  rw [zero_add] at howned
  refine ⟨hrun.clean, fun h hlt => ⟨?_, ?_, ?_⟩⟩
  · rw [howned.made_once, if_pos hlt]
  · rw [howned.gone_once, ← howned.mem_alive_iff, Store.mem_alive]
    by_cases hz : s.store.count h = 0 <;> simp [hz, hlt]
  · rw [howned.gone_once]
    split_ifs <;> omega

/-- A client that has registered its buffer, made a connection, closed it and taken a lane. -/
def exampleClient : Sys :=
  runOps (fun _ => true) ⟨2, 1, false, true⟩
    [.registerBuffer, .exchange ⟨4, 1, false, 4⟩, .closeConn 0, .acquireSendLane]

theorem exampleClient_reachable : Reachable exampleClient :=
  ⟨fun _ => true, ⟨2, 1, false, true⟩, _, rfl, rfl⟩

theorem handles_accounted_client :
    exampleClient.store.objs.length = 11 ∧
      ((exampleClient.store.log.countP (Entry.Unmakes 10) = 0 ↔
        exampleClient.store.Reached (exampleClient.refs.map Prod.snd) 10) ∧
      exampleClient.store.log.countP (Entry.Unmakes 10) ≤ 1) :=
  have hlength : exampleClient.store.objs.length = 11 := by decide
  ⟨hlength, ((handles_accounted exampleClient exampleClient_reachable).2 10
    (by rw [hlength]; decide)).2⟩

theorem Grown.mem_alive {C : List Call} {L : Multiset (Kind × ℕ)} {s₀ s : Sys} {l : List ℕ}
    (hg : Grown s₀ l s) (hs₀ : Inv C 0 s₀) (hs : Inv C L s) (h : ℕ) :
    h ∈ s.store.alive ↔ h ∈ s₀.store.alive ∨ h ∈ l := by
  have hcount := hg.count h
  have hmem : ∀ {C : List Call} {L : Multiset (Kind × ℕ)} {s : Sys}, Inv C L s →
      (h ∈ s.store.alive ↔ s.store.count h ≠ 0) := fun hs =>
    Store.mem_alive.trans ⟨And.right, fun hz => ⟨hs.sound.owned.lt_length hz, hz⟩⟩
  rw [hmem hs, hmem hs₀, ← List.count_pos_iff]
  omega

/-- **`Exchange` is all or nothing.** If it fails then the same handles are alive as before and there is
no new connection. If it returns then a connection has been added whose two handles are new and are the
only new ones, and in the connected modes every lane of the pool has been bound to it. -/
theorem exchange_all_or_nothing (s t : Sys) (hs : Reachable s) (x : ExchangeArgs)
    (r : Except Failure Unit) (hrun : exec (exchange x) s = (r, t)) :
    t.mgr = s.mgr ∧
      ((r ≠ .ok () ∧ t.conns = s.conns ∧ ∀ h, h ∈ t.store.alive ↔ h ∈ s.store.alive) ∨
        (r = .ok () ∧ ∃ c, t.conns = s.conns ++ [c] ∧ [c.remoteSeg, c.targetJetty].Nodup ∧
          (∀ h ∈ [c.remoteSeg, c.targetJetty], s.store.objs.length ≤ h) ∧
          (∀ h, h ∈ t.store.alive ↔ h ∈ s.store.alive ∨ h ∈ [c.remoteSeg, c.targetJetty]) ∧
          (x.transMode = 1 ∨ x.transMode = 3 →
            ∀ j ∈ t.mgr.resource.sendJettyPool.jettys, Bound j c.targetJetty t))) := by
  have hinv := hs.running.inv
  have hspec := exchange_spec hinv x
  cases r with
  | error e =>
    obtain ⟨ht, hg⟩ := hspec.error rfl hrun
    refine ⟨hg.mgr, .inl ⟨by simp, hg.conns, fun h => ?_⟩⟩
    simpa using hg.mem_alive hinv ht h
  | ok =>
    obtain ⟨c, s', hc, rfl⟩ := hspec.ok rfl hrun
    refine ⟨hc.grown.mgr, .inr ⟨rfl, c, by rw [hc.grown.conns], hc.grown.nodup,
      fun h hh => (hc.grown.plain h hh).2, hc.grown.mem_alive hinv hc.inv, fun hmode => ?_⟩⟩
    rw [hc.grown.mgr]
    exact hc.bound hmode

theorem exchange_all_or_nothing_connected :
    (exec (exchange ⟨4, 1, false, 4⟩) exampleClient).1 = .ok () ∧
      (exec (exchange ⟨4, 1, false, 4⟩) exampleClient).2.mgr = exampleClient.mgr :=
  ⟨rfl, (exchange_all_or_nothing exampleClient (exec (exchange ⟨4, 1, false, 4⟩) exampleClient).2
    exampleClient_reachable ⟨4, 1, false, 4⟩ _ rfl).1⟩

end KvBench.Urma
