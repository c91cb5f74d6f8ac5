import KvBench.Urma.Manager

/-!
# References and handles

`Inv L s` says that the handles alive are those the program has references to, in its members or in
local variables (`L`), and that no handle has been made from one that was gone, or destroyed before one
that was made from it. All procedures keep it, whether they fail or not.
-/

namespace KvBench.Urma

open KvBench.Lanes KvBench.Own KvBench.Own.Fallible

/-! ### Kinds -/

/-- The order in which kinds go. -/
def Kind.rank : Kind → ℕ
  | .localSegment | .jetty | .targetJetty | .remoteSegment => 0
  | .jfr => 1
  | .jfc => 2
  | .jfce => 3
  | .context => 4

theorem Kind.flat (a b : Kind) : a.Shared → a.MayUse b → ¬ b.Shared := by
  cases a <;> cases b <;> decide

theorem Kind.mayGo_of_rank {k a : Kind} (h : k.rank ≤ a.rank) :
    Store.MayGo Kind.MayUse Kind.Shared k a := by
  refine .inr ⟨?_, fun b => ?_⟩
  · revert h
    cases k <;> cases a <;> decide
  · revert h
    cases k <;> cases a <;> cases b <;> decide

theorem Kind.mayGo_self (k : Kind) : Store.MayGo Kind.MayUse Kind.Shared k k :=
  mayGo_of_rank le_rfl

/-- A segment keeps the context only. -/
theorem Kind.mayGo_segment {k : Kind} (h : k ≠ .context) :
    Store.MayGo Kind.MayUse Kind.Shared k .localSegment := by
  refine .inr ⟨?_, fun b => ?_⟩
  · revert h
    cases k <;> decide
  · revert h
    cases k <;> cases b <;> decide

theorem UrmaResource.members_pairwise (r : UrmaResource) :
    r.members.Pairwise fun m m' => m.1.rank ≤ m'.1.rank := by
  simp [members, Kind.rank]

theorem UrmaResource.refs_pairwise (r : UrmaResource) :
    r.refs.Pairwise fun p q => p.1.rank ≤ q.1.rank := by
  refine List.pairwise_flatMap.2 ⟨fun m _ => ?_, r.members_pairwise.imp ?_⟩
  · unfold ofKind
    rw [List.pairwise_map]
    exact List.pairwise_of_forall fun _ _ => le_rfl
  · rintro m m' hle p hp q hq
    obtain ⟨_, -, rfl⟩ := List.mem_map.1 hp
    obtain ⟨_, -, rfl⟩ := List.mem_map.1 hq
    exact hle

/-! ### The invariant -/

/-- The call that an entry of the log notes, except for the binding of jettys. -/
def callOf : Entry Call → Option Call
  | .mark (.bind _ _) _ => none
  | .mark x _ => some x
  | _ => none

/-- The calls of the log, the latest first. -/
def calls (s : Store Kind Call) : List Call := s.log.filterMap callOf

/-- The references are right, the handles have been made and destroyed in order, and the calls have
been `C`. The references `L` are in local variables. -/
structure Inv (C : List Call) (L : Multiset (Kind × ℕ)) (s : Sys) : Prop where
  sound : Store.Sound Kind.MayUse Kind.Shared (L + s.refs) s.store
  clean : ∀ e ∈ s.store.log, e.Clean
  calls_eq : calls s.store = C

theorem UrmaResource.coe_refs (r : UrmaResource) : (r.refs : Multiset (Kind × ℕ)) =
    ofKind .localSegment r.localSeg.toList + (ofKind .jetty r.sendJettyPool.jettys +
      (ofKind .jetty r.sharedRecvJetty.toList + (ofKind .jfr r.sharedJettyJfr.toList +
        (ofKind .jfc r.jfc.toList + (ofKind .jfce r.jfce.toList + ofKind .context r.context.toList))))) := by
  simp [UrmaResource.refs, UrmaResource.members]

@[simp] theorem coe_ofKind_nil (k : Kind) : (ofKind k [] : Multiset (Kind × ℕ)) = 0 := rfl

@[simp] theorem coe_ofKind_singleton (k : Kind) (h : ℕ) :
    (ofKind k [h] : Multiset (Kind × ℕ)) = {(k, h)} := rfl

section Inv

variable {C : List Call} {L L' : Multiset (Kind × ℕ)} {s s' : Sys} {h : ℕ} {k : Kind}

/-- References move between variables. -/
theorem Inv.move (hs : Inv C L s) (hstore : s'.store = s.store) (hrefs : L' + s'.refs = L + s.refs) :
    Inv C L' s' where
  sound := by
    rw [hstore, hrefs]
    exact hs.sound
  clean := by
    rw [hstore]
    exact hs.clean
  calls_eq := by
    rw [hstore]
    exact hs.calls_eq

/-- A local reference is moved into a member of the resource. -/
theorem Inv.assign {g : UrmaResource → UrmaResource} (hs : Inv C ((k, h) ::ₘ L) s)
    (hg : ((g s.mgr.resource).refs : Multiset (Kind × ℕ)) = {(k, h)} + s.mgr.resource.refs) :
    Inv C L { s with mgr := { s.mgr with resource := g s.mgr.resource } } := by
  refine hs.move rfl ?_
  simp only [Sys.refs, hg, ← Multiset.singleton_add]
  abel

theorem Inv.alive (hs : Inv C L s) (hmem : (k, h) ∈ s.refs) : s.store.count h ≠ 0 :=
  hs.sound.alive (Multiset.mem_add.2 (.inr hmem))

theorem Inv.copy (hs : Inv C L s) (hmem : (k, h) ∈ L + s.refs) :
    Inv C ((k, h) ::ₘ L) { s with store := s.store.copy h } where
  sound := by
    rw [Multiset.cons_add]
    exact hs.sound.copy hmem
  clean := hs.clean
  calls_eq := hs.calls_eq

theorem calls_append {t t' : Store Kind Call} {l : List (Entry Call)} (hlog : t'.log = l ++ t.log)
    (hl : ∀ e ∈ l, callOf e = none) : calls t' = calls t := by
  unfold calls
  rw [hlog, List.filterMap_append, List.filterMap_eq_nil_iff.2 hl, List.nil_append]

theorem calls_drop {M : Multiset (Kind × ℕ)} {t : Store Kind Call}
    (hs : Store.Sound Kind.MayUse Kind.Shared ((k, h) ::ₘ M) t) : calls (t.drop h) = calls t := by
  obtain ⟨-, l, hlog, hl⟩ := hs.owned_cons.drop_frame
  refine calls_append hlog fun e he => ?_
  obtain ⟨g, users, rfl⟩ := hl e he
  rfl

theorem calls_dropAll {M : List (Kind × ℕ)} {N : Multiset (Kind × ℕ)} {t : Store Kind Call}
    (hs : Store.Sound Kind.MayUse Kind.Shared (M + N) t) :
    calls (t.dropAll (M.map Prod.snd)) = calls t := by
  induction M generalizing t with
  | nil => rfl
  | cons p M ih =>
    rw [← Multiset.cons_coe, Multiset.cons_add] at hs
    exact (ih hs.drop).trans (calls_drop hs)

/-- References are dropped, of objects that may go. -/
theorem Inv.dropAll {M : List (Kind × ℕ)} (hs : Inv C (M + L) s)
    (hM : M.Pairwise fun p q => p.1.rank ≤ q.1.rank)
    (hL : ∀ p ∈ M, ∀ q ∈ L + s.refs, Store.MayGo Kind.MayUse Kind.Shared p.1 q.1) :
    Inv C L { s with store := s.store.dropAll (M.map Prod.snd) } := by
  obtain ⟨hsound, hclean, hcalls⟩ := hs
  rw [add_assoc] at hsound
  refine ⟨hsound.dropAll, ?_, (calls_dropAll hsound).trans hcalls⟩
  obtain ⟨l, hlog, hl⟩ := hsound.dropAll_orderly Kind.flat Kind.mayGo_self
    (hM.imp Kind.mayGo_of_rank) hL
  show ∀ e ∈ (s.store.dropAll (M.map Prod.snd)).log, _
  rw [hlog]
  exact fun e he => (List.mem_append.1 he).elim (hl e) (hclean e)

/-- The same for kinds that nothing uses. -/
theorem Inv.dropAll_top {M : List (Kind × ℕ)} (hs : Inv C (M + L) s) (hM : ∀ p ∈ M, p.1.rank = 0) :
    Inv C L { s with store := s.store.dropAll (M.map Prod.snd) } := by
  refine hs.dropAll ?_ fun p hp q _ => Kind.mayGo_of_rank (by rw [hM p hp]; exact Nat.zero_le _)
  refine List.Pairwise.imp_of_mem (fun {p q} hp hq _ => ?_) (List.pairwise_of_forall fun _ _ => trivial)
  rw [hM p hp, hM q hq]

theorem Inv.new {o : Obj Kind} {H : List (Kind × ℕ)} (hs : Inv C (H + L) s)
    (hholds : o.holds = H.map Prod.snd) (hshared : ∀ p ∈ H, p.2 ∈ o.uses ∧ p.1.Shared)
    (huses : ∀ h ∈ o.uses, ∃ k, (k, h) ∈ H + L + s.refs ∧ o.kind.MayUse k ∧
      (k.Shared → h ∈ o.holds)) :
    Inv C ((o.kind, s.store.objs.length) ::ₘ L) { s with store := s.store.new o } := by
  obtain ⟨hsound, hclean, hcalls⟩ := hs
  rw [add_assoc] at hsound
  obtain ⟨hnew, l, hlog, hl⟩ := hsound.new hholds hshared (by simpa [add_assoc] using huses)
  rw [← Multiset.cons_add] at hnew
  refine ⟨hnew, ?_, (calls_append (l := [_]) rfl (by simp [callOf])).trans hcalls⟩
  show ∀ e ∈ (s.store.new o).log, _
  rw [hlog]
  exact fun e he => (List.mem_append.1 he).elim (hl e) (hclean e)

theorem Inv.note (hs : Inv C L s) (x : Call) :
    Inv ((callOf (.mark x [])).toList ++ C) L { s with store := s.store.note x } := by
  refine ⟨hs.sound.note x, List.forall_mem_cons.2 ⟨trivial, hs.clean⟩, ?_⟩
  show (Entry.mark x s.store.alive :: s.store.log).filterMap callOf = _
  rw [← hs.calls_eq]
  cases x <;> rfl

end Inv

/-! ### Procedures -/

/-- The property does not depend on the handles. -/
def Blind (F : Sys → Prop) : Prop :=
  ∀ s store asked, F s → F { s with store := store, asked := asked }

/-- Nor on the JFR that send jettys share. -/
def BlindToJfr (F : Sys → Prop) : Prop :=
  ∀ s jfr, F s → F { s with mgr.resource.sharedJettyJfr := jfr }

/-- Nor on the members for jettys. -/
def BlindToJettys (F : Sys → Prop) : Prop :=
  ∀ s jfr pool recv, F s → F { s with
    mgr.resource.sharedJettyJfr := jfr
    mgr.resource.sendJettyPool := pool
    mgr.resource.sharedRecvJetty := recv }

theorem BlindToJettys.toJfr {F : Sys → Prop} (hF : BlindToJettys F) : BlindToJfr F :=
  fun s jfr => hF s jfr s.mgr.resource.sendJettyPool s.mgr.resource.sharedRecvJetty

section Procedures

variable {C : List Call} {L : Multiset (Kind × ℕ)} {F : Sys → Prop} {ctx jfc : ℕ}

theorem ask_spec {P : Sys → Prop} (hP : ∀ s n, P s → P { s with asked := n }) (f : Failure) :
    Triple P (ask f) (fun _ => P) (fun e s => e = f ∧ P s) := by
  refine .get_bind fun s₀ hs₀ => .bind (Q := fun _ => P) (.modify ?_) fun _ => .ite ?_ ?_
  · rintro s rfl
    exact hP s _ hs₀
  · exact fun _ => .pure fun _ h => h
  · exact fun _ => .throw fun _ h => ⟨rfl, h⟩

theorem make_run_spec {P : Sys → Prop} (hP : ∀ s n, P s → P { s with asked := n }) (o : Obj Kind)
    (f : Failure) :
    Triple P (make o f)
      (fun h s => ∃ s', P s' ∧ h = s'.store.objs.length ∧ s = { s' with store := s'.store.new o })
      (fun e s => e = f ∧ P s) := by
  refine .bind (ask_spec hP f) fun _ => .get_bind fun s₀ hs₀ => .bind (.modify (Q := fun _ s =>
    s = { s₀ with store := s₀.store.new o }) ?_) fun _ => .pure ?_
  · rintro s rfl
    rfl
  · rintro s rfl
    exact ⟨s₀, hs₀, rfl, rfl⟩

/-- A call that makes a handle, to which the references `H` are given away. -/
theorem make_spec {o : Obj Kind} {H : List (Kind × ℕ)} (f : Failure) (hF : Blind F)
    (hholds : o.holds = H.map Prod.snd) (hshared : ∀ p ∈ H, p.2 ∈ o.uses ∧ p.1.Shared)
    (huses : ∀ s, F s → ∀ h ∈ o.uses, ∃ k, (k, h) ∈ H + L + s.refs ∧ o.kind.MayUse k ∧
      (k.Shared → h ∈ o.holds)) :
    Triple (fun s => Inv C (H + L) s ∧ F s) (make o f)
      (fun h s => (Inv C ((o.kind, h) ::ₘ L) s ∧ F s) ∧ s.store.usesOf h = o.uses)
      (fun e s => e = f ∧ Inv C (H + L) s ∧ F s) := by
  refine (make_run_spec (fun s n hs => ⟨hs.1.move rfl rfl, hF s _ n hs.2⟩) o f).conseq (fun _ h => h)
    ?_ fun _ _ h => h
  rintro _ _ ⟨s, ⟨hs, hFs⟩, rfl, rfl⟩
  refine ⟨⟨hs.new hholds hshared (huses s hFs), hF s _ s.asked hFs⟩, ?_⟩
  simp [Store.usesOf]

theorem mem_refs_context {s : Sys} (h : s.mgr.resource.context = some ctx) :
    (.context, ctx) ∈ s.refs := by
  simp [Sys.refs, UrmaResource.coe_refs, h]

theorem mem_refs_jfce {s : Sys} {jfce : ℕ} (h : s.mgr.resource.jfce = some jfce) :
    (.jfce, jfce) ∈ s.refs := by
  simp [Sys.refs, UrmaResource.coe_refs, h]

theorem mem_refs_jfc {s : Sys} (h : s.mgr.resource.jfc = some jfc) : (.jfc, jfc) ∈ s.refs := by
  simp [Sys.refs, UrmaResource.coe_refs, h]

/-- A call that makes a handle which is used by none and holds none. -/
theorem make_plain_spec {o : Obj Kind} (f : Failure) (hF : Blind F) (hholds : o.holds = [])
    (huses : ∀ s, F s → ∀ h ∈ o.uses, ∃ k, (k, h) ∈ s.refs ∧ o.kind.MayUse k ∧ ¬ k.Shared) :
    Triple (fun s => Inv C L s ∧ F s) (make o f)
      (fun h s => (Inv C ((o.kind, h) ::ₘ L) s ∧ F s) ∧ s.store.usesOf h = o.uses)
      (fun e s => e = f ∧ Inv C L s ∧ F s) := by
  have := make_spec (C := C) (L := L) (H := []) f hF hholds (by simp) fun s hs h hh => by
    obtain ⟨k, hk, hmay, hshared⟩ := huses s hs h hh
    exact ⟨k, Multiset.mem_add.2 (.inr hk), hmay, fun hk => absurd hk hshared⟩
  simpa using this

theorem UrmaJfr.create_spec (hF : Blind F) (hctx : ∀ s, F s → s.mgr.resource.context = some ctx)
    (hjfc : ∀ s, F s → s.mgr.resource.jfc = some jfc) :
    Triple (fun s => Inv C L s ∧ F s) (UrmaJfr.create ctx jfc)
      (fun h s => Inv C ((.jfr, h) ::ₘ L) s ∧ F s)
      (fun e s => e = .createJfr ∧ Inv C L s ∧ F s) := by
  refine (make_plain_spec (o := ⟨.jfr, [ctx, jfc], []⟩) _ hF rfl fun s hs h hh => ?_).conseq
    (fun _ h => h) (fun _ _ h => h.1) fun _ _ h => h
  rcases List.mem_pair.1 hh with rfl | rfl
  · exact ⟨.context, mem_refs_context (hctx s hs), by simp [Kind.MayUse, Kind.uses], by decide⟩
  · exact ⟨.jfc, mem_refs_jfc (hjfc s hs), by simp [Kind.MayUse, Kind.uses], by decide⟩

theorem sharedJfr_spec (hF : Blind F) (hF' : BlindToJfr F)
    (hctx : ∀ s, F s → s.mgr.resource.context = some ctx)
    (hjfc : ∀ s, F s → s.mgr.resource.jfc = some jfc) :
    Triple (fun s => Inv C L s ∧ F s) (sharedJfr ctx jfc)
      (fun h s => Inv C ((.jfr, h) ::ₘ L) s ∧ F s)
      (fun e s => e = .createJfr ∧ Inv C L s ∧ F s) := by
  have hshare : ∀ jfr, Triple (fun s => (Inv C L s ∧ F s) ∧ s.mgr.resource.sharedJettyJfr = some jfr)
      (share jfr >>= fun _ => pure jfr) (fun h s => Inv C ((.jfr, h) ::ₘ L) s ∧ F s)
      (fun e s => e = Failure.createJfr ∧ Inv C L s ∧ F s) := by
    intro jfr
    refine .bind (.modify (Q := fun _ s => Inv C ((.jfr, jfr) ::ₘ L) s ∧ F s) ?_) fun _ =>
      .pure fun _ h => h
    rintro s ⟨⟨hs, hFs⟩, hjfr⟩
    refine ⟨hs.copy ?_, hF s _ s.asked hFs⟩
    simp [Sys.refs, UrmaResource.coe_refs, hjfr]
  refine .get_bind fun s₀ hs₀ => ?_
  cases hjfr : s₀.mgr.resource.sharedJettyJfr with
  | some jfr =>
    refine (hshare jfr).pre ?_
    rintro s rfl
    exact ⟨hs₀, hjfr⟩
  | none =>
    have hnone : Blind fun s => F s ∧ s.mgr.resource.sharedJettyJfr = none := fun s store asked h =>
      ⟨hF s store asked h.1, h.2⟩
    refine .bind (Q := fun h s => Inv C ((.jfr, h) ::ₘ L) s ∧ F s ∧
      s.mgr.resource.sharedJettyJfr = none) ?_ fun jfr => .bind (.modify ?_) fun _ => hshare jfr
    · refine (UrmaJfr.create_spec hnone (fun s hs => hctx s hs.1) fun s hs => hjfc s hs.1).conseq
        ?_ (fun _ _ h => h) fun e s h => ⟨h.1, h.2.1, h.2.2.1⟩
      rintro s rfl
      exact ⟨hs₀.1, hs₀.2, hjfr⟩
    · rintro s ⟨hs, hFs, hnone⟩
      refine ⟨⟨hs.assign (g := fun r => { r with sharedJettyJfr := some jfr }) ?_,
        hF' s _ hFs⟩, rfl⟩
      simp only [UrmaResource.coe_refs, hnone, Option.toList, coe_ofKind_nil, coe_ofKind_singleton]
      abel

theorem jettyJfr_spec (hF : Blind F) (hF' : BlindToJfr F)
    (hctx : ∀ s, F s → s.mgr.resource.context = some ctx)
    (hjfc : ∀ s, F s → s.mgr.resource.jfc = some jfc) (isSend : Bool) :
    Triple (fun s => Inv C L s ∧ F s) (jettyJfr isSend ctx jfc)
      (fun h s => Inv C ((.jfr, h) ::ₘ L) s ∧ F s)
      (fun e s => e = .createJfr ∧ Inv C L s ∧ F s) :=
  .ite (fun _ => sharedJfr_spec hF hF' hctx hjfc) fun _ => UrmaJfr.create_spec hF hctx hjfc

theorem UrmaJetty.create_spec (hF : Blind F) (hF' : BlindToJfr F)
    (hctx : ∀ s, F s → s.mgr.resource.context = some ctx)
    (hjfc : ∀ s, F s → s.mgr.resource.jfc = some jfc) (isSend : Bool) :
    Triple (fun s => Inv C L s ∧ F s) (UrmaJetty.create isSend)
      (fun h s => Inv C ((.jetty, h) ::ₘ L) s ∧ F s)
      (fun e s => (e = .createJfr ∨ e = .createJetty) ∧ Inv C L s ∧ F s) := by
  refine .get_bind fun s₀ hs₀ => ?_
  rw [hctx s₀ hs₀.2, hjfc s₀ hs₀.2]
  refine .bind (Q := fun jfr s => Inv C ((.jfr, jfr) ::ₘ L) s ∧ F s) ?_ fun jfr => ?_
  · refine (jettyJfr_spec hF hF' hctx hjfc isSend).conseq ?_ (fun _ _ h => h) fun _ _ h => ⟨.inl h.1, h.2⟩
    rintro s rfl
    exact hs₀
  · have hmake := make_spec (C := C) (L := L) (o := ⟨.jetty, [ctx, jfc, jfr], [jfr]⟩)
      (H := [(.jfr, jfr)]) .createJetty hF rfl (by simp [Kind.Shared]) fun s hs h hh => by
        simp only [List.mem_cons, List.not_mem_nil, or_false] at hh
        rcases hh with rfl | rfl | rfl
        · exact ⟨.context, Multiset.mem_add.2 (.inr (mem_refs_context (hctx s hs))),
            by simp [Kind.MayUse, Kind.uses], by simp [Kind.Shared]⟩
        · exact ⟨.jfc, Multiset.mem_add.2 (.inr (mem_refs_jfc (hjfc s hs))),
            by simp [Kind.MayUse, Kind.uses], by simp [Kind.Shared]⟩
        · exact ⟨.jfr, by simp, by simp [Kind.MayUse, Kind.uses], by simp⟩
    rw [Multiset.coe_singleton, Multiset.singleton_add] at hmake
    refine .tryCatch (hmake.conseq (fun _ h => h) (fun _ _ h => h.1) fun _ _ h => h) fun e => ?_
    refine .bind (.modify (Q := fun _ s => e = .createJetty ∧ Inv C L s ∧ F s) ?_) fun _ =>
      .throw fun _ h => ⟨.inr h.1, h.2⟩
    rintro s ⟨he, hs, hFs⟩
    have hdrop : Inv C L { s with store := s.store.dropAll ([(Kind.jfr, jfr)].map Prod.snd) } := by
      refine Inv.dropAll (by simpa using hs) (List.pairwise_singleton _ _) fun p hp _ _ => .inl ?_
      rw [List.mem_singleton.1 hp]
      rfl
    exact ⟨he, hdrop, hF s _ s.asked hFs⟩

theorem preFillSendJettyPool_spec (hF : Blind F) (hF' : BlindToJettys F)
    (hctx : ∀ s, F s → s.mgr.resource.context = some ctx)
    (hjfc : ∀ s, F s → s.mgr.resource.jfc = some jfc) (count : ℕ) :
    Triple (fun s => Inv C L s ∧ F s) (preFillSendJettyPool count) (fun _ s => Inv C L s ∧ F s)
      (fun e s => (e = .createJfr ∨ e = .createJetty) ∧ Inv C L s ∧ F s) := by
  induction count with
  | zero => exact .pure fun _ h => h
  | succ count ih =>
    refine .bind (UrmaJetty.create_spec hF hF'.toJfr hctx hjfc true) fun jetty =>
      .bind (.modify ?_) fun _ => ih
    rintro s ⟨hs, hFs⟩
    refine ⟨hs.assign (g := fun r => { r with sendJettyPool := r.sendJettyPool.add jetty }) ?_,
      hF' s _ _ _ hFs⟩
    simp only [UrmaResource.coe_refs, SendJettyPool.add, ofKind, List.map_append, List.map_singleton,
      ← Multiset.coe_add, Multiset.coe_singleton]
    abel

theorem getOrCreateSharedRecvJetty_spec (hF : Blind F) (hF' : BlindToJettys F)
    (hctx : ∀ s, F s → s.mgr.resource.context = some ctx)
    (hjfc : ∀ s, F s → s.mgr.resource.jfc = some jfc) :
    Triple (fun s => Inv C L s ∧ F s) getOrCreateSharedRecvJetty (fun _ s => Inv C L s ∧ F s)
      (fun e s => (e = .createJfr ∨ e = .createJetty) ∧ Inv C L s ∧ F s) := by
  refine .get_bind fun s₀ hs₀ => ?_
  cases hrecv : s₀.mgr.resource.sharedRecvJetty with
  | some jetty =>
    refine .pure ?_
    rintro s rfl
    exact hs₀
  | none =>
    have hF₁ : Blind fun s => F s ∧ s.mgr.resource.sharedRecvJetty = none := fun s store asked h =>
      ⟨hF s store asked h.1, h.2⟩
    have hF₂ : BlindToJfr fun s => F s ∧ s.mgr.resource.sharedRecvJetty = none := fun s jfr h =>
      ⟨hF'.toJfr s jfr h.1, h.2⟩
    refine .bind ((UrmaJetty.create_spec hF₁ hF₂ (fun s hs => hctx s hs.1) (fun s hs => hjfc s hs.1)
      false).conseq ?_ (fun _ _ h => h) fun e s h => ⟨h.1, h.2.1, h.2.2.1⟩) fun jetty => .modify ?_
    · rintro s rfl
      exact ⟨hs₀.1, hs₀.2, hrecv⟩
    · rintro s ⟨hs, hFs, hnone⟩
      refine ⟨hs.assign (g := fun r => { r with sharedRecvJetty := some jetty }) ?_, hF' s _ _ _ hFs⟩
      simp only [UrmaResource.coe_refs, hnone, Option.toList, coe_ofKind_nil, coe_ofKind_singleton]
      abel

end Procedures

/-! ### `Init` -/

/-- Before `Init` is done: nothing is registered, and nobody else has references. -/
structure Idle (s : Sys) : Prop where
  initialized : s.mgr.initialized = false
  pollStarted : s.mgr.pollStarted = false
  localSeg : s.mgr.localSeg = none
  resourceSeg : s.mgr.resource.localSeg = none
  conns : s.conns = []
  lanes : s.lanes = []

/-- How far `UrmaResource::Init` has come. -/
structure Built (context jfce jfc : Option ℕ) (s : Sys) : Prop extends Idle s where
  context_eq : s.mgr.resource.context = context
  jfce_eq : s.mgr.resource.jfce = jfce
  jfc_eq : s.mgr.resource.jfc = jfc

theorem Built.blind (context jfce jfc : Option ℕ) : Blind (Built context jfce jfc) :=
  fun _ _ _ h => ⟨⟨h.1.1, h.1.2, h.1.3, h.1.4, h.1.5, h.1.6⟩, h.2, h.3, h.4⟩

theorem Built.blindToJettys (context jfce jfc : Option ℕ) : BlindToJettys (Built context jfce jfc) :=
  fun _ _ _ _ h => ⟨⟨h.1.1, h.1.2, h.1.3, h.1.4, h.1.5, h.1.6⟩, h.2, h.3, h.4⟩

/-- The failures of `UrmaResource::Init`. -/
def ResourceFailure (e : Failure) : Prop := e ≠ .init ∧ e ≠ .pollThread

instance (e : Failure) : Decidable (ResourceFailure e) :=
  inferInstanceAs (Decidable (e ≠ .init ∧ e ≠ .pollThread))

theorem Built.failure {C : List Call} {c e q : Option ℕ} {f e' : Failure} {s : Sys} (hf : ResourceFailure f)
    (h : e' = f ∧ Inv C 0 s ∧ Built c e q s) : ResourceFailure e' ∧ Inv C 0 s ∧ Idle s := by
  obtain ⟨rfl, hs, hb⟩ := h
  exact ⟨hf, hs, hb.1⟩

/-- A handle is made and becomes a member. -/
theorem make_assign_spec {C : List Call} {c e q : Option ℕ} {u v w : ℕ → Option ℕ} {o : Obj Kind}
    {f : Failure} {g : ℕ → UrmaResource → UrmaResource} {k : ℕ → Code Unit} {Q : Unit → Sys → Prop}
    (hf : ResourceFailure f) (hholds : o.holds = [])
    (huses : ∀ s, Built c e q s → ∀ h ∈ o.uses, ∃ k, (k, h) ∈ s.refs ∧ o.kind.MayUse k ∧ ¬ k.Shared)
    (hg : ∀ s h, Built c e q s → ((g h s.mgr.resource).refs : Multiset (Kind × ℕ)) =
      {(o.kind, h)} + s.mgr.resource.refs)
    (hb : ∀ s h, Built c e q s →
      Built (u h) (v h) (w h) { s with mgr.resource := g h s.mgr.resource })
    (hk : ∀ h, Triple (fun s => Inv C 0 s ∧ Built (u h) (v h) (w h) s) (k h) Q
      (fun e s => ResourceFailure e ∧ Inv C 0 s ∧ Idle s)) :
    Triple (fun s => Inv C 0 s ∧ Built c e q s) (do let h ← make o f; assign (g h); k h) Q
      (fun e s => ResourceFailure e ∧ Inv C 0 s ∧ Idle s) := by
  refine .bind ((make_plain_spec f (Built.blind c e q) hholds huses).conseq (fun _ h => h)
    (fun _ _ h => h.1) fun _ _ => Built.failure hf) fun h => .bind (.modify ?_) fun _ => hk h
  rintro s ⟨hs, hs'⟩
  exact ⟨hs.assign (hg s h hs'), hb s h hs'⟩

theorem resourceInit_spec {C : List Call} (jettyCount minJettys : ℕ) (eventMode : Bool) :
    Triple (fun s => Inv C 0 s ∧ Idle s ∧ s.mgr.resource = .empty)
      (resourceInit jettyCount minJettys eventMode)
      (fun _ s => Inv C 0 s ∧ ∃ c e q, Built (some c) (some e) (some q) s)
      (fun e s => ResourceFailure e ∧ Inv C 0 s ∧ Idle s) := by
  unfold resourceInit
  refine .bind (Q := fun _ s => Inv C 0 s ∧ Built none none none s) (.modify ?_) fun _ => ?_
  · rintro s ⟨hs, hidle, hempty⟩
    have hclear : s.clear = s := by
      unfold Sys.clear
      rw [hempty]
      show { s with mgr := { s.mgr with resource := .empty } } = s
      rw [← hempty]
    rw [hclear]
    exact ⟨hs, hidle, by rw [hempty]; rfl, by rw [hempty]; rfl, by rw [hempty]; rfl⟩
  refine .bind ((ask_spec (fun s n hs => ⟨hs.1.move rfl rfl, Built.blind _ _ _ s _ n hs.2⟩)
    .queryDevice).conseq (fun _ h => h) (fun _ _ h => h) fun _ _ => Built.failure (by decide))
    fun _ => ?_
  refine make_assign_spec (u := some) (v := fun _ => none) (w := fun _ => none)
    (g := fun h r => { r with context := some h }) (by decide) rfl (by simp) ?_ ?_ fun context => ?_
  · rintro s h hb
    simp only [UrmaResource.coe_refs, hb.context_eq, Option.toList, coe_ofKind_nil, coe_ofKind_singleton]
    abel
  · rintro s h ⟨⟨h1, h2, h3, h4, h5, h6⟩, -, h8, h9⟩
    exact ⟨⟨h1, h2, h3, h4, h5, h6⟩, rfl, h8, h9⟩
  refine make_assign_spec (u := fun _ => some context) (v := some) (w := fun _ => none)
    (g := fun h r => { r with jfce := some h }) (by decide) rfl ?_ ?_ ?_ fun jfce => ?_
  · rintro s hb h hh
    rw [List.mem_singleton.1 hh]
    exact ⟨.context, mem_refs_context hb.context_eq, by simp [Kind.MayUse, Kind.uses], by decide⟩
  · rintro s h hb
    simp only [UrmaResource.coe_refs, hb.jfce_eq, Option.toList, coe_ofKind_nil, coe_ofKind_singleton]
    abel
  · rintro s h ⟨⟨h1, h2, h3, h4, h5, h6⟩, h7, -, h9⟩
    exact ⟨⟨h1, h2, h3, h4, h5, h6⟩, h7, rfl, h9⟩
  refine make_assign_spec (u := fun _ => some context) (v := fun _ => some jfce) (w := some)
    (g := fun h r => { r with jfc := some h }) (by decide) rfl ?_ ?_ ?_ fun jfc => ?_
  · rintro s hb h hh
    rcases List.mem_cons.1 hh with rfl | hh
    · exact ⟨.context, mem_refs_context hb.context_eq, by simp [Kind.MayUse, Kind.uses], by decide⟩
    · obtain rfl : jfce = h := by
        cases eventMode <;> simp at hh
        exact hh.symm
      exact ⟨.jfce, mem_refs_jfce hb.jfce_eq, by simp [Kind.MayUse, Kind.uses], by decide⟩
  · rintro s h hb
    simp only [UrmaResource.coe_refs, hb.jfc_eq, Option.toList, coe_ofKind_nil, coe_ofKind_singleton]
    abel
  · rintro s h ⟨⟨h1, h2, h3, h4, h5, h6⟩, h7, h8, -⟩
    exact ⟨⟨h1, h2, h3, h4, h5, h6⟩, h7, h8, rfl⟩
  have hjetty : ∀ e s, (e = .createJfr ∨ e = .createJetty) ∧ Inv C 0 s ∧
      Built (some context) (some jfce) (some jfc) s → ResourceFailure e ∧ Inv C 0 s ∧ Idle s := by
    rintro e s ⟨rfl | rfl, hs, hb⟩
    · exact ⟨by decide, hs, hb.1⟩
    · exact ⟨by decide, hs, hb.1⟩
  refine .bind ((preFillSendJettyPool_spec (Built.blind _ _ _) (Built.blindToJettys _ _ _)
    (fun _ h => h.context_eq) (fun _ h => h.jfc_eq) _).conseq (fun _ h => h) (fun _ _ h => h) hjetty)
    fun _ => ?_
  exact (getOrCreateSharedRecvJetty_spec (Built.blind _ _ _) (Built.blindToJettys _ _ _)
    (fun _ h => h.context_eq) (fun _ h => h.jfc_eq)).conseq (fun _ h => h)
    (fun _ _ h => ⟨h.1, context, jfce, jfc, h.2⟩) hjetty

/-- What a failed `Init` leaves behind. -/
structure InitFailed (e : Failure) (s : Sys) : Prop where
  localSeg : s.mgr.localSeg = none
  resourceSeg : s.mgr.resource.localSeg = none
  conns : s.conns = []
  lanes : s.lanes = []
  pollStarted : s.mgr.pollStarted = false
  initialized : s.mgr.initialized = decide (e = .pollThread)
  inv : Inv (if e = .init then [] else [.init]) 0 s

/-- `Init` is done. -/
structure Running (s : Sys) : Prop where
  inv : Inv [.pollStart, .init] 0 s
  initialized : s.mgr.initialized = true
  pollStarted : s.mgr.pollStarted = true
  context : s.mgr.resource.context ≠ none
  jfce : s.mgr.resource.jfce ≠ none
  jfc : s.mgr.resource.jfc ≠ none
  segment : s.mgr.resource.localSeg = s.mgr.localSeg
  segment_uses : ∀ seg ∈ s.mgr.localSeg, ∀ ctx ∈ s.mgr.resource.context, s.store.usesOf seg = [ctx]

theorem InitFailed.of_idle {e : Failure} {s : Sys} (he : ResourceFailure e) (hs : Inv [.init] 0 s)
    (hidle : Idle s) : InitFailed e s where
  localSeg := hidle.localSeg
  resourceSeg := hidle.resourceSeg
  conns := hidle.conns
  lanes := hidle.lanes
  pollStarted := hidle.pollStarted
  initialized := by rw [hidle.initialized, decide_eq_false he.2]
  inv := by rwa [if_neg he.1]

theorem Idle.blind : Blind Idle := fun _ _ _ h => ⟨h.1, h.2, h.3, h.4, h.5, h.6⟩

theorem askIf_spec {P : Sys → Prop} (hP : ∀ s n, P s → P { s with asked := n }) (c : Bool)
    (f : Failure) : Triple P (askIf c f) (fun _ => P) (fun e s => e = f ∧ P s) :=
  .ite (fun _ => ask_spec hP f) fun _ => .pure fun _ h => h

theorem Inv.start (answers : ℕ → Bool) : Inv [] 0 (Sys.start answers) where
  sound := by
    have hrefs : 0 + (Sys.start answers).refs = 0 := by
      simp [Sys.refs, UrmaResource.coe_refs, Sys.start, UrmaResource.empty, SendJettyPool.empty]
    rw [hrefs]
    exact .empty
  clean := by simp [Sys.start, Store.empty]
  calls_eq := rfl

theorem initUrmaLib_spec :
    Triple (fun s => Inv [] 0 s ∧ Idle s ∧ s.mgr.resource = .empty) initUrmaLib
      (fun _ s => Inv [.init] 0 s ∧ Idle s ∧ s.mgr.resource = .empty) InitFailed := by
  refine .bind ((ask_spec (fun s n hs => ⟨hs.1.move rfl rfl, Idle.blind s _ n hs.2.1, hs.2.2⟩)
    .init).conseq (fun _ h => h) (fun _ _ h => h) ?_) fun _ => .modify ?_
  · rintro e s ⟨rfl, hs, hidle, -⟩
    exact ⟨hidle.localSeg, hidle.resourceSeg, hidle.conns, hidle.lanes, hidle.pollStarted,
      hidle.initialized, hs⟩
  · rintro s ⟨hs, hidle, hempty⟩
    exact ⟨hs.note .init, Idle.blind s _ s.asked hidle, hempty⟩

theorem ensurePollThread_spec :
    Triple (fun s => Inv [.init] 0 s ∧ (∃ c e q, Built (some c) (some e) (some q)
        { s with mgr.initialized := false }) ∧ s.mgr.initialized = true) ensurePollThread
      (fun _ => Running) InitFailed := by
  refine .get_bind fun s₀ hs₀ => ?_
  obtain ⟨hs, ⟨c, e, q, ⟨⟨-, hpoll, hseg, hrseg, hconns, hlanes⟩, hc, he, hq⟩⟩, hinit⟩ := hs₀
  rw [if_neg (by rw [show s₀.mgr.pollStarted = false from hpoll]; decide)]
  have hask := ask_spec (P := fun s => ∃ n, s = { s₀ with asked := n })
    (fun s n => by rintro ⟨_, rfl⟩; exact ⟨n, rfl⟩) .pollThread
  refine .bind (hask.conseq (fun s h => ⟨s₀.asked, h⟩) (fun _ _ h => h) ?_) fun _ => ?_
  · rintro _ _ ⟨rfl, n, rfl⟩
    exact ⟨hseg, hrseg, hconns, hlanes, hpoll, hinit, hs.move rfl rfl⟩
  refine .bind (.modify (Q := fun _ s => ∃ n, s = { s₀ with asked := n, mgr.pollStarted := true }) ?_)
    fun _ => .modify ?_
  · rintro _ ⟨n, rfl⟩
    exact ⟨n, rfl⟩
  · rintro _ ⟨n, rfl⟩
    refine ⟨(hs.note .pollStart).move rfl rfl, hinit, rfl, ?_, ?_, ?_, ?_, ?_⟩
    · exact fun h => Option.some_ne_none c (hc.symm.trans h)
    · exact fun h => Option.some_ne_none e (he.symm.trans h)
    · exact fun h => Option.some_ne_none q (hq.symm.trans h)
    · exact hrseg.trans hseg.symm
    · intro seg hmem
      rw [show s₀.mgr.localSeg = none from hseg] at hmem
      exact absurd hmem (Option.not_mem_none seg)

/-- **`Init`** either succeeds and everything is there, or fails with nothing registered. -/
theorem managerInit_spec (answers : ℕ → Bool) (a : InitArgs) :
    Triple (fun s => s = Sys.start answers) (managerInit a) (fun _ => Running) InitFailed := by
  refine .get_bind fun s₀ hs₀ => ?_
  rw [if_neg (by rw [hs₀]; exact Bool.false_ne_true)]
  refine .bind (Q := fun _ s => Inv [] 0 s ∧ Idle s ∧ s.mgr.resource = .empty) (.modify ?_)
    fun _ => .bind initUrmaLib_spec fun _ => ?_
  · rintro s rfl
    rw [hs₀]
    exact ⟨(Inv.start answers).move rfl rfl, ⟨rfl, rfl, rfl, rfl, rfl, rfl⟩, rfl⟩
  have hP : ∀ s n, (Inv [.init] 0 s ∧ Idle s ∧ s.mgr.resource = .empty) →
      Inv [.init] 0 { s with asked := n } ∧ Idle { s with asked := n } ∧ s.mgr.resource = .empty :=
    fun s n hs => ⟨hs.1.move rfl rfl, Idle.blind s _ n hs.2.1, hs.2.2⟩
  have hE : ∀ f, ResourceFailure f → ∀ e s, (e = f ∧ Inv [.init] 0 s ∧ Idle s ∧
      s.mgr.resource = .empty) → InitFailed e s := by
    rintro f hf e s ⟨rfl, hs, hidle, -⟩
    exact .of_idle hf hs hidle
  refine .bind ((ask_spec hP .getDeviceByName).conseq (fun _ h => h) (fun _ _ h => h)
    (hE _ (by decide))) fun _ => ?_
  refine .bind ((askIf_spec hP a.autoEid .getEidIndex).conseq (fun _ h => h) (fun _ _ h => h)
    (hE _ (by decide))) fun _ => ?_
  refine .bind ((resourceInit_spec _ _ _).conseq (fun _ h => h) (fun _ _ h => h)
    fun _ _ h => .of_idle h.1 h.2.1 h.2.2) fun _ => ?_
  refine .bind ((askIf_spec (P := fun s => Inv [.init] 0 s ∧ ∃ c e q, Built (some c) (some e) (some q) s)
    ?_ a.eventMode .rearmJfc).conseq (fun _ h => h) (fun _ _ h => h) ?_) fun _ =>
    .bind (.modify ?_) fun _ => ensurePollThread_spec
  · rintro s n ⟨hs, c, e, q, hb⟩
    exact ⟨hs.move rfl rfl, c, e, q, Built.blind _ _ _ s _ n hb⟩
  · rintro _ s ⟨rfl, hs, c, e, q, hb⟩
    exact .of_idle (by decide) hs hb.1
  · rintro s ⟨hs, c, e, q, hb⟩
    refine ⟨hs.move rfl rfl, ⟨c, e, q, ?_⟩, rfl⟩
    obtain ⟨⟨h1, h2, h3, h4, h5, h6⟩, h7, h8, h9⟩ := hb
    exact ⟨⟨rfl, h2, h3, h4, h5, h6⟩, h7, h8, h9⟩

end KvBench.Urma
