import KvBench.Bench.MainLoop

/-!
# The rounds of mixed mode, specified

A round has one send with at most two work requests, so its ghost state is a lane and two tokens
(`syncGhost`). Between two rounds both are gone again; a round that fails ends the worker, and then
it does not matter what it still holds.

`Off` stands for what is known about the offset `off` of a worker between its rounds.
-/

namespace KvBench.Bench

open KvBench.Conc KvBench.Hist Worker

/-! ### Ghost state -/

/-- The ghost state of a round: the lane of its send and the tokens of the two halves. -/
def syncGhost (l : Option Lane) (a b : TokenState) (k : ℕ) : Ghost where
  lane := fun
    | .sync => l
    | .slot _ _ => none
  tok := fun
    | .sync 0 => a
    | .sync 1 => b
    | _ => .idle
  posts := k

section Ghost

variable {l l' : Option Lane} {a b x : TokenState} {k : ℕ}

@[simp] theorem syncGhost_setLane :
    (syncGhost l a b k).setLane .sync l' = syncGhost l' a b k := by
  simp only [Ghost.setLane, syncGhost, Ghost.mk.injEq, and_true]
  funext σ
  cases σ with
  | sync => rw [Function.update_self]
  | slot idx send => rw [Function.update_of_ne (by simp)]

@[simp] theorem syncGhost_setTok_zero :
    (syncGhost l a b k).setTok (.sync 0) x = syncGhost l x b k := by
  simp only [Ghost.setTok, syncGhost, Ghost.mk.injEq, true_and, and_true]
  funext ρ
  by_cases h : ρ = .sync 0
  · rw [h, Function.update_self]
    rfl
  · rw [Function.update_of_ne h]
    split
    · exact absurd rfl h
    · rfl
    · rfl

@[simp] theorem syncGhost_setTok_one :
    (syncGhost l a b k).setTok (.sync 1) x = syncGhost l a x k := by
  simp only [Ghost.setTok, syncGhost, Ghost.mk.injEq, true_and, and_true]
  funext ρ
  by_cases h : ρ = .sync 1
  · rw [h, Function.update_self]
    rfl
  · rw [Function.update_of_ne h]
    split
    · rfl
    · exact absurd rfl h
    · rfl

theorem syncGhost_idle (ρ : WrId) : (syncGhost l .idle .idle k).tok ρ = .idle := by
  simp only [syncGhost]
  split <;> rfl

/-- Every token of a round is one of its two. -/
theorem syncGhost_tok (l : Option Lane) (a b : TokenState) (k : ℕ) {P : TokenState → Prop} (ha : P a)
    (hb : P b) (hi : P .idle) (ρ : WrId) : P ((syncGhost l a b k).tok ρ) := by
  simp only [syncGhost]
  split
  · exact ha
  · exact hb
  · exact hi

end Ghost

/-! ### One round -/

/-- What a round does not change. -/
structure Kept (m₀ m : Worker) : Prop where
  id : m.id = m₀.id
  off : m.off = m₀.off
  next : m.nextPostNs = m₀.nextPostNs

section Round

variable {B : Setup} {i : Fin B.n} {m₀ m₁ : Worker} {l : Lane} {k t ta tb : ℕ} {a b : TokenState}

theorem Kept.recordWr (h : Kept m₀ m₁) (ns : ℕ) : Kept m₀ (recordWr ns m₁) := ⟨h.id, h.off, h.next⟩

theorem Kept.recordPost (h : Kept m₀ m₁) (ns : ℕ) : Kept m₀ (recordPost ns m₁) :=
  ⟨h.id, h.off, h.next⟩

variable (B i) in
/-- After a round with the result `rc`. -/
def Settled (m₀ : Worker) (rc : ℤ) (m : Worker) (v : View) : Prop :=
  rc = 0 → ∃ x : Worker × ℕ, Kept m₀ x.1 ∧ Near B i False x.1 (syncGhost none .idle .idle x.2) m v

/-- A result other than `0` promises nothing. -/
theorem settled_failed {P : Worker → View → ℕ → Prop} :
    B.Triple i P (pure (-1 : ℤ)) (fun rc m v _ => Settled B i m₀ rc m v) :=
  Setup.Triple.pure fun _ _ _ _ h => absurd h (by decide)

/-- The lane goes back when nothing of the send is under way. -/
theorem releaseSync_spec :
    B.Triple i (fun m v _ => Near B i False m₀ (syncGhost (some l) .idle .idle k) m v)
      (releaseSendLane .sync (some l))
      (fun _ m v _ => Near B i False m₀ (syncGhost none .idle .idle k) m v) := by
  refine (releaseSendLane_spec (g := syncGhost (some l) .idle .idle k) (σ := .sync) rfl
    fun ρ _ => syncGhost_idle ρ).post fun _ m v n _ h => ?_
  rwa [syncGhost_setLane] at h

/-- The wait for the first half. -/
theorem waitFirst_spec (hB : B.Sound) (timeoutMs : ℤ) :
    B.Triple i (fun m v _ => Near B i False m₀ (syncGhost (some l) (.posted t) b k) m v)
      (waitEvent t timeoutMs)
      (fun ok m v _ => Near B i False m₀
        (syncGhost (some l) (if ok then .idle else .lost t) b k) m v) := by
  refine (waitEvent_spec (ρ := .sync 0) hB rfl timeoutMs).post ?_
  rintro ok m v n - (⟨rfl, h, -⟩ | ⟨rfl, h, -⟩)
  · rwa [syncGhost_setTok_zero] at h
  · rwa [syncGhost_setTok_zero] at h

/-- The wait for the second half. -/
theorem waitSecond_spec (hB : B.Sound) (timeoutMs : ℤ) :
    B.Triple i (fun m v _ => Near B i False m₀ (syncGhost (some l) a (.posted t) k) m v)
      (waitEvent t timeoutMs)
      (fun ok m v _ => Near B i False m₀
        (syncGhost (some l) a (if ok then .idle else .lost t) k) m v) := by
  refine (waitEvent_spec (ρ := .sync 1) hB rfl timeoutMs).post ?_
  rintro ok m v n - (⟨rfl, h, -⟩ | ⟨rfl, h, -⟩)
  · rwa [syncGhost_setTok_one] at h
  · rwa [syncGhost_setTok_one] at h

/-- A token that was not posted is given up. -/
theorem abortFirst_spec (hB : B.Sound) :
    B.Triple i (fun m v _ => Near B i False m₀ (syncGhost (some l) (.fresh t) b k) m v)
      (abortEvent t)
      (fun _ m v _ => Near B i False m₀ (syncGhost (some l) .idle b k) m v) := by
  refine (abortEvent_fresh (g := syncGhost (some l) (.fresh t) b k) (ρ := .sync 0) hB rfl).post
    fun _ m v n _ h => ?_
  rwa [syncGhost_setTok_zero] at h

theorem abortSecond_spec (hB : B.Sound) :
    B.Triple i (fun m v _ => Near B i False m₀ (syncGhost (some l) a (.fresh t) k) m v)
      (abortEvent t)
      (fun _ m v _ => Near B i False m₀ (syncGhost (some l) a .idle k) m v) := by
  refine (abortEvent_fresh (g := syncGhost (some l) a (.fresh t) k) (ρ := .sync 1) hB rfl).post
    fun _ m v n _ h => ?_
  rwa [syncGhost_setTok_one] at h

variable (ctx : Context)

theorem awaitBoth_spec (hB : B.Sound) (hk : Kept m₀ m₁) (postA postB : ℕ) (srcA srcB dst : ℤ) :
    B.Triple i (fun m v _ => Near B i False m₁ (syncGhost (some l) (.posted ta) (.posted tb) k) m v)
      (awaitBoth ctx l ta tb postA postB srcA srcB dst)
      (fun rc m v _ => Settled B i m₀ rc m v) := by
  have hsay : ∀ {g : Ghost} {m : Worker} {line : Message} {x : Unit → Code ℤ}, line.Calm →
      B.Triple i (fun m' v _ => Near B i False m g m' v) (x ())
        (fun rc m v _ => Settled B i m₀ rc m v) →
      B.Triple i (fun m' v _ => Near B i False m g m' v) (say line >>= x)
        (fun rc m v _ => Settled B i m₀ rc m v) := fun hline hx => Near.say_bind (.inl hline) hx
  unfold awaitBoth
  refine Setup.Triple.bind (waitFirst_spec hB _) fun okA => ?_
  cases okA with
  | false =>
    refine Setup.Triple.bind (waitSecond_spec hB _) fun okB => ?_
    cases okB with
    | false => exact hsay trivial (hsay trivial (hsay trivial settled_failed))
    | true =>
      exact Near.now_bind fun t => Near.modify_bind (fun _ _ _ => rfl) <|
        hsay trivial (hsay trivial settled_failed)
  | true =>
    refine Near.now_bind fun t => Near.modify_bind (fun _ _ _ => rfl) ?_
    refine Setup.Triple.bind (waitSecond_spec hB _) fun okB => ?_
    cases okB with
    | false => exact hsay trivial (hsay trivial settled_failed)
    | true =>
      refine Near.now_bind fun t' => Near.modify_bind (fun _ _ _ => rfl) ?_
      refine Setup.Triple.bind releaseSync_spec fun _ => ?_
      refine Setup.Triple.bind (count_spec (Near.steady _ _ _) _) fun _ => ?_
      exact Setup.Triple.pure fun m v n h _ => ⟨(_, k), (hk.recordWr _).recordWr _, h⟩

theorem awaitFirst_spec (hB : B.Sound) (postA : ℕ) :
    B.Triple i (fun m v _ => Near B i False m₁ (syncGhost (some l) (.posted ta) (.fresh tb) k) m v)
      (awaitFirst ctx l ta tb postA) (fun rc m v _ => Settled B i m₀ rc m v) := by
  unfold awaitFirst
  refine Near.say_bind (.inl trivial) (Setup.Triple.bind (abortSecond_spec hB) fun _ => ?_)
  refine Setup.Triple.bind (waitFirst_spec hB _) fun ok => ?_
  cases ok with
  | false => exact Near.say_bind (.inl trivial) settled_failed
  | true =>
    refine Near.now_bind fun t => Near.modify_bind (fun _ _ _ => rfl) ?_
    exact Setup.Triple.bind releaseSync_spec fun _ => settled_failed

/-- The work requests a round posts with the offset `off` satisfy what is asked of them. -/
def Round.Covers (ctx : Context) (B : Setup) (off : ℕ) : Prop :=
  ∀ (half : ℕ) (r : Wr), r.remoteAddr =
      (ctx.remoteSegVa + off % (serverDataWindow * (ctx.args.valueSize % 2 ^ 32))) % 2 ^ 64 →
    r.len = ctx.args.valueSize % 2 ^ 32 → B.good (.sync half) r

/-- The post of one half, given what the post itself does to the ghost state. -/
theorem postHalf_spec {g : Ghost} (g' : Ghost) (hB : B.Sound) {half : ℕ}
    (ht : g.tok (.sync half) = .fresh t) (hl : g.lane .sync = some l)
    (hg : { g.setTok (.sync half) (.posted t) with posts := g.posts + 1 } = g')
    (hfirst : half = 0 → ∀ ρ t', g.tok ρ ≠ .posted t' ∧ g.tok ρ ≠ .lost t')
    {off ue : ℕ} (hoff : Round.Covers ctx B off) (hue : ue = userCtxOf i t) (src dst : ℤ)
    (hk : Kept m₀ m₁) :
    B.Triple i (fun m v _ => Near B i False m₁ g m v) (postHalf ctx half l off src dst ue)
      (fun r m v _ => ∃ m₂, Kept m₀ m₂ ∧ Near B i False m₂ (if r.1 then g' else g) m v) := by
  unfold postHalf
  refine Near.now_bind fun t₀ => Near.now_bind fun t₁ => ?_
  have hfirst' : (WrId.sync half).first = true → ∀ ρ, ρ.req = (WrId.sync half).req → ∀ t',
      g.tok ρ ≠ .posted t' ∧ g.tok ρ ≠ .lost t' := by
    intro hf ρ _
    exact hfirst (of_decide_eq_true hf) ρ
  refine Setup.Triple.bind (postRw_spec hB ht hl hue hfirst' (hoff half _ rfl ?_)) fun ok => ?_
  · simp
  have hrest : B.Triple i (fun m v _ => Near B i False m₁ (if ok then g' else g) m v)
      (now >>= fun t₂ => modify (recordPost (sub64 t₂ t₁)) >>= fun _ => pure (ok, t₀))
      (fun r m v _ => ∃ m₂, Kept m₀ m₂ ∧ Near B i False m₂ (if r.1 then g' else g) m v) := by
    refine Near.now_bind fun t₂ => Near.modify_bind (fun _ _ _ => rfl) ?_
    exact Setup.Triple.pure fun m v n h => ⟨_, hk.recordPost _, h⟩
  refine hrest.pre ?_
  rintro m v n - (⟨rfl, h⟩ | ⟨rfl, h, -⟩)
  · rw [if_pos rfl, ← hg]
    exact h
  · exact h

theorem postBoth_spec (hB : B.Sound) {ua ub : ℕ} (hua : ua = userCtxOf i ta)
    (hub : ub = userCtxOf i tb) (hA : Round.Covers ctx B m₀.off)
    (hC : Round.Covers ctx B ((m₀.off + ctx.args.valueSize % 2 ^ 32) % 2 ^ 64)) (srcA srcB dst : ℤ) :
    B.Triple i (fun m v _ => Near B i False m₀ (syncGhost (some l) (.fresh ta) (.fresh tb) k) m v)
      (postBoth ctx l ua ta ub tb srcA srcB dst) (fun rc m v _ => Settled B i m₀ rc m v) := by
  have hfresh : ∀ ρ t', (syncGhost (some l) (.fresh ta) (.fresh tb) k).tok ρ ≠ .posted t' ∧
      (syncGhost (some l) (.fresh ta) (.fresh tb) k).tok ρ ≠ .lost t' :=
    fun ρ t' => syncGhost_tok _ _ _ _ (P := fun x => x ≠ .posted t' ∧ x ≠ .lost t')
      (by simp) (by simp) (by simp) ρ
  unfold postBoth
  refine Near.get_bind fun ev look => ?_
  refine Setup.Triple.bind (postHalf_spec ctx (syncGhost (some l) (.posted ta) (.fresh tb) (k + 1)) hB
    rfl rfl ?_ (fun _ => hfresh) hA hua srcA dst ⟨rfl, rfl, rfl⟩)
    fun ⟨okA, postA⟩ => Setup.Triple.of_exists fun m₁ hm₁ => ?_
  · rw [syncGhost_setTok_zero]
    rfl
  cases okA with
  | false =>
    refine Near.say_bind (.inl trivial) (Setup.Triple.bind (abortFirst_spec hB) fun _ => ?_)
    refine Setup.Triple.bind (abortSecond_spec hB) fun _ => ?_
    exact Setup.Triple.bind releaseSync_spec fun _ => settled_failed
  | true =>
    refine Setup.Triple.bind (postHalf_spec ctx
      (syncGhost (some l) (.posted ta) (.posted tb) (k + 1 + 1)) hB rfl rfl ?_
      (fun h => absurd h (by decide)) hC hub srcB dst hm₁)
      fun ⟨okB, postB⟩ => Setup.Triple.of_exists fun m₂ hm₂ => ?_
    · rw [if_pos rfl, syncGhost_setTok_one]
      rfl
    cases okB with
    | false => exact awaitFirst_spec ctx hB postA
    | true => exact awaitBoth_spec ctx hB hm₂ postA postB srcA srcB dst

/-- A lane and the tokens a round needs are taken one after the other. -/
theorem acquireSync_spec (hB : B.Sound) (hno : ¬ B.roomy) :
    B.Triple i (fun m v _ => Near B i False m₀ (syncGhost none .idle .idle k) m v)
      (acquireSendLane .sync)
      (fun r m v _ => Near B i False m₀ (syncGhost r .idle .idle k) m v) := by
  refine (acquireSendLane_spec hB rfl (fun h => absurd h hno) fun h => absurd h hno).post ?_
  rintro r m v n - (⟨rfl, h, -⟩ | ⟨l, rfl, h⟩)
  · exact h
  · rwa [syncGhost_setLane] at h

theorem tokenFirst_spec (hB : B.Sound) (hid : m₀.id = i) (hb : ∀ t', b ≠ .lost t') :
    B.Triple i (fun m v _ => Near B i False m₀ (syncGhost (some l) .idle b k) m v) postEvent
      (fun r m v _ => (r.1 = 0 ∧ B.taken ≠ [] ∧
          Near B i False m₀ (syncGhost (some l) .idle b k) m v) ∨
        ((r.1 ≠ 0 ∧ r.1 = userCtxOf i r.2) ∧
          Near B i False m₀ (syncGhost (some l) (.fresh r.2) b k) m v)) := by
  refine (postEvent_spec (ρ := .sync 0) hB hid rfl (show _ < 2 by decide) ?_).post ?_
  · exact fun ρ t' => syncGhost_tok _ _ _ _ (P := (· ≠ .lost t')) (by simp) (hb t') (by simp) ρ
  rintro r m v n - (h | ⟨hne, hr, h⟩)
  · exact .inl h
  · rw [syncGhost_setTok_zero] at h
    exact .inr ⟨⟨hne, hr⟩, h⟩

theorem tokenSecond_spec (hB : B.Sound) (hid : m₀.id = i) (ha : ∀ t', a ≠ .lost t') :
    B.Triple i (fun m v _ => Near B i False m₀ (syncGhost (some l) a .idle k) m v) postEvent
      (fun r m v _ => (r.1 = 0 ∧ B.taken ≠ [] ∧
          Near B i False m₀ (syncGhost (some l) a .idle k) m v) ∨
        ((r.1 ≠ 0 ∧ r.1 = userCtxOf i r.2) ∧
          Near B i False m₀ (syncGhost (some l) a (.fresh r.2) k) m v)) := by
  refine (postEvent_spec (ρ := .sync 1) hB hid rfl (show _ < 2 by decide) ?_).post ?_
  · exact fun ρ t' => syncGhost_tok _ _ _ _ (P := (· ≠ .lost t')) (ha t') (by simp) (by simp) ρ
  rintro r m v n - (h | ⟨hne, hr, h⟩)
  · exact .inl h
  · rw [syncGhost_setTok_one] at h
    exact .inr ⟨⟨hne, hr⟩, h⟩

/-- The two outcomes of `PostEvent` in a round. -/
theorem token_cases {P P' : Worker → View → Prop} {R : ℤ → Worker → View → ℕ → Prop} {u t : ℕ}
    {x y : Code ℤ}
    (hx : B.taken ≠ [] → B.Triple i (fun m v _ => P m v) x R)
    (hy : u = userCtxOf i t → B.Triple i (fun m v _ => P' m v) y R) :
    B.Triple i (fun m v _ => (u = 0 ∧ B.taken ≠ [] ∧ P m v) ∨
        ((u ≠ 0 ∧ u = userCtxOf i t) ∧ P' m v)) (if u = 0 then x else y) R := by
  refine Setup.Triple.ite (fun hu => ?_) fun hu => ?_
  · refine Setup.Triple.of_fact (p := B.taken ≠ []) ?_ fun htaken => (hx htaken).pre ?_
    · rintro m v n - (⟨-, h, -⟩ | ⟨⟨h, -⟩, -⟩)
      · exact h
      · exact absurd hu h
    · rintro m v n - (⟨-, -, h⟩ | ⟨⟨h, -⟩, -⟩)
      · exact h
      · exact absurd hu h
  · refine Setup.Triple.of_fact (p := u = userCtxOf i t) ?_ fun hctx => (hy hctx).pre ?_
    · rintro m v n - (⟨h, -⟩ | ⟨⟨-, h⟩, -⟩)
      · exact absurd h hu
      · exact h
    · rintro m v n - (⟨h, -⟩ | ⟨-, h⟩)
      · exact absurd h hu
      · exact h

theorem clientDoWrite_spec (hB : B.Sound) (hno : ¬ B.roomy) (hid : m₀.id = i)
    (hA : Round.Covers ctx B m₀.off)
    (hC : Round.Covers ctx B ((m₀.off + ctx.args.valueSize % 2 ^ 32) % 2 ^ 64)) (srcA srcB dst : ℤ) :
    B.Triple i (fun m v _ => Near B i False m₀ (syncGhost none .idle .idle k) m v)
      (clientDoWrite ctx srcA srcB dst) (fun rc m v _ => Settled B i m₀ rc m v) := by
  unfold clientDoWrite
  refine Setup.Triple.bind (acquireSync_spec hB hno) fun r => ?_
  cases r with
  | none => exact Near.say_bind (.inl trivial) settled_failed
  | some l =>
    refine Setup.Triple.bind (tokenFirst_spec hB hid (by simp)) fun ⟨ua, ta⟩ => ?_
    refine token_cases (fun htaken => ?_) fun hua => ?_
    · exact Near.say_bind (.inr htaken) (Setup.Triple.bind releaseSync_spec fun _ => settled_failed)
    refine Setup.Triple.bind (tokenSecond_spec hB hid (by simp)) fun ⟨ub, tb⟩ => ?_
    refine token_cases (fun htaken => ?_) fun hub => ?_
    · exact Near.say_bind (.inr htaken) (Setup.Triple.bind (abortFirst_spec hB) fun _ =>
        Setup.Triple.bind releaseSync_spec fun _ => settled_failed)
    · exact postBoth_spec ctx hB hua hub hA hC srcA srcB dst

theorem readOne_spec (hB : B.Sound) {ue : ℕ} (hue : ue = userCtxOf i t)
    (hA : Round.Covers ctx B (m₀.off %
      (ctx.args.threads * dataWindowPerThread * (ctx.args.valueSize % 2 ^ 32) % 2 ^ 64)))
    (src dst : ℤ) :
    B.Triple i (fun m v _ => Near B i False m₀ (syncGhost (some l) (.fresh t) .idle k) m v)
      (readOne ctx l ue t src dst) (fun rc m v _ => Settled B i m₀ rc m v) := by
  unfold readOne
  refine Near.get_bind fun ev look => Near.now_bind fun postNs => ?_
  have hfirst : (WrId.sync 0).first = true → ∀ ρ, ρ.req = (WrId.sync 0).req → ∀ t',
      (syncGhost (some l) (.fresh t) .idle k).tok ρ ≠ .posted t' ∧
        (syncGhost (some l) (.fresh t) .idle k).tok ρ ≠ .lost t' :=
    fun _ ρ _ t' => syncGhost_tok _ _ _ _ (P := fun x => x ≠ .posted t' ∧ x ≠ .lost t')
      (by simp) (by simp) (by simp) ρ
  refine Setup.Triple.bind (postRw_spec hB rfl rfl hue hfirst (hA 0 _ rfl ?_)) fun ok => ?_
  · simp
  cases ok with
  | true =>
    refine Setup.Triple.pre (P := fun m v _ => Near B i False m₀
      (syncGhost (some l) (.posted t) .idle (k + 1)) m v)
      (Setup.Triple.bind (waitFirst_spec hB _) fun ok => ?_) ?_
    · cases ok with
      | false => exact Near.say_bind (.inl trivial) settled_failed
      | true =>
        refine Near.now_bind fun t' => Near.modify_bind (fun _ _ _ => rfl) ?_
        refine Setup.Triple.bind releaseSync_spec fun _ => ?_
        refine Setup.Triple.bind (count_spec (Near.steady _ _ _) _) fun _ => ?_
        exact Setup.Triple.pure fun m v n h _ => ⟨(recordWr _ m₀, k + 1), ⟨rfl, rfl, rfl⟩, h⟩
    · rintro m v n - (⟨-, h⟩ | ⟨hf, -⟩)
      · rwa [syncGhost_setTok_zero] at h
      · cases hf
  | false =>
    refine Setup.Triple.pre (P := fun m v _ => Near B i False m₀
      (syncGhost (some l) (.fresh t) .idle k) m v)
      (Near.say_bind (.inl trivial) (Setup.Triple.bind (abortFirst_spec hB) fun _ =>
        Setup.Triple.bind releaseSync_spec fun _ => settled_failed)) ?_
    rintro m v n - (⟨hf, -⟩ | ⟨-, h, -⟩)
    · cases hf
    · exact h

theorem clientDoGet_spec (hB : B.Sound) (hno : ¬ B.roomy) (hid : m₀.id = i)
    (hA : Round.Covers ctx B (m₀.off %
      (ctx.args.threads * dataWindowPerThread * (ctx.args.valueSize % 2 ^ 32) % 2 ^ 64)))
    (src dst : ℤ) :
    B.Triple i (fun m v _ => Near B i False m₀ (syncGhost none .idle .idle k) m v)
      (clientDoGet ctx src dst) (fun rc m v _ => Settled B i m₀ rc m v) := by
  unfold clientDoGet
  refine Setup.Triple.bind (acquireSync_spec hB hno) fun r => ?_
  cases r with
  | none => exact Near.say_bind (.inl trivial) settled_failed
  | some l =>
    refine Setup.Triple.bind (tokenFirst_spec hB hid (by simp)) fun ⟨ue, t⟩ => ?_
    refine token_cases (fun htaken => ?_) fun hue => ?_
    · exact Near.say_bind (.inr htaken) (Setup.Triple.bind releaseSync_spec fun _ => settled_failed)
    · exact readOne_spec ctx hB hue hA src dst

end Round

/-! ### All rounds -/

/-- What is assumed of the rounds in the setting `B`. -/
structure Round.Fits (ctx : Context) (B : Setup) (Off : ℕ → Prop) : Prop where
  tight : ¬ B.roomy
  start : ∀ w < B.n, Off (w * dataWindowPerThread * ctx.args.valueSize % 2 ^ 64)
  next : ctx.args.fixedOffset = false → ∀ off, Off off →
    Off ((off + roundBytes ctx.args) % 2 ^ 64 % offWindow ctx.args)
  first : 0 < ctx.args.mixedRatio → ∀ off, Off off → Round.Covers ctx B off
  second : 0 < ctx.args.mixedRatio → ∀ off, Off off →
    Round.Covers ctx B ((off + ctx.args.valueSize % 2 ^ 32) % 2 ^ 64)
  read : ∀ off, Off off → Round.Covers ctx B
    (off % (ctx.args.threads * dataWindowPerThread * (ctx.args.valueSize % 2 ^ 32) % 2 ^ 64))

section Rounds

variable {B : Setup} {i : Fin B.n} {m₀ : Worker} {k : ℕ} {ctx : Context} {Off : ℕ → Prop}

variable (B i) in
/-- Between two rounds. -/
def Resting (Off : ℕ → Prop) (m : Worker) (v : View) : Prop :=
  ∃ x : Worker × ℕ, (x.1.id = i ∧ x.1.nextPostNs < 2 ^ 64 ∧ Off x.1.off) ∧
    Near B i False x.1 (syncGhost none .idle .idle x.2) m v

theorem Resting.steady (Off : ℕ → Prop) (m : Worker) : B.Steady i (Resting B i Off m) :=
  Setup.Steady.exists fun _ => (Setup.Steady.const _).and (Near.steady _ _ _ m)

theorem chooseRoundChips_spec :
    B.Triple i (fun m v _ => Near B i False m₀ (syncGhost none .idle .idle k) m v)
      (chooseRoundChips ctx)
      (fun _ m v _ => ∃ r : ℕ × ℕ, Near B i False { m₀ with rng := r.1, reads := r.2 }
        (syncGhost none .idle .idle k) m v) := by
  unfold chooseRoundChips
  refine Setup.Triple.get_bind fun m₁ => ?_
  dsimp only
  refine Setup.Triple.set_bind (fun m v _ => ∃ r : ℕ × ℕ,
    Near B i False { m₀ with rng := r.1, reads := r.2 } (syncGhost none .idle .idle k) m v) ?_ ?_
  · rintro m v n ⟨rfl, ⟨ev, look, rfl⟩, hcore⟩
    exact ⟨(_, m₀.reads + 1), ⟨ev, look, rfl⟩, hcore⟩
  · exact Setup.Triple.ite (fun _ => Setup.Triple.pure fun m v n h => h) fun _ =>
      Setup.Triple.pure fun m v n h => h

theorem roundOp_spec (hB : B.Sound) (hf : Round.Fits ctx B Off) (hid : m₀.id = i)
    (hoff : Off m₀.off) (srcA srcB dst : ℤ) :
    B.Triple i (fun m v _ => Near B i False m₀ (syncGhost none .idle .idle k) m v)
      (roundOp ctx srcA srcB dst) (fun rc m v _ => Settled B i m₀ rc m v) := by
  unfold roundOp
  refine Setup.Triple.ite (fun _ => ?_) fun _ => ?_
  · exact clientDoGet_spec ctx hB hf.tight hid (hf.read _ hoff) srcA dst
  · refine Near.modify_bind (fun _ _ _ => rfl) ?_
    -- the random state is not among what a round keeps
    have hkeep : ∀ r rc m v, Settled B i { m₀ with rng := r } rc m v → Settled B i m₀ rc m v := by
      rintro r rc m v h rfl
      obtain ⟨x, hx, hn⟩ := h rfl
      exact ⟨x, ⟨hx.id, hx.off, hx.next⟩, hn⟩
    have hid : ({ m₀ with rng := rngNext m₀.rng } : Worker).id = i := hid
    refine Near.get_bind fun ev look => Setup.Triple.ite (fun hlt => ?_) fun _ => ?_
    · have hratio : 0 < ctx.args.mixedRatio := Nat.zero_lt_of_lt hlt
      exact (clientDoWrite_spec ctx hB hf.tight hid (hf.first hratio _ hoff) (hf.second hratio _ hoff)
        srcA srcB dst).post fun rc m v n _ => hkeep _ rc m v
    · exact (clientDoGet_spec ctx hB hf.tight hid (hf.read _ hoff) srcA dst).post
        fun rc m v n _ => hkeep _ rc m v

theorem countError_spec {P : Worker → View → ℕ → Prop} :
    B.Triple i P (countError ctx) (fun _ _ _ _ => True) := by
  have hany : ∀ m : Worker, B.Steady i (fun _ => True) := fun _ => .const _
  unfold countError raiseFatal
  refine Setup.Triple.modify_bind (fun _ _ _ => True) (fun _ _ _ _ => trivial) ?_
  refine Setup.Triple.bind (loadFatal_spec hany) fun fatal => ?_
  refine Setup.Triple.ite (fun _ => Setup.Triple.pure fun _ _ _ _ => trivial) fun _ => ?_
  refine Setup.Triple.bind (setFatal_spec hany) fun _ => ?_
  exact Setup.Triple.get_bind fun m₁ =>
    (say_spec hany (.inl (show Message.Calm (.fatal _ _) from trivial))).pre
      fun _ _ _ _ _ => trivial

theorem timedRound_spec (hB : B.Sound) (hf : Round.Fits ctx B Off) (hid : m₀.id = i)
    (hoff : Off m₀.off) :
    B.Triple i (fun m v _ => Near B i False m₀ (syncGhost none .idle .idle k) m v) (timedRound ctx)
      (Sum.elim (fun _ m v _ => Resting B i Off m v) fun _ _ _ _ => True) := by
  unfold timedRound
  refine Setup.Triple.bind chooseRoundChips_spec fun ⟨srcA, srcB, dst⟩ => ?_
  refine Setup.Triple.of_some fun r => Near.now_bind fun t₀ => ?_
  have hid : ({ m₀ with rng := r.1, reads := r.2 } : Worker).id = i := hid
  refine Setup.Triple.bind (roundOp_spec hB hf hid hoff srcA srcB dst) fun rc => ?_
  by_cases hrc : rc = 0
  · refine Setup.Triple.pre (Setup.Triple.of_exists fun ⟨m₂, k'⟩ hm₂ => ?_) fun m v n _ h => h hrc
    refine Near.now_bind fun t₁ => ?_
    rw [if_pos hrc]
    refine Near.modify_bind (fun _ _ _ => rfl) (Setup.Triple.pure fun m v n h => ?_)
    refine ⟨(_, k'), ?_, h⟩
    refine ⟨hm₂.id.trans hid, Nat.mod_lt _ (Nat.two_pow_pos 64), ?_⟩
    have hoff₂ : Off m₂.off := by
      rw [hm₂.off]
      exact hoff
    dsimp only
    split
    · exact hoff₂
    · rename_i hmoves
      exact hf.next (Bool.eq_false_of_not_eq_true hmoves) _ hoff₂
  · have hany : ∀ m : Worker, B.Steady i (fun _ => True) := fun _ => .const _
    refine Setup.Triple.bind ((now_any hany).pre fun _ _ _ _ _ => trivial) fun t₁ => ?_
    rw [if_neg hrc]
    exact countError_spec.bind fun _ => Setup.Triple.pure fun _ _ _ _ => trivial

/-- One round of the loop, until the time is over or the round fails. -/
theorem syncRound_spec (hB : B.Sound) (hf : Round.Fits ctx B Off) {deadline k₀ : ℕ}
    (hk₀ : ∀ k ≥ k₀, deadline ≤ B.pace.floor k) (n₀ : ℕ) :
    B.Triple i (fun m v n => Resting B i Off m v ∧ n₀ ≤ n) (syncRound ctx deadline ())
      (Sum.elim (fun _ m v n => Resting B i Off m v ∧ n₀ < n ∧ n₀ < k₀) fun _ _ _ _ => True) := by
  unfold syncRound
  refine Setup.Triple.bind (keepsRunning_spec (Resting.steady Off) hk₀ n₀) fun b => ?_
  refine Setup.Triple.ite (fun hb => ?_) fun _ => Setup.Triple.pure fun _ _ _ _ => trivial
  refine Setup.Triple.of_fact (p := n₀ < k₀) (fun m v n _ h => (h.2 hb).2) fun hlt => ?_
  refine Setup.Triple.pre (P := fun m v n => Resting B i Off m v ∧ n₀ + 1 ≤ n) ?_
    fun m v n _ h => ⟨h.1, (h.2 hb).1⟩
  refine Setup.Triple.post ((?_ : B.Triple i (fun m v _ => Resting B i Off m v) _
    (Sum.elim (fun _ m v _ => Resting B i Off m v) fun _ _ _ _ => True)).timed (n₀ + 1)) ?_
  · refine Setup.Triple.bind (now_any (Resting.steady Off)) fun t => ?_
    refine Setup.Triple.of_exists fun ⟨m₁, k⟩ ⟨hid, hnext, hoff⟩ => Near.get_bind fun ev look => ?_
    exact Setup.Triple.when_bind (fun _ => waitUntil_spec hB (Near.steady _ _ _) hnext t)
      (fun _ m v n _ h => h) (timedRound_spec hB hf hid hoff)
  · rintro (_ | _) m v n - ⟨h, hn⟩
    · exact ⟨h, hn, hlt⟩
    · trivial

/-- **The loop of mixed mode** ends, and keeps to the discipline until then. -/
theorem syncLoop_spec (hB : B.Sound) (hf : Round.Fits ctx B Off) {deadline : ℕ}
    (hdl : deadline < 2 ^ 64) :
    B.Triple i (fun m v _ => Resting B i Off m v) (Proc.loop (syncRound ctx deadline) ())
      (fun _ _ _ _ => True) := by
  obtain ⟨k₀, hk₀⟩ := hB.live.floor deadline hdl
  refine Setup.Triple.loop (fun _ m v _ => Resting B i Off m v) (fun _ _ n => k₀ - n)
    (fun _ m₀ n₀ => ?_) ()
  refine (syncRound_spec hB hf hk₀ n₀).conseq (fun m v n _ h => ⟨h.2.2, h.2.1.ge⟩) ?_
  rintro (_ | _) m v n - h
  · obtain ⟨hrest, hn, hlt⟩ := h
    refine ⟨hrest, ?_⟩
    omega
  · trivial

end Rounds

end KvBench.Bench
