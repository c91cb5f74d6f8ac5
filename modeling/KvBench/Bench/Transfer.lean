import KvBench.Bench.Filing

/-!
# Bytes and transfers

`w->bytes` grows by a constant for every operation that is counted. `transfer_accounts` compares it
with what the work requests of these operations moved. For the requests of the pipelines and for the
writes of mixed mode the two agree, whatever happens in the run. A read of mixed mode is counted with
`2 * value_size` bytes, but has one work request of `value_size`.
-/

namespace KvBench.Bench

open KvBench.Conc KvBench.Events KvBench.Hist
open Worker (recordWr)

/-! ### Synchronous rounds -/

/-- A synchronous round that started with the sheet `h` has returned `rc`: it has counted an operation
exactly when `rc` is `0`. -/
def Rounded (v : ℕ) (h : Sheet) (rc : ℤ) (h' : Sheet) : Prop :=
  rc = 0 ∧ (∃ ws, h'.tally = ws :: h.tally ∧ charged v ws = 2 * v) ∨ rc ≠ 0 ∧ h'.tally = h.tally

section Sync

variable {lost : Prop} {h₀ h h' : Sheet} {F : Face} {id id' : WrId} {t t' n v : ℕ} {r : Wr}
  {ctx : Context}

theorem Sheet.Open.waited_true (ho : h.Open lost id t n) (hw : Waited t' h true h') :
    h'.Open lost id t n := by
  cases hw with
  | landed _ => exact ho.settle (.inl rfl) t'

theorem Sheet.open_post (h : Sheet) (id : WrId) (r : Wr) :
    (h.post id r).Open False id r.token r.len := by
  refine ⟨⟨id, r, .pending⟩, ?_, ⟨rfl, rfl⟩, .inr (.inl rfl)⟩
  show List.find? _ (_ :: h.posted) = _
  simp

theorem Sheet.Open.post_of_ne (ho : h.Open False id t n) (hid : id' ≠ id) :
    (h.post id' r).Open False id t n := by
  obtain ⟨q, hq, hwr, hfate⟩ := ho
  refine ⟨q, ?_, hwr, hfate.imp_right (Or.imp_right fun hno => hno.1.elim)⟩
  show List.find? _ (⟨id', r, .pending⟩ :: h.posted) = _
  rw [List.find?_cons, decide_eq_false hid]
  exact hq

theorem Dropped.tally (hd : Dropped t h h') : h'.tally = h.tally := by
  cases hd <;> rfl

/-- A round that fails leaves the operations alone. -/
theorem release_failed_acts (l : Lane) (htally : h.tally = h₀.tally) :
    Acts F h (do
      releaseSendLane .sync (some l)
      pure (-1)) fun rc F' h' => F' = F ∧ Rounded v h₀ rc h' := by
  refine Acts.same_bind (releaseSendLane_acts _ _) ?_
  rintro _ _ rfl
  exact Runs.pure ⟨rfl, .inr ⟨by decide, htally⟩⟩

/-- The end of a round all of whose work requests have landed. -/
theorem count_rounded {ids : List WrId} (hall : ∀ id ∈ ids, h.Landed id v)
    (hids : ids.length = 1 ∨ ids.length = 2) (htally : h.tally = h₀.tally) :
    Acts F h (do
      count ids
      pure 0) fun rc F' h' => F' = F ∧ Rounded v h₀ rc h' := by
  refine Acts.same_bind (count_acts _) ?_
  rintro _ _ rfl
  refine Runs.pure ⟨rfl, .inl ⟨rfl, landedOf ids h.posted, ?_, ?_⟩⟩
  · rw [← htally]
    rfl
  · rw [charged_landedOf hall]
    rcases hids with h1 | h2
    · rw [h1, if_pos rfl]
      ring
    · rw [h2, if_neg (by decide)]
      rfl

theorem awaitBoth_acts (jetty : Lane) {tokenA tokenB : ℕ} (postA postB : ℕ) (srcA srcB dst : ℤ)
    (hA : h.Open False (.sync 0) tokenA v) (hB : h.Open False (.sync 1) tokenB v)
    (htally : h.tally = h₀.tally) :
    Acts F h (awaitBoth ctx jetty tokenA tokenB postA postB srcA srcB dst) fun rc F' h' =>
      F' = F ∧ Rounded v h₀ rc h' := by
  have hclose : ∀ (okA okB : Bool) (h : Sheet), h.tally = h₀.tally →
      (okA = true → okB = true → h.Landed (.sync 0) v ∧ h.Landed (.sync 1) v) → Acts F h (do
      if okA && okB then do
        releaseSendLane .sync (some jetty)
        count [.sync 0, .sync 1]
      else say (.syncQuarantined .write)
      pure (if okA && okB then (0 : ℤ) else -1)) fun rc F' h' => F' = F ∧ Rounded v h₀ rc h' := by
    intro okA okB h htally hlanded
    refine Runs.ite (fun hok => ?_) fun hok => ?_
    · obtain ⟨hokA, hokB⟩ := Bool.and_eq_true_iff.1 hok
      obtain ⟨h0, h1⟩ := hlanded hokA hokB
      refine Acts.same_bind (releaseSendLane_acts _ _) ?_
      rintro _ _ rfl
      rw [if_pos hok]
      refine count_rounded (h := h.giveBack jetty) (fun id hid => ?_) (.inr rfl) htally
      simp only [List.mem_cons, List.not_mem_nil, or_false] at hid
      rcases hid with rfl | rfl
      · exact h0
      · exact h1
    · refine Acts.say_bind (Runs.pure ⟨rfl, .inr ⟨?_, htally⟩⟩)
      rw [if_neg hok]
      decide
  have hreport : ∀ (okA okB : Bool) (h : Sheet), h.tally = h₀.tally →
      (okA = true → okB = true → h.Landed (.sync 0) v ∧ h.Landed (.sync 1) v) → Acts F h (do
      if okA then pure () else say (.syncWaitFailed 0 tokenA srcA dst)
      if okB then pure () else say (.syncWaitFailed 1 tokenB srcB dst)
      if okA && okB then do
        releaseSendLane .sync (some jetty)
        count [.sync 0, .sync 1]
      else say (.syncQuarantined .write)
      pure (if okA && okB then (0 : ℤ) else -1)) fun rc F' h' => F' = F ∧ Rounded v h₀ rc h' := by
    intro okA okB h htally hlanded
    have hlast := hclose okA okB h htally hlanded
    have hsaid := @Acts.say_bind _ F h _ (.syncWaitFailed 1 tokenB srcB dst) (fun _ => _) hlast
    have hsecond := Runs.ite (p := okB = true) (fun _ => hlast) fun _ => hsaid
    exact Runs.ite (fun _ => hsecond) fun _ => Acts.say_bind hsecond
  have hwaitB : ∀ (okA : Bool) (h : Sheet), h.tally = h₀.tally →
      (okA = true → h.Landed (.sync 0) v ∧ h.Open False (.sync 1) tokenB v) → Acts F h (do
      let okB ← waitEvent tokenB ctx.args.timeoutMs
      if okB then do
        let t ← now
        modify (recordWr (sub64 t postB))
      else pure ()
      if okA then pure () else say (.syncWaitFailed 0 tokenA srcA dst)
      if okB then pure () else say (.syncWaitFailed 1 tokenB srcB dst)
      if okA && okB then do
        releaseSendLane .sync (some jetty)
        count [.sync 0, .sync 1]
      else say (.syncQuarantined .write)
      pure (if okA && okB then (0 : ℤ) else -1)) fun rc F' h' => F' = F ∧ Rounded v h₀ rc h' := by
    intro okA h htally hknown
    refine Acts.same_bind (waitEvent_acts hB.small _) fun okB h' hw => ?_
    have hrest := hreport okA okB h' (hw.tally.trans htally) fun hokA hokB => by
      obtain ⟨h0, h1⟩ := hknown hokA
      subst hokB
      exact ⟨h0.waited hw, h1.landed_of_waited hw⟩
    refine Runs.ite (fun _ => Acts.now_bind fun t => ?_) fun _ => hrest
    exact Acts.unseen_bind (fun _ => rfl) (fun _ => rfl) hrest
  unfold awaitBoth
  refine Acts.same_bind (waitEvent_acts hA.small _) fun okA h' hw => ?_
  have hrest := hwaitB okA h' (hw.tally.trans htally) fun hokA => by
    subst hokA
    exact ⟨hA.landed_of_waited hw, hB.waited_true hw⟩
  refine Runs.ite (fun _ => Acts.now_bind fun t => ?_) fun _ => hrest
  exact Acts.unseen_bind (fun _ => rfl) (fun _ => rfl) hrest

theorem awaitFirst_acts (jetty : Lane) {tokenA : ℕ} (tokenB postA : ℕ) (hA : tokenA < 2 ^ 40)
    (htally : h.tally = h₀.tally) :
    Acts F h (awaitFirst ctx jetty tokenA tokenB postA) fun rc F' h' =>
      F' = F ∧ Rounded v h₀ rc h' := by
  refine Acts.say_bind (Acts.same_bind abortEvent_acts fun _ h₁ hd => ?_)
  refine Acts.same_bind (waitEvent_acts hA _) fun ok h₂ hw => ?_
  have htally₂ : h₂.tally = h₀.tally := (hw.tally.trans hd.tally).trans htally
  refine Runs.ite (fun _ => Acts.now_bind fun t => ?_) fun _ =>
    Acts.say_bind (Runs.pure ⟨rfl, .inr ⟨by decide, htally₂⟩⟩)
  exact Acts.unseen_bind (fun _ => rfl) (fun _ => rfl) (release_failed_acts jetty htally₂)

/-- A post of a synchronous round. -/
theorem postHalf_acts (hv : ctx.args.valueSize < 2 ^ 32) (half : ℕ) (jetty : Lane) (off : ℕ)
    (src dst : ℤ) (ue : ℕ) :
    Acts F h (postHalf ctx half jetty off src dst ue) fun r F' h' => F' = F ∧ ∃ wr : Wr,
      (wr.len = ctx.args.valueSize ∧ wr.token = ue &&& kRidMask) ∧
        h' = if r.1 then h.post (.sync half) wr else h := by
  unfold postHalf
  refine Acts.now_bind fun t => Acts.now_bind fun t0 => ?_
  refine Acts.same_bind (postRw_acts _ _ _ _ _ _ _ _ _) ?_
  rintro ok h' ⟨wr, ⟨-, hlen, htok⟩, -, hh⟩
  refine Acts.now_bind fun t1 => Acts.unseen_bind (fun _ => rfl) (fun _ => rfl) (Runs.pure ?_)
  refine ⟨rfl, wr, ⟨?_, htok⟩, hh⟩
  rw [hlen, Nat.mod_mod, Nat.mod_eq_of_lt hv]

theorem postBoth_acts (hv : ctx.args.valueSize < 2 ^ 32) (jetty : Lane) {ua ub tokenA tokenB : ℕ}
    (hA : tokenA < 2 ^ 40 ∧ ua &&& kRidMask = tokenA) (hB : ub &&& kRidMask = tokenB)
    (srcA srcB dst : ℤ) (htally : h.tally = h₀.tally) :
    Acts F h (postBoth ctx jetty ua tokenA ub tokenB srcA srcB dst) fun rc F' h' =>
      F' = F ∧ Rounded ctx.args.valueSize h₀ rc h' := by
  refine Runs.get_bind fun m _ _ => Acts.same_bind (postHalf_acts hv 0 jetty _ srcA dst ua) ?_
  rintro ⟨okA, postA⟩ h₁ ⟨wrA, ⟨hlenA, htokA⟩, rfl⟩
  cases okA with
  | false =>
    refine Acts.say_bind (Acts.same_bind abortEvent_acts fun _ h₂ hd => ?_)
    refine Acts.same_bind abortEvent_acts fun _ h₃ hd' => release_failed_acts jetty ?_
    exact (hd'.tally.trans hd.tally).trans htally
  | true =>
    have hopenA : (h.post (.sync 0) wrA).Open False (.sync 0) tokenA ctx.args.valueSize := by
      rw [← hlenA, ← hA.2, ← htokA]
      exact h.open_post _ wrA
    refine Acts.same_bind (postHalf_acts hv 1 jetty _ srcB dst ub) ?_
    rintro ⟨okB, postB⟩ h₂ ⟨wrB, ⟨hlenB, htokB⟩, rfl⟩
    cases okB with
    | false => exact awaitFirst_acts jetty tokenB postA hA.1 htally
    | true =>
      refine awaitBoth_acts (h := (h.post (.sync 0) wrA).post (.sync 1) wrB) jetty postA postB srcA
        srcB dst (hopenA.post_of_ne (by decide)) ?_ htally
      rw [← hlenB, ← hB, ← htokB]
      exact Sheet.open_post _ _ wrB

theorem clientDoWrite_acts (hv : ctx.args.valueSize < 2 ^ 32) (srcA srcB dst : ℤ) :
    Acts F h (clientDoWrite ctx srcA srcB dst) fun rc F' h' =>
      F' = F ∧ Rounded ctx.args.valueSize h rc h' := by
  unfold clientDoWrite
  refine Acts.same_bind (acquireSendLane_acts _) ?_
  rintro (_ | jetty) h₁ ⟨rfl, -⟩
  · exact Acts.say_bind (Runs.pure ⟨rfl, .inr ⟨by decide, rfl⟩⟩)
  refine Acts.same_bind postEvent_acts ?_
  rintro ⟨ua, tokenA⟩ h₁ ⟨rfl, hA⟩
  refine Runs.ite (fun _ => Acts.say_bind (release_failed_acts jetty rfl)) fun hua => ?_
  refine Acts.same_bind postEvent_acts ?_
  rintro ⟨ub, tokenB⟩ h₁ ⟨rfl, hB⟩
  refine Runs.ite (fun _ => Acts.say_bind (Acts.same_bind abortEvent_acts fun _ h₁ hd => ?_))
    fun hub => ?_
  · exact release_failed_acts jetty hd.tally
  · exact postBoth_acts hv jetty (hA hua) (hB hub).2 srcA srcB dst rfl

theorem clientDoGet_acts (hv : ctx.args.valueSize < 2 ^ 32) (src dst : ℤ) :
    Acts F h (clientDoGet ctx src dst) fun rc F' h' =>
      F' = F ∧ Rounded ctx.args.valueSize h rc h' := by
  unfold clientDoGet
  refine Acts.same_bind (acquireSendLane_acts _) ?_
  rintro (_ | jetty) h₁ ⟨rfl, -⟩
  · exact Acts.say_bind (Runs.pure ⟨rfl, .inr ⟨by decide, rfl⟩⟩)
  refine Acts.same_bind postEvent_acts ?_
  rintro ⟨ue, token⟩ h₁ ⟨rfl, htoken⟩
  refine Runs.ite (fun _ => Acts.say_bind (release_failed_acts jetty rfl)) fun hue => ?_
  obtain ⟨hsmall, hmask⟩ : token < 2 ^ 40 ∧ ue &&& kRidMask = token := htoken hue
  unfold readOne
  refine Runs.get_bind fun m _ _ => Acts.now_bind fun t => ?_
  refine Acts.same_bind (postRw_acts _ _ _ _ _ _ _ _ _) ?_
  rintro ok h₁ ⟨wr, ⟨-, hlen, htok⟩, -, rfl⟩
  cases ok with
  | false =>
    refine Acts.say_bind (Acts.same_bind abortEvent_acts fun _ h₁ hd => ?_)
    exact release_failed_acts jetty hd.tally
  | true =>
    have hlen : wr.len = ctx.args.valueSize := by rw [hlen, Nat.mod_mod, Nat.mod_eq_of_lt hv]
    have hopen : ((h.take jetty).post (.sync 0) wr).Open False (.sync 0) token ctx.args.valueSize := by
      rw [← hlen, ← hmask, ← htok]
      exact Sheet.open_post _ _ wr
    refine Acts.same_bind (waitEvent_acts hsmall _) fun ok h₁ hw => ?_
    refine Runs.ite (fun hok => ?_) fun hok => ?_
    · subst hok
      refine Acts.now_bind fun t => Acts.unseen_bind (fun _ => rfl) (fun _ => rfl) ?_
      refine Acts.same_bind (releaseSendLane_acts _ _) ?_
      rintro _ _ rfl
      refine count_rounded (h := h₁.giveBack jetty) (fun id hid => ?_) (.inl rfl) hw.tally
      obtain rfl := List.mem_singleton.1 hid
      have hlanded : h₁.Landed (.sync 0) ctx.args.valueSize := hopen.landed_of_waited hw
      exact hlanded
    · refine Acts.say_bind (Runs.pure ⟨rfl, .inr ⟨?_, hw.tally⟩⟩)
      rw [if_neg hok]
      decide

theorem chooseRoundChips_acts : Still F h (chooseRoundChips ctx) := by
  unfold chooseRoundChips
  refine Runs.get_bind fun m hm hF => Runs.set_bind hm hF ?_
  exact Runs.ite (fun _ => Runs.pure ⟨rfl, rfl⟩) fun _ => Runs.pure ⟨rfl, rfl⟩

theorem roundOp_acts (hv : ctx.args.valueSize < 2 ^ 32) (srcA srcB dst : ℤ) :
    Acts F h (roundOp ctx srcA srcB dst) fun rc F' h' =>
      F' = F ∧ Rounded ctx.args.valueSize h rc h' := by
  unfold roundOp
  refine Runs.ite (fun _ => clientDoGet_acts hv _ _) fun _ => ?_
  refine Acts.unseen_bind (fun _ => rfl) (fun _ => rfl) (Runs.get_bind fun m _ _ => ?_)
  exact Runs.ite (fun _ => clientDoWrite_acts hv _ _ _) fun _ => clientDoGet_acts hv _ _

theorem countError_acts : Still F h (countError ctx) := by
  unfold countError raiseFatal
  refine Acts.unseen_bind (fun _ => rfl) (fun _ => rfl) (Acts.act_bind fun fatal _ => ?_)
  refine Runs.ite (fun _ => Runs.pure ⟨rfl, rfl⟩) fun _ => Acts.act_bind fun _ _ => ?_
  exact Runs.get_bind fun m _ _ => Runs.act (fun _ => trivial) fun _ _ _ _ _ => ⟨rfl, rfl⟩

theorem timedRound_acts (hv : ctx.args.valueSize < 2 ^ 32) (hop : ctx.args.op = .mixed)
    (hB : Books ctx.args.valueSize 0 0 F h) :
    Acts F h (timedRound ctx) (Sum.elim (fun _ => Books ctx.args.valueSize 0 0)
      fun _ => Books ctx.args.valueSize 0 0) := by
  have hround := roundBytes_mixed hop
  refine Still.bind chooseRoundChips_acts fun chips => Acts.now_bind fun t0 => ?_
  refine Acts.same_bind (roundOp_acts hv _ _ _) fun rc h' hr => Acts.now_bind fun t1 => ?_
  rcases hr with ⟨rfl, ws, htally, hcharged⟩ | ⟨hne, htally⟩
  · refine Runs.ite (fun _ => ?_) fun hne => absurd rfl hne
    refine Acts.modify_bind { F with ops := F.ops + 1, bytes := F.bytes + roundBytes ctx.args }
      (fun _ => rfl) (fun m hm => by rw [← hm]; rfl) (Runs.pure ?_)
    have hone : Books ctx.args.valueSize 1 (roundBytes ctx.args)
        { F with ops := F.ops + 1, bytes := F.bytes + roundBytes ctx.args } h :=
      ⟨congrArg (· + 1) hB.ops, congrArg (· + roundBytes ctx.args) hB.bytes, hB.most⟩
    refine hone.enter htally (hcharged.trans hround.symm) ?_
    rw [hround]
    exact Nat.mul_le_mul (by decide) hv.le
  · refine Runs.ite (fun heq => absurd heq hne) fun _ => ?_
    exact Still.bind countError_acts fun _ => Runs.pure (hB.congr rfl rfl htally)

theorem syncRound_acts (hv : ctx.args.valueSize < 2 ^ 32) (hop : ctx.args.op = .mixed) (deadline : ℕ)
    (hB : Books ctx.args.valueSize 0 0 F h) :
    Acts F h (syncRound ctx deadline ()) (Sum.elim (fun _ => Books ctx.args.valueSize 0 0)
      fun _ => Books ctx.args.valueSize 0 0) := by
  have hround := timedRound_acts hv hop hB
  refine Still.bind (Still.keepsRunning deadline) fun runs => Runs.ite (fun _ => ?_) fun _ =>
    Runs.pure hB
  refine Acts.now_bind fun t => Runs.get_bind fun m _ _ => Runs.ite (fun _ => ?_) fun _ => hround
  exact Still.bind (Still.waitUntil _ _) fun _ => hround

end Sync

/-! ### The whole thread -/

/-- What a read of mixed mode is charged too much. -/
def surcharge (args : Argument) : ℕ := if args.op = .mixed then args.valueSize else 0

/-- **A worker thread** ends with counters that agree with its sheet. -/
theorem clientWorkerMain_acts {ctx : Context} {F : Face} {h : Sheet} (hacc : Accepted ctx.args)
    (hactive : F.activeSlots = []) (hfree : F.freeSlots.Nodup)
    (hB : Books (surcharge ctx.args) 0 0 F h) :
    Acts F h (clientWorkerMain ctx) fun _ F' h' => Books (surcharge ctx.args) 0 0 F' h' := by
  have hstart : ∀ n, InBooks False (surcharge ctx.args) n F h := by
    intro n
    have hnone : ∀ idx, idx ∉ F.activeSlots := by simp [hactive]
    refine ⟨⟨?_, fun idx hidx => absurd hidx (hnone idx), fun idx hidx => absurd hidx (hnone idx),
      fun idx hidx => absurd hidx (hnone idx)⟩, hB⟩
    rw [hactive]
    exact hfree
  have hdone : ∀ (rc : ℤ) F' h', Books (surcharge ctx.args) 0 0 F' h' →
      Acts F' h' (pipelineDone ctx rc) fun _ F'' h'' => Books (surcharge ctx.args) 0 0 F'' h'' := by
    intro rc F' h' hB'
    refine Runs.ite (fun _ => countError_acts.post ?_) fun _ => Runs.pure hB'
    rintro _ _ _ ⟨rfl, rfl⟩
    exact hB'
  have hvalue := hacc.valueSize_lt
  have hsend := hacc.sendSize_lt
  unfold clientWorkerMain
  refine Acts.now_bind fun t => Acts.now_bind fun t' => ?_
  refine Acts.unseen_bind (fun _ => rfl) (fun _ => rfl) ?_
  cases hop : ctx.args.op with
  | write =>
    have hp : (writePipe ctx.args).Halves := by
      refine ⟨?_, rfl⟩
      have heven := hacc.sendSize_even
      show ctx.args.sendSize * 10 = 20 * (ctx.args.sendSize / 2 % 2 ^ 32)
      omega
    exact Runs.bind (clientWritePipeline_acts hp _ (hstart _)) fun rc F' h' hB' => hdone rc F' h' hB'
  | get =>
    have hp : (getPipe ctx.args).Halves := by
      refine ⟨?_, rfl⟩
      have heven := hacc.valueSize_even hop
      show ctx.args.valueSize * 10 = 20 * (ctx.args.valueSize / 2 % 2 ^ 32)
      omega
    exact Runs.bind (clientGetPipeline_acts hp _ (hstart _)) fun rc F' h' hB' => hdone rc F' h' hB'
  | mixed =>
    have hv : surcharge ctx.args = ctx.args.valueSize := if_pos hop
    rw [hv] at hB ⊢
    exact Runs.loop (fun _ => Books ctx.args.valueSize 0 0)
      (fun _ F' h' hB' => syncRound_acts hvalue hop _ hB') hB

/-- The books of all workers at the end of a run of the client. -/
theorem client_books (ctx : Context) (hist : KvHist) (hacc : Accepted ctx.args) {n : ℕ}
    (hthreads : ctx.args.threads = n) (lanes : ℕ) {c : Conf (Fin n) Worker Sys Act (Unit × Worker)}
    (hr : Reachable (bench n (fun _ => .any) .free) (client ctx hist n lanes) c) {w : Fin n}
    {m : Worker} (hres : c.result w = some ((), m)) :
    Books (surcharge ctx.args) 0 0 m.face (sheetOf w c.state) := by
  obtain ⟨N, hr⟩ := exists_grace hr fun _ => rfl
  have hn : n ≤ 1024 := by
    have := hacc.threads_le
    omega
  have hB := Setup.plain_sound n lanes (fun _ => .any) _ ctx.args hn (Pace.grace_live N)
  have hgood : ∀ c, Reachable (bench n (fun _ => .any) (.grace N)) (client ctx hist n lanes) c →
      Factual sheets (bench n (fun _ => .any) (.grace N)) (fun (i : Fin n) s => sheetOf i s) c :=
    fun c hc => factual_of_good (Setup.good_reachable
      (B := .plain ctx.args n lanes (fun _ => .any) (.grace N)) (Q := fun _ _ _ _ => True) hB rfl
      (fun _ => rfl) (fun _ _ _ => .const _) (fun i => clientWorkerMain_spec hB
        (ctx.plain_fits n lanes (fun _ => .any) (.grace N)) (createWorker_ready _ hist i)) hc)
  have hstart : (client ctx hist n lanes).Safe sheets (fun (i : Fin n) s => sheetOf i s)
      fun _ am h => Books (surcharge ctx.args) 0 0 am.2.face h := by
    intro i
    have hacts := clientWorkerMain_acts (F := (createWorker ctx.args hist i).face)
      (h := sheetOf i (Sys.initial lanes)) hacc rfl
      (List.nodup_reverse.2 List.nodup_range) ⟨rfl, rfl, fun ws hws => absurd hws List.not_mem_nil⟩
    exact sheets.safe.mono (hacts.holds _ _ ⟨createWorker_evOk _ _ _, rfl, rfl⟩) fun am h hQ => hQ.2
  exact (hr.safe hstart (recorded_sheets n _ _) hgood).result hres

/-- The bytes that are charged are those transferred, and the surcharge for each operation with a
single work request. -/
theorem sum_charged (v : ℕ) (l : List (List Wr)) : (l.map (charged v)).sum =
    (l.map transferred).sum + v * l.countP (·.length = 1) := by
  induction l with
  | nil => simp
  | cons ws l ih =>
    rw [List.map_cons, List.sum_cons, ih, List.map_cons, List.sum_cons, List.countP_cons, charged]
    by_cases h1 : ws.length = 1
    · simp only [h1, if_true, decide_true]
      ring
    · simp only [h1, if_false, decide_false, Bool.false_eq_true]
      ring

/-- **Bytes are what was transferred**, in every run and for every worker, exactly when no read of
mixed mode is among the operations that were counted. Fewer than `2 ^ 27` operations leave the
counters below `2 ^ 64`, where those of the program agree with the numbers here. -/
theorem transfer_accounts (ctx : Context) (hist : KvHist)
    (hargs : validateInputParams ctx.args = .ok ()) {n : ℕ} (hthreads : ctx.args.threads = n)
    (lanes : ℕ) {c : Conf (Fin n) Worker Sys Act (Unit × Worker)}
    (hr : Reachable (bench n (fun _ => .any) .free) (client ctx hist n lanes) c) (w : Fin n)
    (m : Worker) (hres : c.result w = some ((), m)) :
    m.ops = (c.state.tally w).length ∧
      (m.bytes = ((c.state.tally w).map transferred).sum ↔
        (ctx.args.op = .mixed → ∀ ws ∈ c.state.tally w, ws.length ≠ 1)) ∧
      (m.ops < 2 ^ 27 → m.bytes < 2 ^ 64) := by
  have hacc := validateInputParams_accepted hargs
  have hbooks := client_books ctx hist hacc hthreads lanes hr hres
  have hbytes : m.bytes = ((c.state.tally w).map (charged (surcharge ctx.args))).sum := hbooks.bytes
  refine ⟨hbooks.ops, ?_, hbooks.bytes_lt⟩
  rw [hbytes, sum_charged, Nat.add_eq_left, Nat.mul_eq_zero, List.countP_eq_zero]
  have hpos := hacc.valueSize_pos
  unfold surcharge
  by_cases hop : ctx.args.op = .mixed
  · simp only [hop, if_true, true_implies, decide_eq_true_eq]
    exact ⟨fun h => h.resolve_left (by omega), .inr⟩
  · simp [hop]

/-- A client in mixed mode that writes with the probability `ratio`, in per cent. -/
def mixedContext (ratio : ℕ) : Context :=
  { smallContext .mixed 1 1 with args := { smallArgs .mixed 1 1 with mixedRatio := ratio } }

/-- A work request of its first round. -/
def roundWr (read : Bool) (half : ℕ) : Outstanding where
  lane := 0
  localAddr := 0x100000 + half * 8192
  remoteAddr := 0x4000000 + half * 8192
  len := 8192
  srcChip := 255
  dstChip := 255
  userCtx := 256 + half
  read := read
  id := .sync half
  request := 1

/-- One write, which completes; then the time is over. -/
def writeRound : Conf (Fin 1) Worker Sys Act (Unit × Worker) :=
  (client (mixedContext 100) freshHist 1 1).plays (bench 1 (fun _ => .any) .free)
    (steps 0 0 18 ++ .env (.deliver (roundWr false 0) true) ::
      .env (.deliver (roundWr false 1) true) :: steps 0 1000000000 20)

theorem transfer_accounts_write : (writeRound.result 0).any (fun a => a.2.bytes = 16384) = true ∧
    ∀ m, writeRound.result 0 = some ((), m) →
      m.ops = (writeRound.state.tally (0 : Fin 1)).length ∧
      (m.bytes = ((writeRound.state.tally (0 : Fin 1)).map transferred).sum ↔
        ((mixedContext 100).args.op = .mixed →
          ∀ ws ∈ writeRound.state.tally (0 : Fin 1), ws.length ≠ 1)) ∧
      (m.ops < 2 ^ 27 → m.bytes < 2 ^ 64) := by
  obtain ⟨hr, hbytes⟩ := Reachable.of_replay (d := writeRound) rfl
    (fun c => (c.result 0).any (fun a => a.2.bytes = 16384) = true) (by decide +kernel)
  refine ⟨hbytes, fun m hres => ?_⟩
  exact transfer_accounts (mixedContext 100) freshHist rfl (n := 1) rfl 1 hr 0 m hres

/-- One read, which completes; then the time is over. -/
def readRound : Conf (Fin 1) Worker Sys Act (Unit × Worker) :=
  (client (mixedContext 0) freshHist 1 1).plays (bench 1 (fun _ => .any) .free)
    (steps 0 0 14 ++ .env (.deliver (roundWr true 0) true) :: steps 0 1000000000 10)

/-- The read is counted with `16384` bytes and has moved `8192`. -/
theorem transfer_read_doubled : ∃ c m, validateInputParams (mixedContext 0).args = .ok () ∧
    Reachable (bench 1 (fun _ => .any) .free) (client (mixedContext 0) freshHist 1 1) c ∧
    c.result 0 = some ((), m) ∧ m.ops = 1 ∧ m.bytes = 16384 ∧
    ((c.state.tally (0 : Fin 1)).map transferred).sum = 8192 := by
  obtain ⟨hr, ⟨_, m⟩, hres, hP⟩ := Reachable.of_replay_result (d := readRound) rfl 0
    (fun a c => a.2.ops = 1 ∧ a.2.bytes = 16384 ∧
      ((c.state.tally (0 : Fin 1)).map transferred).sum = 8192) (by decide +kernel)
  exact ⟨readRound, m, rfl, hr, hres, hP⟩

end KvBench.Bench
