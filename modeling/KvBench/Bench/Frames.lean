import KvBench.Bench.Pipeline
import KvBench.Conc.Local

/-!
# What most of the code leaves alone

Between two posts a worker waits, probes, releases lanes and prints. None of that concerns its
identity, its random state, its offset or its counters. An assertion about these and about a history
to which only posts, the starts of requests and the counting of operations matter (`Framed`) is
therefore kept by all of this code. If it does not depend on the counters either (`Unbooked`), it is
kept by the code that counts as well, and a proof about posts has to look only at the code that
posts.
-/

namespace KvBench.Bench

open KvBench.Conc KvBench.Events KvBench.Hist Worker

/-- All steps but the posts, the calls of a post function and the counting. -/
def Act.quiet {β : Type} : Act β → Bool
  | .post _ _ => false
  | .visit (.call _ _) => false
  | .count _ => false
  | _ => true

/-- The steps that look at the clock or at a flag, or let time pass. -/
def Act.passive {β : Type} : Act β → Bool
  | .now => true
  | .sleep _ => true
  | .loadStop => true
  | .loadFatal => true
  | _ => false

theorem Act.quiet_of_passive {β : Type} {e : Act β} (he : e.passive = true) : e.quiet = true := by
  cases e with
  | post id wr => exact he
  | visit place => exact nomatch he
  | count ids => exact he
  | _ => rfl

/-- The part of the memory that changes at few places. -/
structure Frame where
  id : ℕ
  rng : ℕ
  off : ℕ
  ops : ℕ
  bytes : ℕ
  reads : ℕ

/-- The frame of a worker. -/
def Worker.frame (m : Worker) : Frame := ⟨m.id, m.rng, m.off, m.ops, m.bytes, m.reads⟩

section Frames

variable {H : Type} {L : Private Worker H Act} {P : Worker → H → Prop}

variable (L P) in
/-- The assertion `P` depends on the frame of a worker only, and quiet steps keep it. -/
structure Framed : Prop where
  memory : ∀ {m m' : Worker} {h}, m'.frame = m.frame → P m h → P m' h
  duty : ∀ {β : Type} {e : Act β} {m h}, e.quiet = true → P m h → L.duty m h e
  step : ∀ {β : Type} {e : Act β} {m h r}, e.quiet = true → P m h → L.fact m h e r →
    P m (L.step e r h)

variable (L P) in
/-- The assertion `P` does not depend on the counters either, and counting keeps it. -/
structure Unbooked : Prop extends Framed L P where
  counters : ∀ {m : Worker} {h} ops bytes, P m h → P { m with ops := ops, bytes := bytes } h
  owed : ∀ {m h ids}, P m h → L.duty m h (.count ids)
  counted : ∀ {m h ids r}, P m h → L.fact m h (.count ids) r → P m (L.step (.count ids) r h)

variable (L P) in
/-- The code keeps `P`. -/
abbrev Quiet {α : Type} (x : Code α) : Prop := Keeps L P x fun _ => P

/-! ### Rules -/

namespace Quiet

variable {α β γ : Type} {x : Code α}

theorem pure (a : α) : Quiet L P (Pure.pure a) := Spec.pure fun _ _ h => h

theorem bind {f : α → Code β} (hx : Quiet L P x) (hf : ∀ a, Quiet L P (f a)) :
    Quiet L P (x >>= f) := Spec.bind hx hf

theorem get_bind {f : Worker → Code β} {R : β → Worker → H → Prop}
    (hf : ∀ m₀, Keeps L P (f m₀) R) : Keeps L P (get >>= f) R :=
  Spec.get_bind fun m₀ => (hf m₀).pre fun _ _ h => h.2

theorem each {f : ℕ → β → Code β} (hf : ∀ k x, Quiet L P (f k x)) (start count : ℕ) (x : β) :
    Quiet L P (Proc.each f start count x) :=
  Spec.each (fun _ _ => P) (fun k x _ _ => hf k x) x

theorem search {f : ℕ → Code (Option β)} (hf : ∀ k, Quiet L P (f k)) (start count : ℕ) :
    Quiet L P (Proc.search f start count) := by
  refine (Spec.search (fun _ => P) (fun _ => P) fun k _ _ => (hf k).post ?_).post ?_
  · intro r m h hP
    cases r <;> exact hP
  · intro r m h hP
    cases r <;> exact hP

theorem loop {body : β → Code (β ⊕ γ)} (hbody : ∀ b, Quiet L P (body b)) (b : β) :
    Quiet L P (Proc.loop body b) := by
  refine Spec.loop (fun _ => P) (fun b => (hbody b).post ?_) b
  intro r m h hP
  cases r <;> exact hP

/-! ### Waiting and stopping -/

section Passive

variable (hp : ∀ {β : Type} {e : Act β}, e.passive = true → Quiet L P (Proc.act e))
include hp

theorem waitUntil (wakeNs t : ℕ) : Quiet L P (waitUntil wakeNs t) := by
  have hspin : Quiet L P (Proc.loop (spinRound wakeNs) ()) := by
    refine loop (fun _ => bind (hp rfl) fun t => ?_) ()
    exact Spec.ite (fun _ => pure _) fun _ => pure _
  exact Spec.ite (fun _ => bind (hp rfl) fun _ => hspin) fun _ => hspin

theorem pause (ctx : Context) (nextReqNs : ℕ) : Quiet L P (pause ctx nextReqNs) := by
  have hend : Quiet L P (do
      let t ← now
      Pure.pure ((t + intervalNs ctx.args) % 2 ^ 64)) := bind (hp rfl) fun _ => pure _
  refine Spec.ite (fun _ => bind (hp rfl) fun t => ?_) fun _ => pure _
  refine Spec.ite (fun _ => bind (hp rfl) fun t' => ?_) fun _ => hend
  exact bind (waitUntil hp _ _) fun _ => hend

theorem keepsRunning (deadline : ℕ) : Quiet L P (keepsRunning deadline) := by
  refine bind (hp rfl) fun stop => Spec.ite (fun _ => pure _) fun _ => ?_
  refine bind (hp rfl) fun fatal => Spec.ite (fun _ => pure _) fun _ => ?_
  exact bind (hp rfl) fun t => pure _

end Passive

end Quiet

/-! ### The calls into `UrmaManager` -/

namespace Framed

variable (hF : Framed L P) {α β : Type}
include hF

theorem act {e : Act β} (he : e.quiet = true) : Quiet L P (Proc.act e) :=
  Keeps.act (fun _ _ hP => hF.duty he hP) fun _ _ _ hP hr => hF.step he hP hr

theorem update_bind {g : Worker → Worker} {f : PUnit → Code β} {R : β → Worker → H → Prop}
    (hg : ∀ m, (g m).frame = m.frame) (hf : Keeps L P (f ⟨⟩) R) :
    Keeps L P (modify g >>= f) R :=
  Spec.modify_bind P (fun m _ hP => hF.memory (hg m) hP) hf

theorem update {g : Worker → Worker} (hg : ∀ m, (g m).frame = m.frame) : Quiet L P (modify g) :=
  Spec.modify fun m _ hP => hF.memory (hg m) hP

theorem now : Quiet L P now := hF.act rfl

theorem say (line : Message) : Quiet L P (say line) := hF.act rfl

theorem slot (e : SlotAct β) : Quiet L P (Proc.act (eventPort.access e)) :=
  hF.act (by cases e <;> rfl)

theorem postEvent : Quiet L P postEvent := by
  unfold Bench.postEvent Port.acquire
  refine Quiet.bind (Quiet.get_bind fun m₀ => ?_) fun r => ?_
  · dsimp only
    split
    · exact Quiet.pure _
    · refine hF.update_bind (fun _ => rfl) ?_
      refine Quiet.bind (hF.slot _) fun r => ?_
      cases r with
      | none => exact Quiet.pure _
      | some found =>
        exact hF.update_bind (fun _ => rfl) (Quiet.pure _)
  · cases r with
    | none => exact Quiet.pure _
    | some token => exact Quiet.get_bind fun _ => Quiet.pure _

theorem probeEvent (token : ℕ) : Quiet L P (probeEvent token) := by
  unfold Bench.probeEvent Port.probe
  refine Spec.ite (fun _ => Quiet.pure _) fun _ => Quiet.bind (hF.slot _) fun value => ?_
  unfold Port.probeValue
  refine Spec.ite (fun _ => Quiet.pure _) fun _ => Quiet.bind (hF.slot _) fun r => ?_
  cases r with
  | some found => exact Quiet.pure _
  | none => exact hF.update_bind (fun _ => rfl) (Quiet.pure _)

theorem abortEvent (token : ℕ) : Quiet L P (abortEvent token) := by
  unfold Bench.abortEvent Port.abort
  refine Quiet.bind (Spec.ite (fun _ => Quiet.pure _) fun _ => ?_) fun _ => Quiet.pure _
  refine Quiet.bind (hF.slot _) fun value => Quiet.loop (fun value => ?_) value
  unfold Port.abortRound
  refine Spec.ite (fun _ => Quiet.bind (hF.slot _) fun r => ?_) fun _ => Quiet.pure _
  cases r with
  | none => exact hF.update_bind (fun _ => rfl) (Quiet.pure _)
  | some found => exact Quiet.pure _

theorem waitEvent (token : ℕ) (timeoutMs : ℤ) : Quiet L P (waitEvent token timeoutMs) := by
  unfold Bench.waitEvent
  refine Quiet.bind hF.now fun t => Quiet.bind (Quiet.loop (fun _ => ?_) ()) fun r => ?_
  · unfold waitRound
    refine Quiet.bind (hF.probeEvent token) fun result => ?_
    refine Spec.ite (fun _ => Quiet.pure _) fun _ => Quiet.bind hF.now fun t => ?_
    exact Spec.ite (fun _ => Quiet.pure _) fun _ => Quiet.bind (hF.act rfl) fun _ => Quiet.pure _
  · cases r with
    | some ok => exact Quiet.pure _
    | none =>
      unfold finalLook
      refine hF.update_bind (fun _ => rfl) ?_
      have hend : ∀ result : ℤ, Quiet L P (do
          modify fun m : Worker => { m with lastLook := none }
          Pure.pure (decide (result = 1))) := fun result =>
        hF.update_bind (fun _ => rfl) (Quiet.pure _)
      refine Quiet.bind (hF.probeEvent token) fun result => Spec.ite (fun _ => ?_) fun _ => hend _
      exact Quiet.bind (hF.abortEvent token) fun _ => hend _

theorem releaseSendLane (send : SendId) (jetty : Option Lane) :
    Quiet L P (releaseSendLane send jetty) := by
  cases jetty with
  | none => exact Quiet.pure _
  | some l => exact hF.act rfl

/-! ### Giving up a request -/

theorem rollback (op : Op) (timeoutMs : ℤ) (idx postedWrCount : ℕ) :
    Quiet L P (rollback op timeoutMs idx postedWrCount) := by
  refine Quiet.each (fun send _ => ?_) _ _ _
  unfold rollbackSend
  refine Quiet.bind (Quiet.each (fun wr completed => Quiet.get_bind fun m₀ => ?_) _ _ _)
    fun completed => ?_
  · refine Quiet.bind (hF.waitEvent _ _) fun ok => ?_
    refine Spec.ite (fun _ => Quiet.bind hF.now fun t => ?_) fun _ => Quiet.pure _
    exact hF.update_bind (fun _ => rfl) (Quiet.pure _)
  · have hend : Quiet L P (modify (setJetty idx send none) : Code PUnit) :=
      hF.update fun _ => rfl
    refine Spec.ite (fun _ => Quiet.get_bind fun _ => ?_) fun _ => ?_
    · exact Quiet.bind (hF.releaseSendLane _ _) fun _ => hend
    · exact Quiet.bind (hF.say _) fun _ => hend

theorem giveUp (ctx : Context) (p : Pipe) (idx wr : ℕ) : Quiet L P (giveUp ctx p idx wr) := by
  unfold Bench.giveUp
  refine Quiet.bind ?_ fun _ =>
    hF.update_bind (fun _ => rfl) (Quiet.pure _)
  cases p.op with
  | write => exact hF.rollback _ _ _ _
  | get => exact hF.rollback _ _ _ _
  | mixed => exact hF.rollback _ _ _ _

theorem returnLane (idx wr : ℕ) (jetty : Option Lane) : Quiet L P (returnLane idx wr jetty) :=
  Spec.ite (fun _ => Quiet.bind (hF.releaseSendLane _ _) fun _ =>
    hF.update fun _ => rfl) fun _ => Quiet.pure _

/-! ### Harvesting -/

theorem harvestWr (p : Pipe) (idx wr : ℕ) : Quiet L P (harvestWr p idx wr) := by
  refine Quiet.get_bind fun m₀ => Spec.ite (fun _ => Quiet.pure _) fun _ => ?_
  refine Quiet.bind (hF.probeEvent _) fun r => Spec.ite (fun _ => ?_) fun _ => ?_
  · exact hF.update_bind (fun _ => rfl) (Quiet.bind (hF.say _) fun _ => Quiet.pure _)
  refine Spec.ite (fun _ => ?_) fun _ => Quiet.pure _
  refine hF.update_bind (fun _ => rfl) (Quiet.bind hF.now fun t => ?_)
  exact hF.update_bind (fun _ => rfl) (Quiet.pure _)

/-! ### Waiting and stopping -/

theorem waitUntil (wakeNs t : ℕ) : Quiet L P (waitUntil wakeNs t) :=
  Quiet.waitUntil (fun he => hF.act (Act.quiet_of_passive he)) wakeNs t

theorem pause (ctx : Context) (nextReqNs : ℕ) : Quiet L P (pause ctx nextReqNs) :=
  Quiet.pause (fun he => hF.act (Act.quiet_of_passive he)) ctx nextReqNs

theorem keepsRunning (deadline : ℕ) : Quiet L P (keepsRunning deadline) :=
  Quiet.keepsRunning (fun he => hF.act (Act.quiet_of_passive he)) deadline

theorem countError (ctx : Context) : Quiet L P (countError ctx) := by
  refine hF.update_bind (fun _ => rfl) ?_
  refine Quiet.bind (hF.act rfl) fun fatal => Spec.ite (fun _ => Quiet.pure _) fun _ => ?_
  exact Quiet.bind (hF.act rfl) fun _ => Quiet.get_bind fun _ => hF.say _

/-! ### The drains -/

theorem drainWriteSend (drainDeadline idx send : ℕ) (d : WriteDrain) :
    Quiet L P (drainWriteSend drainDeadline idx send d) := by
  have hend : ∀ d' : WriteDrain, Quiet L P (do
      modify (setJetty idx send none)
      Pure.pure d') := fun _ =>
    hF.update_bind (fun _ => rfl) (Quiet.pure _)
  refine Quiet.bind (Quiet.each (fun wr d => Quiet.get_bind fun m₀ => ?_) _ _ _) fun d => ?_
  · refine Spec.ite (fun _ => Quiet.pure _) fun _ => Quiet.bind hF.now fun t => ?_
    refine Quiet.bind (hF.waitEvent _ _) fun ok => Spec.ite (fun _ => ?_) fun _ => ?_
    · refine Quiet.bind hF.now fun t => ?_
      exact hF.update_bind (fun _ => rfl) (Quiet.pure _)
    · exact Quiet.bind (hF.say _) fun _ => Quiet.pure _
  · refine Spec.ite (fun _ => Quiet.get_bind fun _ => ?_) fun _ => hend d
    exact Quiet.bind (hF.releaseSendLane _ _) fun _ => hend d

theorem reportFailures (failures : ℕ) : Quiet L P (reportFailures failures) :=
  Spec.ite (fun _ => hF.update fun _ => rfl) fun _ => Quiet.pure _

/-! ### The ends of synchronous rounds -/

theorem awaitFirst (ctx : Context) (jetty : Lane) (tokenA tokenB postA : ℕ) :
    Quiet L P (awaitFirst ctx jetty tokenA tokenB postA) := by
  refine Quiet.bind (hF.say _) fun _ => Quiet.bind (hF.abortEvent _) fun _ => ?_
  refine Quiet.bind (hF.waitEvent _ _) fun ok => Spec.ite (fun _ => ?_) fun _ => ?_
  · refine Quiet.bind hF.now fun t => ?_
    refine hF.update_bind (fun _ => rfl) ?_
    exact Quiet.bind (hF.releaseSendLane _ _) fun _ => Quiet.pure _
  · exact Quiet.bind (hF.say _) fun _ => Quiet.pure _

end Framed

/-! ### The code that counts -/

namespace Unbooked

variable (hU : Unbooked L P)
include hU

theorem counting (ids : List WrId) : Quiet L P (count ids) :=
  Keeps.act (fun _ _ hP => hU.owed hP) fun _ _ _ hP hr => hU.counted hP hr

theorem finishReq (p : Pipe) (idx k : ℕ) : Quiet L P (finishReq p idx k) := by
  have hF := hU.toFramed
  refine Spec.modify_bind P (fun m h hP => hU.counters m.ops _ hP) ?_
  refine Quiet.bind (Quiet.each (fun send _ => ?_) _ _ _) fun _ => ?_
  · refine Quiet.get_bind fun _ => Quiet.bind (hF.releaseSendLane _ _) fun _ => ?_
    exact hF.update fun _ => rfl
  refine hF.update_bind (fun _ => rfl) (Quiet.bind hF.now fun t => ?_)
  refine hF.update_bind (fun _ => rfl) ?_
  refine Spec.modify_bind P (fun m h hP => hU.counters _ m.bytes hP) ?_
  exact Quiet.bind (hU.counting _) fun _ => hF.update fun _ => rfl

theorem harvestRound (p : Pipe) (kl : ℕ × Locals) :
    Keeps L P (harvestRound p kl) (Sum.elim
      (fun kl' m h => P m h ∧ kl'.2.nextReqNs = kl.2.nextReqNs)
      (fun r m h => P m h ∧ ∀ l ∈ r, l.nextReqNs = kl.2.nextReqNs)) := by
  have hF := hU.toFramed
  refine Spec.bind (hF.act rfl) fun _ => Quiet.get_bind fun m₀ => ?_
  cases m₀.activeSlots[kl.1]? with
  | none => exact Spec.pure fun _ _ hP => ⟨hP, by simp⟩
  | some idx =>
    refine Spec.bind hF.now fun t0 => Spec.bind (Quiet.search (hF.harvestWr p idx) _ _) fun r => ?_
    cases r with
    | some _ => exact Spec.pure fun _ _ hP => ⟨hP, by simp⟩
    | none =>
      refine Spec.bind hF.now fun t1 => Quiet.get_bind fun m₁ => ?_
      refine Spec.ite (fun _ => Spec.pure fun _ _ hP => ⟨hP, rfl⟩) fun _ => ?_
      exact Spec.bind (hU.finishReq p idx _) fun _ => Spec.pure fun _ _ hP => ⟨hP, rfl⟩

theorem countDrained (size idx : ℕ) : Quiet L P (countDrained size idx) := by
  refine Quiet.bind hU.now fun t => hU.update_bind (fun _ => rfl) ?_
  exact Spec.modify_bind P (fun m h hP => hU.counters _ _ hP) (hU.counting _)

theorem drainWriteRound (args : Argument) (drainDeadline failures : ℕ) :
    Quiet L P (drainWriteRound args drainDeadline failures) := by
  have hF := hU.toFramed
  have hend : ∀ (idx : ℕ) (d : WriteDrain), Quiet L P (do
      modify (deactivate idx)
      modify (retire idx 0)
      Pure.pure (Sum.inl d.failures) : Code (ℕ ⊕ ℕ)) := fun _ _ => by
    refine hF.update_bind (fun _ => rfl) ?_
    exact hF.update_bind (fun _ => rfl) (Quiet.pure _)
  refine Quiet.get_bind fun m₀ => ?_
  cases m₀.activeSlots with
  | nil => exact Quiet.pure _
  | cons idx rest =>
    refine Quiet.bind (Quiet.each (hF.drainWriteSend drainDeadline idx) _ _ _) fun d => ?_
    refine Spec.ite (fun _ => ?_) fun _ => hend idx d
    exact Quiet.bind (hU.countDrained _ _) fun _ => hend idx d

theorem drainGetRound (args : Argument) (drainDeadline failures : ℕ) :
    Quiet L P (drainGetRound args drainDeadline failures) := by
  have hF := hU.toFramed
  have hend : ∀ (idx : ℕ) (allOk : Bool), Quiet L P (do
      modify (setSlot idx fun s => { s with jetty := fun _ => none, active := false })
      modify (retire idx 0)
      Pure.pure (Sum.inl (if allOk then failures else failures + 1)) : Code (ℕ ⊕ ℕ)) :=
    fun _ _ => by
      refine hF.update_bind (fun _ => rfl) ?_
      exact hF.update_bind (fun _ => rfl) (Quiet.pure _)
  refine Quiet.get_bind fun m₀ => ?_
  cases m₀.activeSlots with
  | nil => exact Quiet.pure _
  | cons idx rest =>
    refine Quiet.bind hF.now fun t => Quiet.bind (Quiet.each (fun wr allOk => ?_) _ _ _)
      fun allOk => ?_
    · refine Quiet.get_bind fun m₁ => Quiet.bind (hF.waitEvent _ _) fun ok => ?_
      refine Spec.ite (fun _ => Quiet.bind hF.now fun t => ?_) fun _ => ?_
      · exact hF.update_bind (fun _ => rfl) (Quiet.pure _)
      · exact Quiet.bind (hF.say _) fun _ => Quiet.pure _
    · refine Spec.ite (fun _ => Quiet.bind ?_ fun _ => hend idx allOk) fun _ => hend idx allOk
      refine Quiet.bind (hU.countDrained _ _) fun _ => Quiet.each (fun send _ => ?_) _ _ _
      exact Quiet.get_bind fun _ => hF.releaseSendLane _ _

theorem awaitBoth (ctx : Context) (jetty : Lane) (tokenA tokenB postA postB : ℕ)
    (srcA srcB dst : ℤ) :
    Quiet L P (awaitBoth ctx jetty tokenA tokenB postA postB srcA srcB dst) := by
  have hF := hU.toFramed
  have hclose : ∀ okA okB : Bool, Quiet L P (do
      if okA && okB then do
        Bench.releaseSendLane .sync (some jetty)
        count [.sync 0, .sync 1]
      else Bench.say (.syncQuarantined .write)
      Pure.pure (if okA && okB then (0 : ℤ) else -1)) := fun okA okB => by
    refine Spec.ite (fun _ => Quiet.bind (hF.releaseSendLane _ _) fun _ => ?_) fun _ => ?_
    · exact Quiet.bind (hU.counting _) fun _ => Quiet.pure _
    · exact Quiet.bind (hF.say _) fun _ => Quiet.pure _
  have hreport : ∀ okA okB : Bool, Quiet L P (do
      if okA then Pure.pure () else Bench.say (.syncWaitFailed 0 tokenA srcA dst)
      if okB then Pure.pure () else Bench.say (.syncWaitFailed 1 tokenB srcB dst)
      if okA && okB then do
        Bench.releaseSendLane .sync (some jetty)
        count [.sync 0, .sync 1]
      else Bench.say (.syncQuarantined .write)
      Pure.pure (if okA && okB then (0 : ℤ) else -1)) := fun okA okB => by
    have hsecond := Spec.ite (p := okB = true) (fun _ => hclose okA okB) fun _ =>
      Quiet.bind (hF.say (.syncWaitFailed 1 tokenB srcB dst)) fun _ => hclose okA okB
    exact Spec.ite (fun _ => hsecond) fun _ => Quiet.bind (hF.say _) fun _ => hsecond
  have hwaitB : ∀ okA : Bool, Quiet L P (do
      let okB ← Bench.waitEvent tokenB ctx.args.timeoutMs
      if okB then do
        let t ← Bench.now
        modify (recordWr (sub64 t postB))
      else Pure.pure ()
      if okA then Pure.pure () else Bench.say (.syncWaitFailed 0 tokenA srcA dst)
      if okB then Pure.pure () else Bench.say (.syncWaitFailed 1 tokenB srcB dst)
      if okA && okB then do
        Bench.releaseSendLane .sync (some jetty)
        count [.sync 0, .sync 1]
      else Bench.say (.syncQuarantined .write)
      Pure.pure (if okA && okB then (0 : ℤ) else -1)) := fun okA => by
    refine Quiet.bind (hF.waitEvent _ _) fun okB => Spec.ite (fun _ => ?_) fun _ => hreport okA okB
    refine Quiet.bind hF.now fun t => ?_
    exact hF.update_bind (fun _ => rfl) (hreport okA okB)
  refine Quiet.bind (hF.waitEvent _ _) fun okA => Spec.ite (fun _ => ?_) fun _ => hwaitB okA
  refine Quiet.bind hF.now fun t => ?_
  exact hF.update_bind (fun _ => rfl) (hwaitB okA)

/-- The end of a synchronous read, once it has been posted. -/
theorem awaitRead (ctx : Context) (jetty : Lane) (token postNs : ℕ) : Quiet L P (do
    let done ← Bench.waitEvent token ctx.args.timeoutMs
    if done then do
      let t ← Bench.now
      modify (recordWr (sub64 t postNs))
      Bench.releaseSendLane .sync (some jetty)
      count [.sync 0]
    else Bench.say (.syncQuarantined .get)
    Pure.pure (if done then (0 : ℤ) else -1)) := by
  have hF := hU.toFramed
  refine Quiet.bind (hF.waitEvent _ _) fun done => Spec.ite (fun _ => ?_) fun _ => ?_
  · refine Quiet.bind hF.now fun t => ?_
    refine hF.update_bind (fun _ => rfl) ?_
    refine Quiet.bind (hF.releaseSendLane _ _) fun _ => ?_
    exact Quiet.bind (hU.counting _) fun _ => Quiet.pure _
  · exact Quiet.bind (hF.say _) fun _ => Quiet.pure _

end Unbooked

/-! ### Posting a request -/

/-- What a proof about the posts of a request has to provide. `A k` holds before the work request
`k`, `C k chips` when its chips have been chosen, and `X` once the request has been given up. -/
structure PostPlan (L : Private Worker H Act) (ctx : Context) (idx : ℕ) (A : ℕ → Worker → H → Prop)
    (C : ℕ → ℤ × ℤ → Worker → H → Prop) (X : Worker → H → Prop) : Prop where
  before : ∀ k, Framed L (A k)
  chosen : ∀ k chips, Framed L (C k chips)
  lost : Framed L X
  choose : ∀ k < kvWrPerReq, Keeps L (A k) (chooseChips ctx (k / kvWrPerSend)) fun chips => C k chips
  drop : ∀ k chips m h, C k chips m h → X m h
  post : ∀ k < kvWrPerReq, ∀ chips (r : Wr), r.srcChip = (chips.1 % 2 ^ 32).toNat →
    r.dstChip = (chips.2 % 2 ^ 32).toNat →
    Keeps L (C k chips) (Proc.act (.post (.slot idx k) r)) fun ok => if ok then A (k + 1) else X

namespace PostPlan

variable {ctx : Context} {idx : ℕ} {A : ℕ → Worker → H → Prop}
  {C : ℕ → ℤ × ℤ → Worker → H → Prop} {X : Worker → H → Prop} (hP : PostPlan L ctx idx A C X)
include hP

theorem giveUp (p : Pipe) (wr : ℕ) :
    Keeps L X (giveUp ctx p idx wr) fun r m h => r = some (-1) ∧ X m h := by
  refine Spec.bind ?_ fun _ => hP.lost.update_bind (fun _ => rfl)
    (Spec.pure fun m h hX => ⟨rfl, hX⟩)
  cases p.op <;> exact hP.lost.rollback _ _ _ _

theorem postOnLane (p : Pipe) {k : ℕ} (hk : k < kvWrPerReq) (reqSeq : ℕ) (chips : ℤ × ℤ)
    (jetty : Option Lane) :
    Keeps L (C k chips) (postOnLane ctx p idx reqSeq k chips.1 chips.2 jetty)
      fun r => r.elim (A (k + 1)) fun rc m h => rc = -1 ∧ X m h := by
  have hC := hP.chosen k chips
  have hgone : Keeps L X (do
      returnLane idx k jetty
      Bench.giveUp ctx p idx k) fun r => r.elim (A (k + 1)) fun rc m h => rc = -1 ∧ X m h := by
    refine Spec.bind (hP.lost.returnLane _ _ _) fun _ => (hP.giveUp p k).post ?_
    rintro r m h ⟨rfl, hX⟩
    exact ⟨rfl, hX⟩
  refine Spec.bind hC.postEvent fun e => Spec.ite (fun _ => ?_) fun _ => ?_
  · refine Spec.bind (hC.say _) fun _ => Spec.pre hgone fun m h => hP.drop k chips m h
  refine Spec.bind hC.now fun t => ?_
  refine hC.update_bind (fun _ => rfl) ?_
  refine Spec.bind hC.now fun t0 => Quiet.get_bind fun m₀ => ?_
  refine Spec.bind (Q := fun ok => if ok then A (k + 1) else X) ?_ fun ok => ?_
  · cases jetty with
    | none => exact Spec.pure fun m h => hP.drop k chips m h
    | some l => exact hP.post k hk chips _ rfl rfl
  cases ok with
  | true =>
    refine Spec.bind (hP.before (k + 1)).now fun t1 => ?_
    refine (hP.before (k + 1)).update_bind (fun _ => rfl) ?_
    exact (hP.before (k + 1)).update_bind (fun _ => rfl)
      (Spec.pure fun m h hA => hA)
  | false =>
    refine Spec.bind hP.lost.now fun t1 => ?_
    refine hP.lost.update_bind (fun _ => rfl) ?_
    exact Spec.bind (hP.lost.say _) fun _ => Spec.bind (hP.lost.abortEvent _) fun _ => hgone

theorem postWr (p : Pipe) {k : ℕ} (hk : k < kvWrPerReq) (reqSeq : ℕ) :
    Keeps L (A k) (postWr ctx p idx reqSeq k)
      fun r => r.elim (A (k + 1)) fun rc m h => rc = -1 ∧ X m h := by
  refine Spec.bind (hP.choose k hk) fun chips => ?_
  have hC := hP.chosen k chips
  refine Spec.ite (fun _ => Spec.bind (hC.act rfl) fun jetty => ?_) fun _ => ?_
  · cases jetty with
    | none =>
      refine Spec.bind (hC.say _) fun _ => Spec.conseq (hP.giveUp p k)
        (fun m h => hP.drop k chips m h) ?_
      rintro r m h ⟨rfl, hX⟩
      exact ⟨rfl, hX⟩
    | some l =>
      exact hC.update_bind (fun _ => rfl)
        (hP.postOnLane p hk reqSeq chips _)
  · exact Quiet.get_bind fun m₀ => hP.postOnLane p hk reqSeq chips _

/-- **The posts of a request**: it is posted as a whole, or given up. -/
theorem postWrs (p : Pipe) (reqSeq : ℕ) :
    Keeps L (A 0) (Proc.search (Bench.postWr ctx p idx reqSeq) 0 kvWrPerReq)
      fun r => r.elim (A kvWrPerReq) fun rc m h => rc = -1 ∧ X m h := by
  have hall : Keeps L (A 0) (Proc.search (Bench.postWr ctx p idx reqSeq) 0 kvWrPerReq)
      fun r => r.elim (A (0 + kvWrPerReq)) fun rc m h => rc = -1 ∧ X m h :=
    Spec.search A _ fun k _ hk => hP.postWr p (by omega) reqSeq
  rwa [Nat.zero_add] at hall

end PostPlan

/-! ### The pipelines -/

/-- What a proof about the pipelines has to provide. `I n` holds between two requests, when the next
one is due at `n`; `J n` after the pause before a request, `K n` when the post function is called,
and `X` once it has failed. -/
structure Schedule (L : Private Worker H Act) (ctx : Context) (p : Pipe)
    (post : ℕ → ℕ → Code ℤ) (I J K : ℕ → Worker → H → Prop) (X : Worker → H → Prop) : Prop where
  idle : ∀ n, Unbooked L (I n)
  lost : Unbooked L X
  pause : ∀ n, Keeps L (I n) (pause ctx n) J
  back : ∀ n m h, J n m h → I n m h
  pop : ∀ n m h rest, J n m h → J n { m with freeSlots := rest } h
  stamp : ∀ n, Keeps L (J n) now fun _ => K n
  post : ∀ slot seq n, Keeps L (K n) (post slot seq) fun rc m h =>
    (rc = 0 ∧ I n m h) ∨ (rc ≠ 0 ∧ p.fatalRc rc = true ∧ X m h)

namespace Schedule

variable {ctx : Context} {p : Pipe} {post : ℕ → ℕ → Code ℤ} {I J K : ℕ → Worker → H → Prop}
  {X : Worker → H → Prop} (hS : Schedule L ctx p post I J K X)
include hS

theorem harvest (l : Locals) :
    Keeps L (I l.nextReqNs) (Proc.loop (harvestRound p) (0, l))
      (fun r m h => match r with
        | none => I l.nextReqNs m h
        | some l' => I l'.nextReqNs m h) := by
  refine (Spec.loop (fun kl m h => I kl.2.nextReqNs m h ∧ kl.2.nextReqNs = l.nextReqNs)
    (fun kl => ?_) (0, l)).pre fun m h hI => ⟨hI, rfl⟩
  refine Spec.of_fact (fun m h hI => hI.2) fun hn => ?_
  refine ((hS.idle kl.2.nextReqNs).harvestRound p kl).conseq (fun m h hI => hI.1) ?_
  rintro (kl' | r) m h hP
  · exact ⟨hP.2.symm ▸ hP.1, hP.2.trans hn⟩
  · cases r with
    | none => exact hn ▸ hP.1
    | some l' =>
      have hl' : l'.nextReqNs = kl.2.nextReqNs := hP.2 l' rfl
      show I l'.nextReqNs m h
      rw [hl']
      exact hP.1

/-- One request. -/
theorem sendOne (l : Locals) :
    Keeps L (J l.nextReqNs) (sendOne p post l) (Sum.elim (fun l' => I l'.nextReqNs)
      fun r m h => match r with
        | none => X m h
        | some l' => I l'.nextReqNs m h) := by
  refine Spec.get_bind fun m₀ => ?_
  cases m₀.freeSlots with
  | nil =>
    refine Spec.bind (Spec.pre ((hS.idle l.nextReqNs).act rfl) fun m h hJ =>
      hS.back _ m h hJ.2) fun _ => ?_
    exact Spec.pure fun m h hI => hI
  | cons slot rest =>
    refine Spec.modify_bind (J l.nextReqNs) (fun m h hJ => hS.pop _ m h rest hJ.2) ?_
    refine Spec.bind (hS.stamp _) fun t0 => Spec.bind (hS.post slot l.reqSeq _) fun rc => ?_
    by_cases hrc : rc = 0
    · subst hrc
      refine Spec.pre (P := I l.nextReqNs) ?_ fun m h hP => ?_
      · exact Spec.bind (hS.idle _).now fun t1 => Spec.pure fun m h hI => hI
      · rcases hP with ⟨-, hI⟩ | ⟨hne, -⟩
        · exact hI
        · exact absurd rfl hne
    · refine Spec.of_fact (p := p.fatalRc rc = true) (fun m h hP => ?_) fun hfatal => ?_
      · rcases hP with ⟨h0, -⟩ | ⟨-, hf, -⟩
        · exact absurd h0 hrc
        · exact hf
      refine Spec.pre (P := X) ?_ fun m h hP => ?_
      · refine Spec.ite (fun _ => ?_) fun hnot => absurd hrc hnot
        refine hS.lost.update_bind (fun _ => rfl) ?_
        exact Spec.ite (fun _ => Spec.pure fun m h hX => hX) fun hnot => absurd hfatal hnot
      · rcases hP with ⟨h0, -⟩ | ⟨-, -, hX⟩
        · exact absurd h0 hrc
        · exact hX

theorem sendRound (deadline : ℕ) (l : Locals) :
    Keeps L (I l.nextReqNs) (sendRound ctx p post deadline l) (Sum.elim (fun l' => I l'.nextReqNs)
      fun r m h => match r with
        | none => X m h
        | some l' => I l'.nextReqNs m h) := by
  have hidle := hS.idle l.nextReqNs
  have hstop : Keeps L (I l.nextReqNs) (Pure.pure (.inr (some l)) : Code (Locals ⊕ Option Locals))
      (Sum.elim (fun l' => I l'.nextReqNs) fun r m h => match r with
        | none => X m h
        | some l' => I l'.nextReqNs m h) := Spec.pure fun m h hI => hI
  refine Spec.bind (hidle.act rfl) fun _ => Spec.bind hidle.now fun t => ?_
  refine Spec.ite (fun _ => hstop) fun _ => Spec.bind (hidle.act rfl) fun fatal => ?_
  refine Spec.ite (fun _ => hstop) fun _ => Spec.ite (fun _ => hstop) fun _ => ?_
  exact Spec.bind (hS.pause _) fun n => hS.sendOne { l with nextReqNs := n }

theorem workRound (deadline : ℕ) (l : Locals) :
    Keeps L (I l.nextReqNs) (workRound ctx p post deadline l) (Sum.elim (fun l' => I l'.nextReqNs)
      fun r m h => match r with
        | none => (∃ n, I n m h) ∨ X m h
        | some l' => I l'.nextReqNs m h) := by
  refine Spec.bind (hS.harvest l) fun r => ?_
  cases r with
  | none => exact Spec.pure fun m h hI => Or.inl ⟨_, hI⟩
  | some l₁ =>
    refine Spec.bind (Spec.loop (fun l' => I l'.nextReqNs) (hS.sendRound deadline) l₁) fun r => ?_
    cases r with
    | none => exact Spec.pure fun m h hX => Or.inr hX
    | some l₂ =>
      refine Spec.bind (hS.idle _).now fun t => Spec.pure fun m h hI => ?_
      have hnext : (if l₂.lastPollNs ≠ 0 then
          { l₂ with maxPollNs := max l₂.maxPollNs (sub64 t l₂.lastPollNs) } else l₂).nextReqNs =
          l₂.nextReqNs := by split <;> rfl
      show I (if l₂.lastPollNs ≠ 0 then
          { l₂ with maxPollNs := max l₂.maxPollNs (sub64 t l₂.lastPollNs) } else l₂).nextReqNs m h
      rw [hnext]
      exact hI

/-- **The main loop.** -/
theorem mainLoop {S : Worker → H → Prop} (hstart : Keeps L S now I) (deadline : ℕ) :
    Keeps L S (mainLoop ctx p post deadline) fun _ m h => (∃ n, I n m h) ∨ X m h := by
  refine Spec.bind hstart fun t => ?_
  have hloop : Keeps L (I t) (Proc.loop (mainRound ctx p post deadline) ⟨t, 0, 0, 0, 0, 0, 0⟩)
      (fun r m h => match r with
        | none => (∃ n, I n m h) ∨ X m h
        | some l' => I l'.nextReqNs m h) := by
    refine Spec.loop (fun (l : Locals) => I l.nextReqNs) (fun l => ?_) ⟨t, 0, 0, 0, 0, 0, 0⟩
    refine Spec.bind ((hS.idle _).act rfl) fun _ => ?_
    refine Spec.bind ((hS.idle _).keepsRunning deadline) fun b => ?_
    exact Spec.ite (fun _ => hS.workRound deadline l) fun _ => Spec.pure fun m h hI => hI
  refine Spec.bind hloop fun r => ?_
  cases r with
  | none => exact Spec.pure fun m h hX => hX
  | some l => exact Spec.bind ((hS.idle _).say _) fun _ => Spec.pure fun m h hI => Or.inl ⟨_, hI⟩

/-- What holds after the main loop is kept by quiet code. -/
theorem after : Unbooked L fun m h => (∃ n, I n m h) ∨ X m h where
  memory hm hP := hP.imp (fun ⟨n, hI⟩ => ⟨n, (hS.idle n).memory hm hI⟩) (hS.lost.memory hm)
  counters ops bytes hP := hP.imp (fun ⟨n, hI⟩ => ⟨n, (hS.idle n).counters ops bytes hI⟩)
    (hS.lost.counters ops bytes)
  owed hP := hP.elim (fun ⟨n, hI⟩ => (hS.idle n).owed hI) hS.lost.owed
  counted hP hr := hP.imp (fun ⟨n, hI⟩ => ⟨n, (hS.idle n).counted hI hr⟩) (hS.lost.counted · hr)
  duty he hP := hP.elim (fun ⟨n, hI⟩ => (hS.idle n).duty he hI) (hS.lost.duty he)
  step he hP hr := hP.imp (fun ⟨n, hI⟩ => ⟨n, (hS.idle n).step he hI hr⟩) (hS.lost.step he · hr)

end Schedule

section Client

variable {ctx : Context} {I J K : ℕ → Worker → H → Prop} {X S : Worker → H → Prop}

theorem Schedule.clientWritePipeline
    (hS : Schedule L ctx (writePipe ctx.args) (postOneReq ctx) I J K X)
    (hstart : Keeps L S now I) (deadline : ℕ) :
    Keeps L S (clientWritePipeline ctx deadline) fun _ m h => (∃ n, I n m h) ∨ X m h := by
  refine Spec.bind (hS.mainLoop hstart deadline) fun ok => ?_
  refine Spec.ite (fun _ => ?_) fun _ => Quiet.pure _
  refine Quiet.bind (Quiet.bind hS.after.now fun t => Quiet.pure _) fun drainDeadline => ?_
  refine Quiet.bind (Quiet.loop (hS.after.drainWriteRound _ _) _) fun failures => ?_
  exact Quiet.bind (hS.after.reportFailures _) fun _ => Quiet.pure _

theorem Schedule.clientGetPipeline
    (hS : Schedule L ctx (getPipe ctx.args) (postOneGet ctx) I J K X)
    (hstart : Keeps L S now I) (deadline : ℕ) :
    Keeps L S (clientGetPipeline ctx deadline) fun _ m h => (∃ n, I n m h) ∨ X m h := by
  refine Spec.bind (hS.mainLoop hstart deadline) fun ok => ?_
  refine Spec.ite (fun _ => ?_) fun _ => Quiet.pure _
  refine Quiet.bind (Quiet.bind hS.after.now fun t => Quiet.pure _) fun drainDeadline => ?_
  refine Quiet.bind (Quiet.loop (hS.after.drainGetRound _ _) _) fun failures => ?_
  exact Quiet.bind (hS.after.reportFailures _) fun _ => Quiet.pure _

/-- **A worker of a pipeline**, from an assertion `P` of its start. -/
theorem clientWorkerMain_keeps (hop : ctx.args.op ≠ .mixed) (hF : Framed L P)
    (hset : ∀ m h nextPostNs off,
      P m h → S { m with nextPostNs := nextPostNs, off := off } h)
    (hstart : Keeps L S now I)
    (hwrite : Schedule L ctx (writePipe ctx.args) (postOneReq ctx) I J K X)
    (hget : Schedule L ctx (getPipe ctx.args) (postOneGet ctx) I J K X) :
    Keeps L P (clientWorkerMain ctx) fun _ m h => (∃ n, I n m h) ∨ X m h := by
  refine Spec.bind hF.now fun t => Spec.bind hF.now fun t' => ?_
  refine Spec.modify_bind S (fun m h hP => hset m h _ _ hP) ?_
  cases hcase : ctx.args.op with
  | mixed => exact absurd hcase hop
  | write =>
    refine Spec.bind (hwrite.clientWritePipeline hstart _) fun rc => ?_
    exact Spec.ite (fun _ => hwrite.after.countError ctx) fun _ => Quiet.pure _
  | get =>
    refine Spec.bind (hget.clientGetPipeline hstart _) fun rc => ?_
    exact Spec.ite (fun _ => hget.after.countError ctx) fun _ => Quiet.pure _

end Client

end Frames

end KvBench.Bench
