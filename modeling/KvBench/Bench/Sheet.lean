import KvBench.Bench.Clients
import KvBench.Bench.Frames
import KvBench.Conc.Exact

/-!
# The books of a worker

A `Sheet` is the part of the history of a run that one worker writes alone: what it posted and what
became of it, the operations it counted, the lanes it took and gave back. What the workers promise
each other about single steps is here what a worker may assume of its own (`Sheet.Fact`), so that its
code can be followed on exact states (`Acts`), without a look at the others.

A state is the sheet with the `Face` of the worker: its request slots, as far as lanes and events are
concerned, and its counters.
-/

namespace KvBench.Bench

open KvBench.Conc KvBench.Events KvBench.Hist KvBench.Lanes
open Worker (setSlot)

/-! ### Sheets -/

/-- What a worker has done so far. -/
structure Sheet where
  posted : List Posted
  tally : List (List Wr)
  acquired : Lane → ℕ
  released : Lane → ℕ

/-- The sheet of the worker `w`. -/
def sheetOf (w : ℕ) (s : Sys) : Sheet := ⟨s.posted w, s.tally w, s.acquired w, s.released w⟩

/-- The work request `p` after that for the token `t` has met its fate. -/
def Posted.settled (t : ℕ) (fate : Fate) (p : Posted) : Posted :=
  if p.wr.token = t ∧ p.fate = .pending then { p with fate := fate } else p

namespace Sheet

/-- A posted work request waits for the token `t`. -/
def Awaits (h : Sheet) (t : ℕ) : Prop := ∃ p ∈ h.posted, p.fate = .pending ∧ p.wr.token = t

def settle (t : ℕ) (fate : Fate) (h : Sheet) : Sheet :=
  { h with posted := Bench.settle t fate h.posted }

def post (id : WrId) (wr : Wr) (h : Sheet) : Sheet :=
  { h with posted := ⟨id, wr, .pending⟩ :: h.posted }

def take (l : Lane) (h : Sheet) : Sheet :=
  { h with acquired := Function.update h.acquired l (h.acquired l + 1) }

def giveBack (l : Lane) (h : Sheet) : Sheet :=
  { h with released := Function.update h.released l (h.released l + 1) }

def count (ids : List WrId) (h : Sheet) : Sheet :=
  { h with tally := landedOf ids h.posted :: h.tally }

/-- What a step with its response adds. -/
def record {β : Type} : Act β → β → Sheet → Sheet
  | .casStrong k expected desired, r, h =>
    { h with posted := settleBy (.casStrong k expected desired) r h.posted }
  | .casWeak k expected desired, r, h =>
    { h with posted := settleBy (.casWeak k expected desired) r h.posted }
  | .popIdle _, r, h => r.elim h h.take
  | .release _ l, _, h => h.giveBack l
  | .post id wr, r, h => if r then h.post id wr else h
  | .count ids, _, h => h.count ids
  | _, _, h => h

/-- What a worker may assume of a step and its response. -/
def Fact (h : Sheet) {β : Type} : Act β → β → Prop
  | .casStrong _ expected desired, r => desired = 0 → r = none → h.Awaits (expected >>> 2)
  | .popIdle _, r => ∀ l ∈ r, h.acquired l = h.released l
  | .post _ wr, _ => ¬ h.Awaits wr.token
  | _, _ => True

end Sheet

/-- The sheet as the history of a worker. -/
def sheets : Private Worker Sheet Act where
  step := Sheet.record
  fact _ h e r := h.Fact e r
  duty _ _ _ := True

theorem recorded_sheets (n : ℕ) (mode : ℕ → Mode) (pace : Pace) :
    Recorded sheets (bench n mode pace) fun (i : Fin n) s => sheetOf i s where
  own {β} w o e s := by
    show sheetOf w (e.run w o s).2 = (sheetOf w s).record e (e.run w o s).1
    cases e with
    | load k => simp [sheetOf, Act.run, Sys.access, Sheet.record, settleBy]
    | casStrong k expected desired => simp [sheetOf, Act.run, Sys.access, Sheet.record]
    | casWeak k expected desired => simp [sheetOf, Act.run, Sys.access, Sheet.record]
    | popIdle send =>
      unfold Act.run
      dsimp only
      split
      · rename_i h
        rw [h]
        rfl
      · rename_i l h
        rw [h]
        simp [sheetOf, Sheet.record, Sheet.take]
    | release send l => simp [sheetOf, Act.run, Sheet.record, Sheet.giveBack]
    | post id r =>
      unfold Act.run
      dsimp only
      split
      · simp [sheetOf, Sys.addPost, Sheet.record, Sheet.post]
      · rfl
    | count ids => simp [sheetOf, Act.run, Sheet.record, Sheet.count]
    | _ => rfl
  other {β} v w o e s hne := by
    have hw : (w : ℕ) ≠ v := fun h => hne (Fin.ext h)
    show sheetOf w (e.run v o s).2 = sheetOf w s
    have hslot : ∀ {γ : Type} (a : SlotAct γ), sheetOf w (s.access v o a).2 = sheetOf w s :=
      fun a => by simp [sheetOf, Sys.access, Function.update_of_ne hw]
    cases e with
    | load k => exact hslot _
    | casStrong k expected desired => exact hslot _
    | casWeak k expected desired => exact hslot _
    | popIdle send =>
      unfold Act.run
      dsimp only
      split
      · rfl
      · simp [sheetOf, Function.update_of_ne hw]
    | release send l => simp [sheetOf, Act.run, Function.update_of_ne hw]
    | post id r =>
      unfold Act.run
      dsimp only
      split
      · simp [sheetOf, Sys.addPost, Function.update_of_ne hw]
      · rfl
    | count ids => simp [sheetOf, Act.run, Function.update_of_ne hw]
    | _ => rfl
  env w e s := by cases e <;> rfl

theorem Inv.mem_idle_of_popIdle {B : Setup} {s : Sys} (h : Inv B s) {l : Lane}
    (hl : s.lanes.popIdle.1 = some l) : l ∈ s.lanes.idle := by
  rw [(SendJettyPool.popIdle_spec h.lanes).2.2.1] at hl
  exact List.mem_of_mem_head? hl

/-- The discipline of the workers gives what a sheet assumes. -/
theorem factual_of_good {B : Setup} {α : Type} {c : Conf (Fin B.n) Worker Sys Act α}
    {Q : Fin B.n → α → Sys → Prop}
    (hc : c.Good B.judgement Q) :
    Factual sheets (bench B.n B.mode B.pace) (fun (i : Fin B.n) s => sheetOf i s) c := by
  intro β w m e k hp o ho
  have hpromise := hc.promise hp ho
  cases e with
  | casStrong k expected desired => exact hpromise
  | post id r => exact hpromise
  | popIdle send =>
    intro l hl
    have hinv : Inv B c.state := hc.inv
    -- a lane of the idle queue has no holder
    have hidle : l ∈ c.state.lanes.idle := hinv.mem_idle_of_popIdle hl
    have hbal := hinv.balance w l
    rw [((hinv.idle l).1 hidle).2] at hbal
    exact hbal
  | _ => trivial

/-! ### Faces -/

/-- The lanes and the events of a request slot. -/
structure Cell where
  jetty : ℕ → Option Lane
  token : ℕ → ℕ
  done : ℕ → Bool
  doneCnt : ℕ

def WrSlot.cell (s : WrSlot) : Cell := ⟨s.jetty, s.eventToken, s.done, s.doneCnt⟩

/-- The part of the memory of a worker that its books are about. -/
structure Face where
  cells : ℕ → Cell
  activeSlots : List ℕ
  freeSlots : List ℕ
  ops : ℕ
  bytes : ℕ

def Worker.face (m : Worker) : Face :=
  ⟨fun idx => (m.wrSlots idx).cell, m.activeSlots, m.freeSlots, m.ops, m.bytes⟩

/-- The cell `idx` becomes `c`. -/
def Face.setCell (idx : ℕ) (c : Cell) (F : Face) : Face :=
  { F with cells := Function.update F.cells idx c }

@[simp] theorem Face.cells_setCell_self (F : Face) (idx : ℕ) (c : Cell) :
    (F.setCell idx c).cells idx = c := Function.update_self _ _ _

theorem Face.cells_setCell_of_ne (F : Face) {idx idx' : ℕ} (c : Cell) (h : idx' ≠ idx) :
    (F.setCell idx c).cells idx' = F.cells idx' := Function.update_of_ne h _ _

@[simp] theorem Face.setCell_setCell (F : Face) (idx : ℕ) (c c' : Cell) :
    (F.setCell idx c).setCell idx c' = F.setCell idx c' := by
  simp [Face.setCell]

@[simp] theorem Face.setCell_self (F : Face) (idx : ℕ) : F.setCell idx (F.cells idx) = F := by
  simp [Face.setCell]

theorem Worker.cell_eq {m : Worker} {F : Face} (hm : m.face = F) (idx : ℕ) :
    (m.wrSlots idx).cell = F.cells idx := by
  rw [← hm]
  rfl

theorem face_setSlot {m : Worker} {F : Face} (hm : m.face = F) (idx : ℕ) {f : WrSlot → WrSlot}
    (g : Cell → Cell) (hf : ∀ s, (f s).cell = g s.cell) :
    (setSlot idx f m).face = F.setCell idx (g (F.cells idx)) := by
  subst hm
  unfold Worker.face Face.setCell
  congr 1
  funext idx'
  by_cases hi : idx' = idx
  · subst hi
    rw [wrSlots_setSlot_self, Function.update_self, hf]
  · rw [wrSlots_setSlot_of_ne m f hi, Function.update_of_ne hi]

/-- The event slots on the free stack exist. -/
def Worker.EvOk (m : Worker) : Prop := ∀ k ∈ m.ev.freeSlots, k < 256

theorem createWorker_evOk (args : Argument) (hist : KvHist) (w : ℕ) :
    (createWorker args hist w).EvOk := by
  intro k hk
  have hfree : EventSlots.fresh.freeSlots = List.range kSlotCount := by
    simp only [EventSlots.fresh]
  rw [createWorker, hfree] at hk
  exact List.mem_range.1 hk

/-! ### Code on exact states -/

/-- Started with the face `F` and the sheet `h`, the code returns, if it does, with `Q`. -/
abbrev Acts {α : Type} (F : Face) (h : Sheet) (x : Code α) (Q : α → Face → Sheet → Prop) : Prop :=
  Runs sheets Worker.EvOk Worker.face F h x Q

/-- The code changes neither. -/
abbrev Still {α : Type} (F : Face) (h : Sheet) (x : Code α) : Prop :=
  Acts F h x fun _ F' h' => F' = F ∧ h' = h

namespace Acts

variable {α β : Type} {F F' : Face} {h : Sheet} {x : Code α} {R : β → Face → Sheet → Prop}

theorem act_bind {e : Act α} {f : α → Code β} (hf : ∀ r, h.Fact e r → Acts F (h.record e r) (f r) R) :
    Acts F h (Proc.act e >>= f) R := by
  refine Runs.bind (Q := fun r F' h' => h.Fact e r ∧ F' = F ∧ h' = h.record e r)
    (Runs.act (fun _ => trivial) fun m r _ _ hr => ⟨hr, rfl, rfl⟩) ?_
  rintro r _ _ ⟨hr, rfl, rfl⟩
  exact hf r hr

theorem now_bind {f : ℕ → Code β} (hf : ∀ t, Acts F h (f t) R) : Acts F h (now >>= f) R :=
  act_bind fun t _ => hf t

theorem say_bind {line : Message} {f : Unit → Code β} (hf : Acts F h (f ()) R) :
    Acts F h (say line >>= f) R :=
  act_bind fun _ _ => hf

/-- A change of the memory that the face does not show. -/
theorem unseen_bind {g : Worker → Worker} {f : PUnit → Code β} (hg : ∀ m, (g m).ev = m.ev)
    (hface : ∀ m, (g m).face = m.face) (hf : Acts F h (f ⟨⟩) R) : Acts F h (modify g >>= f) R := by
  refine Runs.modify_bind F (fun m hm hF => ⟨?_, (hface m).trans hF⟩) hf
  unfold Worker.EvOk
  rw [hg]
  exact hm

theorem modify_bind {g : Worker → Worker} {f : PUnit → Code β} (F' : Face)
    (hg : ∀ m, (g m).ev = m.ev) (hface : ∀ m, m.face = F → (g m).face = F')
    (hf : Acts F' h (f ⟨⟩) R) : Acts F h (modify g >>= f) R := by
  refine Runs.modify_bind F' (fun m hm hF => ⟨?_, hface m hF⟩) hf
  unfold Worker.EvOk
  rw [hg]
  exact hm

theorem update {g : Worker → Worker} {R : PUnit → Face → Sheet → Prop} (F' : Face)
    (hg : ∀ m, (g m).ev = m.ev) (hface : ∀ m, m.face = F → (g m).face = F') (hR : R ⟨⟩ F' h) :
    Acts F h (modify g) R := by
  refine Runs.modify F' (fun m hm hF => ⟨?_, hface m hF⟩) hR
  unfold Worker.EvOk
  rw [hg]
  exact hm

theorem slot_bind {idx : ℕ} {f : WrSlot → WrSlot} {k : PUnit → Code β} (g : Cell → Cell)
    (hf : ∀ s, (f s).cell = g s.cell) (hk : Acts (F.setCell idx (g (F.cells idx))) h (k ⟨⟩) R) :
    Acts F h (modify (setSlot idx f) >>= k) R :=
  modify_bind _ (fun _ => rfl) (fun _ hm => face_setSlot hm idx g hf) hk

theorem slot {idx : ℕ} {f : WrSlot → WrSlot} {R : PUnit → Face → Sheet → Prop} (g : Cell → Cell)
    (hf : ∀ s, (f s).cell = g s.cell) (hR : R ⟨⟩ (F.setCell idx (g (F.cells idx))) h) :
    Acts F h (modify (setSlot idx f)) R :=
  update _ (fun _ => rfl) (fun _ hm => face_setSlot hm idx g hf) hR

/-- A change of a slot that its cell does not show. -/
theorem unseen_slot_bind {idx : ℕ} {f : WrSlot → WrSlot} {k : PUnit → Code β}
    (hf : ∀ s, (f s).cell = s.cell) (hk : Acts F h (k ⟨⟩) R) :
    Acts F h (modify (setSlot idx f) >>= k) R := by
  refine slot_bind (fun c => c) hf ?_
  rwa [Face.setCell_self]

/-- Code that leaves the face alone, and then the rest. -/
theorem same_bind {Φ : α → Sheet → Prop} {f : α → Code β}
    (hx : Acts F h x fun a F' h' => F' = F ∧ Φ a h')
    (hf : ∀ a h', Φ a h' → Acts F h' (f a) R) : Acts F h (x >>= f) R := by
  refine Runs.bind hx ?_
  rintro a _ h' ⟨rfl, ha⟩
  exact hf a h' ha

end Acts

namespace Still

variable {α β : Type} {F : Face} {h : Sheet} {x : Code α} {R : β → Face → Sheet → Prop}

theorem bind {f : α → Code β} (hx : Still F h x) (hf : ∀ a, Acts F h (f a) R) :
    Acts F h (x >>= f) R :=
  Acts.same_bind hx fun a _ hh => hh ▸ hf a

theorem passive {e : Act β} (he : e.passive = true) : Still F h (Proc.act e) := by
  refine Runs.act (fun _ => trivial) fun m r _ _ _ => ⟨rfl, ?_⟩
  cases e with
  | now => rfl
  | sleep ns => rfl
  | loadStop => rfl
  | loadFatal => rfl
  | _ => exact nomatch he

theorem waitUntil (wakeNs t : ℕ) : Still F h (waitUntil wakeNs t) := Quiet.waitUntil passive _ _

theorem pause (ctx : Context) (nextReqNs : ℕ) : Still F h (pause ctx nextReqNs) :=
  Quiet.pause passive _ _

theorem keepsRunning (deadline : ℕ) : Still F h (keepsRunning deadline) :=
  Quiet.keepsRunning passive _

end Still

/-! ### The calls into `UrmaManager` -/

/-- What `ProbeEvent` of the token `t` does to the sheet. -/
inductive Probed (t : ℕ) (h : Sheet) : ℤ → Sheet → Prop
  | nothing : Probed t h 0 h
  | landed (haw : h.Awaits t) : Probed t h 1 (h.settle t .landed)
  | failed (haw : h.Awaits t) : Probed t h (-1) (h.settle t .failed)

/-- What `AbortEvent` does to it. -/
inductive Dropped (t : ℕ) (h : Sheet) : Sheet → Prop
  | nothing : Dropped t h h
  | aborted : Dropped t h (h.settle t .aborted)

/-- What `WaitEvent` does to it. -/
inductive Waited (t : ℕ) (h : Sheet) : Bool → Sheet → Prop
  | landed (haw : h.Awaits t) : Waited t h true (h.settle t .landed)
  | failed : Waited t h false (h.settle t .failed)
  | dropped {h' : Sheet} (hd : Dropped t h h') : Waited t h false h'

section Calls

variable {F : Face} {h : Sheet} {t : ℕ}

theorem token_userCtxOf (w : ℕ) (ht : t < 2 ^ 40) : userCtxOf w t &&& kRidMask = t := by
  have hand : userCtxOf w t &&& kRidMask = userCtxOf w t % 2 ^ 40 :=
    Nat.and_two_pow_sub_one_eq_mod _ 40
  have hzero : (w <<< kRidShift) % 2 ^ 64 % 2 ^ 40 = 0 := by
    unfold kRidShift
    rw [Nat.shiftLeft_eq]
    omega
  rw [hand, userCtxOf, Nat.or_mod_two_pow, hzero, Nat.zero_or, Nat.mod_eq_of_lt ht]

theorem evOk_release {m : Worker} (hm : m.EvOk) (t : ℕ) :
    (eventPort.setSlots ((eventPort.slots m).release (index t)) m).EvOk := by
  intro k hk
  rcases List.mem_cons.1 hk with rfl | hk
  · exact index_lt t
  · exact hm k hk

theorem postEvent_acts : Acts F h postEvent fun r F' h' =>
    F' = F ∧ h' = h ∧ (r.1 ≠ 0 → r.2 < 2 ^ 40 ∧ r.1 &&& kRidMask = r.2) := by
  unfold postEvent Port.acquire
  refine Acts.same_bind (Φ := fun r h' => h' = h ∧ ∀ t ∈ r, t < 2 ^ 40) ?_ ?_
  · refine Runs.get_bind fun m hm _ => ?_
    dsimp only
    cases hfree : m.ev.freeSlots with
    | nil =>
      rw [eventPort_slots, hfree]
      exact Runs.pure ⟨rfl, rfl, by simp⟩
    | cons k rest =>
      rw [eventPort_slots, hfree]
      have hk : k < 256 := hm k (hfree ▸ List.mem_cons_self)
      obtain ⟨⟨ht0, ht⟩, -⟩ := tokenOf_nextGeneration (m.ev.generations k) hk
      refine Runs.modify_bind F (fun m' _ hF => ⟨fun j hj => ?_, hF⟩) ?_
      · exact hm j (hfree ▸ List.mem_cons_of_mem k hj)
      refine Acts.act_bind fun r _ => ?_
      have hsame : h.record (eventPort.access (.casStrong k 0 (pending
          (tokenOf (nextGeneration (m.ev.generations k)) k)))) r = h := by
        show { h with posted := settleBy _ r h.posted } = h
        rw [settleBy_casStrong (.inr (pending_ne_zero ht0 ht))]
      rw [hsame]
      cases r with
      | none => exact Runs.pure ⟨rfl, rfl, by simpa using ht⟩
      | some found =>
        refine Runs.modify_bind F (fun m' hm' hF => ⟨fun j hj => ?_, hF⟩)
          (Runs.pure ⟨rfl, rfl, by simp⟩)
        rcases List.mem_cons.1 hj with rfl | hj
        · exact hk
        · exact hm' j hj
  · rintro r h' ⟨rfl, hr⟩
    cases r with
    | none => exact Runs.pure ⟨rfl, rfl, fun h0 => absurd rfl h0⟩
    | some t =>
      have ht := hr t rfl
      exact Runs.get_bind fun m _ _ => Runs.pure ⟨rfl, rfl, fun _ => ⟨ht, token_userCtxOf m.id ht⟩⟩

theorem probeEvent_acts (ht : t < 2 ^ 40) :
    Acts F h (probeEvent t) fun r F' h' => F' = F ∧ Probed t h r h' := by
  unfold probeEvent Port.probe
  refine Runs.ite (fun _ => Runs.pure ⟨rfl, .nothing⟩) fun _ => ?_
  refine Acts.act_bind fun value _ => ?_
  show Acts F h (eventPort.probeValue t value) _
  unfold Port.probeValue
  refine Runs.ite (fun _ => Runs.pure ⟨rfl, .nothing⟩) fun hvalue => ?_
  obtain ⟨ok, rfl⟩ : ∃ ok, value = done t ok := by
    by_cases htrue : value = done t true
    · exact ⟨true, htrue⟩
    · exact ⟨false, not_not.1 fun hfalse => hvalue ⟨htrue, hfalse⟩⟩
  refine Acts.act_bind fun r hr => ?_
  cases r with
  | some found =>
    have hsame : h.record (eventPort.access (.casStrong (index t) (done t ok) 0)) (some found) = h := by
      show { h with posted := settleBy _ (some found) h.posted } = h
      rw [settleBy_casStrong (.inl (by simp))]
    rw [hsame]
    exact Runs.pure ⟨rfl, .nothing⟩
  | none =>
    have haw : h.Awaits t := by
      have := hr rfl rfl
      rwa [done_shift ht] at this
    have hsettle : h.record (eventPort.access (.casStrong (index t) (done t ok) 0)) none =
        h.settle t (if ok then .landed else .failed) := by
      show { h with posted := settleBy _ none h.posted } = _
      rw [settleBy_clear ht]
      rfl
    rw [hsettle]
    refine Runs.modify_bind F (fun m hm hF => ⟨evOk_release hm t, hF⟩) (Runs.pure ⟨rfl, ?_⟩)
    cases ok with
    | true => simpa using Probed.landed haw
    | false =>
      have hne : done t false ≠ done t true := fun heq => by simpa using (done_inj ht ht heq).2
      simpa [hne] using Probed.failed haw

theorem abortEvent_acts : Acts F h (abortEvent t) fun _ F' h' => F' = F ∧ Dropped t h h' := by
  unfold abortEvent Port.abort
  refine Acts.same_bind (Φ := fun _ h' => Dropped t h h') ?_ fun _ h' hd => Runs.pure ⟨rfl, hd⟩
  refine Runs.ite (fun _ => Runs.pure ⟨rfl, .nothing⟩) fun _ => Acts.act_bind fun value _ => ?_
  refine Runs.loop (fun _ F' h' => F' = F ∧ h' = h) ?_ ⟨rfl, rfl⟩
  rintro value F h ⟨rfl, rfl⟩
  unfold Port.abortRound
  refine Runs.ite (fun hvalue => Acts.act_bind fun r _ => ?_) fun _ =>
    Runs.pure ⟨rfl, .nothing⟩
  cases r with
  | some found => exact Runs.pure ⟨rfl, rfl⟩
  | none =>
    refine Runs.modify_bind _ (fun m hm hF => ⟨evOk_release hm t, hF⟩) (Runs.pure ⟨rfl, ?_⟩)
    have hsettle : Sheet.record (eventPort.access (.casWeak (index t) value 0)) none h =
        h.settle t .aborted := by
      show { h with posted := settleBy _ none h.posted } = _
      simp only [settleBy, if_true, hvalue]
      rfl
    rw [hsettle]
    exact .aborted

theorem waitEvent_acts (ht : t < 2 ^ 40) (timeoutMs : ℤ) :
    Acts F h (waitEvent t timeoutMs) fun ok F' h' => F' = F ∧ Waited t h ok h' := by
  unfold waitEvent
  refine Acts.now_bind fun t₀ => ?_
  refine Acts.same_bind (Φ := fun r h' => r.elim (h' = h) fun ok => Waited t h ok h') ?_ ?_
  · refine Runs.loop (fun _ F' h' => F' = F ∧ h' = h) ?_ ⟨rfl, rfl⟩
    rintro _ F h ⟨rfl, rfl⟩
    unfold waitRound
    refine Acts.same_bind (probeEvent_acts ht) fun result h' hp => ?_
    refine Runs.ite (fun hne => Runs.pure ⟨rfl, ?_⟩) fun h0 => ?_
    · cases hp with
      | nothing => exact absurd rfl hne
      | landed haw => exact .landed haw
      | failed haw => exact .failed
    · have hsame : h' = h := by
        cases hp with
        | nothing => rfl
        | landed haw => exact absurd (by decide) h0
        | failed haw => exact absurd (by decide) h0
      subst hsame
      refine Acts.now_bind fun t₁ => Runs.ite (fun _ => Runs.pure ⟨rfl, rfl⟩) fun _ => ?_
      exact Acts.act_bind fun _ _ => Runs.pure ⟨rfl, rfl⟩
  · intro r h' hr
    cases r with
    | some ok => exact Runs.pure ⟨rfl, hr⟩
    | none =>
      obtain rfl : h' = h := hr
      unfold finalLook
      have hend : ∀ (result : ℤ) (h₁ : Sheet), Waited t h' (decide (result = 1)) h₁ →
          Acts F h₁ (do
            modify fun m : Worker => { m with lastLook := none }
            pure (decide (result = 1))) fun ok F' h₂ => F' = F ∧ Waited t h' ok h₂ :=
        fun result h₁ hw => Acts.unseen_bind (fun _ => rfl) (fun _ => rfl) (Runs.pure ⟨rfl, hw⟩)
      refine Acts.unseen_bind (fun _ => rfl) (fun _ => rfl) ?_
      refine Acts.same_bind (probeEvent_acts ht) fun result h₁ hp => ?_
      cases hp with
      | nothing =>
        exact Acts.same_bind abortEvent_acts fun _ h₂ hd => hend 0 h₂ (.dropped hd)
      | landed haw => exact hend 1 _ (.landed haw)
      | failed haw => exact hend (-1) _ .failed

theorem acquireSendLane_acts (σ : SendId) : Acts F h (acquireSendLane σ) fun r F' h' =>
    F' = F ∧ h' = r.elim h h.take ∧ ∀ l ∈ r, h.acquired l = h.released l :=
  Runs.act (fun _ => trivial) fun _ _ _ _ hr => ⟨rfl, rfl, hr⟩

theorem releaseSendLane_acts (σ : SendId) (l : Option Lane) : Acts F h (releaseSendLane σ l)
    fun _ F' h' => F' = F ∧ h' = l.elim h h.giveBack := by
  cases l with
  | none => exact Runs.pure ⟨rfl, rfl⟩
  | some l => exact Runs.act (fun _ => trivial) fun _ _ _ _ _ => ⟨rfl, rfl⟩

theorem postRw_acts (id : WrId) (read : Bool) (l : Lane) (localAddr remoteAddr len : ℕ)
    (src dst : ℤ) (userCtx : ℕ) :
    Acts F h (postRw id read (some l) localAddr remoteAddr len src dst userCtx) fun ok F' h' =>
      F' = F ∧ ∃ r : Wr, (r.lane = l ∧ r.len = len % 2 ^ 32 ∧ r.token = userCtx &&& kRidMask) ∧
        ¬ h.Awaits r.token ∧ h' = if ok then h.post id r else h :=
  Runs.act (fun _ => trivial) fun _ _ _ _ hr => ⟨rfl, _, ⟨rfl, rfl, rfl⟩, hr, rfl⟩

theorem count_acts (ids : List WrId) : Acts F h (count ids) fun _ F' h' => F' = F ∧ h' = h.count ids :=
  Runs.act (fun _ => trivial) fun _ _ _ _ _ => ⟨rfl, rfl⟩

end Calls

end KvBench.Bench
