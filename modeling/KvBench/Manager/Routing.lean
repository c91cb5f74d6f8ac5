import KvBench.Bench.Discipline
import KvBench.Conc.Local

/-!
# Routing of completions (`urma_manager.cpp`)

Workers register with a manager and get a number; `PostEvent` packs the number and a token of the
worker's event slots into the `user_ctx` of a work request, and the poll thread takes them apart
again. Here any number of threads register and then call `PostEvent`, `ProbeEvent` and `AbortEvent`
in any way (`WaitEvent` is a sequence of the latter two), and the poll thread may at any time be
handed any `user_ctx`.

The words of the event slots are shared, so what is known of them (`Held`) follows from what a single
atomic access does. What a thread owes is only that its accesses are of two kinds: an exchange from
`0` to pending of a token of the slot, and one to `0`.
-/

namespace KvBench.Manager

open KvBench.Bench KvBench.Conc KvBench.Events

/-! ### The manager -/

/-- `kMaxRegisteredWorkers`. -/
def kMaxRegisteredWorkers : ℕ := 1024

/-- A call of `PostEvent`: what it returned, the number of free slots before and after it, and the
tokens that were put into slots by it. -/
structure Answer where
  wid : ℕ
  userCtx : ℕ
  token : ℕ
  before : ℕ
  after : ℕ
  issued : List ℕ

/-- The history of a thread: its number, its calls of `PostEvent`, and what it has done since the last
one began. -/
structure Notes where
  wid : Option ℕ
  before : ℕ
  issued : List ℕ
  answers : List Answer

/-- What the threads share. No code reads `live`, the tokens in the slots of a worker, and `notes`. -/
structure State where
  workerCount : ℕ
  /-- `states_` of the event slots of each worker. -/
  states : ℕ → ℕ → ℕ
  live : ℕ → List ℕ
  notes : ℕ → Notes

/-- The atomic steps of a thread. -/
inductive Act : Type → Type where
  /-- `RegisterWorker`: the number of the worker, or `none` when it returns `false`. -/
  | registerWorker : Act (Option ℕ)
  /-- The load of `workerCount_` in `GetEventSlots`. -/
  | loadCount : Act ℕ
  | load (wid index : ℕ) : Act ℕ
  | casStrong (wid index expected desired : ℕ) : Act (Option ℕ)
  | casWeak (wid index expected desired : ℕ) : Act (Option ℕ)
  /-- `PostEvent` begins, with this number of free slots. -/
  | call (free : ℕ) : Act Unit
  /-- `PostEvent` ends, with what it returns. -/
  | answer (wid userCtx token free : ℕ) : Act Unit

/-- The accesses to the event slots of a worker. -/
def Act.slot (wid : ℕ) {β : Type} : SlotAct β → Act β
  | .load index => .load wid index
  | .casStrong index expected desired => .casStrong wid index expected desired
  | .casWeak index expected desired => .casWeak wid index expected desired

/-- The tokens in slots after an access with its response. -/
def liveAfter {β : Type} : SlotAct β → β → List ℕ → List ℕ
  | .load _, _, l => l
  | .casStrong _ expected desired, r, l =>
    if r = none then if desired = 0 then l.erase (expected >>> 2) else (desired >>> 2) :: l else l
  | .casWeak _ expected _, r, l => if r = none then l.erase (expected >>> 2) else l

/-- An access to the event slots of the worker `wid`. -/
def State.access {β : Type} (s : State) (wid : ℕ) (spurious : Bool) (e : SlotAct β) : β × State :=
  ((e.run spurious (s.states wid)).1,
    { s with
      states := Function.update s.states wid (e.run spurious (s.states wid)).2
      live := Function.update s.live wid
        (liveAfter e (e.run spurious (s.states wid)).1 (s.live wid)) })

/-- The effect of a step. -/
def Act.apply {β : Type} (spurious : Bool) : Act β → State → β × State
  | .registerWorker, s =>
    if kMaxRegisteredWorkers ≤ s.workerCount then (none, s)
    else (some s.workerCount, { s with workerCount := s.workerCount + 1 })
  | .loadCount, s => (s.workerCount, s)
  | .load wid index, s => s.access wid spurious (.load index)
  | .casStrong wid index expected desired, s =>
    s.access wid spurious (.casStrong index expected desired)
  | .casWeak wid index expected desired, s => s.access wid spurious (.casWeak index expected desired)
  | .call _, s => ((), s)
  | .answer _ _ _ _, s => ((), s)

/-- How a step with its response is noted. -/
def Notes.add {β : Type} : Act β → β → Notes → Notes
  | .registerWorker, r, h => { h with wid := r.or h.wid }
  | .casStrong _ _ _ desired, r, h =>
    if r = none ∧ desired ≠ 0 then { h with issued := (desired >>> 2) :: h.issued } else h
  | .call free, _, h => { h with before := free, issued := [] }
  | .answer wid userCtx token free, _, h =>
    { h with answers := ⟨wid, userCtx, token, h.before, free, h.issued⟩ :: h.answers }
  | .loadCount, _, h => h
  | .load _ _, _, h => h
  | .casWeak _ _ _ _, _, h => h

theorem Notes.add_casStrong (h : Notes) (wid i expected desired : ℕ) (r : Option ℕ) :
    (h.add (.casStrong wid i expected desired) r).wid = h.wid ∧
      (h.add (.casStrong wid i expected desired) r).answers = h.answers := by
  unfold Notes.add
  dsimp only
  split <;> exact ⟨rfl, rfl⟩

/-- A completion as `PollThreadMain` takes it out of the completion queue. -/
structure Cqe where
  userCtx : ℕ
  ok : Bool
  deriving DecidableEq

/-- The body of the loop of `PollThreadMain` over the completions. -/
def dispatch (cqe : Cqe) (s : State) : State :=
  { s with
    states := completeEvent s.workerCount (cqe.userCtx >>> kRidShift % 2 ^ 32) cqe.userCtx cqe.ok
      s.states }

/-- The system of `n` threads, with the poll thread as the environment. -/
def manager (n : ℕ) : World (Fin n) EventSlots State Bool Cqe Act where
  run i spurious e s :=
    ((e.apply spurious s).1,
      { (e.apply spurious s).2 with
        notes := Function.update s.notes i ((s.notes i).add e (e.apply spurious s).1) })
  allowed _ _ _ _ _ _ := True
  env := dispatch
  envAllowed _ _ := True

/-! ### The calls -/

/-- A procedure of a thread. Its memory is its half of its event slots. -/
abbrev Code := Proc EventSlots Act

/-- The event slots of the worker `wid`. -/
def port (wid : ℕ) : Port EventSlots Act := ⟨id, fun ev _ => ev, Act.slot wid⟩

/-- `GetEventSlots`, which returns a null pointer or the event slots. -/
def getEventSlots (wid : ℕ) : Code Bool := do
  let count ← Proc.act .loadCount
  pure (wid < count)

/-- `PostEvent`: the `user_ctx` and the token. -/
def postEvent (wid : ℕ) : Code (ℕ × ℕ) := do
  let found ← getEventSlots wid
  if found then do
    match ← (port wid).acquire with
    | none => pure (0, 0)
    | some token => pure (((wid <<< kRidShift) % 2 ^ 64) ||| token, token)
  else pure (0, 0)

/-- `ProbeEvent`. -/
def probeEvent (wid token : ℕ) : Code ℤ := do
  let found ← getEventSlots wid
  if found then (port wid).probe token else pure 0

/-- `AbortEvent`. -/
def abortEvent (wid token : ℕ) : Code Unit := do
  let found ← getEventSlots wid
  if found then do
    let _ ← (port wid).abort token
    pure ()
  else pure ()

/-- The calls a thread makes. -/
inductive Call where
  | post
  | probe (token : ℕ)
  | abort (token : ℕ)

/-- A call of the worker `wid`. -/
def Call.code (wid : ℕ) : Call → Code Unit
  | .post => do
    let before ← get
    Proc.act (.call before.freeSlots.length)
    let (userCtx, token) ← postEvent wid
    let after ← get
    Proc.act (.answer wid userCtx token after.freeSlots.length)
  | .probe token => do
    let _ ← probeEvent wid token
    pure ()
  | .abort token => abortEvent wid token

/-- Calls one after the other. -/
def runCalls (wid : ℕ) : List Call → Code Unit
  | [] => pure ()
  | op :: ops => do
    op.code wid
    runCalls wid ops

/-- A thread: it registers, and makes its calls. -/
def thread (ops : List Call) : Code Unit := do
  match ← Proc.act .registerWorker with
  | none => pure ()
  | some wid => runCalls wid ops

/-- Threads that are about to register. -/
def started {n : ℕ} (ops : Fin n → List Call) : Conf (Fin n) EventSlots State Act (Unit × EventSlots)
    where
  prog i := thread (ops i) .fresh
  time _ := 0
  state := ⟨0, fun _ _ => 0, fun _ => [], fun _ => ⟨none, 0, [], []⟩⟩

/-! ### Tokens in slots -/

/-- An exchange that puts a token into the slot `i`. -/
def Takes (i expected desired : ℕ) : Prop :=
  expected = 0 ∧ ∃ t, 0 < t ∧ t < 2 ^ 40 ∧ index t = i ∧ desired = pending t

/-- An exchange that takes a token out of the slot `i`. -/
def Clears (i expected desired : ℕ) : Prop :=
  desired = 0 ∧ expected ≠ 0 ∧ i = index (expected >>> 2)

/-- The accesses that there are. -/
def Proper {β : Type} : SlotAct β → Prop
  | .load _ => True
  | .casStrong i expected desired => Takes i expected desired ∨ Clears i expected desired
  | .casWeak i expected desired => Clears i expected desired

/-- The words of the slots of a worker, with the tokens in them. -/
structure Held (words : ℕ → ℕ) (live : List ℕ) : Prop where
  nodup : live.Nodup
  small : ∀ t ∈ live, 0 < t ∧ t < 2 ^ 40
  word : ∀ t ∈ live, words (index t) = pending t ∨ ∃ ok, words (index t) = done t ok
  owner : ∀ i, words i ≠ 0 → ∃ t ∈ live, index t = i

namespace Held

variable {words : ℕ → ℕ} {live : List ℕ} (h : Held words live)

include h

theorem shift {t : ℕ} (ht : t ∈ live) : words (index t) >>> 2 = t := by
  obtain ⟨-, hlt⟩ := h.small t ht
  rcases h.word t ht with hw | ⟨ok, hw⟩
  · rw [hw, pending_shift hlt]
  · rw [hw, done_shift hlt]

theorem ne_zero {t : ℕ} (ht : t ∈ live) : words (index t) ≠ 0 := by
  intro h0
  have hshift := h.shift ht
  have hpos := (h.small t ht).1
  rw [h0, Nat.zero_shiftRight] at hshift
  omega

theorem index_inj {t t' : ℕ} (ht : t ∈ live) (ht' : t' ∈ live) (hi : index t = index t') :
    t = t' := by
  rw [← h.shift ht, ← h.shift ht', hi]

/-- A word of a live token and the words of the others. -/
theorem update {t v : ℕ} (hpos : 0 < t) (hlt : t < 2 ^ 40) (hv : v = pending t ∨ ∃ ok, v = done t ok)
    (hlive : words (index t) ≠ 0 → t ∈ live) :
    Held (Function.update words (index t) v) (if t ∈ live then live else t :: live) := by
  have hv0 : v ≠ 0 := by
    rcases hv with rfl | ⟨ok, rfl⟩
    · exact pending_ne_zero hpos hlt
    · exact done_ne_zero hlt ok
  have hmem : ∀ t', t' ∈ (if t ∈ live then live else t :: live) ↔ t' = t ∨ t' ∈ live := by
    intro t'
    split
    · rename_i hin
      exact ⟨.inr, fun h => h.elim (fun heq => heq ▸ hin) id⟩
    · exact List.mem_cons
  -- a token in the slot of `t` is `t`
  have hsame : ∀ t' ∈ live, index t' = index t → t' = t := by
    intro t' ht' hi
    exact h.index_inj ht' (hlive (hi ▸ h.ne_zero ht')) hi
  refine ⟨?_, ?_, ?_, ?_⟩
  · split
    · exact h.nodup
    · rename_i hnot
      exact List.nodup_cons.2 ⟨hnot, h.nodup⟩
  · intro t' ht'
    rcases (hmem t').1 ht' with rfl | ht'
    · exact ⟨hpos, hlt⟩
    · exact h.small t' ht'
  · intro t' ht'
    by_cases hi : index t' = index t
    · obtain rfl : t' = t := ((hmem t').1 ht').elim id fun ht' => hsame t' ht' hi
      rw [Function.update_self]
      exact hv
    · rw [Function.update_of_ne hi]
      rcases (hmem t').1 ht' with rfl | ht'
      · exact absurd rfl hi
      · exact h.word t' ht'
  · intro i hne
    by_cases hi : i = index t
    · exact ⟨t, (hmem t).2 (.inl rfl), hi.symm⟩
    · rw [Function.update_of_ne hi] at hne
      obtain ⟨t', ht', rfl⟩ := h.owner i hne
      exact ⟨t', (hmem t').2 (.inr ht'), rfl⟩

theorem take {i desired : ℕ} (hop : Takes i (words i) desired) :
    Held (Function.update words i desired) (desired >>> 2 :: live) := by
  obtain ⟨h0, t, hpos, hlt, rfl, rfl⟩ := hop
  have hnot : t ∉ live := fun ht => h.ne_zero ht h0
  have hheld := h.update hpos hlt (.inl rfl) fun hne => absurd h0 hne
  rw [if_neg hnot] at hheld
  rwa [pending_shift hlt]

theorem clear {i : ℕ} (hop : Clears i (words i) 0) :
    Held (Function.update words i 0) (live.erase (words i >>> 2)) := by
  obtain ⟨-, hne, -⟩ := hop
  obtain ⟨t, ht, rfl⟩ := h.owner i hne
  rw [h.shift ht]
  have hindex : ∀ t' ∈ live.erase t, index t' ≠ index t := by
    intro t' ht' hi
    obtain ⟨hne', hmem⟩ := h.nodup.mem_erase_iff.1 ht'
    exact hne' (h.index_inj hmem ht hi)
  refine ⟨h.nodup.erase t, fun t' ht' => h.small t' (List.mem_of_mem_erase ht'), ?_, ?_⟩
  · intro t' ht'
    rw [Function.update_of_ne (hindex t' ht')]
    exact h.word t' (List.mem_of_mem_erase ht')
  · intro i hi
    by_cases heq : i = index t
    · rw [heq, Function.update_self] at hi
      exact absurd rfl hi
    · rw [Function.update_of_ne heq] at hi
      obtain ⟨t', ht', rfl⟩ := h.owner i hi
      refine ⟨t', h.nodup.mem_erase_iff.2 ⟨?_, ht'⟩, rfl⟩
      rintro rfl
      exact heq rfl

/-- A word that is pending for `t` belongs to `t`. -/
theorem mem_of_pending {t : ℕ} (hpos : 0 < t) (hlt : t < 2 ^ 40) (hw : words (index t) = pending t) :
    t ∈ live := by
  obtain ⟨t', ht', hi⟩ := h.owner (index t) (hw ▸ pending_ne_zero hpos hlt)
  have hshift := h.shift ht'
  rw [hi, hw, pending_shift hlt] at hshift
  exact hshift ▸ ht'

theorem complete {t : ℕ} (hlt : t < 2 ^ 40) (ok : Bool) : Held (Events.complete t ok words) live := by
  rcases Nat.eq_zero_or_pos t with rfl | hpos
  · exact h
  rw [complete_eq hpos]
  split
  · rename_i hw
    have hmem := h.mem_of_pending hpos hlt hw
    have hheld := h.update hpos hlt (.inr ⟨ok, rfl⟩) fun _ => hmem
    rwa [if_pos hmem] at hheld
  · exact h

theorem run {β : Type} {e : SlotAct β} (he : Proper e) (spurious : Bool) :
    Held (e.run spurious words).2 (liveAfter e (e.run spurious words).1 live) := by
  cases e with
  | load i => exact h
  | casStrong i expected desired =>
    rw [SlotAct.run_casStrong]
    by_cases hw : words i = expected
    · subst hw
      rw [if_pos rfl]
      rcases he with htakes | hclears
      · have hne : desired ≠ 0 := by
          obtain ⟨-, t, hpos, hlt, -, rfl⟩ := htakes
          exact pending_ne_zero hpos hlt
        show Held _ (if desired = 0 then _ else _)
        rw [if_neg hne]
        exact h.take htakes
      · obtain rfl : desired = 0 := hclears.1
        exact h.clear hclears
    · rw [if_neg hw]
      exact h
  | casWeak i expected desired =>
    have hrun : SlotAct.run spurious (.casWeak i expected desired) words =
        if words i = expected ∧ spurious = false then (none, Function.update words i desired)
        else (some (words i), words) := rfl
    rw [hrun]
    by_cases hw : words i = expected ∧ spurious = false
    · rw [if_pos hw]
      obtain ⟨rfl, -⟩ := hw
      obtain rfl : desired = 0 := he.1
      exact h.clear he
    · rw [if_neg hw]
      exact h

/-- A completion of a token that is not in its slot does nothing. -/
theorem complete_of_not_mem {t : ℕ} (hpos : 0 < t) (hlt : t < 2 ^ 40) (ht : t ∉ live) (ok : Bool) :
    Events.complete t ok words = words := by
  rw [complete_eq hpos, if_neg fun hw => ht (h.mem_of_pending hpos hlt hw)]

end Held

/-! ### What the threads owe -/

/-- What is right about a call of `PostEvent`. -/
def Answer.Right (a : Answer) : Prop :=
  (a.userCtx = 0 ∧ a.token = 0 ∧ a.issued = [] ∧ a.after = a.before) ∨
    (a.userCtx = userCtxOf a.wid a.token ∧ 0 < a.token ∧ a.token < 2 ^ 40 ∧ a.issued = [a.token] ∧
      a.after + 1 = a.before)

/-- A thread works on its own event slots, in the two ways, and `PostEvent` returns what it should. -/
def routing : Private EventSlots Notes Act where
  step e r h := h.add e r
  fact _ _ _ _ := True
  duty {_} _ h e :=
    match e with
    | .load wid i => h.wid = some wid ∧ Proper (.load i)
    | .casStrong wid i expected desired => h.wid = some wid ∧ Proper (.casStrong i expected desired)
    | .casWeak wid i expected desired => h.wid = some wid ∧ Proper (.casWeak i expected desired)
    | .answer wid userCtx token free =>
      h.wid = some wid ∧ Answer.Right ⟨wid, userCtx, token, h.before, free, h.issued⟩
    | _ => True

/-- Between two accesses: the thread has its number, and the slots on its stack exist. -/
def Sane (wid : ℕ) (m : EventSlots) (h : Notes) : Prop :=
  h.wid = some wid ∧ ∀ i ∈ m.freeSlots, i < 256

theorem Sane.release {wid : ℕ} {m : EventSlots} {h : Notes} (hs : Sane wid m h) (t : ℕ) :
    Sane wid (m.release (index t)) h := by
  refine ⟨hs.1, fun i hi => ?_⟩
  rcases List.mem_cons.1 hi with rfl | hi
  · exact index_lt t
  · exact hs.2 i hi

section Calls

variable {wid : ℕ}

theorem getEventSlots_keeps {P : EventSlots → Notes → Prop} :
    Keeps routing P (getEventSlots wid) (fun _ => P) := by
  refine Spec.bind (Q := fun _ => P) (Keeps.act (fun _ _ _ => trivial) fun m h r hP _ => hP)
    fun count => ?_
  exact Spec.pure fun _ _ h => h

theorem nextGeneration_pos (g : ℕ) : 0 < nextGeneration g ∧ nextGeneration g < 2 ^ 32 := by
  unfold nextGeneration
  split <;> omega

/-- `Acquire` puts one token into its slot, or none. -/
theorem acquire_keeps (free : ℕ) :
    Keeps routing (fun m h => Sane wid m h ∧ h.before = free ∧ h.issued = [] ∧
        m.freeSlots.length = free) (port wid).acquire
      (fun r m h => Sane wid m h ∧ h.before = free ∧ match r with
        | none => h.issued = [] ∧ m.freeSlots.length = free
        | some t => 0 < t ∧ t < 2 ^ 40 ∧ h.issued = [t] ∧ m.freeSlots.length + 1 = free) := by
  unfold Port.acquire
  refine Spec.get_bind fun m₀ => ?_
  dsimp only [port, id]
  rcases hfree : m₀.freeSlots with _ | ⟨i, rest⟩
  · exact Spec.pure fun m h hP => hP.2
  refine Spec.of_fact (p := i < 256) (fun m h hP => ?_) fun hi256 => ?_
  · exact hP.2.1.2 i (by rw [hP.1, hfree]; exact List.mem_cons_self)
  obtain ⟨hgpos, hglt⟩ := nextGeneration_pos (m₀.generations i)
  have htoken := tokenOf_eq (nextGeneration (m₀.generations i)) hi256
  dsimp only
  generalize tokenOf (nextGeneration (m₀.generations i)) i = token at htoken ⊢
  have hpos : 0 < token := by omega
  have hlt : token < 2 ^ 40 := by omega
  have hindex : index token = i := by
    rw [index_eq]
    omega
  refine Spec.modify_bind (fun m h => Sane wid m h ∧ h.before = free ∧ h.issued = [] ∧
    m.freeSlots.length + 1 = free) ?_ ?_
  · rintro m h ⟨rfl, ⟨hwid, hs⟩, hb, hissued, hf⟩
    rw [hfree] at hs hf
    exact ⟨⟨hwid, fun j hj => hs j (List.mem_cons_of_mem _ hj)⟩, hb, hissued, hf⟩
  refine Spec.bind (Q := fun r m h => Sane wid m h ∧ h.before = free ∧
    m.freeSlots.length + 1 = free ∧ h.issued = if r = none then [token] else [])
    (Keeps.act (fun m h hP => ?_) ?_) fun r => ?_
  · exact ⟨hP.1.1, .inl ⟨rfl, token, hpos, hlt, hindex, rfl⟩⟩
  · rintro m h r ⟨⟨hwid, hs⟩, hb, hissued, hf⟩ -
    have hadd : routing.step (.slot wid (.casStrong i 0 (pending token))) r h =
        if r = none ∧ pending token ≠ 0 then { h with issued := (pending token >>> 2) :: h.issued }
        else h := rfl
    rw [hadd, pending_shift hlt, hissued]
    by_cases hr : r = none
    · rw [if_pos hr, if_pos ⟨hr, pending_ne_zero hpos hlt⟩]
      exact ⟨⟨hwid, hs⟩, hb, hf, rfl⟩
    · rw [if_neg hr, if_neg fun h => hr h.1]
      exact ⟨⟨hwid, hs⟩, hb, hf, hissued⟩
  · cases r with
    | none =>
      refine Spec.pure ?_
      rintro m h ⟨hs, hb, hf, hissued⟩
      exact ⟨hs, hb, hpos, hlt, hissued, hf⟩
    | some found =>
      refine Spec.modify_bind (fun m h => Sane wid m h ∧ h.before = free ∧ h.issued = [] ∧
        m.freeSlots.length = free) ?_ ?_
      · rintro m h ⟨hs, hb, hf, hissued⟩
        exact ⟨hindex ▸ hs.release token, hb, hissued, hf⟩
      · exact Spec.pure fun m h hP => hP

theorem done_clears (t : ℕ) (ok : Bool) : Clears (index t) (done t ok) 0 := by
  have hpending : pending t = 2 ^ 2 * (t % 2 ^ 62) := by
    unfold pending
    rw [Nat.shiftLeft_eq]
    omega
  have hdone : done t ok = 2 ^ 2 * (t % 2 ^ 62) + if ok then 1 else 2 := by
    unfold done
    rw [hpending, Nat.two_pow_add_eq_or_of_lt (by split <;> omega)]
  refine ⟨rfl, ?_, ?_⟩
  · rw [hdone]
    split <;> omega
  · rw [index_eq, index_eq, hdone, Nat.shiftRight_eq_div_pow]
    split <;> omega

/-- An exchange to `0` is not noted. -/
theorem Sane.clear {m : EventSlots} {h : Notes} (hs : Sane wid m h) (i expected : ℕ)
    (r : Option ℕ) : Sane wid m (h.add (.casStrong wid i expected 0) r) := by
  have hadd : h.add (.casStrong wid i expected 0) r = h := if_neg fun h => h.2 rfl
  rwa [hadd]

theorem probe_keeps (t : ℕ) : Keeps routing (Sane wid) ((port wid).probe t) (fun _ => Sane wid) := by
  unfold Port.probe
  refine Spec.ite (fun _ => Spec.pure fun _ _ h => h) fun _ => ?_
  refine Spec.bind (Q := fun _ => Sane wid) (Keeps.act (fun _ _ hs => ⟨hs.1, trivial⟩)
    fun m h r hs _ => hs) fun value => ?_
  unfold Port.probeValue
  refine Spec.ite (fun _ => Spec.pure fun _ _ h => h) fun hvalue => ?_
  have hclears : Clears (index t) value 0 := by
    by_cases htrue : value = done t true
    · exact htrue ▸ done_clears t true
    · obtain rfl : value = done t false := by
        by_contra hfalse
        exact hvalue ⟨htrue, hfalse⟩
      exact done_clears t false
  refine Spec.bind (Q := fun _ => Sane wid) (Keeps.act (fun m h hs => ⟨hs.1, .inr hclears⟩)
    fun m h r hs _ => hs.clear _ _ r) fun r => ?_
  cases r with
  | some found => exact Spec.pure fun _ _ h => h
  | none =>
    refine Spec.modify_bind (Sane wid) (fun m h hs => hs.release t) ?_
    exact Spec.pure fun _ _ h => h

theorem abort_keeps (t : ℕ) : Keeps routing (Sane wid) ((port wid).abort t) (fun _ => Sane wid) := by
  unfold Port.abort
  refine Spec.ite (fun _ => Spec.pure fun _ _ h => h) fun ht => ?_
  refine Spec.bind (Q := fun _ => Sane wid) (Keeps.act (fun _ _ hs => ⟨hs.1, trivial⟩)
    fun m h r hs _ => hs) fun value => ?_
  refine Spec.loop (fun _ => Sane wid) (fun v => ?_) value
  unfold Port.abortRound
  refine Spec.ite (fun hv => ?_) fun _ => Spec.pure fun _ _ h => h
  have hclears : Clears (index t) v 0 := by
    refine ⟨rfl, ?_, by rw [hv]⟩
    rintro rfl
    exact ht (hv ▸ Nat.zero_shiftRight 2)
  refine Spec.bind (Q := fun _ => Sane wid) (Keeps.act (fun m h hs => ⟨hs.1, hclears⟩)
    fun m h r hs _ => hs) fun r => ?_
  cases r with
  | some found => exact Spec.pure fun _ _ h => h
  | none =>
    refine Spec.modify_bind (Sane wid) (fun m h hs => hs.release t) ?_
    exact Spec.pure fun _ _ h => h

theorem postEvent_keeps (free : ℕ) :
    Keeps routing (fun m h => Sane wid m h ∧ h.before = free ∧ h.issued = [] ∧
        m.freeSlots.length = free) (postEvent wid)
      (fun r m h => Sane wid m h ∧
        Answer.Right ⟨wid, r.1, r.2, h.before, m.freeSlots.length, h.issued⟩) := by
  unfold postEvent
  refine Spec.bind getEventSlots_keeps fun found => Spec.ite (fun _ => ?_) fun _ => ?_
  · refine Spec.bind (acquire_keeps free) fun r => ?_
    cases r with
    | none =>
      exact Spec.pure fun m h ⟨hs, hb, hissued, hf⟩ => ⟨hs, .inl ⟨rfl, rfl, hissued, hf.trans hb.symm⟩⟩
    | some t =>
      exact Spec.pure fun m h ⟨hs, hb, hpos, hlt, hissued, hf⟩ =>
        ⟨hs, .inr ⟨rfl, hpos, hlt, hissued, hf.trans hb.symm⟩⟩
  · exact Spec.pure fun m h ⟨hs, hb, hissued, hf⟩ => ⟨hs, .inl ⟨rfl, rfl, hissued, hf.trans hb.symm⟩⟩

theorem code_keeps (op : Call) : Keeps routing (Sane wid) (op.code wid) (fun _ => Sane wid) := by
  cases op with
  | post =>
    refine Spec.get_bind fun m₀ => ?_
    refine Spec.bind (Q := fun _ m h => Sane wid m h ∧ h.before = m₀.freeSlots.length ∧
      h.issued = [] ∧ m.freeSlots.length = m₀.freeSlots.length)
      (Keeps.act (fun _ _ _ => trivial) ?_) fun _ => ?_
    · rintro m h r ⟨rfl, hs⟩ -
      exact ⟨hs, rfl, rfl, rfl⟩
    refine Spec.bind (postEvent_keeps _) fun r => Spec.get_bind fun m₁ => ?_
    refine Keeps.act ?_ fun m h r hP _ => hP.2.1
    rintro m h ⟨rfl, hs, hright⟩
    exact ⟨hs.1, hright⟩
  | probe t =>
    refine Spec.bind (Spec.bind getEventSlots_keeps fun found => Spec.ite (fun _ => probe_keeps t)
      fun _ => Spec.pure fun _ _ h => h) fun _ => ?_
    exact Spec.pure fun _ _ h => h
  | abort t =>
    refine Spec.bind getEventSlots_keeps fun found => Spec.ite (fun _ => ?_) fun _ => ?_
    · exact Spec.bind (abort_keeps t) fun _ => Spec.pure fun _ _ h => h
    · exact Spec.pure fun _ _ h => h

theorem runCalls_keeps (ops : List Call) :
    Keeps routing (Sane wid) (runCalls wid ops) (fun _ => Sane wid) := by
  induction ops with
  | nil => exact Spec.pure fun _ _ h => h
  | cons op ops ih => exact Spec.bind (code_keeps op) fun _ => ih

end Calls

theorem lt_of_mem_fresh {i : ℕ} (hi : i ∈ EventSlots.fresh.freeSlots) : i < 256 := by
  simp only [EventSlots.fresh, kSlotCount] at hi
  exact List.mem_range.1 hi

theorem thread_keeps (ops : List Call) :
    Keeps routing (fun m _ => m = .fresh) (thread ops) (fun _ _ _ => True) := by
  refine Spec.bind (Q := fun r m h => ∀ wid, r = some wid → Sane wid m h)
    (Keeps.act (fun _ _ _ => trivial) ?_) fun r => ?_
  · rintro m h r rfl - wid rfl
    exact ⟨rfl, fun i hi => lt_of_mem_fresh hi⟩
  · cases r with
    | none => exact Spec.pure fun _ _ _ => trivial
    | some wid =>
      exact (runCalls_keeps ops).conseq (fun m h hs => hs wid rfl) fun _ _ _ _ => trivial

/-! ### All runs -/

section Runs

variable {n : ℕ}

theorem notes_recorded :
    Recorded routing (manager n) fun i s => s.notes i where
  own _ _ _ _ := Function.update_self ..
  other _ _ _ _ _ hj := Function.update_of_ne (fun h => hj (Fin.ext h)) ..
  env _ _ _ := rfl

/-- What holds at every moment. -/
structure Routed (s : State) : Prop where
  count_le : s.workerCount ≤ kMaxRegisteredWorkers
  registered : ∀ i wid, (s.notes i).wid = some wid → wid < s.workerCount
  distinct : ∀ i j wid, (s.notes i).wid = some wid → (s.notes j).wid = some wid → i = j
  held : ∀ wid, Held (s.states wid) (s.live wid)
  unused : ∀ wid, s.workerCount ≤ wid → s.live wid = []
  answers : ∀ i, ∀ a ∈ (s.notes i).answers, a.wid < s.workerCount ∧ a.Right

namespace Routed

variable {s : State}

/-- A thread notes something, but for its number. -/
theorem note (h : Routed s) (i : ℕ) {h' : Notes} (hwid : h'.wid = (s.notes i).wid)
    (hanswers : ∀ a ∈ h'.answers, a.wid < s.workerCount ∧ a.Right) :
    Routed { s with notes := Function.update s.notes i h' } := by
  have hsame : ∀ j, (Function.update s.notes i h' j).wid = (s.notes j).wid := by
    intro j
    by_cases hj : j = i
    · rw [hj, Function.update_self, hwid]
    · rw [Function.update_of_ne hj]
  refine ⟨h.count_le, fun j wid hj => ?_, fun j k wid hj hk => ?_, h.held, h.unused, fun j => ?_⟩
  · exact h.registered j wid (hsame j ▸ hj)
  · exact h.distinct j k wid (hsame j ▸ hj) (hsame k ▸ hk)
  · show ∀ a ∈ (Function.update s.notes i h' j).answers, _
    by_cases hj : j = i
    · rw [hj, Function.update_self]
      exact hanswers
    · rw [Function.update_of_ne hj]
      exact h.answers j

/-- An access to the event slots of a registered worker. -/
theorem access (h : Routed s) {wid : ℕ} (hwid : wid < s.workerCount) {β : Type} {e : SlotAct β}
    (he : Proper e) (spurious : Bool) : Routed (s.access wid spurious e).2 := by
  refine ⟨h.count_le, h.registered, h.distinct, fun w => ?_, fun w hw => ?_, h.answers⟩
  · show Held (Function.update s.states wid _ w) (Function.update s.live wid _ w)
    by_cases heq : w = wid
    · rw [heq, Function.update_self, Function.update_self]
      exact (h.held wid).run he spurious
    · rw [Function.update_of_ne heq, Function.update_of_ne heq]
      exact h.held w
  · have hne : w ≠ wid := by
      rintro rfl
      exact Nat.not_lt.2 hw hwid
    exact (Function.update_of_ne hne _ _).trans (h.unused w hw)

/-- A worker registers. -/
theorem register (h : Routed s) (i : ℕ) (hroom : s.workerCount < kMaxRegisteredWorkers) {h' : Notes}
    (hwid : h'.wid = some s.workerCount) (hanswers : h'.answers = (s.notes i).answers) :
    Routed { s with workerCount := s.workerCount + 1, notes := Function.update s.notes i h' } := by
  have hnew : ∀ j wid, (Function.update s.notes i h' j).wid = some wid →
      (j = i ∧ wid = s.workerCount) ∨ (j ≠ i ∧ (s.notes j).wid = some wid) := by
    intro j wid hj
    by_cases hji : j = i
    · rw [hji, Function.update_self, hwid] at hj
      exact .inl ⟨hji, (Option.some.inj hj).symm⟩
    · rw [Function.update_of_ne hji] at hj
      exact .inr ⟨hji, hj⟩
  refine ⟨hroom, fun j wid hj => ?_, fun j k wid hj hk => ?_, h.held, fun wid hw => ?_, fun j => ?_⟩
  · show wid < s.workerCount + 1
    rcases hnew j wid hj with ⟨-, rfl⟩ | ⟨-, hj⟩
    · exact Nat.lt_succ_self _
    · exact Nat.lt_succ_of_lt (h.registered j wid hj)
  · -- the new number has not been given out before
    rcases hnew j wid hj with ⟨hji, hwj⟩ | ⟨-, hoj⟩
    · rcases hnew k wid hk with ⟨hki, -⟩ | ⟨-, hok⟩
      · rw [hji, hki]
      · exact absurd (h.registered k wid hok) (by omega)
    · rcases hnew k wid hk with ⟨-, hwk⟩ | ⟨-, hok⟩
      · exact absurd (h.registered j wid hoj) (by omega)
      · exact h.distinct j k wid hoj hok
  · exact h.unused wid (Nat.le_of_succ_le hw)
  · show ∀ a ∈ (Function.update s.notes i h' j).answers, a.wid < s.workerCount + 1 ∧ a.Right
    have hold : (Function.update s.notes i h' j).answers = (s.notes j).answers := by
      by_cases hj : j = i
      · rw [hj, Function.update_self, hanswers]
      · rw [Function.update_of_ne hj]
    intro a ha
    obtain ⟨hlt, hright⟩ := h.answers j a (hold ▸ ha)
    exact ⟨Nat.lt_succ_of_lt hlt, hright⟩

/-- **One step** of a thread that does what it owes. -/
theorem run (h : Routed s) (i : Fin n) (spurious : Bool) {m : EventSlots} {β : Type} {e : Act β}
    (hduty : routing.duty m (s.notes i) e) : Routed ((manager n).run i spurious e s).2 := by
  cases e with
  | registerWorker =>
    by_cases hfull : kMaxRegisteredWorkers ≤ s.workerCount
    · have hrun : Act.apply spurious .registerWorker s = (none, s) := if_pos hfull
      show Routed { (Act.apply spurious .registerWorker s).2 with
        notes := Function.update s.notes i ((s.notes i).add .registerWorker _) }
      rw [hrun]
      exact h.note i rfl (h.answers i)
    · have hrun : Act.apply spurious .registerWorker s =
          (some s.workerCount, { s with workerCount := s.workerCount + 1 }) := if_neg hfull
      show Routed { (Act.apply spurious .registerWorker s).2 with
        notes := Function.update s.notes i ((s.notes i).add .registerWorker _) }
      rw [hrun]
      exact h.register i (Nat.lt_of_not_le hfull) rfl rfl
  | loadCount => exact h.note i rfl (h.answers i)
  | load wid idx =>
    exact (h.access (h.registered i wid hduty.1) hduty.2 spurious).note i rfl (h.answers i)
  | casStrong wid idx expected desired =>
    obtain ⟨hwid, hanswers⟩ := (s.notes i).add_casStrong wid idx expected desired
      (Act.apply spurious (.casStrong wid idx expected desired) s).1
    refine (h.access (h.registered i wid hduty.1) hduty.2 spurious).note i hwid ?_
    rw [hanswers]
    exact h.answers i
  | casWeak wid idx expected desired =>
    exact (h.access (h.registered i wid hduty.1) hduty.2 spurious).note i rfl (h.answers i)
  | call free => exact h.note i rfl (h.answers i)
  | answer wid userCtx token free =>
    refine h.note i rfl fun a ha => ?_
    rcases List.mem_cons.1 ha with rfl | ha
    · exact ⟨h.registered i wid hduty.1, hduty.2⟩
    · exact h.answers i a ha

/-- **One step** of the poll thread, whatever it is handed. -/
theorem dispatched (h : Routed s) (cqe : Cqe) : Routed (dispatch cqe s) := by
  refine ⟨h.count_le, h.registered, h.distinct, fun wid => ?_, h.unused, h.answers⟩
  show Held (completeEvent _ _ _ _ _ wid) (s.live wid)
  unfold completeEvent
  split
  · exact h.held wid
  split
  · exact h.held wid
  by_cases hw : wid = cqe.userCtx >>> kRidShift % 2 ^ 32
  · rw [hw, Function.update_self]
    refine (h.held _).complete ?_ cqe.ok
    exact Nat.and_lt_two_pow _ (by decide)
  · rw [Function.update_of_ne hw]
    exact h.held wid

end Routed

theorem started_safe (ops : Fin n → List Call) :
    (started ops).Safe routing (fun i s => s.notes i) fun _ _ _ => True :=
  fun i => (thread_keeps (ops i)).holds .fresh _ rfl

theorem routed_of_reachable {ops : Fin n → List Call}
    {c : Conf (Fin n) EventSlots State Act (Unit × EventSlots)}
    (hr : Reachable (manager n) (started ops) c) : Routed c.state := by
  refine hr.invariant (started_safe ops) notes_recorded (fun _ _ _ _ _ _ _ _ _ _ => trivial) ?_
    (fun cqe s h => h.dispatched cqe) fun i spurious m e s hduty _ h => h.run i spurious hduty
  refine ⟨Nat.zero_le _, ?_, ?_, fun _ => ⟨List.nodup_nil, ?_, ?_, ?_⟩, fun _ _ => rfl, ?_⟩
  · exact fun _ _ h => nomatch h
  · exact fun _ _ _ h => nomatch h
  · exact fun _ h => nomatch h
  · exact fun _ h => nomatch h
  · exact fun _ h => absurd rfl h
  · exact fun _ _ h => nomatch h

/-- What the `user_ctx` for the token `t` of the worker `wid` brings about: `PollThreadMain` and
`CompleteEvent` read the worker and the token off it again, and delivering it does at most one thing,
to the slot of the token, and nothing when the token is not there any more. -/
structure RoutesTo (s : State) (wid t : ℕ) : Prop where
  ne_zero : userCtxOf wid t ≠ 0
  worker : userCtxOf wid t >>> kRidShift % 2 ^ 32 = wid ∧ userCtxOf wid t >>> kRidShift = wid
  token : userCtxOf wid t &&& kRidMask = t
  own : ∀ ok, (dispatch ⟨userCtxOf wid t, ok⟩ s).states wid (index t) =
    if s.states wid (index t) = pending t then done t ok else s.states wid (index t)
  other : ∀ ok wid' i, (wid', i) ≠ (wid, index t) →
    (dispatch ⟨userCtxOf wid t, ok⟩ s).states wid' i = s.states wid' i
  late : t ∉ s.live wid → ∀ ok, dispatch ⟨userCtxOf wid t, ok⟩ s = s

theorem Routed.routesTo {s : State} (h : Routed s) {wid t : ℕ} (hwid : wid < s.workerCount)
    (hpos : 0 < t) (hlt : t < 2 ^ 40) : RoutesTo s wid t := by
  have hsmall : wid < 2 ^ 24 := by
    have hle := h.count_le
    unfold kMaxRegisteredWorkers at hle
    omega
  obtain ⟨hworker, htoken⟩ := userCtxOf_decode hsmall hlt
  have hworker' : userCtxOf wid t >>> kRidShift % 2 ^ 32 = wid := by
    rw [hworker, Nat.mod_eq_of_lt (by omega)]
  have hdispatch : ∀ ok, dispatch ⟨userCtxOf wid t, ok⟩ s = { s with
      states := Function.update s.states wid (complete t ok (s.states wid)) } := by
    intro ok
    unfold dispatch completeEvent
    dsimp only
    rw [hworker', if_neg (by rw [hworker]; exact fun h => h rfl), if_neg (by omega), htoken]
  refine ⟨?_, ⟨hworker', hworker⟩, htoken, fun ok => ?_, fun ok wid' i hne => ?_, fun hlate ok => ?_⟩
  · rw [userCtxOf_eq hsmall hlt]
    omega
  · rw [hdispatch]
    show Function.update s.states wid _ wid (index t) = _
    rw [Function.update_self, complete_eq hpos]
    split
    · rw [Function.update_self]
    · rfl
  · rw [hdispatch]
    show Function.update s.states wid _ wid' i = _
    by_cases hw : wid' = wid
    · subst hw
      have hi : i ≠ index t := fun hi => hne (by rw [hi])
      rw [Function.update_self, complete_eq hpos]
      split
      · rw [Function.update_of_ne hi]
      · rfl
    · rw [Function.update_of_ne hw]
  · rw [hdispatch, (h.held wid).complete_of_not_mem hpos hlt hlate, Function.update_eq_self]

/-- **Completions are routed to where they belong**, in every run of any number of threads. At most
1024 workers are registered, under different numbers. `PostEvent` returns `0` exactly when it has put
no token into a slot; otherwise its `user_ctx` belongs to the one token it has put there. The tokens
in slots at the same time have different `user_ctx`. Delivering a `user_ctx` at any later moment
touches only the slot of its token. -/
theorem completion_routing (ops : Fin n → List Call)
    {c : Conf (Fin n) EventSlots State Act (Unit × EventSlots)}
    (hr : Reachable (manager n) (started ops) c) :
    (c.state.workerCount ≤ kMaxRegisteredWorkers ∧
      ∀ i j wid, (c.state.notes i).wid = some wid → (c.state.notes j).wid = some wid → i = j) ∧
    (∀ i, ∀ a ∈ (c.state.notes i).answers,
      (a.userCtx = 0 ↔ a.issued = [] ∧ a.after = a.before) ∧
      (a.userCtx ≠ 0 → a.issued = [a.token] ∧ a.userCtx = userCtxOf a.wid a.token ∧
        RoutesTo c.state a.wid a.token)) ∧
    (∀ wid, (c.state.live wid).Nodup ∧ ∀ t ∈ c.state.live wid, RoutesTo c.state wid t) ∧
    ∀ wid wid' t t', t ∈ c.state.live wid → t' ∈ c.state.live wid' →
      userCtxOf wid t = userCtxOf wid' t' → wid = wid' ∧ t = t' := by
  have h := routed_of_reachable hr
  have hlive : ∀ wid, ∀ t ∈ c.state.live wid, RoutesTo c.state wid t := by
    intro wid t ht
    obtain ⟨hpos, hlt⟩ := (h.held wid).small t ht
    refine h.routesTo (Nat.lt_of_not_le fun hle => ?_) hpos hlt
    rw [h.unused wid hle] at ht
    exact nomatch ht
  refine ⟨⟨h.count_le, h.distinct⟩, fun i a ha => ?_, fun wid => ⟨(h.held wid).nodup, hlive wid⟩, ?_⟩
  · obtain ⟨hwid, hright⟩ := h.answers i a ha
    rcases hright with ⟨hctx, -, hissued, hfree⟩ | ⟨hctx, hpos, hlt, hissued, hfree⟩
    · exact ⟨⟨fun _ => ⟨hissued, hfree⟩, fun _ => hctx⟩, fun hne => absurd hctx hne⟩
    · have hroutes := h.routesTo hwid hpos hlt
      refine ⟨⟨fun h0 => absurd (hctx.symm.trans h0) hroutes.ne_zero, fun hnone => ?_⟩,
        fun _ => ⟨hissued, hctx, hroutes⟩⟩
      rw [hissued] at hnone
      exact nomatch hnone.1
  · intro wid wid' t t' ht ht' hctx
    have hr₁ := hlive wid t ht
    have hr₂ := hlive wid' t' ht'
    refine ⟨?_, ?_⟩
    · rw [← hr₁.worker.2, ← hr₂.worker.2, hctx]
    · rw [← hr₁.token, ← hr₂.token, hctx]

end Runs

instance (n : ℕ) : (manager n).Effective where
  allowed _ _ _ _ _ _ := inferInstanceAs (Decidable True)
  env _ _ := inferInstanceAs (Decidable True)

/-- Two threads have registered and posted an event each; the event of the second is completed. -/
def twoPosts : Conf (Fin 2) EventSlots State Act (Unit × EventSlots) :=
  (started (n := 2) fun _ => [.post]).plays (manager 2)
    (List.replicate 5 (.thread 0 false) ++ List.replicate 5 (.thread 1 false) ++
      [.env ⟨2 ^ 40 + 256, true⟩])

theorem completion_routing_two :
    (twoPosts.state.live 0 = [256] ∧ twoPosts.state.live 1 = [256] ∧
      twoPosts.state.states 0 0 = pending 256 ∧ twoPosts.state.states 1 0 = done 256 true) ∧
    ∀ wid, (twoPosts.state.live wid).Nodup ∧
      ∀ t ∈ twoPosts.state.live wid, RoutesTo twoPosts.state wid t := by
  have hr : Reachable (manager 2) (started fun _ => [.post]) twoPosts :=
    Reachable.of_plays (by decide +kernel)
  exact ⟨by decide +kernel, (completion_routing _ hr).2.2.1⟩

end KvBench.Manager
