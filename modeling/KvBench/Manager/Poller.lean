import KvBench.Conc.Logic
import KvBench.Manager.Routing

/-!
# The poll thread (`urma_manager.cpp`)

In `KvBench.Manager.Routing` the poll thread is the environment of the workers: it may be handed any
completion at any time. Here it is `PollThreadMain`, with its two ways to fetch completions, between the
completion queue of the device and the event slots of the workers. The environment is now the device,
which puts completions into the queue, whoever asks the thread to stop, and the workers.

What the workers and the thread have done together is kept as a run of `manager n`, so everything that
is known of its runs holds of them. The completions of that run are those that the thread has dispatched.
Which completions a poll returns, and in which order, is up to the library; all that is assumed is that
they are in the queue. The thread dispatches what its polls return, each once and in that order, and
nothing that has arrived is lost (`poll_accounts`). So a worker finds an event completed only if a
completion with its number and its token has arrived, with this status (`completion_arrived`).
-/

namespace KvBench.Manager

open KvBench.Bench KvBench.Conc KvBench.Events

/-! ### The thread -/

/-- `kMaxPollCr`. -/
def kMaxPollCr : ℕ := 32

/-- The run of the workers with the dispatched completions. -/
abbrev Moves (n : ℕ) := List (Move (Fin n) Bool Cqe)

/-- What the poll thread shares with the others. No code reads `arrived`, all completions that the device
has put into the queue, `polled`, all that the polls have returned, and `taken`, those that the thread has
in hand. -/
structure Line (n : ℕ) where
  moves : Moves n
  stop : Bool
  jfc : List Cqe
  arrived : List Cqe
  polled : List Cqe
  taken : List Cqe

/-- The calls of `PollThreadMain`. -/
inductive PollAct : Type → Type where
  /-- The load of `stop_`. -/
  | loadStop : PollAct Bool
  /-- `urma_wait_jfc`: what it returns, and whether the queue it names is the thread's. -/
  | waitJfc : PollAct (ℤ × Bool)
  /-- `urma_poll_jfc`: what it returns, and the completions. -/
  | pollJfc : PollAct (ℤ × List Cqe)
  | ackJfc (cnt : ℤ) : PollAct Unit
  | rearmJfc : PollAct Unit
  /-- `CompleteEvent`. -/
  | completeEvent (cqe : Cqe) : PollAct Unit

/-- What the library decides. -/
structure Reply where
  cnt : ℤ
  own : Bool
  /-- The completions that `urma_poll_jfc` returns. -/
  crs : List Cqe := []

/-- The effect of a call. What `urma_poll_jfc` returns is no longer in the queue. -/
def PollAct.run {n : ℕ} (o : Reply) {β : Type} : PollAct β → Line n → β × Line n
  | .loadStop, s => (s.stop, s)
  | .waitJfc, s => ((o.cnt, o.own), s)
  | .pollJfc, s =>
    ((o.cnt, o.crs), { s with jfc := s.jfc.diff o.crs, polled := s.polled ++ o.crs, taken := o.crs })
  | .ackJfc _, s => ((), s)
  | .rearmJfc, s => ((), s)
  | .completeEvent cqe, s => ((), { s with moves := s.moves ++ [.env cqe], taken := s.taken.tail })

/-- What is assumed of `urma_poll_jfc`: it returns an error, or at most as many completions as it was asked
for, all of them from the queue. -/
structure Polled (jfc : List Cqe) (o : Reply) : Prop where
  count : o.crs.length = o.cnt.toNat
  short : o.cnt ≤ kMaxPollCr
  queued : o.crs.Subperm jfc

instance (jfc : List Cqe) (o : Reply) : Decidable (Polled jfc o) :=
  decidable_of_iff (o.crs.length = o.cnt.toNat ∧ o.cnt ≤ kMaxPollCr ∧ o.crs.Subperm jfc)
    ⟨fun h => ⟨h.1, h.2.1, h.2.2⟩, fun h => ⟨h.count, h.short, h.queued⟩⟩

/-- The library may answer so. -/
def PollAct.Allowed {n : ℕ} {β : Type} : PollAct β → Line n → Reply → Prop
  | .pollJfc, s, o => Polled s.jfc o
  | _, _, _ => True

instance PollAct.decAllowed {n : ℕ} {β : Type} (e : PollAct β) (s : Line n) (o : Reply) :
    Decidable (e.Allowed s o) := by
  cases e <;> unfold PollAct.Allowed <;> infer_instance

/-- The others: a worker makes a step, a completion arrives, or the thread is asked to stop. -/
inductive Outside (n : ℕ) where
  | worker (i : Fin n) (spurious : Bool)
  | arrive (cqe : Cqe)
  | requestStop

/-- What the others do. -/
def Outside.run {n : ℕ} : Outside n → Line n → Line n
  | .worker i spurious, s => { s with moves := s.moves ++ [.thread i spurious] }
  | .arrive cqe, s => { s with jfc := s.jfc ++ [cqe], arrived := s.arrived ++ [cqe] }
  | .requestStop, s => { s with stop := true }

/-- The poll thread, the workers and the device. -/
def polling (n : ℕ) : World Unit Unit (Line n) Reply (Outside n) PollAct where
  run _ o e s := e.run o s
  allowed _ _ _ e s o := e.Allowed s o
  env := Outside.run
  envAllowed _ _ := True

instance (n : ℕ) : (polling n).Effective where
  allowed _ _ _ e s o := PollAct.decAllowed e s o
  env _ _ := inferInstanceAs (Decidable True)

/-- A procedure of the poll thread. -/
abbrev PollCode := Proc Unit PollAct

/-- The loop over the completions. -/
def completeAll : List Cqe → PollCode Unit
  | [] => pure ()
  | cqe :: crs => do
    Proc.act (.completeEvent cqe)
    completeAll crs

/-- In event mode the queue is acknowledged and armed again when there was something in it. -/
def rearm (cnt : ℤ) : PollCode Unit :=
  if 0 < cnt then do
    Proc.act (.ackJfc cnt)
    Proc.act .rearmJfc
  else pure ()

/-- A round of the loop of `PollThreadMain`. -/
def pollRound (eventMode : Bool) : PollCode (Unit ⊕ Unit) := do
  let stop ← Proc.act .loadStop
  if stop then pure (.inr ())
  else if eventMode then do
    let (ready, own) ← Proc.act .waitJfc
    if ready ≤ 0 ∨ own = false then pure (.inl ())
    else do
      let (cnt, crs) ← Proc.act .pollJfc
      rearm cnt
      completeAll crs
      pure (.inl ())
  else do
    let (_, crs) ← Proc.act .pollJfc
    completeAll crs
    pure (.inl ())

/-- `PollThreadMain`. -/
def pollThreadMain (eventMode : Bool) : PollCode Unit := Proc.loop (fun _ => pollRound eventMode) ()

/-- The thread has been started, and nothing has happened yet. -/
def pollStarted (n : ℕ) (eventMode : Bool) : Conf Unit Unit (Line n) PollAct (Unit × Unit) where
  prog _ := pollThreadMain eventMode ()
  time _ := 0
  state := ⟨[], false, [], [], [], []⟩

/-! ### The books -/

/-- The completions in a run. -/
def dispatched {n : ℕ} (mvs : Moves n) : List Cqe :=
  mvs.filterMap fun
    | .thread _ _ => none
    | .env cqe => some cqe

@[simp] theorem dispatched_append {n : ℕ} (mvs mvs' : Moves n) :
    dispatched (mvs ++ mvs') = dispatched mvs ++ dispatched mvs' := List.filterMap_append

@[simp] theorem dispatched_env {n : ℕ} (cqe : Cqe) : dispatched (n := n) [.env cqe] = [cqe] := rfl

@[simp] theorem dispatched_thread {n : ℕ} (i : Fin n) (spurious : Bool) :
    dispatched [.thread i spurious] = [] := rfl

/-- What has arrived has been polled or is in the queue, and what has been polled has been dispatched or is
in hand. -/
structure Books {n : ℕ} (s : Line n) : Prop where
  arrived : s.arrived.Perm (s.polled ++ s.jfc)
  polled : s.polled = dispatched s.moves ++ s.taken
  short : s.taken.length ≤ kMaxPollCr

/-- The others leave what the thread has in hand; and the thread dispatches the first of it. -/
def pollDiscipline (n : ℕ) : Discipline Unit Unit (Line n) PollAct where
  inv := Books
  rely _ s s' := s'.taken = s.taken
  promise _ _ e s _ :=
    match e with
    | .completeEvent cqe => ∃ crs, s.taken = cqe :: crs
    | _ => True

section Specs

variable {n : ℕ}

theorem taken_stable (crs : List Cqe) : ∀ _ : Unit,
    (pollDiscipline n).Stable () fun s => s.taken = crs := by
  intro _ s s' _ hP hrely _
  exact Eq.trans hrely hP

theorem outside_books (e : Outside n) {s : Line n} (hs : Books s) :
    Books (e.run s) ∧ (e.run s).taken = s.taken := by
  cases e with
  | worker i spurious =>
    exact ⟨⟨hs.arrived, by simpa [Outside.run] using hs.polled, hs.short⟩, rfl⟩
  | arrive cqe =>
    refine ⟨⟨?_, hs.polled, hs.short⟩, rfl⟩
    show (s.arrived ++ [cqe]).Perm (s.polled ++ (s.jfc ++ [cqe]))
    rw [← List.append_assoc]
    exact hs.arrived.append_right [cqe]
  | requestStop => exact ⟨⟨hs.arrived, hs.polled, hs.short⟩, rfl⟩

/-- Specifications of the poll thread by what it has in hand. -/
abbrev Polls {α : Type} (P : Line n → Prop) (x : PollCode α) (Q : α → Line n → Prop) : Prop :=
  Abides (polling n) (pollDiscipline n) () (fun _ => P) x (fun a _ => Q a)

/-- A call that does nothing to what is in hand. -/
theorem quiet_spec {β : Type} {e : PollAct β} {crs : List Cqe}
    (hrun : ∀ o (s : Line n), (e.run o s).2 = s)
    (hpromise : ∀ s r, (pollDiscipline n).promise () () e s r) :
    Polls (fun s : Line n => s.taken = crs) (Proc.act e) fun _ s => s.taken = crs := by
  refine Discipline.spec_run (taken_stable crs) ?_
  intro _ s _ hs hP o _
  have hsame : ((polling n).run () o e s).2 = s := hrun o s
  refine ⟨⟨?_, fun j hj => absurd rfl hj, hpromise s _⟩, ?_⟩
  · rw [hsame]
    exact hs
  · show ((polling n).run () o e s).2.taken = crs
    rw [hsame]
    exact hP

theorem pollJfc_spec : Polls (fun s : Line n => s.taken = []) (Proc.act .pollJfc)
    fun r s => s.taken = r.2 := by
  refine Discipline.spec_run (taken_stable []) ?_
  intro _ s _ hs hP o ho
  have hreply : Polled s.jfc o := ho
  refine ⟨⟨⟨?_, ?_, ?_⟩, fun j hj => absurd rfl hj, trivial⟩, rfl⟩
  · show s.arrived.Perm (s.polled ++ o.crs ++ s.jfc.diff o.crs)
    rw [List.append_assoc]
    exact hs.arrived.trans ((List.subperm_append_diff_self_of_count_le fun cqe _ =>
      hreply.queued.count_le cqe).symm.append_left s.polled)
  · show s.polled ++ o.crs = dispatched s.moves ++ o.crs
    rw [hs.polled, hP, List.append_nil]
  · show o.crs.length ≤ kMaxPollCr
    have hshort := hreply.short
    rw [hreply.count]
    omega

theorem completeEvent_spec (cqe : Cqe) (crs : List Cqe) :
    Polls (fun s : Line n => s.taken = cqe :: crs) (Proc.act (.completeEvent cqe))
      fun _ s => s.taken = crs := by
  refine Discipline.spec_run (taken_stable _) ?_
  intro _ s _ hs hP o _
  refine ⟨⟨⟨hs.arrived, ?_, ?_⟩, fun j hj => absurd rfl hj, ⟨crs, hP⟩⟩, ?_⟩
  · show s.polled = dispatched (s.moves ++ [.env cqe]) ++ s.taken.tail
    rw [hs.polled, hP]
    simp
  · show s.taken.tail.length ≤ kMaxPollCr
    have := hs.short
    rw [List.length_tail]
    omega
  · show s.taken.tail = crs
    rw [hP]
    rfl

theorem completeAll_spec (crs : List Cqe) :
    Polls (fun s : Line n => s.taken = crs) (completeAll crs) fun _ s => s.taken = [] := by
  induction crs with
  | nil => exact Spec.pure fun _ _ h => h
  | cons cqe crs ih => exact Spec.bind (completeEvent_spec cqe crs) fun _ => ih

theorem rearm_spec (cnt : ℤ) (crs : List Cqe) :
    Polls (fun s : Line n => s.taken = crs) (rearm cnt) fun _ s => s.taken = crs := by
  refine Spec.ite (fun _ => ?_) fun _ => Spec.pure fun _ _ h => h
  exact Spec.bind (quiet_spec (fun _ _ => rfl) fun _ _ => trivial) fun _ =>
    quiet_spec (fun _ _ => rfl) fun _ _ => trivial

/-- **A round** leaves nothing in hand. -/
theorem pollRound_spec (eventMode : Bool) :
    Polls (fun s : Line n => s.taken = []) (pollRound eventMode) fun _ s => s.taken = [] := by
  refine Spec.bind (quiet_spec (fun _ _ => rfl) fun _ _ => trivial) fun stop => ?_
  refine Spec.ite (fun _ => Spec.pure fun _ _ h => h) fun _ => Spec.ite (fun _ => ?_) fun _ => ?_
  · refine Spec.bind (quiet_spec (fun _ _ => rfl) fun _ _ => trivial) fun ready => ?_
    refine Spec.ite (fun _ => Spec.pure fun _ _ h => h) fun _ => ?_
    refine Spec.bind pollJfc_spec fun r => Spec.bind (rearm_spec r.1 r.2) fun _ => ?_
    exact Spec.bind (completeAll_spec r.2) fun _ => Spec.pure fun _ _ h => h
  · refine Spec.bind pollJfc_spec fun r => ?_
    exact Spec.bind (completeAll_spec r.2) fun _ => Spec.pure fun _ _ h => h

theorem pollThreadMain_spec (eventMode : Bool) :
    Polls (fun s : Line n => s.taken = []) (pollThreadMain eventMode) fun _ s => s.taken = [] := by
  refine Spec.loop (fun _ _ (s : Line n) => s.taken = []) (fun _ => ?_) ()
  exact (pollRound_spec eventMode).conseq (fun _ _ h => h) fun r _ _ h => by cases r <;> exact h

/-- The thread keeps its books in every run. -/
theorem polling_abiding {eventMode : Bool} {c : Conf Unit Unit (Line n) PollAct (Unit × Unit)}
    (hc : Reachable (polling n) (pollStarted n eventMode) c) :
    c.Good ((pollDiscipline n).safe (polling n)) fun _ _ s => s.taken = [] := by
  have hbooks : Books (pollStarted n eventMode).state := ⟨List.Perm.refl _, rfl, Nat.zero_le _⟩
  have hstart : (pollStarted n eventMode).Good ((pollDiscipline n).safe (polling n))
      fun _ _ s => s.taken = [] :=
    ⟨hbooks, fun _ => (pollThreadMain_spec eventMode).holds () ⟨_, 0, hbooks⟩ rfl⟩
  refine hstart.reachable (fun _ _ => taken_stable [] ()) (fun e s hs _ => ?_) hc
  exact ⟨(outside_books e hs).1, fun _ => (outside_books e hs).2⟩

end Specs

/-! ### The workers -/

/-- The workers after what has happened. -/
def Line.conf {n : ℕ} (s : Line n) (ops : Fin n → List Call) :
    Conf (Fin n) EventSlots State Act (Unit × EventSlots) :=
  (started ops).plays (manager n) s.moves

theorem manager_enabled {n : ℕ} (c : Conf (Fin n) EventSlots State Act (Unit × EventSlots))
    (mv : Move (Fin n) Bool Cqe) : c.Enabled (manager n) mv := by
  cases mv with
  | env cqe => trivial
  | thread i spurious =>
    unfold Conf.Enabled
    dsimp only
    split <;> trivial

theorem manager_reachable {n : ℕ} (ops : Fin n → List Call) (mvs : Moves n) :
    Reachable (manager n) (started ops) ((started ops).plays (manager n) mvs) := by
  refine Reachable.of_plays ?_
  generalize started ops = c
  induction mvs generalizing c with
  | nil => trivial
  | cons mv mvs ih => exact ⟨manager_enabled c mv, ih _⟩

/-- **Every completion is dispatched once.** In every interleaving of the poll thread with the workers and
the device, whatever the polls return of the queue: what has arrived is what has been polled and what is
still in the queue, with multiplicities; what has been polled is what has been dispatched, in that order,
followed by what the thread has in hand; and when the thread ends, it has nothing in hand. -/
theorem poll_accounts {n : ℕ} (eventMode : Bool) (c : Conf Unit Unit (Line n) PollAct (Unit × Unit))
    (hc : Reachable (polling n) (pollStarted n eventMode) c) :
    c.state.arrived.Perm (c.state.polled ++ c.state.jfc) ∧
      c.state.polled = dispatched c.state.moves ++ c.state.taken ∧
      c.state.taken.length ≤ kMaxPollCr ∧
      (c.result () ≠ none → c.state.polled = dispatched c.state.moves) := by
  have habide := polling_abiding hc
  have hbooks : Books c.state := habide.inv
  refine ⟨hbooks.arrived, hbooks.polled, hbooks.short, fun hret => ?_⟩
  obtain ⟨a, ha⟩ := Option.ne_none_iff_exists'.1 hret
  have htaken : c.state.taken = [] := habide.result ha
  rw [hbooks.polled, htaken, List.append_nil]

/-- A worker posts an event, its completion arrives after another one, and the thread polls and dispatches
it before the other one. -/
def onePoll : Conf Unit Unit (Line 1) PollAct (Unit × Unit) :=
  (pollStarted 1 false).plays (polling 1)
    (List.replicate 5 (.env (.worker 0 false)) ++
      [.env (.arrive ⟨512, false⟩), .env (.arrive ⟨256, true⟩)] ++
      List.replicate 4 (.thread () ⟨1, false, [⟨256, true⟩]⟩))

theorem onePoll_reachable : Reachable (polling 1) (pollStarted 1 false) onePoll :=
  Reachable.of_plays (by decide +kernel)

theorem poll_accounts_one :
    (dispatched onePoll.state.moves).length = 1 ∧ onePoll.state.jfc.length = 1 ∧
      onePoll.state.arrived.Perm (onePoll.state.polled ++ onePoll.state.jfc) ∧
      onePoll.state.polled = dispatched onePoll.state.moves ++ onePoll.state.taken := by
  obtain ⟨harrived, hpolled, -⟩ := poll_accounts false onePoll onePoll_reachable
  exact ⟨by decide +kernel, by decide +kernel, harrived, hpolled⟩

/-! ### Where completed events come from -/

/-- Every completed word goes back to a completion in the list. -/
def Sourced (l : List Cqe) (s : State) : Prop :=
  ∀ wid t ok, t < 2 ^ 40 → s.states wid (index t) = done t ok →
    ∃ cqe ∈ l, cqe.ok = ok ∧ cqe.userCtx >>> kRidShift = wid ∧ cqe.userCtx &&& kRidMask = t

/-- The accesses of a worker complete nothing. -/
theorem done_of_run {β : Type} {e : SlotAct β} (he : Proper e) {spurious : Bool} {words : ℕ → ℕ} {t : ℕ}
    {ok : Bool} (ht : t < 2 ^ 40) (h : (e.run spurious words).2 (index t) = done t ok) :
    words (index t) = done t ok := by
  -- a word that an access writes is pending or zero
  have hwrite : ∀ i desired, desired = 0 ∨ (∃ t', t' < 2 ^ 40 ∧ desired = pending t') →
      Function.update words i desired (index t) = done t ok → words (index t) = done t ok := by
    intro i desired hdesired hword
    by_cases hi : index t = i
    · rw [hi, Function.update_self] at hword
      rcases hdesired with rfl | ⟨t', ht', rfl⟩
      · exact absurd hword.symm (done_ne_zero ht ok)
      · exact absurd hword (pending_ne_done ht' ht ok)
    · rwa [Function.update_of_ne hi] at hword
  cases e with
  | load i => exact h
  | casStrong i expected desired =>
    rw [SlotAct.run_casStrong] at h
    split at h
    · refine hwrite i desired ?_ h
      rcases he with ⟨-, t', -, ht', -, rfl⟩ | ⟨rfl, -⟩
      · exact .inr ⟨t', ht', rfl⟩
      · exact .inl rfl
    · exact h
  | casWeak i expected desired =>
    have hrun : SlotAct.run spurious (.casWeak i expected desired) words =
        if words i = expected ∧ spurious = false then (none, Function.update words i desired)
        else (some (words i), words) := rfl
    rw [hrun] at h
    split at h
    · exact hwrite i desired (.inl he.1) h
    · exact h

section Sourced

variable {l : List Cqe} {s : State}

theorem Sourced.access (h : Sourced l s) {β : Type} {e : SlotAct β} (he : Proper e) (wid : ℕ)
    (spurious : Bool) : Sourced l (s.access wid spurious e).2 := by
  intro w t ok ht hword
  refine h w t ok ht ?_
  change Function.update s.states wid _ w (index t) = _ at hword
  by_cases hw : w = wid
  · subst hw
    rw [Function.update_self] at hword
    exact done_of_run he ht hword
  · rwa [Function.update_of_ne hw] at hword

/-- **A step of a worker** completes nothing. -/
theorem Sourced.run {n : ℕ} (h : Sourced l s) (i : Fin n) (spurious : Bool) {m : EventSlots} {β : Type}
    {e : Act β} (hduty : routing.duty m (s.notes i) e) : Sourced l ((manager n).run i spurious e s).2 := by
  cases e with
  | registerWorker =>
    intro wid t ok ht hword
    refine h wid t ok ht ?_
    change (if kMaxRegisteredWorkers ≤ s.workerCount then ((none : Option ℕ), s)
      else (some s.workerCount, { s with workerCount := s.workerCount + 1 })).2.states wid (index t) = _
      at hword
    split at hword <;> exact hword
  | loadCount => exact h
  | load wid idx => exact h.access hduty.2 wid spurious
  | casStrong wid idx expected desired => exact h.access hduty.2 wid spurious
  | casWeak wid idx expected desired => exact h.access hduty.2 wid spurious
  | call free => exact h
  | answer wid userCtx token free => exact h

/-- **A dispatched completion** completes at most the word of its token. -/
theorem Sourced.dispatch (h : Sourced l s) (cqe : Cqe) :
    Sourced (l ++ [cqe]) (Manager.dispatch cqe s) := by
  have hold : ∀ wid t ok, t < 2 ^ 40 → s.states wid (index t) = done t ok →
      ∃ cqe' ∈ l ++ [cqe], cqe'.ok = ok ∧ cqe'.userCtx >>> kRidShift = wid ∧
        cqe'.userCtx &&& kRidMask = t := by
    intro wid t ok ht hword
    obtain ⟨cqe', hmem, hrest⟩ := h wid t ok ht hword
    exact ⟨cqe', List.mem_append_left _ hmem, hrest⟩
  intro wid t ok ht hword
  change completeEvent _ _ _ _ _ wid (index t) = _ at hword
  unfold completeEvent at hword
  split at hword
  · exact hold wid t ok ht hword
  rename_i hshift
  rw [ne_eq, not_not] at hshift
  split at hword
  · exact hold wid t ok ht hword
  rw [← hshift] at hword
  by_cases hw : wid = cqe.userCtx >>> kRidShift
  · subst hw
    rw [Function.update_self] at hword
    rcases Nat.eq_zero_or_pos (cqe.userCtx &&& kRidMask) with h0 | hpos
    · rw [complete, if_pos h0] at hword
      exact hold _ t ok ht hword
    rw [complete_eq hpos] at hword
    split at hword
    · by_cases hi : index t = index (cqe.userCtx &&& kRidMask)
      · rw [hi, Function.update_self] at hword
        have hlt : cqe.userCtx &&& kRidMask < 2 ^ 40 := Nat.and_lt_two_pow _ (by decide)
        obtain ⟨htok, hok⟩ := done_inj hlt ht hword
        exact ⟨cqe, by simp, hok, rfl, htok⟩
      · rw [Function.update_of_ne hi] at hword
        exact hold _ t ok ht hword
    · exact hold _ t ok ht hword
  · rw [Function.update_of_ne hw] at hword
    exact hold wid t ok ht hword

end Sourced

theorem plays_append {n : ℕ} (c : Conf (Fin n) EventSlots State Act (Unit × EventSlots))
    (mvs : Moves n) (mv : Move (Fin n) Bool Cqe) :
    c.plays (manager n) (mvs ++ [mv]) = (c.plays (manager n) mvs).play (manager n) mv := by
  induction mvs generalizing c with
  | nil => rfl
  | cons mv' mvs ih => exact ih _

/-- **A run** of the workers completes what its completions say. By induction on its last step. -/
theorem sourced_of_plays {n : ℕ} (ops : Fin n → List Call) (mvs : Moves n) :
    Sourced (dispatched mvs) ((started ops).plays (manager n) mvs).state := by
  induction mvs using List.reverseRecOn with
  | nil =>
    intro wid t ok ht hword
    exact absurd hword.symm (done_ne_zero ht ok)
  | append_singleton mvs mv ih =>
    rw [plays_append, dispatched_append]
    have hr := manager_reachable ops mvs
    have hsafe := hr.safe (started_safe ops) notes_recorded fun _ _ _ _ _ _ _ _ _ _ => trivial
    generalize (started ops).plays (manager n) mvs = c at ih hr hsafe
    cases mv with
    | env cqe => exact ih.dispatch cqe
    | thread i spurious =>
      rw [dispatched_thread, List.append_nil]
      unfold Conf.play
      dsimp only
      rcases hp : c.prog i with a | ⟨m, e, k⟩ | ⟨body, b, k⟩
      · exact ih
      · have hi := hsafe i
        rw [hp] at hi
        exact ih.run i spurious (Private.safe_act.1 hi).1
      · exact ih

/-- **No completion out of nothing.** Whenever a worker finds the event of its token completed, the
device has put a completion with the number of the worker, this token and this status into the queue, and
the poll thread has dispatched it. -/
theorem completion_arrived {n : ℕ} (eventMode : Bool) (ops : Fin n → List Call)
    (c : Conf Unit Unit (Line n) PollAct (Unit × Unit))
    (hc : Reachable (polling n) (pollStarted n eventMode) c) (wid t : ℕ) (ok : Bool) (ht : t < 2 ^ 40)
    (hword : (c.state.conf ops).state.states wid (index t) = done t ok) :
    ∃ cqe ∈ c.state.arrived, cqe ∈ dispatched c.state.moves ∧ cqe.ok = ok ∧
      cqe.userCtx >>> kRidShift = wid ∧ cqe.userCtx &&& kRidMask = t := by
  obtain ⟨cqe, hmem, hrest⟩ := sourced_of_plays ops c.state.moves wid t ok ht hword
  have hbooks : Books c.state := (polling_abiding hc).inv
  refine ⟨cqe, hbooks.arrived.mem_iff.2 (List.mem_append_left _ ?_), hmem, hrest⟩
  rw [hbooks.polled]
  exact List.mem_append_left _ hmem

theorem completion_arrived_one :
    ∃ cqe ∈ onePoll.state.arrived, cqe ∈ dispatched onePoll.state.moves ∧ cqe.ok = true ∧
      cqe.userCtx >>> kRidShift = 0 ∧ cqe.userCtx &&& kRidMask = 256 :=
  completion_arrived false (fun _ => [.post]) onePoll onePoll_reachable 0 256 true (by norm_num)
    (by decide +kernel)

end KvBench.Manager
