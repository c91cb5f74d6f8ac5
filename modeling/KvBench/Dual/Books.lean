import KvBench.Dual.Lanes

/-!
# The books of the dual workers

A worker that has returned without an error has posted four work requests for every operation that it has
counted, all of them have been delivered, and their lengths add up to the bytes that it has counted; it holds
no lane and has nothing outstanding. After an error this is true of all work requests but those of the last
round: at most four, which nobody counts, and whose lanes may stay held for ever (`dual_books`).
-/

namespace KvBench.Dual

open KvBench.Bench KvBench.Conc KvBench.Events KvBench.Hist KvBench.Lanes KvBench.Manager

/-! ### A round in the books -/

/-- What a round has posted at the first `k` ports, the last first. -/
def posted (f : ℕ → Wr) : ℕ → List PortWr
  | 0 => []
  | k + 1 => ⟨k, f k⟩ :: posted f k

/-- The bytes of work requests. -/
def totalLen (rs : List PortWr) : ℕ := (rs.map fun r => r.wr.len).sum

theorem length_posted (f : ℕ → Wr) (k : ℕ) : (posted f k).length = k := by
  induction k with
  | zero => rfl
  | succ k ih => rw [posted, List.length_cons, ih]

theorem posted_congr {f g : ℕ → Wr} {k : ℕ} (h : ∀ p < k, f p = g p) : posted f k = posted g k := by
  induction k with
  | zero => rfl
  | succ k ih => rw [posted, posted, h k (by omega), ih fun p hp => h p (by omega)]

theorem totalLen_posted {f : ℕ → Wr} {k len : ℕ} (h : ∀ p < k, (f p).len = len) :
    totalLen (posted f k) = k * len := by
  induction k with
  | zero => simp [totalLen, posted]
  | succ k ih =>
    have hrest := ih fun p hp => h p (by omega)
    unfold totalLen at hrest ⊢
    rw [posted, List.map_cons, List.sum_cons, hrest, h k (by omega)]
    ring

theorem len_of_mem_posted {f : ℕ → Wr} {k len : ℕ} (h : ∀ p < k, (f p).len = len) {r : PortWr}
    (hr : r ∈ posted f k) : r.wr.len = len := by
  induction k with
  | zero => cases hr
  | succ k ih =>
    rcases List.mem_cons.1 hr with rfl | hr
    · exact h k (by omega)
    · exact ih (fun p hp => h p (by omega)) hr

theorem totalLen_append (rs rs' : List PortWr) : totalLen (rs ++ rs') = totalLen rs + totalLen rs' := by
  simp [totalLen]

/-- The counters of a worker that has counted the work requests `counted` and made `errors` errors. -/
structure Tally (counted : List PortWr) (errors : ℕ) (m : DualWorker) : Prop where
  ops : counted.length = 4 * m.ops
  bytes : totalLen counted = m.bytes
  errors : m.errors = errors
  short : ∀ r ∈ counted, r.wr.len < 2 ^ 32

/-- The bytes that fewer than `2 ^ 29` operations count fit into `dw->bytes`. -/
theorem Tally.bytes_lt {counted : List PortWr} {errors : ℕ} {m : DualWorker}
    (h : Tally counted errors m) (hops : m.ops < 2 ^ 29) : m.bytes < 2 ^ 64 := by
  have hsum : totalLen counted ≤ counted.length * 2 ^ 32 := by
    unfold totalLen
    rw [← List.length_map (fun r : PortWr => r.wr.len), ← smul_eq_mul]
    refine List.sum_le_card_nsmul _ _ fun x hx => ?_
    obtain ⟨r, hr, rfl⟩ := List.mem_map.1 hx
    exact (h.short r hr).le
  rw [h.bytes, h.ops] at hsum
  omega

/-- The worker has recorded what it waits for at a port. -/
structure Recorded (ctx : DualContext) (m : DualWorker) (p : ℕ) (wr : Wr) : Prop where
  wid : wr.wid = m.wid p
  token : wr.token = m.eventToken p
  lane : m.jetty p = some wr.lane
  len : wr.len = wrSize ctx.args % 2 ^ 32

/-- The memory of a worker that has posted at the first `k` ports. -/
def Logged (ctx : DualContext) (counted : List PortWr) (k : ℕ) (f : ℕ → Wr) (m : DualWorker) : Prop :=
  Tally counted 0 m ∧ ∀ p < k, Recorded ctx m p (f p)

/-- The counters and the first `k` ports are as before. -/
structure SameBelow (k : ℕ) (m m' : DualWorker) : Prop where
  wid : m'.wid = m.wid
  token : ∀ p < k, m'.eventToken p = m.eventToken p
  jetty : ∀ p < k, m'.jetty p = m.jetty p
  ops : m'.ops = m.ops
  bytes : m'.bytes = m.bytes
  errors : m'.errors = m.errors

theorem Logged.same {ctx : DualContext} {counted : List PortWr} {k : ℕ} {f : ℕ → Wr}
    {m m' : DualWorker} (h : Logged ctx counted k f m) (hm : SameBelow k m m') :
    Logged ctx counted k f m' := by
  refine ⟨⟨?_, ?_, ?_, h.1.short⟩, fun p hp => ⟨?_, ?_, ?_, (h.2 p hp).len⟩⟩
  · rw [hm.ops]
    exact h.1.ops
  · rw [hm.bytes]
    exact h.1.bytes
  · rw [hm.errors]
    exact h.1.errors
  · rw [hm.wid]
    exact (h.2 p hp).wid
  · rw [hm.token p hp]
    exact (h.2 p hp).token
  · rw [hm.jetty p hp]
    exact (h.2 p hp).lane

theorem SameBelow.setToken (m : DualWorker) (k token : ℕ) :
    SameBelow k m { m with eventToken := Function.update m.eventToken k token } :=
  ⟨rfl, fun _ hp => Function.update_of_ne hp.ne _ _, fun _ _ => rfl, rfl, rfl, rfl⟩

theorem SameBelow.setJetty (m : DualWorker) (k : ℕ) (lane : Option Lane) :
    SameBelow k m { m with jetty := Function.update m.jetty k lane } :=
  ⟨rfl, fun _ _ => rfl, fun _ hp => Function.update_of_ne hp.ne _ _, rfl, rfl, rfl⟩

theorem SameBelow.setHist (m : DualWorker) (k : ℕ) (hist : KvHist) :
    SameBelow k m { m with histPost := hist } :=
  ⟨rfl, fun _ _ => rfl, fun _ _ => rfl, rfl, rfl, rfl⟩

/-- The ports when the round has posted at the first `k` of them. -/
def afterPosting (f : ℕ → Wr) (k p : ℕ) : PortStatus := if p < k then .awaiting (f p) else .free

/-- The ports when the round has posted at the first `n` of them and has waited at the first `k`. -/
def afterWaiting (f : ℕ → Wr) (n k : ℕ) (ok : Bool) (p : ℕ) : PortStatus :=
  if p < k then (if ok then .free else .lost) else afterPosting f n p

section Ports

variable {f : ℕ → Wr} {k n : ℕ} {ok : Bool}

theorem afterPosting_free : Function.update (afterPosting f k) k .free = afterPosting f k := by
  have hk : afterPosting f k k = .free := if_neg (lt_irrefl k)
  rw [← hk, Function.update_eq_self]

theorem afterPosting_succ (wr : Wr) :
    afterPosting (Function.update f k wr) (k + 1) = Function.update (afterPosting f k) k (.awaiting wr) := by
  funext p
  unfold afterPosting
  by_cases hp : p = k
  · subst hp
    simp
  · by_cases hlt : p < k
    · simp [hp, hlt, show p < k + 1 by omega]
    · simp [hp, hlt, show ¬ p < k + 1 by omega]

theorem afterWaiting_at (hk : k < n) :
    Function.update (afterWaiting f n k ok) k (.awaiting (f k)) = afterWaiting f n k ok := by
  have hst : afterWaiting f n k ok k = .awaiting (f k) := by
    unfold afterWaiting afterPosting
    rw [if_neg (lt_irrefl k), if_pos hk]
  rw [← hst, Function.update_eq_self]

theorem afterWaiting_succ :
    Function.update (afterWaiting f n k ok) k (if ok then .free else .lost) =
      afterWaiting f n (k + 1) ok := by
  funext p
  unfold afterWaiting
  by_cases hp : p = k
  · subst hp
    simp
  · by_cases hlt : p < k
    · simp [hp, hlt, show p < k + 1 by omega]
    · simp [hp, hlt, show ¬ p < k + 1 by omega]

end Ports

/-! ### One round -/

section Round

variable {n : ℕ} {lanes : ℕ → ℕ} {i : Fin n} {ctx : DualContext} {counted : List PortWr}
  {f : ℕ → Wr} {off k : ℕ}

/-- The worker has posted at the first `k` ports. -/
def Posting (i : Fin n) (ctx : DualContext) (counted : List PortWr) (k : ℕ) (f : ℕ → Wr) :
    DualWorker → Ports → Prop :=
  Knows i dualPorts (afterPosting f k) (posted f k ++ counted) counted (Logged ctx counted k f)

/-- At the port `k`, the round has come as far as `st`. -/
def PostingAt (i : Fin n) (counted : List PortWr) (k : ℕ) (f : ℕ → Wr) (st : PortStatus)
    (F : DualWorker → Prop) : DualWorker → Ports → Prop :=
  Knows i dualPorts (Function.update (afterPosting f k) k st) (posted f k ++ counted) counted F

theorem posting_eq :
    Posting i ctx counted k f = PostingAt i counted k f .free (Logged ctx counted k f) := by
  unfold Posting PostingAt
  rw [afterPosting_free]

/-- The work request is posted: the round goes on at the next port. -/
theorem Posting.next {wr : Wr} {m : DualWorker} {s : Ports}
    (h : Knows i dualPorts (Function.update (afterPosting f k) k (.awaiting wr))
      (⟨k, wr⟩ :: (posted f k ++ counted)) counted (Logged ctx counted k f) m s)
    (hrec : Recorded ctx m k wr) : ∃ f', Posting i ctx counted (k + 1) f' m s := by
  have hsame : ∀ p < k, Function.update f k wr p = f p := fun p hp => Function.update_of_ne hp.ne _ _
  refine ⟨Function.update f k wr, ?_, h.2.1, fun p hp => ?_⟩
  · rw [afterPosting_succ, posted, posted_congr hsame, Function.update_self, List.cons_append]
    exact h.1
  · by_cases hpk : p = k
    · subst hpk
      rw [Function.update_self]
      exact hrec
    · have hlt : p < k := by omega
      rw [hsame p hlt]
      exact h.2.2 p hlt

theorem postPort_abides (hk : k < dualPorts) :
    Abides (ports n) (portDiscipline n lanes) i (Posting i ctx counted k f) (postPort ctx off k)
      (fun r m s => r.elim (∃ f', Posting i ctx counted (k + 1) f' m s)
        fun p => p = k ∧ Posting i ctx counted k f m s) := by
  rw [posting_eq]
  unfold postPort
  refine Spec.bind acquire_call fun lane => ?_
  cases lane with
  | none => exact Spec.pure fun m s h => ⟨rfl, h⟩
  | some lane =>
    refine Spec.get_bind fun m₀ => ?_
    refine Spec.bind (Spec.conseq (P := PostingAt i counted k f (.holding lane)
      fun m => Logged ctx counted k f m ∧ m.wid k = m₀.wid k) (postEvent_call hk fun m h => h.2) ?_
      fun _ _ _ h => h) fun ⟨ue, token⟩ => Spec.or (Spec.and fun hzero => ?_) (Spec.and fun hnew => ?_)
    · rintro m s ⟨rfl, hv, hm⟩
      exact ⟨hv, hm, rfl⟩
    · -- `PostEvent` has failed
      obtain ⟨rfl, rfl⟩ := Prod.mk.inj hzero
      refine Spec.modify_bind
        (PostingAt i counted k f (.holding lane) (Logged ctx counted k f)) ?_ ?_
      · exact fun m s h => ⟨h.1.mem rfl, h.2.1.same (.setToken m k 0)⟩
      rw [if_pos rfl]
      exact Spec.bind release_call fun _ => Spec.pure fun m s h => ⟨rfl, h⟩
    · obtain ⟨hctx, hne, hwid, htoken⟩ := hnew
      set F : DualWorker → Prop := fun m =>
        Logged ctx counted k f m ∧ m.wid k = m₀.wid k ∧ m.eventToken k = token with hF
      refine Spec.modify_bind
        (PostingAt i counted k f (.armed lane (m₀.wid k) token) F) ?_ ?_
      · refine fun m s h => ⟨h.1.mem rfl, h.2.1.same (.setToken m k token), h.2.2, ?_⟩
        exact Function.update_self _ _ _
      rw [if_neg hne]
      refine Spec.bind (quiet_call fun _ _ => rfl) fun t0 => ?_
      set wr : Wr := {
        lane := lane
        localAddr := (ctx.clientData + off + k * wrSize ctx.args) % 2 ^ 64
        remoteAddr := (ctx.remoteSegVa k + off + k * wrSize ctx.args) % 2 ^ 64
        len := wrSize ctx.args % 2 ^ 32
        srcChip := invalidChip
        dstChip := invalidChip
        userCtx := ue
        read := false } with hwr
      obtain ⟨hwid', htoken'⟩ := Wr.wid_of_userCtx (r := wr) hctx hwid htoken
      refine Spec.bind (postWrite_call rfl hwid' htoken') fun ok =>
        Spec.or (Spec.and fun hok => ?_) (Spec.and fun hok => ?_)
      · -- posted
        subst hok
        refine Spec.bind (quiet_call fun _ _ => rfl) fun t1 => ?_
        refine Spec.modify_bind (Knows i dualPorts
          (Function.update (afterPosting f k) k (.awaiting wr)) (⟨k, wr⟩ :: (posted f k ++ counted))
          counted F) ?_ ?_
        · exact fun m s h => ⟨h.1.mem rfl, h.2.1.same (.setHist m k _), h.2.2⟩
        rw [if_pos rfl]
        refine Spec.modify_bind (fun m s => ∃ f', Posting i ctx counted (k + 1) f' m s) ?_ ?_
        · rintro m s ⟨hv, hlog, hmwid, hmtoken⟩
          refine Posting.next ⟨hv.mem rfl, hlog.same (.setJetty m k _)⟩ ⟨?_, ?_, ?_, rfl⟩
          · exact hwid'.trans hmwid.symm
          · exact htoken'.trans hmtoken.symm
          · exact Function.update_self _ _ _
        · exact Spec.pure fun m s h => h
      · -- `PostWrite` has failed
        subst hok
        refine Spec.bind (quiet_call fun _ _ => rfl) fun t1 => ?_
        refine Spec.modify_bind
          (PostingAt i counted k f (.armed lane (m₀.wid k) token) F) ?_ ?_
        · exact fun m s h => ⟨h.1.mem rfl, h.2.1.same (.setHist m k _), h.2.2⟩
        rw [if_neg Bool.false_ne_true]
        refine Spec.get_bind fun m₁ => Spec.of_fact (p := m₁.wid k = m₀.wid k) ?_ fun hm₁ => ?_
        · rintro m s ⟨rfl, h⟩
          exact h.2.2.1
        rw [hm₁]
        refine Spec.bind (Spec.conseq abort_call (fun m s h => h.2) fun _ _ _ h => h) fun _ => ?_
        refine Spec.bind release_call fun _ => Spec.pure fun m s h => ⟨rfl, h.1, h.2.1⟩

theorem postPorts_abides :
    Abides (ports n) (portDiscipline n lanes) i (Posting i ctx counted 0 f)
      (Proc.search (postPort ctx off) 0 dualPorts)
      (fun left m s => left.getD dualPorts ≤ dualPorts ∧
        ∃ f', Posting i ctx counted (left.getD dualPorts) f' m s) := by
  have hport : ∀ k, 0 ≤ k → k < 0 + dualPorts →
      Abides (ports n) (portDiscipline n lanes) i (fun m s => ∃ f', Posting i ctx counted k f' m s)
        (postPort ctx off k)
        (fun r => r.elim (fun m s => ∃ f', Posting i ctx counted (k + 1) f' m s)
          fun port m s => port < dualPorts ∧ ∃ f', Posting i ctx counted port f' m s) := by
    intro k _ hk
    refine Spec.of_exists fun f' => ?_
    refine (postPort_abides (f := f') (by omega)).conseq (fun _ _ h => h) fun r m s h => ?_
    cases r with
    | none => exact h
    | some port =>
      obtain ⟨rfl, hposting⟩ := h
      exact ⟨by omega, f', hposting⟩
  refine (Spec.search _ _ hport).conseq (fun m s h => ⟨f, h⟩) fun left m s h => ?_
  cases left with
  | none =>
    rw [Nat.zero_add] at h
    exact ⟨le_rfl, h⟩
  | some port => exact ⟨h.1.le, h.2⟩

/-- The worker has posted at `N` ports and has waited at the first `k`. -/
def Waiting (i : Fin n) (ctx : DualContext) (counted : List PortWr) (N : ℕ) (f : ℕ → Wr) (k : ℕ)
    (ok : Bool) : DualWorker → Ports → Prop :=
  Knows i dualPorts (afterWaiting f N k ok) (posted f N ++ counted)
    (if ok then posted f k ++ counted else counted)
    fun m => Tally counted 0 m ∧ ∀ p, k ≤ p → p < N → Recorded ctx m p (f p)

variable {N : ℕ}

/-- The lane of the port is forgotten, those of the later ports are not. -/
theorem Waiting.forget {m : DualWorker}
    (h : Tally counted 0 m ∧ ∀ p, k ≤ p → p < N → Recorded ctx m p (f p)) :
    let m' := { m with jetty := Function.update m.jetty k none }
    Tally counted 0 m' ∧ ∀ p, k + 1 ≤ p → p < N → Recorded ctx m' p (f p) := by
  refine ⟨⟨h.1.ops, h.1.bytes, h.1.errors, h.1.short⟩, fun p hp hN => ?_⟩
  have hrec := h.2 p (by omega) hN
  refine ⟨hrec.wid, hrec.token, ?_, hrec.len⟩
  show Function.update m.jetty k none p = _
  rw [Function.update_of_ne (by omega)]
  exact hrec.lane

theorem waitPort_abides (hk : k < N) (ok : Bool) :
    Abides (ports n) (portDiscipline n lanes) i (Waiting i ctx counted N f k ok) (waitPort ctx k ok)
      (fun ok' m s => (ok' = true → ok = true) ∧ Waiting i ctx counted N f (k + 1) ok' m s) := by
  unfold waitPort
  refine Spec.get_bind fun m₀ => Spec.of_fact (p := Recorded ctx m₀ k (f k)) ?_ fun hrec => ?_
  · rintro m s ⟨rfl, h⟩
    exact h.2.2 k le_rfl hk
  rw [← hrec.wid, ← hrec.token, hrec.lane]
  refine Spec.bind (Spec.conseq (P := Knows i dualPorts
    (Function.update (afterWaiting f N k ok) k (.awaiting (f k))) (posted f N ++ counted)
    (if ok then posted f k ++ counted else counted)
    fun m => Tally counted 0 m ∧ ∀ p, k ≤ p → p < N → Recorded ctx m p (f p))
    (waitEvent_call ctx.args.timeoutMs) (fun m s h => ?_) fun _ _ _ h => h)
    fun done => Spec.or (Spec.and fun hdone => ?_) (Spec.and fun hdone => ?_)
  · rw [afterWaiting_at hk]
    exact h.2
  · subst hdone
    rw [if_pos rfl]
    refine Spec.bind release_call fun _ => ?_
    refine Spec.modify_bind (Waiting i ctx counted N f (k + 1) ok) ?_
      (Spec.pure fun _ _ h => ⟨fun hok => hok, h⟩)
    rintro m s ⟨hv, hm⟩
    refine ⟨View.mem (View.weaken hv (fun p => ?_) ?_) rfl, Waiting.forget hm⟩
    · rw [← afterWaiting_succ]
      by_cases hp : p = k
      · subst hp
        rw [Function.update_self, Function.update_self]
        cases ok
        · exact .inr rfl
        · exact .inl rfl
      · rw [Function.update_of_ne hp, Function.update_of_ne hp]
        exact .inl rfl
    · cases ok
      · exact List.sublist_cons_self _ _
      · exact List.Sublist.refl _
  · subst hdone
    refine Spec.modify_bind (Waiting i ctx counted N f (k + 1) false) ?_
      (Spec.pure fun _ _ h => ⟨fun hok => absurd hok Bool.false_ne_true, h⟩)
    rintro m s ⟨hv, hm⟩
    refine ⟨View.mem (View.weaken hv (fun p => ?_) ?_) rfl, Waiting.forget hm⟩
    · unfold afterWaiting
      by_cases hp : p < k + 1
      · rw [if_pos hp]
        exact .inr rfl
      · rw [if_neg hp, Function.update_of_ne (by omega), if_neg (by omega)]
        exact .inl rfl
    · cases ok
      · exact List.Sublist.refl _
      · exact List.sublist_append_right _ _

theorem waitPorts_abides (ok : Bool) :
    Abides (ports n) (portDiscipline n lanes) i (Waiting i ctx counted N f 0 ok)
      (Proc.each (waitPort ctx) 0 N ok)
      (fun ok' m s => (ok' = true → ok = true) ∧ Waiting i ctx counted N f N ok' m s) := by
  have hport : ∀ k ok', 0 ≤ k → k < 0 + N →
      Abides (ports n) (portDiscipline n lanes) i
        (fun m s => (ok' = true → ok = true) ∧ Waiting i ctx counted N f k ok' m s) (waitPort ctx k ok')
        (fun ok'' m s => (ok'' = true → ok = true) ∧ Waiting i ctx counted N f (k + 1) ok'' m s) := by
    intro k ok' _ hk
    refine Spec.and fun hok => (waitPort_abides (by omega) ok').conseq (fun _ _ h => h) ?_
    exact fun ok'' m s h => ⟨fun hok'' => hok (h.1 hok''), h.2⟩
  have heach := Spec.each (fun k ok' m s => (ok' = true → ok = true) ∧ Waiting i ctx counted N f k ok' m s)
    hport ok
  rw [Nat.zero_add] at heach
  exact heach.conseq (fun _ _ h => ⟨fun hok => hok, h⟩) fun _ _ _ h => h

/-- All work requests are posted: the waiting begins. -/
theorem Posting.waiting {m : DualWorker} {s : Ports} (h : Posting i ctx counted N f m s) (ok : Bool) :
    Waiting i ctx counted N f 0 ok m s := by
  obtain ⟨hv, htally, hrec⟩ := h
  refine ⟨View.weaken hv (fun p => .inl ?_) ?_, htally, fun p _ hp => hrec p hp⟩
  · unfold afterWaiting
    rw [if_neg (Nat.not_lt_zero p)]
  · cases ok
    · exact List.Sublist.refl _
    · exact List.Sublist.refl _

/-- Between two rounds: everything that was sent has been delivered and counted. -/
def Rested (i : Fin n) (reg : ℕ) (counted : List PortWr) : DualWorker → Ports → Prop :=
  Knows i reg (fun _ => .free) counted counted (Tally counted 0)

/-- How a worker returns. -/
def Settled (i : Fin n) (m : DualWorker) (s : Ports) : Prop :=
  (∃ reg counted, Rested i reg counted m s) ∨
    ∃ extra counted, extra.length ≤ dualPorts ∧
      Knows i dualPorts (fun _ => .lost) (extra ++ counted) counted (Tally counted 1) m s ∧
      s.fatal = true

theorem Settled.stable (m : DualWorker) : (portDiscipline n lanes).Stable i (Settled i m) := by
  rintro s s' hs (⟨reg, counted, h⟩ | ⟨extra, counted, hlen, h, hfatal⟩) hr hs'
  · exact .inl ⟨reg, counted, Knows.stable m s s' hs h hr hs'⟩
  · exact .inr ⟨extra, counted, hlen, Knows.stable m s s' hs h hr hs', hr.fatal hfatal⟩

theorem keepsRunning_abides {reg : ℕ} {v : ℕ → PortStatus} {sent paid : List PortWr}
    {F : DualWorker → Prop} (deadline : ℕ) :
    Abides (ports n) (portDiscipline n lanes) i (Knows i reg v sent paid F) (keepsRunning deadline)
      (fun _ => Knows i reg v sent paid F) := by
  unfold keepsRunning
  refine Spec.bind (quiet_call fun _ _ => rfl) fun stop => Spec.ite (fun _ => ?_) fun _ => ?_
  · exact Spec.pure fun _ _ h => h
  refine Spec.bind (quiet_call fun _ _ => rfl) fun fatal => Spec.ite (fun _ => ?_) fun _ => ?_
  · exact Spec.pure fun _ _ h => h
  exact Spec.bind (quiet_call fun _ _ => rfl) fun t => Spec.pure fun _ _ h => h

/-- The round is counted. -/
theorem Waiting.rested (ha : Accepted ctx.args) {m m' : DualWorker} {s : Ports}
    (h : Waiting i ctx counted dualPorts f dualPorts true m s)
    (hlen : ∀ p < dualPorts, (f p).len = wrSize ctx.args % 2 ^ 32) (hwid : m'.wid = m.wid)
    (hops : m'.ops = m.ops + 1) (hbytes : m'.bytes = m.bytes + roundBytes ctx.args)
    (herrors : m'.errors = m.errors) :
    Rested i dualPorts (posted f dualPorts ++ counted) m' s := by
  obtain ⟨hv, htally, -⟩ := h
  obtain ⟨hround, -, hsmall⟩ := roundBytes_eq ha
  refine ⟨View.mem (View.weaken hv (fun p => .inl ?_) (List.Sublist.refl _)) hwid, ?_, ?_, ?_,
    fun r hr => ?_⟩
  · unfold afterWaiting afterPosting
    by_cases hp : p < dualPorts
    · rw [if_pos hp, if_pos rfl]
    · rw [if_neg hp, if_neg hp]
  · rw [List.length_append, length_posted, htally.ops, hops]
    unfold dualPorts
    omega
  · rw [totalLen_append, totalLen_posted hlen, htally.bytes, hbytes, hround,
      Nat.mod_eq_of_lt (by omega)]
    unfold dualPorts
    omega
  · rw [herrors]
    exact htally.errors
  · rcases List.mem_append.1 hr with hr | hr
    · rw [len_of_mem_posted hlen hr]
      exact Nat.mod_lt _ (by norm_num)
    · exact htally.short r hr

/-- **The end of a round that has failed.** -/
theorem failRound_abides (hN : N ≤ dualPorts) :
    Abides (ports n) (portDiscipline n lanes) i (Waiting i ctx counted N f N false)
      (do
        modify fun m : DualWorker => { m with errors := m.errors + 1 }
        let fatal ← Proc.act .loadFatal
        if fatal then pure () else Proc.act .setFatal
        pure (Sum.inr ()))
      (Sum.elim (fun (_ : Unit) m s => ∃ counted', Rested i dualPorts counted' m s)
        fun (_ : Unit) m s => Settled i m s) := by
  refine Spec.modify_bind (Knows i dualPorts (fun _ => .lost) (posted f N ++ counted) counted
    (Tally counted 1)) ?_ ?_
  · rintro m s ⟨hv, htally, -⟩
    refine ⟨View.mem (View.weaken hv (fun _ => .inr rfl) (List.Sublist.refl _)) rfl,
      htally.ops, htally.bytes, ?_, htally.short⟩
    show m.errors + 1 = 1
    rw [htally.errors]
  have hlen : (posted f N).length ≤ dualPorts := by rwa [length_posted]
  refine Spec.bind (Q := fun fatal m s => Knows i dualPorts (fun _ => .lost) (posted f N ++ counted)
    counted (Tally counted 1) m s ∧ (fatal = true → s.fatal = true)) ?_ fun fatal => ?_
  · exact port_call 0 fun m s o hs hv hF _ => ⟨hs, PortStep.refl _ _ _, ⟨hv, hF⟩, fun h => h⟩
  refine Spec.ite (fun hfatal => ?_) fun _ => ?_
  · exact Spec.pure fun m s h => .inr ⟨_, counted, hlen, h.1, h.2 hfatal⟩
  · refine Spec.bind (Q := fun _ m s => Settled i m s) ?_ fun _ => Spec.pure fun _ _ h => h
    refine (port_call 0 fun m s o hs hv hF _ => ?_).conseq (fun _ _ h => h.1) fun _ _ _ h => h
    have hstep : PortStep i 0 s { s with fatal := true } :=
      { PortStep.refl i 0 s with
        sees := fun j p _ => { Sees.refl j p s with }
        fatal := fun _ => rfl }
    refine ⟨{ hs with }, hstep, .inr ⟨_, counted, hlen, ⟨{ hv with ports := fun _ => trivial }, hF⟩, rfl⟩⟩

theorem dualRound_abides (ha : Accepted ctx.args) (deadline : ℕ) :
    Abides (ports n) (portDiscipline n lanes) i
      (fun m s => ∃ counted, Rested i dualPorts counted m s) (dualRound ctx deadline ())
      (Sum.elim (fun (_ : Unit) m s => ∃ counted, Rested i dualPorts counted m s)
        fun (_ : Unit) m s => Settled i m s) := by
  refine Spec.of_exists fun counted => ?_
  unfold dualRound
  refine Spec.bind (keepsRunning_abides deadline) fun runs => Spec.ite (fun _ => ?_) fun _ => ?_
  swap
  · exact Spec.pure fun m s h => .inl ⟨dualPorts, counted, h⟩
  refine Spec.bind (quiet_call fun _ _ => rfl) fun t0 => Spec.get_bind fun m₀ => ?_
  refine Spec.bind (Spec.conseq (P := Rested i dualPorts counted) (quiet_call fun _ _ => rfl)
    (fun _ _ h => h.2) fun _ _ _ h => h) fun _ => ?_
  have hpost : Abides (ports n) (portDiscipline n lanes) i (Rested i dualPorts counted)
      (Proc.search (postPort ctx m₀.off) 0 dualPorts)
      (fun left m s => left.getD dualPorts ≤ dualPorts ∧
        ∃ f', Posting i ctx counted (left.getD dualPorts) f' m s) :=
    (postPorts_abides (f := fun _ => ⟨0, 0, 0, 0, invalidChip, invalidChip, 0, false⟩)).conseq
      (fun m s h => ⟨h.1, h.2, fun p hp => absurd hp (Nat.not_lt_zero p)⟩) fun _ _ _ h => h
  refine Spec.bind hpost fun left => Spec.and fun hN => Spec.of_exists fun f => ?_
  refine Spec.of_fact (p := ∀ p < left.getD dualPorts, (f p).len = wrSize ctx.args % 2 ^ 32) ?_
    fun hlen => ?_
  · exact fun m s h p hp => (h.2.2 p hp).len
  refine Spec.bind ((waitPorts_abides left.isNone).conseq (fun m s h => h.waiting _)
    fun _ _ _ h => h) fun ok => Spec.and fun hok => ?_
  cases ok with
  | true =>
    obtain rfl : left = none := Option.isNone_iff_eq_none.1 (hok rfl)
    rw [if_pos rfl]
    refine Spec.bind (quiet_call fun _ _ => rfl) fun t1 => ?_
    refine Spec.modify_bind
      (fun m s => ∃ counted, Rested i dualPorts counted m s) ?_ (Spec.pure fun _ _ h => h)
    exact fun m s h => ⟨_, Waiting.rested ha h hlen rfl rfl rfl rfl⟩
  | false =>
    rw [if_neg Bool.false_ne_true]
    exact failRound_abides hN

/-- Registration with the next manager. -/
theorem register_abides (k : ℕ) :
    Abides (ports n) (portDiscipline n lanes) i (Rested i k []) (register k)
      (fun r => r.elim (Rested i (k + 1) []) fun _ => Rested i k []) := by
  unfold register
  refine Spec.bind (register_call rfl) fun wid => ?_
  cases wid with
  | none => exact Spec.pure fun _ _ h => h.1
  | some wid =>
    refine Spec.modify_bind (Rested i (k + 1) []) ?_ (Spec.pure fun _ _ h => h)
    rintro m s ⟨⟨hv, htally⟩, howner⟩
    refine ⟨{ hv with regs := fun p hp => ?_ }, htally.ops, htally.bytes, htally.errors,
      htally.short⟩
    show s.owner p (Function.update m.wid k wid p) = some i.val
    by_cases hpk : p = k
    · subst hpk
      rw [Function.update_self]
      exact howner wid rfl
    · rw [Function.update_of_ne hpk]
      exact hv.regs p (by omega)

theorem dualWorkerMain_abides (ha : Accepted ctx.args) :
    Abides (ports n) (portDiscipline n lanes) i (Rested i 0 []) (dualWorkerMain ctx)
      (fun _ => Settled i) := by
  unfold dualWorkerMain
  refine Spec.bind (quiet_call fun _ _ => rfl) fun t => ?_
  have hregister : ∀ k, 0 ≤ k → k < 0 + dualPorts →
      Abides (ports n) (portDiscipline n lanes) i (Rested i k []) (register k)
        (fun r => r.elim (Rested i (k + 1) []) fun _ m s => ∃ reg, Rested i reg [] m s) := by
    intro k _ _
    refine (register_abides k).conseq (fun _ _ h => h) fun r m s h => ?_
    cases r with
    | none => exact h
    | some _ => exact ⟨k, h⟩
  refine Spec.bind (Spec.search _ _ hregister) fun failed => ?_
  cases failed with
  | some _ => exact Spec.pure fun m s ⟨reg, h⟩ => .inl ⟨reg, [], h⟩
  | none =>
    refine (Spec.loop (fun _ m s => ∃ counted, Rested i dualPorts counted m s)
      (fun _ => dualRound_abides ha _) ()).conseq (fun m s h => ?_) fun _ _ _ h => h
    rw [Nat.zero_add] at h
    exact ⟨[], h⟩

end Round

/-! ### All runs -/

section Runs

variable {n : ℕ} {lanes : ℕ → ℕ} {ctx : DualContext} {hist : KvHist}
  {c : Conf (Fin n) DualWorker Ports Act (Unit × DualWorker)}

theorem initial_inv (lanes : ℕ → ℕ) : PortInv lanes (.initial lanes) := by
  have hpool := fun p => SendJettyPool.ofList_spec (List.nodup_range (n := lanes p))
  refine ⟨fun p => (hpool p).1, fun p => (hpool p).2.1, fun p l => ?_, fun _ _ => Nat.zero_le _,
    fun _ _ h => absurd rfl h, List.nodup_nil, fun r hr => absurd hr List.not_mem_nil,
    fun _ _ h => absurd rfl h, fun _ => Nat.zero_le _⟩
  show l ∈ (SendJettyPool.ofList (List.range (lanes p))).idle ↔ l < lanes p ∧ [] = []
  rw [(hpool p).2.2, List.mem_range]
  simp

theorem initial_rested (i : Fin n) :
    Rested i 0 [] (createDualWorker ctx.args hist i) (.initial lanes) := by
  refine ⟨⟨fun p hp => absurd hp (Nat.not_lt_zero p), fun _ _ hl => ?_, rfl, fun r => le_rfl⟩,
    rfl, rfl, rfl, fun r hr => ?_⟩
  · exact absurd hl List.not_mem_nil
  · exact absurd hr List.not_mem_nil

/-- In every reachable configuration the workers keep to the discipline. -/
theorem portsClient_abiding (ha : Accepted ctx.args)
    (hr : Reachable (ports n) (portsClient ctx hist n lanes) c) :
    c.Good ((portDiscipline n lanes).safe (ports n)) (fun i am s => Settled i am.2 s) := by
  have hstart : (portsClient ctx hist n lanes).Good ((portDiscipline n lanes).safe (ports n))
      (fun i am s => Settled i am.2 s) :=
    ⟨initial_inv lanes, fun i => (dualWorkerMain_abides ha).holds _ ⟨_, _, initial_inv lanes⟩
      (initial_rested i)⟩
  refine hstart.reachable (fun i am => Settled.stable am.2) (fun e s hs hen => ?_) hr
  obtain ⟨hinv, hrely⟩ := completion_step hs e hen
  exact ⟨hinv, fun i => hrely i⟩

/-- **The lanes are safe** in every interleaving: a lane is idle exactly when no worker holds it, no two
workers hold it, and what is outstanding is on a lane that the worker which has posted it holds alone. So
nothing is outstanding on a lane that `AcquireSendLane` may hand out. -/
theorem dual_lanes_safe (ctx : DualContext) (hargs : validateInputParams ctx.args = .ok ())
    (hist : KvHist) (lanes : ℕ → ℕ) (hr : Reachable (ports n) (portsClient ctx hist n lanes) c)
    (p : ℕ) :
    (c.state.lanes p).idle.Nodup ∧
    (∀ l, (l ∈ (c.state.lanes p).idle ↔ l < lanes p ∧ c.state.holders p l = []) ∧
      (c.state.holders p l).length ≤ 1) ∧
    ∀ r ∈ c.state.out, r.port = p → r.wr.lane ∉ (c.state.lanes p).idle ∧
      ∃ j, c.state.owner p r.wr.wid = some j ∧ c.state.holders p r.wr.lane = [j] := by
  have hinv : PortInv lanes c.state := (portsClient_abiding (validateInputParams_accepted hargs) hr).inv
  refine ⟨(hinv.wf p).idle_nodup, fun l => ⟨hinv.idle p l, hinv.one p l⟩, ?_⟩
  rintro r hmem rfl
  obtain ⟨j, howner, hheld⟩ := hinv.outHeld r hmem
  have honly := hinv.only hheld
  refine ⟨fun hidle => ?_, j, howner, honly⟩
  rw [((hinv.idle _ _).1 hidle).2] at honly
  cases honly

/-- **The books of a worker that has returned.** What it has posted is what it has counted, after at
most four work requests of a round that has failed. Each work request that it has counted has been
delivered, one that was posted several times at least as often as it was counted. The counters are those
of what was counted, and fit into the `uint64_t` members up to `2 ^ 29` operations. -/
theorem dual_books (ctx : DualContext) (hargs : validateInputParams ctx.args = .ok ())
    (hist : KvHist) (lanes : ℕ → ℕ) (hr : Reachable (ports n) (portsClient ctx hist n lanes) c)
    (i : Fin n) (m : DualWorker) (hres : c.result i = some ((), m)) :
    ∃ extra counted, c.state.sent i = extra ++ counted ∧
      (∀ r, counted.count r ≤ c.state.delivered.count r) ∧ counted.length = 4 * m.ops ∧
      totalLen counted = m.bytes ∧ (m.ops < 2 ^ 29 → m.bytes < 2 ^ 64) ∧
      ((m.errors = 0 ∧ extra = [] ∧ (∀ p l, i.val ∉ c.state.holders p l) ∧
          ∀ r ∈ c.state.out, c.state.owner r.port r.wr.wid ≠ some i.val) ∨
        (m.errors = 1 ∧ extra.length ≤ 4 ∧ c.state.fatal = true)) := by
  have hall := portsClient_abiding (validateInputParams_accepted hargs) hr
  rcases hall.result hres with ⟨reg, counted, hv, htally⟩ | ⟨extra, counted, hlen, ⟨hv, hfail⟩, hfatal⟩
  · refine ⟨[], counted, hv.sent, hv.paid, htally.ops, htally.bytes, htally.bytes_lt,
      .inl ⟨htally.errors, rfl, hv.ports, ?_⟩⟩
    exact fun r hmem => hall.inv.quiet (hv.ports r.port) r hmem rfl
  · exact ⟨extra, counted, hv.sent, hv.paid, hfail.ops, hfail.bytes, hfail.bytes_lt,
      .inr ⟨hfail.errors, hlen, hfatal⟩⟩

end Runs

/-! ### One worker, one round -/

instance (n : ℕ) : (ports n).Effective where
  allowed := fun _ _ _ e s o => match e with
    | .postEvent port wid => inferInstanceAs (Decidable (∀ t ∈ o.token,
        wid < s.workerCount port ∧ (0 < t ∧ t < 2 ^ 40) ∧ s.events port wid (index t) = none))
    | .waitEvent port wid token _ => inferInstanceAs (Decidable (o.ok = true →
        s.events port wid (index token) = some (token, some true)))
    | .registerWorker _ => .isTrue trivial
    | .acquireSendLane _ => .isTrue trivial
    | .releaseSendLane _ _ => .isTrue trivial
    | .abortEvent _ _ _ => .isTrue trivial
    | .postWrite _ _ => .isTrue trivial
    | .now => .isTrue trivial
    | .loadStop => .isTrue trivial
    | .loadFatal => .isTrue trivial
    | .setFatal => .isTrue trivial
    | .round _ => .isTrue trivial
  env e s := inferInstanceAs (Decidable (e.r ∈ s.out))

/-- The worker has posted the work requests of its first round. -/
def fourPosted : Conf (Fin 1) DualWorker Ports Act (Unit × DualWorker) :=
  (portsClient (dualContext 1) freshHist 1 fun _ => 1).plays (ports 1)
    (List.replicate 31 (.thread 0 ⟨some 1, true, false, 0⟩))

theorem fourPosted_reachable :
    Reachable (ports 1) (portsClient (dualContext 1) freshHist 1 fun _ => 1) fourPosted :=
  Reachable.of_plays (by decide +kernel)

theorem dual_lanes_safe_posted :
    (fourPosted.state.out.map PortWr.port = [3, 2, 1, 0] ∧ (fourPosted.state.lanes 2).idle = []) ∧
    ∀ r ∈ fourPosted.state.out, r.port = 2 → r.wr.lane ∉ (fourPosted.state.lanes 2).idle ∧
      ∃ j, fourPosted.state.owner 2 r.wr.wid = some j ∧
        fourPosted.state.holders 2 r.wr.lane = [j] :=
  ⟨by decide +kernel,
    (dual_lanes_safe (dualContext 1) rfl freshHist (fun _ => 1) fourPosted_reachable 2).2.2⟩

/-- They are delivered, the worker waits for them, counts the round and is told to stop. -/
def roundMoves : List (Move (Fin 1) PortOracle Completion) :=
  List.replicate 31 (.thread 0 ⟨some 1, true, false, 0⟩) ++
    (fourPosted.state.out.map (fun r => .env ⟨r, true⟩) ++
      List.replicate 11 (.thread 0 ⟨none, true, true, 0⟩))

def roundCounted : Conf (Fin 1) DualWorker Ports Act (Unit × DualWorker) :=
  (portsClient (dualContext 1) freshHist 1 fun _ => 1).plays (ports 1) roundMoves

theorem dual_books_counted : ∃ m : DualWorker, (m.ops = 1 ∧ m.errors = 0) ∧
    ∃ extra counted, roundCounted.state.sent (0 : Fin 1) = extra ++ counted ∧
      (∀ r, counted.count r ≤ roundCounted.state.delivered.count r) ∧ counted.length = 4 * m.ops ∧
      totalLen counted = m.bytes ∧ (m.ops < 2 ^ 29 → m.bytes < 2 ^ 64) ∧
      ((m.errors = 0 ∧ extra = [] ∧ (∀ p l, (0 : Fin 1).val ∉ roundCounted.state.holders p l) ∧
          ∀ r ∈ roundCounted.state.out,
            roundCounted.state.owner r.port r.wr.wid ≠ some (0 : Fin 1).val) ∨
        (m.errors = 1 ∧ extra.length ≤ 4 ∧ roundCounted.state.fatal = true)) := by
  have hplays : roundCounted =
      (portsClient (dualContext 1) freshHist 1 fun _ => 1).plays (ports 1) roundMoves := rfl
  obtain ⟨hr, am, hres, hcount⟩ := Reachable.of_replay_result hplays 0
    (fun am _ => am.2.ops = 1 ∧ am.2.errors = 0) (by decide +kernel)
  exact ⟨am.2, hcount, dual_books (dualContext 1) rfl freshHist (fun _ => 1) hr 0 am.2 hres⟩

end KvBench.Dual
