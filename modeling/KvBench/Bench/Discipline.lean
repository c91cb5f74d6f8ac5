import KvBench.Bench.Pipeline
import KvBench.Conc.Logic

/-!
# What the workers promise each other

`Inv` is the invariant of the shared state: the lanes of the pool that are idle are those no send
holds, no lane has two holders, and the lane of an outstanding work request is held by its send.

A worker sees the shared state through its `View`. Other workers leave that alone; the only thing
that happens to it behind the worker's back is that one of the worker's own work requests completes
(`View.deliver`). So an assertion about the view is stable when it survives completions (`Steady`),
and a `Triple` is a specification of a procedure in terms of the worker's memory and view.

`Act.Promised` is what a worker guarantees about its own steps: tokens are posted once, a word that
is cleared belongs to a posted work request, and such a word is aborted only past the deadline of
`WaitEvent`.
-/

namespace KvBench.Bench

open KvBench.Conc KvBench.Events KvBench.Lanes

/-! ### The encoding of `user_ctx` -/

theorem Wr.userCtx_eq (r : Wr) : r.userCtx = r.wid * 2 ^ 40 + r.token := by
  have hand : r.userCtx &&& kRidMask = r.userCtx % 2 ^ 40 :=
    Nat.and_two_pow_sub_one_eq_mod r.userCtx 40
  unfold Wr.wid Wr.token
  rw [hand, kRidShift, Nat.shiftRight_eq_div_pow]
  omega

theorem Wr.token_lt (r : Wr) : r.token < 2 ^ 40 := by
  have hand : r.userCtx &&& kRidMask = r.userCtx % 2 ^ 40 :=
    Nat.and_two_pow_sub_one_eq_mod r.userCtx 40
  unfold Wr.token
  rw [hand]
  exact Nat.mod_lt _ (by norm_num)

/-- `user_ctx` of the worker `w` for the token `t`. -/
def userCtxOf (w t : ℕ) : ℕ := ((w <<< kRidShift) % 2 ^ 64) ||| t

theorem userCtxOf_eq {w t : ℕ} (hw : w < 2 ^ 24) (ht : t < 2 ^ 40) :
    userCtxOf w t = w * 2 ^ 40 + t := by
  unfold userCtxOf kRidShift
  rw [Nat.shiftLeft_eq, Nat.mod_eq_of_lt (by omega), Nat.mul_comm,
    ← Nat.two_pow_add_eq_or_of_lt ht]

theorem userCtxOf_decode {w t : ℕ} (hw : w < 2 ^ 24) (ht : t < 2 ^ 40) :
    userCtxOf w t >>> kRidShift = w ∧ userCtxOf w t &&& kRidMask = t := by
  have hand : userCtxOf w t &&& kRidMask = userCtxOf w t % 2 ^ 40 :=
    Nat.and_two_pow_sub_one_eq_mod _ 40
  rw [hand, kRidShift, Nat.shiftRight_eq_div_pow, userCtxOf_eq hw ht]
  omega

theorem Wr.wid_of_userCtx {r : Wr} {w t : ℕ} (hr : r.userCtx = userCtxOf w t) (hw : w < 2 ^ 24)
    (ht : t < 2 ^ 40) : r.wid = w ∧ r.token = t := by
  unfold Wr.wid Wr.token
  rw [hr]
  exact userCtxOf_decode hw ht

/-! ### Views -/

/-- What a worker sees of the shared state. -/
structure View where
  states : ℕ → ℕ
  /-- Its outstanding work requests. -/
  outs : Set Outstanding
  /-- The lanes its sends hold. -/
  holds : Lane → SendId → Prop
  posted : List Posted

/-- The view of the worker `w`. -/
def Sys.view (s : Sys) (w : ℕ) : View where
  states := s.states w
  outs := {r | r ∈ s.out ∧ r.wid = w}
  holds := fun l σ => (w, σ) ∈ s.holders l
  posted := s.posted w

/-- A completion arrives. -/
def View.deliver (v : View) (r : Outstanding) (ok : Bool) : View :=
  { v with states := complete r.token ok v.states, outs := v.outs \ {r} }

/-! ### The setting -/

/-- A system to verify: `n` workers with a pool of `lanes` lanes and up to `slots` requests each.
`good` is what all posted work requests shall satisfy, and `watch` what shall hold at the points of
the program, of the worker's memory and view. `roomy` is the assumption that there is a lane for
every send, which allows to conclude that no worker finds the pool empty. `taken` are event slots
that somebody else has taken from the workers. -/
structure Setup where
  n : ℕ
  lanes : ℕ
  slots : ℕ
  mode : ℕ → Mode
  pace : Pace
  good : WrId → Wr → Prop
  watch : ℕ → Place → Worker → View → Prop
  roomy : Prop
  taken : List ℕ

/-- What is assumed of a setting. -/
structure Setup.Sound (B : Setup) : Prop where
  workers : B.n ≤ 1024
  slots : B.slots ≤ kvMaxConcurrency
  live : B.pace.Live
  healthy : B.roomy → B.taken = [] ∧ ∀ w, (B.mode w).postsOk = true ∧ (B.mode w).cqesOk = true
  capacity : B.roomy → B.n * (B.slots * kvSendsPerReq) ≤ B.lanes

/-- The sends of the pipelines. -/
def SendId.Piped (slots : ℕ) : SendId → Prop
  | .slot idx send => idx < slots ∧ send < kvSendsPerReq
  | .sync => False

/-- The invariant of the shared state. -/
structure Inv (B : Setup) (s : Sys) : Prop where
  lanes : s.lanes.WF
  jettys : s.lanes.jettys = List.range B.lanes
  idle : ∀ l, l ∈ s.lanes.idle ↔ l < B.lanes ∧ s.holders l = []
  one : ∀ l, (s.holders l).length ≤ 1
  held : ∀ l, s.holders l ≠ [] → l < B.lanes
  balance : ∀ w l, s.acquired w l = s.released w l + (s.holders l).countP (·.1 = w)
  outHeld : ∀ r ∈ s.out, (r.wid, r.id.send) ∈ s.holders r.lane
  outCtx : (s.out.map (·.userCtx)).Nodup
  notDone : ∀ r ∈ s.out, ∀ ok, s.states r.wid (index r.token) ≠ done r.token ok
  outWid : ∀ r ∈ s.out, r.wid < B.n
  outToken : ∀ r ∈ s.out, 0 < r.token
  outGood : ∀ r ∈ s.out, B.good r.id r.toWr
  outRequest : ∀ r ∈ s.out, r.request = s.requests r.wid r.id.req
  good : ∀ w, ∀ p ∈ s.posted w, B.good p.id p.wr
  roomy : B.roomy → ∀ l w σ, (w, σ) ∈ s.holders l →
    w < B.n ∧ σ.Piped B.slots ∧ ∀ l', (w, σ) ∈ s.holders l' → l' = l

/-- What the invariant says about a view. -/
structure View.Sane (v : View) : Prop where
  distinct : ∀ r ∈ v.outs, ∀ r' ∈ v.outs, r.token = r'.token → r = r'
  notDone : ∀ r ∈ v.outs, ∀ ok, v.states (index r.token) ≠ done r.token ok
  pos : ∀ r ∈ v.outs, 0 < r.token
  held : ∀ r ∈ v.outs, v.holds r.lane r.id.send
  unique : ∀ l σ σ', v.holds l σ → v.holds l σ' → σ = σ'

theorem View.Sane.small {v : View} (hv : v.Sane) {r : Outstanding} (hr : r ∈ v.outs) :
    0 < r.token ∧ r.token < 2 ^ 40 := ⟨hv.pos r hr, r.token_lt⟩

section Invariant

variable {B : Setup} {s : Sys}

theorem Inv.eq_of_ctx (h : Inv B s) {r r' : Outstanding} (hr : r ∈ s.out) (hr' : r' ∈ s.out)
    (hw : r.wid = r'.wid) (ht : r.token = r'.token) : r = r' := by
  refine List.inj_on_of_nodup_map h.outCtx hr hr' ?_
  rw [Wr.userCtx_eq, Wr.userCtx_eq, hw, ht]

theorem Inv.eq_of_holders (h : Inv B s) {l : Lane} {a b : ℕ × SendId} (ha : a ∈ s.holders l)
    (hb : b ∈ s.holders l) : a = b := by
  have hone := h.one l
  match hl : s.holders l with
  | [] => simp [hl] at ha
  | [x] => simp_all
  | x :: y :: rest => simp [hl] at hone

theorem Inv.sane (h : Inv B s) (w : ℕ) : (s.view w).Sane where
  distinct := by
    rintro r ⟨hr, hw⟩ r' ⟨hr', hw'⟩ ht
    exact h.eq_of_ctx hr hr' (hw.trans hw'.symm) ht
  notDone := by
    rintro r ⟨hr, rfl⟩ ok
    exact h.notDone r hr ok
  pos := by
    rintro r ⟨hr, rfl⟩
    exact h.outToken r hr
  held := by
    rintro r ⟨hr, rfl⟩
    exact h.outHeld r hr
  unique := fun l σ σ' h1 h2 => congrArg Prod.snd (h.eq_of_holders h1 h2)

theorem Inv.initial (B : Setup) : Inv B (Sys.initial B.lanes) := by
  obtain ⟨hwf, hj, hidle⟩ := SendJettyPool.ofList_spec (List.nodup_range (n := B.lanes))
  refine ⟨hwf, hj, fun l => ?_, fun l => ?_, fun l hl => ?_, fun w l => ?_, ?_, ?_, ?_, ?_, ?_, ?_,
    ?_, ?_, fun _ l w σ hl => ?_⟩
  · rw [Sys.initial, hidle]
    simp
  · exact Nat.zero_le _
  · exact absurd rfl hl
  · rfl
  all_goals simp [Sys.initial] at *

/-! ### The environment -/

theorem completeEvent_eq {n userCtx : ℕ} (hw : userCtx >>> kRidShift < n) (hn : n ≤ 1024)
    (ok : Bool) (states : ℕ → ℕ → ℕ) :
    completeEvent n (userCtx >>> kRidShift % 2 ^ 32) userCtx ok states =
      Function.update states (userCtx >>> kRidShift)
        (complete (userCtx &&& kRidMask) ok (states (userCtx >>> kRidShift))) := by
  unfold completeEvent
  rw [Nat.mod_eq_of_lt (by omega), if_neg (by simp), if_neg (by omega)]

/-- A completion keeps the invariant; its worker sees it, the others do not. -/
theorem Inv.deliver (hB : B.Sound) (h : Inv B s) {r : Outstanding} (hr : r ∈ s.out) (ok : Bool) :
    Inv B ((Env.deliver r ok).run B.n s) ∧
      ((Env.deliver r ok).run B.n s).view r.wid = (s.view r.wid).deliver r ok ∧
      ∀ w, w ≠ r.wid → ((Env.deliver r ok).run B.n s).view w = s.view w := by
  have hstates := completeEvent_eq (h.outWid r hr) hB.workers ok s.states
  have hrun : (Env.deliver r ok).run B.n s =
      { s with
        out := s.out.erase r
        states := Function.update s.states r.wid (complete r.token ok (s.states r.wid)) } := by
    rw [Env.run, hstates]
    rfl
  have hnd : s.out.Nodup := List.Nodup.of_map _ h.outCtx
  have hmem : ∀ r', r' ∈ s.out.erase r ↔ r' ≠ r ∧ r' ∈ s.out := fun r' => hnd.mem_erase_iff
  have hsub : ∀ r' ∈ s.out.erase r, r' ∈ s.out := fun r' hr' => ((hmem r').1 hr').2
  have hpos : 0 < r.token := ((h.sane r.wid).small ⟨hr, rfl⟩).1
  rw [hrun]
  refine ⟨⟨h.lanes, h.jettys, h.idle, h.one, h.held, h.balance, fun r' hr' =>
    h.outHeld r' (hsub r' hr'), ?_, ?_, fun r' hr' => h.outWid r' (hsub r' hr'), fun r' hr' =>
    h.outToken r' (hsub r' hr'), fun r' hr' => h.outGood r' (hsub r' hr'), fun r' hr' =>
    h.outRequest r' (hsub r' hr'), h.good, h.roomy⟩, ?_, ?_⟩
  · exact h.outCtx.sublist (List.erase_sublist.map _)
  · intro r' hr' ok' hdone
    obtain ⟨hne, hr'⟩ := (hmem r').1 hr'
    by_cases hw : r'.wid = r.wid
    · have hsane := h.sane r.wid
      have hlt := (hsane.small ⟨hr', hw⟩).2
      have hold := h.notDone r' hr' ok'
      rw [hw] at hold
      simp only [hw, Function.update_self, complete_eq hpos] at hdone
      split at hdone
      · by_cases hidx : index r'.token = index r.token
        · rw [hidx, Function.update_self] at hdone
          have := (done_inj (hsane.small ⟨hr, rfl⟩).2 hlt hdone).1
          exact hne (h.eq_of_ctx hr' hr hw this.symm)
        · rw [Function.update_of_ne hidx] at hdone
          exact hold hdone
      · exact hold hdone
    · simp only [Function.update_of_ne hw] at hdone
      exact h.notDone r' hr' ok' hdone
  · simp only [Sys.view, View.deliver, Function.update_self, View.mk.injEq, true_and, and_true]
    ext r'
    simp only [hmem, Set.mem_ofPred_eq, Set.mem_sdiff, Set.mem_singleton_iff]
    tauto
  · intro w hw
    simp only [Sys.view, Function.update_of_ne hw, View.mk.injEq, true_and, and_true]
    ext r'
    simp only [hmem, Set.mem_ofPred_eq]
    constructor
    · rintro ⟨⟨-, h1⟩, h2⟩
      exact ⟨h1, h2⟩
    · rintro ⟨h1, rfl⟩
      refine ⟨⟨?_, h1⟩, rfl⟩
      rintro rfl
      exact hw rfl

end Invariant

/-! ### The discipline -/

/-- A posted work request waits for the token `t`. -/
def View.Awaits (v : View) (t : ℕ) : Prop := ∃ p ∈ v.posted, p.fate = .pending ∧ p.wr.token = t

/-- Whether the line is printed in every setting; the other lines tell that the event slots are
used up. -/
def Message.Calm : Message → Prop
  | .eventsExhausted _ _ _ => False
  | .syncEventsExhausted _ _ => False
  | _ => True

/-- What holds of a step of the worker `w`, with the response to it. -/
def Act.Promised (B : Setup) (w : ℕ) (m : Worker) (v : View) {β : Type} : Act β → β → Prop
  | .casStrong _ expected desired, r => desired = 0 → r = none → v.Awaits (expected >>> 2)
  | .casWeak _ expected _, _ => v.Awaits (expected >>> 2) → m.lastLook = some (expected >>> 2)
  | .post _ wr, _ => ¬ v.Awaits wr.token
  | .print line, _ => line.Calm ∨ B.taken ≠ []
  | .visit place, _ => B.watch w place m v
  | _, _ => True

/-- The worker `w` is only ever surprised by a completion of its own. -/
def Setup.discipline (B : Setup) : Discipline (Fin B.n) Worker Sys Act where
  inv := Inv B
  rely i s s' := s'.view i = s.view i ∨
    ∃ r ok, r ∈ (s.view i).outs ∧ ((B.mode i).cqesOk = true → ok = true) ∧
      s'.view i = (s.view i).deliver r ok
  promise i m e s r := e.Promised B i m (s.view i) r

/-- The worker `i` keeps to the discipline and comes to an end. -/
abbrev Setup.judgement (B : Setup) (i : Fin B.n) :
    Judgement (B.discipline.contract (bench B.n B.mode B.pace) i) :=
  B.discipline.total _ i

/-- The environment keeps to the discipline. -/
theorem Setup.Sound.env {B : Setup} (hB : B.Sound) (e : Env) (s : Sys) (hs : B.discipline.inv s)
    (he : (bench B.n B.mode B.pace).envAllowed e s) :
    B.discipline.inv ((bench B.n B.mode B.pace).env e s) ∧
      ∀ i, B.discipline.rely i s ((bench B.n B.mode B.pace).env e s) := by
  cases e with
  | stop w => exact ⟨{ hs with lanes := hs.lanes }, fun i => .inl rfl⟩
  | deliver r ok =>
    obtain ⟨hr, hok⟩ := he
    obtain ⟨hinv, hown, hother⟩ := Inv.deliver hB hs hr ok
    refine ⟨hinv, fun i => ?_⟩
    by_cases hi : (i : ℕ) = r.wid
    · refine .inr ⟨r, ok, ⟨hr, hi.symm⟩, ?_, ?_⟩
      · rwa [hi]
      · rw [hi]
        exact hown
    · exact .inl (hother i hi)

section Triples

variable {B : Setup} {i : Fin B.n} {α β γ : Type}

variable (B i) in
/-- The assertion survives the completions of the worker. -/
def Setup.Steady (Φ : View → Prop) : Prop :=
  ∀ v r ok, v.Sane → r ∈ v.outs → ((B.mode i).cqesOk = true → ok = true) → Φ v →
    Φ (v.deliver r ok)

variable (B i) in
/-- Started with `P`, the procedure `x` of the worker `i` returns with `Q`. -/
def Setup.Triple (P : Worker → View → ℕ → Prop) (x : Code α) (Q : α → Worker → View → ℕ → Prop) :
    Prop :=
  Spec (B.judgement i) id (fun m y => P m (y.state.view i) y.time) x
    fun a m y => Q a m (y.state.view i) y.time

theorem Setup.Steady.stable {Φ : View → Prop} (h : B.Steady i Φ) :
    B.discipline.Stable i (fun s => Φ (s.view i)) := by
  rintro s s' hs hΦ (hv | ⟨r, ok, hr, hok, hv⟩) -
  · rwa [hv]
  · rw [hv]
    exact h _ r ok (Inv.sane hs i) hr hok hΦ

theorem Setup.Steady.const (p : Prop) : B.Steady i (fun _ => p) := fun _ _ _ _ _ _ h => h

theorem Setup.Steady.and {Φ Ψ : View → Prop} (h : B.Steady i Φ) (h' : B.Steady i Ψ) :
    B.Steady i (fun v => Φ v ∧ Ψ v) :=
  fun v r ok hv hr hok hΦ => ⟨h v r ok hv hr hok hΦ.1, h' v r ok hv hr hok hΦ.2⟩

theorem Setup.Steady.exists {ι : Sort*} {Φ : ι → View → Prop} (h : ∀ a, B.Steady i (Φ a)) :
    B.Steady i (fun v => ∃ a, Φ a v) :=
  fun v r ok hv hr hok ⟨a, ha⟩ => ⟨a, h a v r ok hv hr hok ha⟩

theorem Setup.Steady.imp {p : Prop} {Φ : View → Prop} (h : B.Steady i Φ) :
    B.Steady i (fun v => p → Φ v) := fun v r ok hv hr hok hΦ hp => h v r ok hv hr hok (hΦ hp)

namespace Setup.Triple

variable {P P' : Worker → View → ℕ → Prop} {x y : Code α} {Q Q' : α → Worker → View → ℕ → Prop}

theorem pure {a : α} (h : ∀ m v n, P m v n → Q a m v n) : B.Triple i P (Pure.pure a) Q :=
  Spec.pure fun m _ hP => h m _ _ hP

theorem bind {f : α → Code β} {R : β → Worker → View → ℕ → Prop} (hx : B.Triple i P x Q)
    (hf : ∀ a, B.Triple i (Q a) (f a) R) : B.Triple i P (x >>= f) R :=
  Spec.bind hx hf

theorem get_bind {f : Worker → Code β} {R : β → Worker → View → ℕ → Prop}
    (hf : ∀ m₀, B.Triple i (fun m v n => m = m₀ ∧ P m v n) (f m₀) R) :
    B.Triple i P (get >>= f) R :=
  Spec.get_bind hf

theorem set_bind (P' : Worker → View → ℕ → Prop) {m' : Worker} {f : PUnit → Code β}
    {R : β → Worker → View → ℕ → Prop} (hg : ∀ m v n, P m v n → P' m' v n) (hf : B.Triple i P' (f ⟨⟩) R) :
    B.Triple i P (set m' >>= f) R :=
  Spec.set_bind _ (fun m _ hP => hg m _ _ hP) hf

theorem modify_bind (P' : Worker → View → ℕ → Prop) {g : Worker → Worker} {f : PUnit → Code β}
    {R : β → Worker → View → ℕ → Prop} (hg : ∀ m v n, P m v n → P' (g m) v n)
    (hf : B.Triple i P' (f ⟨⟩) R) : B.Triple i P (modify g >>= f) R :=
  Spec.modify_bind _ (fun m _ hP => hg m _ _ hP) hf

theorem modify {g : Worker → Worker} {R : PUnit → Worker → View → ℕ → Prop}
    (hg : ∀ m v n, P m v n → R ⟨⟩ (g m) v n) : B.Triple i P (modify g) R :=
  Spec.modify fun m _ hP => hg m _ _ hP

theorem conseq (hx : B.Triple i P x Q) (hP : ∀ m v n, v.Sane → P' m v n → P m v n)
    (hQ : ∀ a m v n, v.Sane → Q a m v n → Q' a m v n) : B.Triple i P' x Q' :=
  Spec.conseq hx (fun m y => hP m _ _ (Inv.sane y.inv i)) fun a m y =>
    hQ a m _ _ (Inv.sane y.inv i)

theorem pre (hx : B.Triple i P x Q) (hP : ∀ m v n, v.Sane → P' m v n → P m v n) :
    B.Triple i P' x Q :=
  hx.conseq hP fun _ _ _ _ _ h => h

theorem post (hx : B.Triple i P x Q) (hQ : ∀ a m v n, v.Sane → Q a m v n → Q' a m v n) :
    B.Triple i P x Q' :=
  hx.conseq (fun _ _ _ _ h => h) hQ

/-- A fact that does not depend on the run is available to the proof. -/
theorem of_fact {p : Prop} (hp : ∀ m v n, v.Sane → P m v n → p) (hx : p → B.Triple i P x Q) :
    B.Triple i P x Q :=
  Spec.of_fact (fun m y hP => hp m _ _ (Inv.sane y.inv i) hP) hx

theorem absurd (hP : ∀ m v n, v.Sane → P m v n → False) : B.Triple i P x Q :=
  of_fact hP False.elim

theorem timed (hx : B.Triple i P x Q) (n₀ : ℕ) :
    B.Triple i (fun m v n => P m v n ∧ n₀ ≤ n) x (fun a m v n => Q a m v n ∧ n₀ ≤ n) :=
  Discipline.spec_timed hx n₀

theorem ite {c : Prop} [Decidable c] (hx : c → B.Triple i P x Q) (hy : ¬ c → B.Triple i P y Q) :
    B.Triple i P (if c then x else y) Q :=
  Spec.ite hx hy

/-- `if (c) { x }`, and then the rest. -/
theorem when_bind {c : Prop} [Decidable c] {I : Worker → View → ℕ → Prop} {x : Code Unit}
    {f : Unit → Code β} {R : β → Worker → View → ℕ → Prop} (hx : c → B.Triple i P x fun _ => I)
    (hskip : ¬ c → ∀ m v n, v.Sane → P m v n → I m v n) (hf : B.Triple i I (f ()) R) :
    B.Triple i P (if c then x >>= f else f ()) R :=
  ite (fun hc => (hx hc).bind fun _ => hf) fun hc => hf.pre (hskip hc)

theorem loop {body : β → Code (β ⊕ γ)} {Q : γ → Worker → View → ℕ → Prop}
    (I : β → Worker → View → ℕ → Prop) (var : β → Worker → ℕ → ℕ)
    (hbody : ∀ b m₀ n₀, B.Triple i (fun m v n => m = m₀ ∧ n = n₀ ∧ I b m v n) (body b)
      (Sum.elim (fun b' m v n => I b' m v n ∧ var b' m n < var b m₀ n₀) Q)) (b : β) :
    B.Triple i (I b) (Proc.loop body b) Q := by
  refine Spec.loop_of_variant (fun b m (y : B.discipline.Point) => I b m (y.state.view i) y.time)
    (fun b m y => var b m y.time) (fun b d => ⟨fun m y hP => ?_⟩) b
  obtain ⟨rfl, hI⟩ := hP
  refine Judgement.mono _ ((hbody b m y.time).holds m y ⟨rfl, rfl, hI⟩) ?_
  rintro ⟨b' | c, m'⟩ y' hr
  · exact hr
  · exact hr

theorem each {f : ℕ → β → Code β} (I : ℕ → β → Worker → View → ℕ → Prop) {start count : ℕ}
    (hf : ∀ k x, start ≤ k → k < start + count →
      B.Triple i (I k x) (f k x) (fun x' => I (k + 1) x')) (x : β) :
    B.Triple i (I start x) (Proc.each f start count x) (fun x' => I (start + count) x') :=
  Spec.each (fun k x m (y : B.discipline.Point) => I k x m (y.state.view i) y.time) hf x

theorem search {f : ℕ → Code (Option β)} (I : ℕ → Worker → View → ℕ → Prop)
    (X : β → Worker → View → ℕ → Prop) {start count : ℕ}
    (hf : ∀ k, start ≤ k → k < start + count →
      B.Triple i (I k) (f k) (fun r => r.elim (I (k + 1)) X)) :
    B.Triple i (I start) (Proc.search f start count) (fun r => r.elim (I (start + count)) X) := by
  have hconv : ∀ k, (fun (r : Option β) m (y : B.discipline.Point) =>
      (r.elim (I k) X) m (y.state.view i) y.time) =
      fun r => r.elim (fun m y => I k m (y.state.view i) y.time)
        fun x m y => X x m (y.state.view i) y.time := by
    intro k
    funext r
    cases r <;> rfl
  unfold Setup.Triple at hf ⊢
  rw [hconv]
  refine Spec.search (fun k m (y : B.discipline.Point) => I k m (y.state.view i) y.time)
    (fun x m y => X x m (y.state.view i) y.time) fun k h1 h2 => ?_
  rw [← hconv]
  exact hf k h1 h2

/-- One step. -/
theorem act {e : Act β} {Q : β → Worker → View → ℕ → Prop} (hP : ∀ m n, B.Steady i (P m · n))
    (hrun : ∀ m s n o, Inv B s → P m (s.view i) n →
      e.Allowed (B.mode i) B.pace i n m s o →
      (Inv B (e.run i o s).2 ∧ (∀ w, w ≠ (i : ℕ) → (e.run i o s).2.view w = s.view w) ∧
        e.Promised B i m (s.view i) (e.run i o s).1) ∧
        Q (e.run i o s).1 m ((e.run i o s).2.view i) (n + 1)) :
    B.Triple i P (Proc.act e) Q := by
  refine Discipline.spec_act (P := fun m (s : Sys) n => P m (s.view i) n) (fun m n => (hP m n).stable)
    fun m s n hs h o ho => ?_
  obtain ⟨⟨hinv, hother, hkeep⟩, hQ⟩ := hrun m s n o hs h ho
  exact ⟨⟨hinv, fun j hj => .inl (hother j (fun hji => hj (Fin.ext hji))), hkeep⟩, hQ⟩

/-- A step that changes nothing the workers see. -/
theorem quiet {e : Act β} {Q : β → Worker → View → ℕ → Prop} (hP : ∀ m n, B.Steady i (P m · n))
    (hs : ∀ o s, Inv B s → Inv B (e.run i o s).2 ∧ ∀ w, (e.run i o s).2.view w = s.view w)
    (hp : ∀ m v n r, P m v n → e.Promised B i m v r)
    (hQ : ∀ m s n o, P m (s.view i) n → e.Allowed (B.mode i) B.pace i n m s o →
      Q (e.run i o s).1 m (s.view i) (n + 1)) : B.Triple i P (Proc.act e) Q := by
  refine act hP fun m s n o hinv h ho => ?_
  obtain ⟨h1, h2⟩ := hs o s hinv
  refine ⟨⟨h1, fun w _ => h2 w, hp m _ n _ h⟩, ?_⟩
  rw [h2]
  exact hQ m s n o h ho

end Setup.Triple

/-! ### Steps without effect -/

section Quiet

variable {Φ : Worker → View → Prop}

/-- A reading of the clock below `b` is one of the first `k₀` steps. -/
theorem now_spec (hΦ : ∀ m, B.Steady i (Φ m)) {b k₀ : ℕ} (hk : ∀ k ≥ k₀, b ≤ B.pace.floor k)
    (n₀ : ℕ) :
    B.Triple i (fun m v n => Φ m v ∧ n₀ ≤ n) now
      (fun t m v n => (Φ m v ∧ n₀ < n) ∧ (t < b → n₀ < k₀)) := by
  refine Setup.Triple.quiet (fun m n => (hΦ m).and (.const _)) (fun _ _ hs => ⟨hs, fun _ => rfl⟩)
    (fun _ _ _ _ _ => trivial)
    fun m s n o h ho => ?_
  refine ⟨⟨h.1, Nat.lt_succ_of_le h.2⟩, fun hlt => ?_⟩
  by_contra hge
  have hlt : o.clock < b := hlt
  have hb := hk n (by omega)
  have hread : B.pace.floor n ≤ o.clock := ho.1
  omega

/-- Readings of the clock are 64-bit words. -/
theorem now_lt (hΦ : ∀ m, B.Steady i (Φ m)) :
    B.Triple i (fun m v _ => Φ m v) now (fun t m v _ => t < 2 ^ 64 ∧ Φ m v) :=
  Setup.Triple.quiet (fun m _ => hΦ m) (fun _ _ hs => ⟨hs, fun _ => rfl⟩)
    (fun _ _ _ _ _ => trivial)
    fun _ _ _ _ h ho => ⟨ho.2, h⟩

theorem now_any (hΦ : ∀ m, B.Steady i (Φ m)) :
    B.Triple i (fun m v _ => Φ m v) now (fun _ m v _ => Φ m v) :=
  Setup.Triple.quiet (fun m _ => hΦ m) (fun _ _ hs => ⟨hs, fun _ => rfl⟩)
    (fun _ _ _ _ _ => trivial) fun _ _ _ _ h _ => h

theorem sleepNs_spec (hΦ : ∀ m, B.Steady i (Φ m)) (ns : ℕ) :
    B.Triple i (fun m v _ => Φ m v) (sleepNs ns) (fun _ m v _ => Φ m v) :=
  Setup.Triple.quiet (fun m _ => hΦ m) (fun _ _ hs => ⟨hs, fun _ => rfl⟩)
    (fun _ _ _ _ _ => trivial) fun _ _ _ _ h _ => h

theorem say_spec (hΦ : ∀ m, B.Steady i (Φ m)) {line : Message}
    (hline : line.Calm ∨ B.taken ≠ []) :
    B.Triple i (fun m v _ => Φ m v) (say line) (fun _ m v _ => Φ m v) :=
  Setup.Triple.quiet (fun m _ => hΦ m) (fun _ _ hs => ⟨hs, fun _ => rfl⟩)
    (fun _ _ _ _ _ => hline) fun _ _ _ _ h _ => h

theorem visit_spec (hΦ : ∀ m, B.Steady i (Φ m)) {place : Place}
    (hplace : ∀ m v, Φ m v → B.watch i place m v) :
    B.Triple i (fun m v _ => Φ m v) (visit place) (fun _ m v _ => Φ m v) :=
  Setup.Triple.quiet (fun m _ => hΦ m) (fun _ _ hs => ⟨hs, fun _ => rfl⟩)
    (fun m v _ _ h => hplace m v h) fun _ _ _ _ h _ => h

theorem count_spec (hΦ : ∀ m, B.Steady i (Φ m)) (ids : List WrId) :
    B.Triple i (fun m v _ => Φ m v) (count ids) (fun _ m v _ => Φ m v) := by
  refine Setup.Triple.quiet (fun m _ => hΦ m) (fun o s hs => ⟨?_, fun _ => rfl⟩)
    (fun _ _ _ _ _ => trivial) fun _ _ _ _ h _ => h
  exact { hs with lanes := hs.lanes }

theorem loadStop_spec (hΦ : ∀ m, B.Steady i (Φ m)) :
    B.Triple i (fun m v _ => Φ m v) (Proc.act .loadStop) (fun _ m v _ => Φ m v) :=
  Setup.Triple.quiet (fun m _ => hΦ m) (fun _ _ hs => ⟨hs, fun _ => rfl⟩)
    (fun _ _ _ _ _ => trivial) fun _ _ _ _ h _ => h

theorem loadFatal_spec (hΦ : ∀ m, B.Steady i (Φ m)) :
    B.Triple i (fun m v _ => Φ m v) (Proc.act .loadFatal) (fun _ m v _ => Φ m v) :=
  Setup.Triple.quiet (fun m _ => hΦ m) (fun _ _ hs => ⟨hs, fun _ => rfl⟩)
    (fun _ _ _ _ _ => trivial) fun _ _ _ _ h _ => h

theorem setFatal_spec (hΦ : ∀ m, B.Steady i (Φ m)) :
    B.Triple i (fun m v _ => Φ m v) (Proc.act .setFatal) (fun _ m v _ => Φ m v) := by
  refine Setup.Triple.quiet (fun m _ => hΦ m) (fun o s hs => ⟨?_, fun _ => rfl⟩)
    (fun _ _ _ _ _ => trivial) fun _ _ _ _ h _ => h
  exact { hs with lanes := hs.lanes }

end Quiet

end Triples

end KvBench.Bench
