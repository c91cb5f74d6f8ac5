import KvBench.Handshake.Exchange

/-!
# Records are paired, and the ends agree

What an end has written is at any time a piece of the stream of its records, and what it has read
ends, between two calls, where a record of the other end does. So the `i`-th call reads the `i`-th
record, however the streams are cut into pieces and whatever the other end has written already. The
check compares the same two numbers on both ends.
-/

namespace KvBench.Handshake

open KvBench.Bench KvBench.Conc KvBench.Words

section Pairing

variable {E J : ℕ} (params : End → HandshakeParams) (res : End → ℕ → Resource E J)

/-- The record that the end `e` sends in its call `i`. -/
def wireOf (e : End) (i : ℕ) : WireInfo E J := localWire (params e) (res e i)

/-- All the end `e` would send, call after call. -/
def stream (e : End) : ℕ → Byte := streamOf (wireSize E J) fun i => (wireOf params res e i).bytes

theorem window_stream (e : End) (i : ℕ) :
    window (stream params res e) (i * wireSize E J) (wireSize E J) = (wireOf params res e i).bytes :=
  window_streamOf (fun _ => length_bytes _) i

/-- The verdict of the end `e`. -/
def verdict (e : End) : Bool :=
  exchangeAccepts (params e).sendSize.toNat (params e.peer).sendSize.toNat

/-- The invariant of the connection. -/
structure Sound (s : Net) : Prop where
  sent : ∀ e, ∃ n, s.sent e = window (stream params res e) 0 n
  taken : ∀ e, s.taken e ≤ (s.sent e.peer).length
  checks : ∀ e i r ok, (s.checks e)[i]? = some (r, ok) →
    r = (wireOf params res e.peer i).bytes ∧ ok = verdict params e

/-- An end leaves alone what belongs to the other. -/
def discipline : Discipline End Unit Net Act where
  inv := Sound params res
  rely e s s' := s'.sent e = s.sent e ∧ s'.taken e = s.taken e ∧ s'.checks e = s.checks e
  promise _ _ _ _ _ := True

/-- How far the end `e` is: it has written `n` bytes, read `t` and made `k` checks. -/
def At (e : End) (n t k : ℕ) (s : Net) : Prop :=
  s.sent e = window (stream params res e) 0 n ∧ s.taken e = t ∧ (s.checks e).length = k

variable {params res} {e : End} {n t k N : ℕ}

theorem At.stable (e : End) (n t k : ℕ) :
    (discipline params res).Stable e (At params res e n t k) := by
  rintro s s' - ⟨h1, h2, h3⟩ ⟨hsent, htaken, hchecks⟩ -
  refine ⟨hsent.trans h1, htaken.trans h2, ?_⟩
  rw [hchecks]
  exact h3

/-! ### The steps -/

section Steps

variable {s : Net}

theorem take_wire (e : End) (i m : ℕ) : (wireOf params res e i).bytes.take m =
    window (stream params res e) (i * wireSize E J) (min m (wireSize E J)) := by
  rw [← window_stream, take_window]

theorem Sound.write (h : Sound params res s) (hat : At params res e (n * wireSize E J) t k s)
    (m : ℕ) :
    Sound params res { s with
      sent := Function.update s.sent e (s.sent e ++ (wireOf params res e n).bytes.take m) } := by
  refine ⟨fun e' => ?_, fun e' => ?_, h.checks⟩
  · by_cases he : e' = e
    · subst he
      refine ⟨n * wireSize E J + min m (wireSize E J), ?_⟩
      dsimp only
      rw [Function.update_self, hat.1, take_wire]
      have := window_append (stream params res e') 0 (n * wireSize E J) (min m (wireSize E J))
      rwa [Nat.zero_add] at this
    · dsimp only
      rw [Function.update_of_ne he]
      exact h.sent e'
  · have hle := h.taken e'
    dsimp only
    by_cases he : e'.peer = e
    · rw [he] at hle ⊢
      rw [Function.update_self, List.length_append]
      omega
    · rwa [Function.update_of_ne he]

theorem Sound.read (h : Sound params res s) {m : ℕ}
    (hm : s.taken e + m ≤ (s.sent e.peer).length) :
    Sound params res { s with taken := Function.update s.taken e (s.taken e + m) } := by
  refine ⟨h.sent, fun e' => ?_, h.checks⟩
  dsimp only
  by_cases he : e' = e
  · subst he
    rwa [Function.update_self]
  · rw [Function.update_of_ne he]
    exact h.taken e'

/-- What a `read` finds is the continuation of what has been read. -/
theorem Sound.data (h : Sound params res s) {m : ℕ}
    (hm : s.taken e + m ≤ (s.sent e.peer).length) :
    ((s.sent e.peer).drop (s.taken e)).take m =
      window (stream params res e.peer) (s.taken e) m := by
  obtain ⟨n, hn⟩ := h.sent e.peer
  rw [hn, length_window] at hm
  rw [hn, drop_window _ (by omega), take_window, Nat.zero_add, Nat.min_eq_left (by omega)]

theorem Sound.check (h : Sound params res s) (hk : (s.checks e).length = k) :
    Sound params res { s with
      checks := Function.update s.checks e
        (s.checks e ++ [((wireOf params res e.peer k).bytes, verdict params e)]) } := by
  refine ⟨h.sent, h.taken, fun e' i r ok hi => ?_⟩
  dsimp only at hi
  by_cases he : e' = e
  · subst he
    rw [Function.update_self, List.getElem?_append] at hi
    split_ifs at hi with hlt
    · exact h.checks e' i r ok hi
    · obtain ⟨h0, heq⟩ := List.getElem?_eq_some_iff.1 hi
      have hi : i = k := by
        rw [List.length_singleton] at h0
        omega
      subst hi
      rw [List.getElem_singleton, Prod.mk.injEq] at heq
      exact ⟨heq.1.symm, heq.2.symm⟩
  · rw [Function.update_of_ne he] at hi
    exact h.checks e' i r ok hi

end Steps

/-! ### The calls -/

section Calls

/-- The connection when each end is interrupted only in its first `N` steps. -/
abbrev netUntil (N : ℕ) : World End Unit Net Oracle Empty Act := net fun k => k < N

variable (params res) in
/-- Started with `P`, the procedure of the end `e` returns with `Q`. -/
abbrev Talks {α : Type} (N : ℕ) (e : End) (P : (discipline params res).Point → Prop)
    (c : Proc Unit Act α) (Q : α → (discipline params res).Point → Prop) : Prop :=
  Spec ((discipline params res).total (netUntil N) e) id (fun _ => P) c fun a _ => Q a

theorem write_spec (i : ℕ) :
    Talks params res N e
      (fun y => At params res e (i * wireSize E J) t k y.state)
      (Proc.act (.write (wireOf params res e i).bytes))
      (fun rc y => At params res e (i * wireSize E J + rc) t k y.state ∧ rc ≤ wireSize E J) := by
  refine Discipline.spec_act (P := fun _ s _ => At params res e (i * wireSize E J) t k s)
    (fun _ _ => At.stable e _ _ _) fun m s n hs hat o _ => ?_
  cases o with
  | count m =>
    have hrun : min m (wireOf params res e i).bytes.length = min m (wireSize E J) := by
      rw [length_bytes]
    refine ⟨⟨Sound.write hs hat m, fun j hj => ⟨Function.update_of_ne hj _ _, rfl, rfl⟩, trivial⟩,
      ⟨?_, hat.2⟩, ?_⟩
    · show Function.update s.sent e _ e = window _ 0 (_ + min m _)
      rw [Function.update_self, hat.1, take_wire, hrun]
      have := window_append (stream params res e) 0 (i * wireSize E J) (min m (wireSize E J))
      rwa [Nat.zero_add] at this
    · show min m _ ≤ _
      rw [hrun]
      exact Nat.min_le_right _ _
  | closed => exact ⟨⟨hs, fun _ _ => ⟨rfl, rfl, rfl⟩, trivial⟩, hat, Nat.zero_le _⟩
  | interrupted => exact ⟨⟨hs, fun _ _ => ⟨rfl, rfl, rfl⟩, trivial⟩, hat, Nat.zero_le _⟩
  | failed => exact ⟨⟨hs, fun _ _ => ⟨rfl, rfl, rfl⟩, trivial⟩, hat, Nat.zero_le _⟩

/-- The end `e` is reading the record `i`, of which it has `got`. -/
def Reading (params : End → HandshakeParams) (res : End → ℕ → Resource E J) (e : End) (n i k : ℕ)
    (got : List Byte) (s : Net) : Prop :=
  At params res e n (i * wireSize E J + got.length) k s ∧
    got = window (stream params res e.peer) (i * wireSize E J) got.length ∧
    got.length ≤ wireSize E J

theorem Reading.stable (e : End) (n i k : ℕ) (got : List Byte) :
    (discipline params res).Stable e (Reading params res e n i k got) := by
  rintro s s' hs ⟨hat, hgot⟩ hrely hs'
  exact ⟨At.stable e _ _ _ s s' hs hat hrely hs', hgot⟩

/-- One `read`. It comes nearer to the end of the record, or uses up an interruption. -/
theorem read_spec (n₀ : ℕ) {i : ℕ} {got : List Byte} (hlt : got.length < wireSize E J) :
    Talks params res N e (fun y => y.time = n₀ ∧ Reading params res e n i k got y.state)
      (Proc.act (.read (wireSize E J - got.length)))
      (fun r y => y.time = n₀ + 1 ∧ match r with
        | .data bytes => Reading params res e n i k (got ++ bytes) y.state ∧ 1 ≤ bytes.length
        | .interrupted => Reading params res e n i k got y.state ∧ n₀ < N
        | _ => True) := by
  refine Discipline.spec_act (P := fun _ s n' => n' = n₀ ∧ Reading params res e n i k got s)
    (fun _ n' s s' hs h hrely hs' => ⟨h.1, Reading.stable e _ _ _ _ s s' hs h.2 hrely hs'⟩)
    fun m s n' hs h o ho => ?_
  obtain ⟨rfl, hat, hgot, -⟩ := h
  cases o with
  | count m =>
    obtain ⟨hpos, hmax, havail⟩ := ho
    have hdata := Sound.data hs havail
    rw [hat.2.1] at hdata
    have hlen : (((s.sent e.peer).drop (s.taken e)).take m).length = m := by
      rw [hat.2.1, hdata, length_window]
    refine ⟨⟨Sound.read hs havail, fun j hj => ⟨rfl, Function.update_of_ne hj _ _, rfl⟩, trivial⟩,
      rfl, ⟨⟨hat.1, ?_, hat.2.2⟩, ?_, ?_⟩, ?_⟩
    · show Function.update s.taken e _ e = _
      rw [Function.update_self, List.length_append, hlen, hat.2.1, Nat.add_assoc]
    · rw [List.length_append, hlen, ← window_append, ← hgot, hat.2.1, hdata]
    · rw [List.length_append, hlen]
      omega
    · rw [hlen]
      exact hpos
  | closed => exact ⟨⟨hs, fun _ _ => ⟨rfl, rfl, rfl⟩, trivial⟩, rfl, trivial⟩
  | interrupted =>
    exact ⟨⟨hs, fun _ _ => ⟨rfl, rfl, rfl⟩, trivial⟩, rfl, ⟨hat, hgot, by omega⟩,
      of_decide_eq_true ho⟩
  | failed => exact ⟨⟨hs, fun _ _ => ⟨rfl, rfl, rfl⟩, trivial⟩, rfl, trivial⟩

/-- The loop ends with the whole record, if it does not fail. -/
theorem readLoop_spec (i : ℕ) :
    Talks params res N e (fun y => At params res e n (i * wireSize E J) k y.state)
      (Proc.loop (readRound (wireSize E J)) [])
      (fun r y => ∀ remote, r = some remote → remote = (wireOf params res e.peer i).bytes ∧
        At params res e n (i * wireSize E J + wireSize E J) k y.state) := by
  refine Spec.pre (Spec.loop_of_variant (fun got _ y => Reading params res e n i k got y.state)
    (fun got _ y => (wireSize E J - got.length) + (N - y.time)) (fun got d => ?_) [])
    fun m y hat => ⟨hat, rfl, Nat.zero_le _⟩
  unfold readRound
  refine Spec.ite (fun hlt => ⟨fun m y h => ?_⟩) fun hge => ?_
  · refine (Spec.bind (read_spec y.time hlt) fun r => ?_).holds m y ⟨rfl, h.2⟩
    have hd : (wireSize E J - got.length) + (N - y.time) = d := h.1
    cases r with
    | data bytes =>
      refine Spec.pure fun m y' h => ⟨h.2.1, ?_⟩
      have hpos := h.2.2
      have htime := h.1
      rw [List.length_append]
      omega
    | closed => exact Spec.pure fun m y' h remote hr => nomatch hr
    | interrupted =>
      refine Spec.pure fun m y' h => ⟨h.2.1, ?_⟩
      have hsignal := h.2.2
      have htime := h.1
      omega
    | failed => exact Spec.pure fun m y' h remote hr => nomatch hr
  · refine Spec.pure fun m y h remote hr => ?_
    obtain ⟨-, hat, hgot, hle⟩ := h
    obtain rfl : got = remote := Option.some.inj hr
    have hlen : got.length = wireSize E J := by omega
    rw [hlen] at hat hgot
    exact ⟨hgot.trans (window_stream params res e.peer i), hat⟩

theorem sockSyncData_spec (i : ℕ) :
    Talks params res N e (fun y => At params res e (i * wireSize E J) (i * wireSize E J) k y.state)
      (sockSyncData (wireOf params res e i).bytes)
      (fun r y => ∀ remote, r = some remote → remote = (wireOf params res e.peer i).bytes ∧
        At params res e (i * wireSize E J + wireSize E J) (i * wireSize E J + wireSize E J) k
          y.state) := by
  unfold sockSyncData
  refine Spec.bind (write_spec i) fun rc => ?_
  rw [length_bytes]
  refine Spec.ite (fun _ => Spec.pure fun m y _ remote hr => nomatch hr) fun hge => ?_
  refine Spec.pre (readLoop_spec i) fun m y h => ?_
  obtain ⟨hat, hle⟩ := h
  rwa [show rc = wireSize E J by omega] at hat

theorem exchange_spec (i : ℕ) :
    Talks params res N e (fun y => At params res e (i * wireSize E J) (i * wireSize E J) i y.state)
      (exchange (params e) (res e i))
      (fun ok y => ok = true →
        At params res e ((i + 1) * wireSize E J) ((i + 1) * wireSize E J) (i + 1) y.state) := by
  unfold exchange
  refine Spec.bind (sockSyncData_spec i) fun r => ?_
  cases r with
  | none => exact Spec.pure fun m y _ h => nomatch h
  | some remote =>
    refine ⟨fun m y h => ?_⟩
    obtain ⟨rfl, hat⟩ := h remote rfl
    have hverdict : exchangeAccepts (params e).sendSize.toNat
        (WireInfo.ofBytes E J (wireOf params res e.peer i).bytes).sendSize.toNat =
        verdict params e := by
      rw [ofBytes_bytes]
      rfl
    rw [← Nat.succ_mul] at hat
    dsimp only
    rw [hverdict]
    -- the check is recorded, then the rest of the call does not touch the connection
    have hcheck : Talks params res N e
        (fun y => At params res e ((i + 1) * wireSize E J) ((i + 1) * wireSize E J) i y.state)
        (Proc.act (.checked (wireOf params res e.peer i).bytes (verdict params e)))
        (fun _ y =>
          At params res e ((i + 1) * wireSize E J) ((i + 1) * wireSize E J) (i + 1) y.state) := by
      refine Discipline.spec_act
        (P := fun _ s _ => At params res e ((i + 1) * wireSize E J) ((i + 1) * wireSize E J) i s)
        (fun _ _ => At.stable e _ _ _) fun m s n hs hat o _ => ?_
      refine ⟨⟨Sound.check hs hat.2.2, fun j hj => ⟨rfl, rfl, Function.update_of_ne hj _ _⟩,
        trivial⟩, hat.1, hat.2.1, ?_⟩
      show (Function.update s.checks e _ e).length = _
      rw [Function.update_self, List.length_append, hat.2.2]
      rfl
    have hrest : Talks params res N e
        (fun y =>
          At params res e ((i + 1) * wireSize E J) ((i + 1) * wireSize E J) (i + 1) y.state)
        (if verdict params e = true then Proc.act .importRemote else pure false)
        (fun ok y => ok = true →
          At params res e ((i + 1) * wireSize E J) ((i + 1) * wireSize E J) (i + 1) y.state) := by
      refine Spec.ite (fun _ => ?_) fun _ => Spec.pure fun m y _ h => nomatch h
      refine Discipline.spec_act
        (P := fun _ s _ => At params res e ((i + 1) * wireSize E J) ((i + 1) * wireSize E J) (i + 1) s)
        (fun _ _ => At.stable e _ _ _) fun m s n hs hat o _ => ?_
      cases o <;> exact ⟨⟨hs, fun _ _ => ⟨rfl, rfl, rfl⟩, trivial⟩, fun _ => hat⟩
    exact (Spec.bind hcheck fun _ => hrest).holds m y hat

theorem exchanges_spec (calls : ℕ) :
    Talks params res N e (fun y => At params res e 0 0 0 y.state) (exchanges (params e) (res e) calls)
      (fun _ _ => True) := by
  have hround : ∀ i, 0 ≤ i → i < 0 + calls →
      Spec ((discipline params res).total (netUntil N) e) id
        (fun _ y => At params res e (i * wireSize E J) (i * wireSize E J) i y.state)
        (do if ← exchange (params e) (res e i) then pure none else pure (some ()))
        (fun r => r.elim
          (fun _ y => At params res e ((i + 1) * wireSize E J) ((i + 1) * wireSize E J) (i + 1) y.state)
          fun _ _ _ => True) := by
    intro i _ _
    refine Spec.bind (exchange_spec i) fun ok => Spec.ite (fun hok => ?_) fun _ => ?_
    · exact Spec.pure fun m y h => h hok
    · exact Spec.pure fun m y _ => trivial
  refine Spec.conseq (Spec.search (fun i _ y =>
    At params res e (i * wireSize E J) (i * wireSize E J) i y.state) (fun _ _ _ => True) hround)
    (fun m y hat => ?_) fun _ _ _ _ => trivial
  rw [Nat.zero_mul]
  exact hat

end Calls

/-! ### All runs -/

theorem sound_start (params : End → HandshakeParams) (res : End → ℕ → Resource E J) (calls : ℕ) :
    (start params res calls).Good ((discipline params res).total (netUntil N))
      fun _ _ _ => True where
  inv := ⟨fun _ => ⟨0, rfl⟩, fun _ => Nat.zero_le _, fun _ i r ok h => by cases h⟩
  holds e := (exchanges_spec calls).holds () ⟨_, 0, _⟩ ⟨rfl, rfl, rfl⟩

theorem Act.Allowed.until {β : Type} {a : Act β} {s : Net} {o : Oracle} {time : ℕ}
    (h : a.Allowed (fun _ => true) e time s o) (ht : time < N) :
    a.Allowed (fun k => k < N) e time s o := by
  cases a with
  | read limit =>
    cases o with
    | interrupted => exact decide_eq_true ht
    | _ => exact h
  | _ => exact h

theorem sound_of_reachable (params : End → HandshakeParams) (res : End → ℕ → Resource E J)
    (calls : ℕ) {c : Conf End Unit Net Act (Option Unit × Unit)}
    (hr : Reachable (net fun _ => true) (start params res calls) c) :
    Sound params res c.state := by
  have hen : ∀ N (c : Conf End Unit Net Act (Option Unit × Unit)) mv, (∀ e, c.time e < N) →
      c.Enabled (net fun _ => true) mv → c.Enabled (netUntil N) mv := by
    intro N c mv ht hen
    cases mv with
    | env x => exact x.elim
    | thread e o =>
      unfold Conf.Enabled at hen ⊢
      dsimp only at hen ⊢
      split
      · rename_i m a f hp
        rw [hp] at hen
        exact Act.Allowed.until hen (ht e)
      · trivial
  obtain ⟨N, hr⟩ : ∃ N, Reachable (netUntil N) (start params res calls) c :=
    Reachable.exists_until (V := netUntil) (fun _ _ _ => rfl) hen hr fun _ => rfl
  exact ((sound_start params res calls).reachable (fun _ _ _ _ _ _ _ _ => trivial)
    (fun x => x.elim) hr).inv

end Pairing

/-- The verdict does not depend on the end. -/
theorem exchangeAccepts_comm (a b : ℕ) : exchangeAccepts a b = exchangeAccepts b a := by
  unfold exchangeAccepts
  congr 1
  rw [eq_iff_iff]
  tauto

theorem eq_of_exchangeAccepts {a b : ℕ} (h : exchangeAccepts a b = true) (ha : a ≠ 0) (hb : b ≠ 0) :
    a = b := by
  unfold exchangeAccepts at h
  by_contra hne
  exact of_decide_eq_true h ⟨ha, hb, Ne.symm hne⟩

/-- **Pairing and agreement.** In every run, what either end has received in its `i`-th call is the
`i`-th record of the other end, byte for byte; the two ends come to the same verdict in each call; and
if both have a `send_size` and the check passes, it is the same. -/
theorem handshake_pairing {E J : ℕ} (params : End → HandshakeParams)
    (res : End → ℕ → Resource E J) (calls : ℕ)
    {c : Conf End Unit Net Act (Option Unit × Unit)}
    (hr : Reachable (net fun _ => true) (start params res calls) c) :
    (∀ e i remote passed, (c.state.checks e)[i]? = some (remote, passed) →
      remote = (localWire (params e.peer) (res e.peer i)).bytes ∧
        WireInfo.ofBytes E J remote = localWire (params e.peer) (res e.peer i)) ∧
    ∀ (i : ℕ) remote passed remote' passed',
      (c.state.checks .client)[i]? = some (remote, passed) →
      (c.state.checks .server)[i]? = some (remote', passed') →
      passed = passed' ∧ (passed = true → (params .client).sendSize ≠ 0 →
        (params .server).sendSize ≠ 0 → (params .client).sendSize = (params .server).sendSize) := by
  have hsound := sound_of_reachable params res calls hr
  constructor
  · intro e i remote passed h
    have hremote := (hsound.checks e i remote passed h).1
    refine ⟨hremote, ?_⟩
    rw [hremote]
    exact ofBytes_bytes _
  · intro i remote passed remote' passed' h h'
    obtain ⟨-, hc⟩ := hsound.checks .client i remote passed h
    obtain ⟨-, hs⟩ := hsound.checks .server i remote' passed' h'
    refine ⟨?_, fun hpass hne hne' => ?_⟩
    · rw [hc, hs]
      exact exchangeAccepts_comm _ _
    · rw [hc] at hpass
      refine BitVec.eq_of_toNat_eq (eq_of_exchangeAccepts hpass ?_ ?_)
      · exact fun h0 => hne (BitVec.eq_of_toNat_eq h0)
      · exact fun h0 => hne' (BitVec.eq_of_toNat_eq h0)

/-! ### A run -/

instance (signals : ℕ → Bool) : (net signals).Effective where
  allowed _ k _ a _ o :=
    match a, o with
    | .read _, .count _ => inferInstanceAs (Decidable (_ ∧ _ ∧ _))
    | .read _, .interrupted => inferInstanceAs (Decidable (signals k = true))
    | .read _, .closed | .read _, .failed => inferInstanceAs (Decidable True)
    | .write _, _ | .checked _ _, _ | .importRemote, _ => inferInstanceAs (Decidable True)
  env x := x.elim

/-- Both ends send 8 KiB at a time. -/
def smallParams (_ : End) : HandshakeParams := ⟨1, 0, 4096, 8192, 255⟩

/-- Each port has a device of its own. -/
def smallResource (e : End) (i : ℕ) : Resource 1 1 :=
  ⟨BitVec.ofNat 8 i, if e = .client then 1 else 2, 65536, 4096, 0, 0, 7⟩

/-- The client reads the first record of the server in two pieces, after an interruption, and sends
its second record before the server has read the first. -/
def twoCalls : List (Move End Oracle Empty) :=
  [.thread .client (.count 58), .thread .client (.count 0), .thread .server (.count 58),
    .thread .server (.count 0), .thread .client .interrupted, .thread .client (.count 0),
    .thread .client (.count 20), .thread .client (.count 0), .thread .client (.count 38),
    .thread .client (.count 0), .thread .client (.count 0), .thread .client (.count 0),
    .thread .client (.count 58), .thread .server (.count 58), .thread .server (.count 0),
    .thread .server (.count 0), .thread .server (.count 0)]

def exchanged : Conf End Unit Net Act (Option Unit × Unit) :=
  (start smallParams smallResource 2).plays (net fun _ => true) twoCalls

theorem handshake_pairing_ahead :
    ((exchanged.state.sent .client).length = 116 ∧ (exchanged.state.taken .server) = 58 ∧
      (exchanged.state.checks .client).length = 1 ∧ (exchanged.state.checks .server).length = 1) ∧
    ∀ e i remote passed, (exchanged.state.checks e)[i]? = some (remote, passed) →
      remote = (localWire (smallParams e.peer) (smallResource e.peer i)).bytes ∧
        WireInfo.ofBytes 1 1 remote = localWire (smallParams e.peer) (smallResource e.peer i) := by
  have hr : Reachable (net fun _ => true) (start smallParams smallResource 2) exchanged :=
    Reachable.of_plays (by decide +kernel)
  exact ⟨by decide +kernel, (handshake_pairing smallParams smallResource 2 hr).1⟩

end KvBench.Handshake
