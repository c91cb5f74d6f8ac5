import KvBench.Server.Safety

/-!
# The threads of the server keep to the discipline

The thread that accepts, the threads of the connections and the main thread are each verified on their own,
against what the others may do to the table meanwhile. None of them need ever end, since the key that stops
the server may never come.
-/

namespace KvBench.Server

open KvBench.Conc

/-! ### One step -/

section Rules

variable {t : Thread} {β : Type} {P : Table → Prop} {Q : β → Table → Prop}

/-- Procedures with assertions about the table. -/
abbrev Does (t : Thread) (P : Table → Prop) (x : Code β) (Q : β → Table → Prop) : Prop :=
  Abides server discipline t (fun _ => P) x fun b _ => Q b

theorem act_spec {e : Act β} (hP : discipline.Stable t P)
    (hrun : ∀ s o, Inv s → P s → e.Allowed t s o → Keeps t s (e.run t o s).2 ∧
      ((¬ e.Final → s.destroyed = false) ∧ e.Proper t s) ∧ Q (e.run t o s).1 (e.run t o s).2) :
    Does t P (Proc.act e) Q := by
  refine Discipline.spec_run (fun _ => hP) fun _ s _ hs hPs o ho => ?_
  obtain ⟨⟨hinv, hrely⟩, hpromise, hQ⟩ := hrun s o hs hPs ho
  exact ⟨⟨hinv, hrely, hpromise⟩, hQ⟩

/-- A step that changes nothing. -/
theorem look_spec {e : Act β} (hP : discipline.Stable t P) (hsame : ∀ s o, (e.run t o s).2 = s)
    (hproper : ∀ s, e.Proper t s) (hlive : ∀ s, Inv s → P s → s.destroyed = false)
    (hQ : ∀ s o, Inv s → P s → e.Allowed t s o → Q (e.run t o s).1 s) : Does t P (Proc.act e) Q := by
  refine act_spec hP fun s o hs hPs ho => ?_
  rw [hsame]
  exact ⟨keeps_refl t hs, ⟨fun _ => hlive s hs hPs, hproper s⟩, hQ s o hs hPs ho⟩

end Rules

/-! ### The thread of a connection -/

section Conn

variable {k i fd : ℕ}

/-- The thread `k` serves the slot `i` and has its descriptor. -/
structure Serving (k i : ℕ) (s : Table) : Prop where
  serving : s.serving k = some i
  owner : s.fds (s.conns i).fd = some (.conn k)

theorem Serving.live {s : Table} (h : Serving k i s) (hs : Inv s) : s.destroyed = false :=
  (hs.served k i h.serving).2.2.2.1

theorem Serving.stable (k i : ℕ) : discipline.Stable (.conn k) (Serving k i) := by
  rintro s s' hs ⟨h1, h2⟩ hrely -
  obtain ⟨-, hserving, hslot, hfds, -⟩ := hrely
  have hk := (hs.served k i h1).2.2.1
  refine ⟨(hserving hk).trans h1, ?_⟩
  rw [(hslot i h1).2.1]
  exact (hfds hk _).2 h2

/-- It has no handles. -/
def Bare (k i : ℕ) (s : Table) : Prop := Serving k i s ∧ (s.conns i).conn = false

theorem Bare.stable (k i : ℕ) : discipline.Stable (.conn k) (Bare k i) := by
  rintro s s' hs ⟨h1, h2⟩ hrely hs'
  refine ⟨Serving.stable k i s s' hs h1 hrely hs', ?_⟩
  rw [(hrely.2.2.1 i h1.serving).2.2]
  exact h2

/-- Before it has started. -/
def Unborn (k : ℕ) (s : Table) : Prop := ∀ i, s.serving k = some i → Bare k i s

theorem Unborn.stable (k : ℕ) : discipline.Stable (.conn k) (Unborn k) := by
  intro s s' hs h hrely hs' i hi
  by_cases hk : k < s.threads
  · exact Bare.stable k i s s' hs (h i ((hrely.2.1 hk).symm.trans hi)) hrely hs'
  · obtain ⟨hfd, hconn⟩ := hrely.2.2.2.2 (not_lt.1 hk) i hi
    exact ⟨⟨hi, hfd⟩, hconn⟩

/-- The descriptor of the slot is known. -/
def BareWith (k i fd : ℕ) (s : Table) : Prop := Bare k i s ∧ (s.conns i).fd = fd

theorem BareWith.stable (k i fd : ℕ) : discipline.Stable (.conn k) (BareWith k i fd) := by
  rintro s s' hs ⟨h1, h2⟩ hrely hs'
  exact ⟨Bare.stable k i s s' hs h1 hrely hs', ((hrely.2.2.1 i h1.1.serving).2.1).trans h2⟩

/-- The descriptor has been closed. -/
structure Closed (k i : ℕ) (s : Table) : Prop where
  serving : s.serving k = some i
  conn : (s.conns i).conn = false
  fds : ∀ fd, s.fds fd ≠ some (.conn k)

theorem Closed.stable (k i : ℕ) : discipline.Stable (.conn k) (Closed k i) := by
  rintro s s' hs ⟨h1, h2, h3⟩ hrely -
  obtain ⟨-, hserving, hslot, hfds, -⟩ := hrely
  have hk := (hs.served k i h1).2.2.1
  refine ⟨(hserving hk).trans h1, (hslot i h1).2.2.trans h2, fun fd hfd => h3 fd ?_⟩
  exact (hfds hk fd).1 hfd

/-- The thread is done with the slot. -/
def Done (k : ℕ) (s : Table) : Prop := k < s.threads ∧ s.serving k = none

theorem Done.stable (k : ℕ) : discipline.Stable (.conn k) (Done k) := by
  rintro s s' - ⟨h1, h2⟩ hrely -
  exact ⟨h1.trans_le hrely.1, (hrely.2.1 h1).trans h2⟩

theorem waitForClient_spec (k i : ℕ) :
    Does (.conn k) (Serving k i) (waitForClient i) fun _ => Serving k i := by
  refine .loop (fun _ _ => Serving k i) (fun _ => ?_) ()
  refine .bind (Q := fun _ _ => Serving k i) (look_spec (Serving.stable k i) (fun _ _ => rfl)
    (fun _ => trivial) (fun _ hs h => h.live hs) fun _ _ _ h _ => h) fun stop => .ite (fun _ => ?_)
    fun _ => ?_
  · exact .pure fun _ _ h => h
  refine .bind (Q := fun _ _ => Serving k i) (look_spec (Serving.stable k i) (fun _ _ => rfl)
    (fun _ => trivial) (fun _ hs h => h.live hs) fun _ _ _ h _ => h) fun fd => ?_
  refine .bind (Q := fun _ _ => Serving k i) (look_spec (Serving.stable k i) (fun _ _ => rfl)
    (fun _ => trivial) (fun _ hs h => h.live hs) fun _ _ _ h _ => h) fun more => .pure fun _ _ h => ?_
  cases more <;> exact h

theorem serverConnMain_spec (k : ℕ) :
    Does (.conn k) (Unborn k) serverConnMain fun _ _ => True := by
  -- the slot is the one the thread has been created for
  refine .bind (Q := fun i _ => Bare k i) (act_spec (Unborn.stable k) ?_) fun i => ?_
  · intro s o hs h hstart
    obtain ⟨i, hi⟩ := Option.ne_none_iff_exists'.1 hstart
    have hrun : Act.run (.conn k) o .start s = (i, s) := by
      simp [Act.run, hi]
    rw [hrun]
    exact ⟨keeps_refl _ hs, ⟨fun _ => (h i hi).1.live hs, trivial⟩, h i hi⟩
  refine .bind (Q := fun _ _ => Bare k i) (look_spec (Bare.stable k i) (fun _ _ => rfl)
    (fun _ => trivial) (fun _ hs h => h.1.live hs) fun _ _ _ h _ => h) fun fd => ?_
  refine .bind (Q := fun _ _ => Serving k i) (act_spec (Bare.stable k i) ?_) fun ok => ?_
  · rintro s o hs ⟨h, hconn⟩ -
    by_cases ho : o = .yes
    · subst ho
      refine ⟨setConn_keeps hs h.serving true, ⟨fun _ => h.live hs, hconn⟩, h.serving, ?_⟩
      simpa [Act.run, Table.update] using h.owner
    · have hrun : Act.run (.conn k) o (.exchange i fd) s = (false, s) := by
        cases o <;> first | rfl | exact absurd rfl ho
      rw [hrun]
      exact ⟨keeps_refl _ hs, ⟨fun _ => h.live hs, hconn⟩, h⟩
  refine .bind (Q := fun _ _ => Serving k i) (.ite (fun _ => waitForClient_spec k i) fun _ =>
    .pure fun _ _ h => h) fun _ => ?_
  refine .bind (Q := fun _ _ => Bare k i) (act_spec (Serving.stable k i) ?_) fun _ => ?_
  · rintro s o hs h -
    refine ⟨setConn_keeps hs h.serving false, ⟨fun _ => h.live hs, trivial⟩, ⟨h.serving, ?_⟩, ?_⟩
    · simpa [Act.run, Table.update] using h.owner
    · simp [Act.run, Table.update]
  refine .bind (Q := fun fd _ => BareWith k i fd) (look_spec (Bare.stable k i) (fun _ _ => rfl)
    (fun _ => trivial) (fun _ hs h => h.1.live hs) fun _ _ _ h _ => ⟨h, rfl⟩) fun fd => ?_
  refine .bind (Q := fun _ _ => Closed k i) (act_spec (BareWith.stable k i fd) ?_) fun _ => ?_
  · rintro s o hs ⟨⟨h, hconn⟩, rfl⟩ -
    refine ⟨close_keeps hs h.owner, ⟨fun _ => h.live hs, h.owner⟩, h.serving, hconn, fun fd hfd => ?_⟩
    -- the thread had no other descriptor
    have hne : fd ≠ (s.conns i).fd := by
      rintro rfl
      simp [Act.run] at hfd
    obtain hacc | ⟨j, x, hj, hx, hfd'⟩ := hs.owner fd (.conn k)
      (by simpa [Act.run, Function.update_of_ne hne] using hfd)
    · exact Thread.noConfusion hacc
    · obtain rfl : k = j := by simpa using hj
      rw [h.serving] at hx
      exact hne (Option.some.inj hx ▸ hfd'.symm)
  refine .bind (Q := fun _ _ => Done k) (act_spec (Closed.stable k i) ?_) fun _ => ?_
  · rintro s o hs h -
    refine ⟨leave_keeps hs h.serving h.conn h.fds,
      ⟨fun _ => (hs.served k i h.serving).2.2.2.1, trivial⟩, ?_, ?_⟩
    · exact (hs.served k i h.serving).2.2.1
    · exact Function.update_self _ _ _
  · refine act_spec (Done.stable k) ?_
    rintro s o hs ⟨h1, h2⟩ -
    exact ⟨exit_conn_keeps hs h1 h2, ⟨fun h => absurd trivial h, trivial⟩, trivial⟩

end Conn

/-! ### The thread that accepts -/

section Acceptor

variable {i fd : ℕ}

/-- The thread runs and has the descriptors in `F`. -/
structure Accepting (pending : Option ℕ) (naming : Option (ℕ × ℕ)) (F : Set ℕ) (s : Table) : Prop where
  running : s.ended .acceptor = false
  pending_eq : s.pending = pending
  naming_eq : s.naming = naming
  fds : ∀ fd, s.fds fd = some .acceptor ↔ fd ∈ F

theorem Accepting.live {pending : Option ℕ} {naming : Option (ℕ × ℕ)} {F : Set ℕ} {s : Table}
    (h : Accepting pending naming F s) (hs : Inv s) : s.destroyed = false := by
  by_contra hd
  exact Bool.false_ne_true (h.running.symm.trans (hs.destroyed (by simpa using hd)))

theorem Accepting.stable (pending : Option ℕ) (naming : Option (ℕ × ℕ)) (F : Set ℕ) :
    discipline.Stable .acceptor (Accepting pending naming F) := by
  rintro s s' - ⟨h1, h2, h3, h4⟩ ⟨hp, hn, -, he, -, -, hf⟩ -
  exact ⟨he.trans h1, hp.trans h2, hn.trans h3, fun fd => (hf fd).trans (h4 fd)⟩

/-- A free slot has been found. -/
def Found (i fd : ℕ) (s : Table) : Prop :=
  Accepting none none {fd} s ∧ i < maxClientCnt ∧ (s.conns i).used = false

theorem Found.stable (i fd : ℕ) : discipline.Stable .acceptor (Found i fd) := by
  rintro s s' hs ⟨h1, h2, h3⟩ hrely hs'
  refine ⟨Accepting.stable _ _ _ s s' hs h1 hrely hs', h2, ?_⟩
  rw [hrely.2.2.2.2.1 i h3]
  exact h3

/-- The slot has been filled. -/
def Filled (i fd : ℕ) (s : Table) : Prop := Accepting (some i) none {fd} s ∧ (s.conns i).fd = fd

theorem Filled.stable (i fd : ℕ) : discipline.Stable .acceptor (Filled i fd) := by
  rintro s s' hs ⟨h1, h2⟩ hrely hs'
  refine ⟨Accepting.stable _ _ _ s s' hs h1 hrely hs', ?_⟩
  rw [hrely.2.2.2.2.2.1 i h1.pending_eq]
  exact h2

theorem findSlot_spec (fd : ℕ) : Does .acceptor (Accepting none none {fd}) findSlot
    fun r s => r.elim (Accepting none none {fd} s) fun i => Found i fd s := by
  refine (Spec.search (fun _ _ => Accepting none none {fd}) (fun i _ => Found i fd)
    fun i _ hi => ?_).conseq (fun _ _ h => h) fun r _ _ h => ?_
  · refine .bind (Q := fun used _ s => Accepting none none {fd} s ∧
      (used = false → (s.conns i).used = false)) (look_spec (Accepting.stable _ _ _) (fun _ _ => rfl)
      (fun _ => trivial) (fun _ hs h => h.live hs) fun _ _ _ h _ => ⟨h, fun hu => hu⟩) fun used =>
      .pure fun _ s h => ?_
    cases used with
    | true => exact h.1
    | false => exact ⟨h.1, by omega, h.2 rfl⟩
  · cases r <;> exact h

theorem close_spec (fd : ℕ) : Does .acceptor (Accepting none none {fd}) (Proc.act (.close fd))
    fun _ => Accepting none none ∅ := by
  refine act_spec (Accepting.stable _ _ _) ?_
  rintro s o hs h -
  have hfd : s.fds fd = some .acceptor := (h.fds fd).2 rfl
  refine ⟨close_keeps hs hfd, ⟨fun _ => h.live hs, hfd⟩, h.running, h.pending_eq, h.naming_eq, ?_⟩
  intro x
  by_cases hx : x = fd
  · subst hx
    simp [Act.run]
  · have := h.fds x
    simpa [Act.run, Function.update_of_ne hx, hx] using this

theorem fillSlot_spec (i fd : ℕ) :
    Does .acceptor (Found i fd) (fillSlot i fd) fun _ => Accepting none none ∅ := by
  refine .bind (Q := fun _ _ => Found i fd) (act_spec (Found.stable i fd) ?_) fun _ => ?_
  · rintro s o hs ⟨h, hi, hfree⟩ -
    refine ⟨memset_keeps hs hfree h.running, ⟨fun _ => h.live hs, (hs.free hfree).1⟩,
      ⟨h.running, h.pending_eq, h.naming_eq, h.fds⟩, hi, ?_⟩
    simp [Act.run, Table.update, Slot.zero]
  refine .bind (Q := fun _ _ => Accepting (some i) none {fd}) (act_spec (Found.stable i fd) ?_)
    fun _ => ?_
  · rintro s o hs ⟨h, hi, hfree⟩ -
    exact ⟨setUsed_keeps hs hfree hi h.pending_eq h.running, ⟨fun _ => h.live hs, trivial⟩,
      h.running, rfl, h.naming_eq, h.fds⟩
  refine .bind (Q := fun _ _ => Filled i fd) (act_spec (Accepting.stable _ _ _) ?_) fun _ => ?_
  · rintro s o hs h -
    refine ⟨setFd_keeps hs h.pending_eq h.running, ⟨fun _ => h.live hs, trivial⟩,
      ⟨h.running, h.pending_eq, h.naming_eq, h.fds⟩, ?_⟩
    simp [Act.run, Table.update]
  refine .bind (Q := fun r _ s => r.elim (Filled i fd s) fun k => Accepting none (some (i, k)) ∅ s)
    (act_spec (Filled.stable i fd) ?_) fun r => ?_
  · rintro s o hs ⟨h, hfd⟩ -
    have hvacant : s.Vacant i := hs.vacant fun k hk =>
      (hs.served k i hk).2.2.2.2 h.pending_eq
    have howner : s.fds (s.conns i).fd = some .acceptor := (h.fds _).2 hfd
    by_cases ho : o = .yes
    · subst ho
      refine ⟨create_keeps hs h.pending_eq h.naming_eq howner h.running, ⟨fun _ => h.live hs, hvacant⟩,
        h.running, rfl, rfl, fun x => ?_⟩
      by_cases hx : x = (s.conns i).fd
      · subst hx
        simp [Act.run]
      · have := h.fds x
        simpa [Act.run, Function.update_of_ne hx, hfd ▸ hx] using this
    · have hrun : Act.run .acceptor o (.create i) s = (none, s) := by
        cases o <;> first | rfl | exact absurd rfl ho
      rw [hrun]
      exact ⟨keeps_refl _ hs, ⟨fun _ => h.live hs, hvacant⟩, h, hfd⟩
  cases r with
  | some k =>
    refine act_spec (Accepting.stable _ _ _) ?_
    rintro s o hs h -
    exact ⟨setTid_keeps hs h.naming_eq h.running, ⟨fun _ => h.live hs, trivial⟩,
      h.running, h.pending_eq, rfl, h.fds⟩
  | none =>
    refine .bind (Q := fun _ _ => Accepting none none {fd}) (act_spec (Filled.stable i fd) ?_)
      fun _ => close_spec fd
    rintro s o hs ⟨h, -⟩ -
    exact ⟨clearUsed_keeps hs h.pending_eq h.running, ⟨fun _ => h.live hs, trivial⟩,
      h.running, rfl, h.naming_eq, h.fds⟩

theorem admitClient_spec (fd : ℕ) :
    Does .acceptor (Accepting none none {fd}) (admitClient fd) fun _ => Accepting none none ∅ := by
  refine .bind (findSlot_spec fd) fun r => ?_
  cases r with
  | some i => exact fillSlot_spec i fd
  | none => exact close_spec fd

theorem acceptRound_spec : Does .acceptor (Accepting none none ∅) acceptRound
    fun _ => Accepting none none ∅ := by
  refine .bind (Q := fun _ _ => Accepting none none ∅) (look_spec (Accepting.stable _ _ _)
    (fun _ _ => rfl) (fun _ => trivial) (fun _ hs h => h.live hs) fun _ _ _ h _ => h) fun stop =>
    .ite (fun _ => .pure fun _ _ h => h) fun _ => ?_
  refine .bind (Q := fun r _ s => match r with
    | .socket fd => Accepting none none {fd} s
    | _ => Accepting none none ∅ s) (act_spec (Accepting.stable _ _ _) ?_) fun r => ?_
  · rintro s o hs h ho
    cases o with
    | fd n =>
      have hn : s.fds n = none := ho
      refine ⟨accept_keeps hs hn h.running, ⟨fun _ => h.live hs, trivial⟩, h.running, h.pending_eq,
        h.naming_eq, fun x => ?_⟩
      by_cases hx : x = n
      · subst hx
        simp [Act.run]
      · have := h.fds x
        simpa [Act.run, Function.update_of_ne hx, hx] using this
    | yes | no | again => exact ⟨keeps_refl _ hs, ⟨fun _ => h.live hs, trivial⟩, h⟩
  cases r with
  | again | failed => exact .pure fun _ _ h => h
  | socket fd => exact .bind (admitClient_spec fd) fun _ => .pure fun _ _ h => h

theorem serverSockThreadMain_spec :
    Does .acceptor (Accepting none none ∅) serverSockThreadMain fun _ _ => True := by
  refine .bind (Q := fun _ _ => Accepting none none ∅) (.loop (fun _ _ => Accepting none none ∅)
    (fun _ => acceptRound_spec.conseq (fun _ _ h => h) fun r _ _ h => ?_) ()) fun _ =>
    act_spec (Accepting.stable _ _ _) ?_
  · cases r <;> exact h
  · rintro s o hs h -
    refine ⟨exit_acceptor_keeps hs h.pending_eq h.naming_eq fun fd hfd => ?_,
      ⟨fun h => absurd trivial h, trivial⟩, trivial⟩
    exact (h.fds fd).1 hfd

end Acceptor

/-! ### The main thread -/

section Main

/-- The context is there. -/
def Live (s : Table) : Prop := s.destroyed = false

theorem Live.stable : discipline.Stable .main Live := fun _ _ _ h hrely _ => hrely.1.trans h

/-- The accepting thread has ended, and nobody serves a slot below `n`. -/
structure Drained (n : ℕ) (s : Table) : Prop where
  live : s.destroyed = false
  ended : s.ended .acceptor = true
  serving : ∀ k, ∀ i < n, s.serving k ≠ some i

theorem Drained.stable (n : ℕ) : discipline.Stable .main (Drained n) := by
  rintro s s' - ⟨h1, h2, h3⟩ ⟨hd, hrest⟩ -
  obtain ⟨he, hserving, -⟩ := hrest h2
  exact ⟨hd.trans h1, he, fun k i hi hk => h3 k i hi (hserving k i hk)⟩

/-- The thread of the slot `n` is known. -/
def Named (n k : ℕ) (s : Table) : Prop :=
  Drained n s ∧ (s.conns n).tid = some k ∧ ∀ j, s.serving j = some n → j = k

theorem Named.stable (n k : ℕ) : discipline.Stable .main (Named n k) := by
  rintro s s' hs ⟨h1, h2, h3⟩ hrely hs'
  obtain ⟨-, hserving, htid⟩ := hrely.2 h1.ended
  exact ⟨Drained.stable n s s' hs h1 hrely hs', (htid n).trans h2, fun j hj => h3 j (hserving j n hj)⟩

theorem Drained.succ {n : ℕ} {s : Table} (h : Drained n s) (hn : ∀ k, s.serving k ≠ some n) :
    Drained (n + 1) s := by
  refine ⟨h.live, h.ended, fun k i hi => ?_⟩
  rcases Nat.lt_succ_iff_lt_or_eq.1 hi with hlt | rfl
  · exact h.serving k i hlt
  · exact hn k

theorem joinSlot_spec (n : ℕ) : Does .main (Drained n) (joinSlot n) fun _ => Drained (n + 1) := by
  refine .bind (Q := fun used _ s => if used then ∃ k, Named n k s else Drained (n + 1) s)
    (look_spec (e := .readUsed n) (Drained.stable n) (fun _ _ => rfl) (fun _ => trivial)
      (fun _ _ h => h.live) ?_) fun used => ?_
  · intro s o hs h _
    show if (s.conns n).used then _ else _
    by_cases hused : (s.conns n).used = true
    · rw [if_pos hused]
      -- the slot has been filled completely, since the accepting thread has ended
      obtain ⟨hpending, hnaming, -⟩ := hs.acceptor_ended h.ended
      obtain ⟨k, hk⟩ := (hs.used n hused).resolve_left (by simp [hpending])
      refine ⟨k, h, (hs.tid k n hk).resolve_right (by simp [hnaming]), fun j hj => ?_⟩
      exact hs.exclusive j k n hj hk
    · rw [if_neg hused]
      exact h.succ (hs.free (by simpa using hused)).1.2
  cases used with
  | false => exact .pure fun _ _ h => by simpa using h
  | true =>
    simp only [if_true]
    refine .of_exists fun k => .bind (Q := fun r _ s => r = some k ∧ Named n k s)
      (look_spec (Named.stable n k) (fun _ _ => rfl) (fun _ => trivial) (fun _ _ h => h.1.live)
        fun _ _ _ h _ => ⟨h.2.1, h⟩) fun r => .of_fact (fun _ _ h => h.1) ?_
    rintro rfl
    refine (look_spec (e := .join (.conn k)) (Named.stable n k) (fun _ _ => rfl) (fun _ => trivial)
      (fun _ _ h => h.1.live) ?_).conseq (fun _ _ h => h.2) fun _ _ _ h => h
    rintro s o hs ⟨h, -, honly⟩ hended
    refine h.succ fun j hj => ?_
    obtain rfl := honly j hj
    exact Option.some_ne_none n (hj.symm.trans (hs.conn_ended j hended).2)

/-- When nobody serves a slot any more, there are no handles and no descriptors. -/
theorem Inv.quiet {s : Table} (hs : Inv s) (hended : s.ended .acceptor = true)
    (hserving : ∀ k, s.serving k = none) : (∀ i, (s.conns i).conn = false) ∧ ∀ fd, s.fds fd = none := by
  refine ⟨fun i => ?_, fun fd => ?_⟩
  · by_contra hc
    obtain ⟨k, hk⟩ := hs.conn i (by simpa using hc)
    exact Option.some_ne_none i (hk.symm.trans (hserving k))
  · by_contra hne
    obtain ⟨t, ht⟩ := Option.ne_none_iff_exists'.1 hne
    obtain rfl | ⟨k, i, -, hk, -⟩ := hs.owner fd t ht
    · exact (hs.acceptor_ended hended).2.2 fd ht
    · exact Option.some_ne_none i (hk.symm.trans (hserving k))

theorem runServer_spec : Does .main Live runServer fun _ _ => True := by
  refine .bind (Q := fun _ _ => Live) (look_spec Live.stable (fun _ _ => rfl) (fun _ => trivial)
    (fun _ _ h => h) fun _ _ _ h _ => h) fun _ => ?_
  refine .bind (Q := fun _ _ => Live) (act_spec Live.stable ?_) fun _ => ?_
  · rintro s o hs h -
    refine ⟨⟨⟨hs.1, hs.2, hs.3, hs.4, hs.5, hs.6, hs.7, hs.8, hs.9, hs.10, hs.11⟩, fun t' _ => ?_⟩,
      ⟨fun _ => h, trivial⟩, h⟩
    have := Rely.refl hs t'
    cases t' <;> exact this
  refine .bind (Q := fun _ _ => Drained 0) (look_spec Live.stable (fun _ _ => rfl) (fun _ => trivial)
    (fun _ _ h => h) fun _ _ _ h hended => ⟨h, hended, fun _ _ hi => absurd hi (Nat.not_lt_zero _)⟩)
    fun _ => ?_
  refine .bind (Q := fun _ _ => Drained maxClientCnt) ((Spec.each (fun n _ _ => Drained n)
    (fun n _ _ _ => joinSlot_spec n) ()).conseq (fun _ _ h => h) fun _ _ _ h => by simpa using h)
    fun _ => ?_
  refine .bind (Q := fun _ _ => Drained maxClientCnt) (look_spec (Drained.stable _) (fun _ _ => rfl)
    (fun _ => trivial) (fun _ _ h => h.live) fun _ _ _ h _ => h) fun _ =>
    act_spec (Drained.stable _) ?_
  rintro s o hs h -
  have hserving : ∀ k, s.serving k = none := by
    intro k
    by_contra hne
    obtain ⟨i, hi⟩ := Option.ne_none_iff_exists'.1 hne
    exact h.serving k i (hs.served k i hi).1 hi
  exact ⟨destroyContext_keeps hs h.ended hserving,
    ⟨fun _ => h.live, hserving, hs.quiet h.ended hserving⟩, trivial⟩

end Main

/-! ### All interleavings -/

theorem Inv.initial : Inv .initial := by
  constructor <;> simp [Table.initial, Slot.zero]

theorem start_abiding : start.Good (discipline.safe server) fun _ _ _ => True where
  inv := .initial
  holds t := by
    cases t with
    | main => exact runServer_spec.holds () ⟨_, 0, .initial⟩ rfl
    | acceptor =>
      refine serverSockThreadMain_spec.holds () ⟨_, 0, .initial⟩ ⟨rfl, rfl, rfl, fun fd => ?_⟩
      simp [Table.initial]
    | conn k =>
      refine (serverConnMain_spec k).holds () ⟨_, 0, .initial⟩ fun i hi => ?_
      simp [Table.initial] at hi

theorem reachable_abiding {c : Conf Thread Unit Table Act (Unit × Unit)} (hc : Reachable server start c) :
    c.Good (discipline.safe server) fun _ _ _ => True :=
  start_abiding.reachable (fun _ _ _ _ _ _ _ _ => trivial) (fun e => e.elim) hc

/-- **Slots are exclusive.** However the threads interleave, no slot is served by two threads at a time,
and so there are never more than `MAX_CLIENT_CNT` connections being served. -/
theorem slots_exclusive (c : Conf Thread Unit Table Act (Unit × Unit)) (hc : Reachable server start c) :
    (∀ j k i, c.state.serving j = some i → c.state.serving k = some i → j = k) ∧
      ((Finset.range c.state.threads).filter fun k => c.state.serving k ≠ none).card ≤ maxClientCnt := by
  have hinv : Inv c.state := (reachable_abiding hc).inv
  refine ⟨hinv.exclusive, ?_⟩
  rw [← Finset.card_range maxClientCnt]
  refine Finset.card_le_card_of_injOn (fun k => (c.state.serving k).getD 0) ?_ ?_
  · intro k hk
    obtain ⟨i, hi⟩ := Option.ne_none_iff_exists'.1 (Finset.mem_filter.1 hk).2
    simpa [hi] using (hinv.served k i hi).1
  · intro j hj k hk heq
    obtain ⟨i, hi⟩ := Option.ne_none_iff_exists'.1 (Finset.mem_filter.1 hj).2
    obtain ⟨i', hi'⟩ := Option.ne_none_iff_exists'.1 (Finset.mem_filter.1 hk).2
    simp only [hi, hi', Option.getD_some] at heq
    subst heq
    exact hinv.exclusive j k i hi hi'

/-- A client connects. -/
def admission : List (Move Thread Oracle Empty) :=
  [Oracle.no, .no, .fd 5, .no, .no, .no, .no, .yes, .no].map (.thread .acceptor)

/-- Then the handshake fails, and the thread of the connection is about to close the descriptor. -/
def closing : Conf Thread Unit Table Act (Unit × Unit) :=
  start.plays server (admission ++ List.replicate 5 (.thread (.conn 0) .no))

theorem closing_reachable : Reachable server start closing ∧ closing.state.serving 0 = some 0 :=
  Reachable.of_replay (d := closing) rfl (fun d => d.state.serving 0 = some 0) (by decide)

theorem slots_exclusive_closing :
    closing.state.serving 0 = some 0 ∧ ∀ j k i, closing.state.serving j = some i →
      closing.state.serving k = some i → j = k :=
  ⟨closing_reachable.2, (slots_exclusive closing closing_reachable.1).1⟩

/-- **No use after free.** Whatever a thread does next, other than ending, the context is still there;
and once it has been destroyed, no slot is served, no connection has handles and no descriptor is
open. -/
theorem context_outlives_threads (c : Conf Thread Unit Table Act (Unit × Unit))
    (hc : Reachable server start c) :
    (∀ (t : Thread) (β : Type) (e : Act β) (k : β → Prog Unit Act (Unit × Unit)) (o : Oracle),
      c.prog t = .act () e k → e.Allowed t c.state o → ¬ e.Final → c.state.destroyed = false) ∧
      (c.state.destroyed = true → (∀ k, c.state.serving k = none) ∧
        (∀ i, (c.state.conns i).conn = false) ∧ ∀ fd, c.state.fds fd = none) := by
  have habide := reachable_abiding hc
  have hinv : Inv c.state := habide.inv
  refine ⟨fun t β e k o hnext ho => (habide.promise hnext ho).1, fun hd => ?_⟩
  have hserving : ∀ k, c.state.serving k = none := by
    intro k
    by_contra hne
    obtain ⟨i, hi⟩ := Option.ne_none_iff_exists'.1 hne
    exact Bool.false_ne_true ((hinv.served k i hi).2.2.2.1.symm.trans hd)
  exact ⟨hserving, hinv.quiet (hinv.destroyed hd) hserving⟩

theorem context_outlives_threads_closing : closing.state.destroyed = false :=
  (context_outlives_threads closing closing_reachable.1).1 (.conn 0) Unit (.close 5) _ .no rfl trivial id

/-- **Steps are proper.** A thread only closes a descriptor that is open and its own, so none is closed
twice; a slot is wiped or given to a new thread only when nobody serves it and it has no handles, and it
has none when the handshake is about to put some there. -/
theorem steps_proper (c : Conf Thread Unit Table Act (Unit × Unit)) (hc : Reachable server start c)
    (t : Thread) (β : Type) (e : Act β) (k : β → Prog Unit Act (Unit × Unit))
    (hnext : c.prog t = .act () e k) (o : Oracle) (ho : e.Allowed t c.state o) : e.Proper t c.state :=
  ((reachable_abiding hc).promise hnext ho).2

theorem steps_proper_closing : closing.state.fds 5 = some (.conn 0) :=
  steps_proper closing closing_reachable.1 (.conn 0) Unit (.close 5) _ rfl .no trivial

end KvBench.Server
