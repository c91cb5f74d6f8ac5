import KvBench.Conc.Logic
import KvBench.Server.Table

/-!
# The table of connections is safe
-/

namespace KvBench.Server

open KvBench.Conc

/-! ### The discipline -/

/-- How the slots, the threads that serve them and the descriptors belong together. -/
structure Inv (s : Table) : Prop where
  /-- A slot that is served is in use, and the context is there. -/
  served : ∀ k i, s.serving k = some i → i < maxClientCnt ∧ (s.conns i).used = true ∧
    k < s.threads ∧ s.destroyed = false ∧ s.pending ≠ some i
  /-- No slot is served twice. -/
  exclusive : ∀ j k i, s.serving j = some i → s.serving k = some i → j = k
  /-- A slot is in use because somebody serves it, or is about to. -/
  used : ∀ i, (s.conns i).used = true → s.pending = some i ∨ ∃ k, s.serving k = some i
  conn : ∀ i, (s.conns i).conn = true → ∃ k, s.serving k = some i
  tid : ∀ k i, s.serving k = some i → (s.conns i).tid = some k ∨ s.naming = some (i, k)
  pending_lt : ∀ i, s.pending = some i → i < maxClientCnt ∧ (s.conns i).used = true
  acceptor_ended : s.ended .acceptor = true → s.pending = none ∧ s.naming = none ∧
    ∀ fd, s.fds fd ≠ some .acceptor
  conn_ended : ∀ k, s.ended (.conn k) = true → k < s.threads ∧ s.serving k = none
  naming : ∀ i k, s.naming = some (i, k) → k < s.threads ∧ ∀ j, s.serving j = some i → j = k
  destroyed : s.destroyed = true → s.ended .acceptor = true
  /-- A descriptor belongs to the accepting thread or to one that serves the slot it is in. -/
  owner : ∀ fd t, s.fds fd = some t → t = .acceptor ∨
    ∃ k i, t = .conn k ∧ s.serving k = some i ∧ (s.conns i).fd = fd

/-- What a thread sees of the others. -/
def Rely : Thread → Table → Table → Prop
  | .main, s, s' =>
    s'.destroyed = s.destroyed ∧
      (s.ended .acceptor = true → s'.ended .acceptor = true ∧
        (∀ k i, s'.serving k = some i → s.serving k = some i) ∧
        ∀ i, (s'.conns i).tid = (s.conns i).tid)
  | .acceptor, s, s' =>
    s'.pending = s.pending ∧ s'.naming = s.naming ∧ s'.threads = s.threads ∧
      s'.ended .acceptor = s.ended .acceptor ∧
      (∀ i, (s.conns i).used = false → s'.conns i = s.conns i) ∧
      (∀ i, s.pending = some i → s'.conns i = s.conns i) ∧
      ∀ fd, s'.fds fd = some .acceptor ↔ s.fds fd = some .acceptor
  | .conn k, s, s' =>
    s.threads ≤ s'.threads ∧ (k < s.threads → s'.serving k = s.serving k) ∧
      (∀ i, s.serving k = some i → (s'.conns i).used = (s.conns i).used ∧
        (s'.conns i).fd = (s.conns i).fd ∧ (s'.conns i).conn = (s.conns i).conn) ∧
      (k < s.threads → ∀ fd, s'.fds fd = some (.conn k) ↔ s.fds fd = some (.conn k)) ∧
      -- a thread is created with its descriptor, and before there are any handles
      (s.threads ≤ k → ∀ i, s'.serving k = some i →
        s'.fds (s'.conns i).fd = some (.conn k) ∧ (s'.conns i).conn = false)

theorem Rely.refl {s : Table} (hs : Inv s) (t : Thread) : Rely t s s := by
  cases t with
  | main => exact ⟨rfl, fun h => ⟨h, fun _ _ h => h, fun _ => rfl⟩⟩
  | acceptor => exact ⟨rfl, rfl, rfl, rfl, fun _ _ => rfl, fun _ _ => rfl, fun _ => Iff.rfl⟩
  | conn k =>
    refine ⟨le_rfl, fun _ => rfl, fun _ _ => ⟨rfl, rfl, rfl⟩, fun _ _ => Iff.rfl, fun hk i hi => ?_⟩
    exact absurd (hs.served k i hi).2.2.1 (not_lt.2 hk)

/-- Nobody serves the slot, and it holds no handles. -/
def Table.Vacant (s : Table) (i : ℕ) : Prop := (s.conns i).conn = false ∧ ∀ k, s.serving k ≠ some i

/-- What must hold when a step is made. -/
def Act.Proper {β : Type} (t : Thread) : Act β → Table → Prop
  | .memset i, s => s.Vacant i
  | .create i, s => s.Vacant i
  | .exchange i _, s => (s.conns i).conn = false
  | .close fd, s => s.fds fd = some t
  | .destroyContext, s =>
    (∀ k, s.serving k = none) ∧ (∀ i, (s.conns i).conn = false) ∧ ∀ fd, s.fds fd = none
  | _, _ => True

/-- The steps after which a thread has to do with the context. -/
def Act.Final {β : Type} : Act β → Prop
  | .exit => True
  | _ => False

/-- The discipline of the server. -/
def discipline : Discipline Thread Unit Table Act where
  inv := Inv
  rely := Rely
  promise t _ e s _ := (¬ e.Final → s.destroyed = false) ∧ e.Proper t s

section Steps

variable {s : Table} {k i fd : ℕ}

/-- A step keeps the invariant and what the others rely on. -/
def Keeps (t : Thread) (s s' : Table) : Prop := Inv s' ∧ ∀ t', t' ≠ t → Rely t' s s'

theorem keeps_refl (t : Thread) (hs : Inv s) : Keeps t s s := ⟨hs, fun t' _ => .refl hs t'⟩

theorem accept_keeps (hs : Inv s) (hfd : s.fds fd = none) (hacc : s.ended .acceptor = false) :
    Keeps .acceptor s { s with fds := Function.update s.fds fd (some .acceptor) } := by
  obtain ⟨h1, h2, h3, h4, h5, h6, h7, h8, h9, h10, h11⟩ := hs
  refine ⟨⟨h1, h2, h3, h4, h5, h6, ?_, h8, h9, h10, ?_⟩, ?_⟩
  · exact fun h => absurd h (by simp [hacc])
  · grind -ring -linarith [Function.update_apply]
  · rintro (_ | _ | k) ht'
    · exact ⟨rfl, fun h => absurd h (by simp [hacc])⟩
    · exact absurd rfl ht'
    · grind -ring -linarith [Rely, Function.update_apply]

/-- The handles of a slot belong to the thread that serves it. -/
theorem Inv.vacant (hs : Inv s) (hserving : ∀ k, s.serving k ≠ some i) : s.Vacant i := by
  refine ⟨?_, hserving⟩
  by_contra hc
  obtain ⟨k, hk⟩ := hs.conn i (by simpa using hc)
  exact hserving k hk

/-- A slot that is not used is neither served nor being filled. -/
theorem Inv.free (hs : Inv s) (hfree : (s.conns i).used = false) :
    s.Vacant i ∧ s.pending ≠ some i := by
  refine ⟨hs.vacant fun k hk => ?_, fun hp => ?_⟩
  · exact Bool.false_ne_true (hfree.symm.trans (hs.served k i hk).2.1)
  · exact Bool.false_ne_true (hfree.symm.trans (hs.pending_lt i hp).2)

theorem memset_keeps (hs : Inv s) (hfree : (s.conns i).used = false) (hacc : s.ended .acceptor = false) :
    Keeps .acceptor s (s.update i fun _ => .zero) := by
  obtain ⟨⟨-, hserving⟩, hpending⟩ := hs.free hfree
  obtain ⟨h1, h2, h3, h4, h5, h6, h7, h8, h9, h10, h11⟩ := hs
  unfold Table.update
  refine ⟨⟨?_, h2, ?_, ?_, ?_, ?_, h7, h8, h9, h10, ?_⟩, ?_⟩
  · grind -ring -linarith [Function.update_apply]
  · grind -ring -linarith [Function.update_apply, Slot.zero]
  · grind -ring -linarith [Function.update_apply, Slot.zero]
  · grind -ring -linarith [Function.update_apply]
  · grind -ring -linarith [Function.update_apply]
  · grind -ring -linarith [Function.update_apply]
  · rintro (_ | _ | k) ht'
    · exact ⟨rfl, fun h => absurd h (by simp [hacc])⟩
    · exact absurd rfl ht'
    · grind -ring -linarith [Rely, Function.update_apply]

theorem setUsed_keeps (hs : Inv s) (hfree : (s.conns i).used = false) (hi : i < maxClientCnt)
    (hpending : s.pending = none) (hacc : s.ended .acceptor = false) :
    Keeps .acceptor s { s.update i ({ · with used := true }) with pending := some i } := by
  obtain ⟨⟨-, hserving⟩, -⟩ := hs.free hfree
  obtain ⟨h1, h2, h3, h4, h5, h6, h7, h8, h9, h10, h11⟩ := hs
  unfold Table.update
  refine ⟨⟨?_, h2, ?_, ?_, ?_, ?_, ?_, h8, h9, h10, ?_⟩, ?_⟩
  · grind -ring -linarith [Function.update_apply]
  · grind -ring -linarith [Function.update_apply]
  · grind -ring -linarith [Function.update_apply]
  · grind -ring -linarith [Function.update_apply]
  · grind -ring -linarith [Function.update_apply]
  · exact fun h => absurd h (by simp [hacc])
  · grind -ring -linarith [Function.update_apply]
  · rintro (_ | _ | k) ht'
    · exact ⟨rfl, fun h => absurd h (by simp [hacc])⟩
    · exact absurd rfl ht'
    · grind -ring -linarith [Rely, Function.update_apply]

theorem setFd_keeps (hs : Inv s) (hpending : s.pending = some i) (hacc : s.ended .acceptor = false) :
    Keeps .acceptor s (s.update i ({ · with fd := fd })) := by
  obtain ⟨h1, h2, h3, h4, h5, h6, h7, h8, h9, h10, h11⟩ := hs
  unfold Table.update
  refine ⟨⟨?_, h2, ?_, ?_, ?_, ?_, h7, h8, h9, h10, ?_⟩, ?_⟩
  · grind -ring -linarith [Function.update_apply]
  · grind -ring -linarith [Function.update_apply]
  · grind -ring -linarith [Function.update_apply]
  · grind -ring -linarith [Function.update_apply]
  · grind -ring -linarith [Function.update_apply]
  · grind -ring -linarith [Function.update_apply]
  · rintro (_ | _ | k) ht'
    · exact ⟨rfl, fun h => absurd h (by simp [hacc])⟩
    · exact absurd rfl ht'
    · grind -ring -linarith [Rely, Function.update_apply]

theorem create_keeps (hs : Inv s) (hpending : s.pending = some i) (hnaming : s.naming = none)
    (hfd : s.fds (s.conns i).fd = some .acceptor) (hacc : s.ended .acceptor = false) :
    Keeps .acceptor s
      { s with
        threads := s.threads + 1
        serving := Function.update s.serving s.threads (some i)
        fds := Function.update s.fds (s.conns i).fd (some (.conn s.threads))
        pending := none
        naming := some (i, s.threads) } := by
  have hnone : ∀ k, s.serving k ≠ some i := fun k hk => (hs.served k i hk).2.2.2.2 hpending
  -- whoever serves a slot goes on to serve it
  have hkeep : ∀ k j, s.serving k = some j →
      Function.update s.serving s.threads (some i) k = some j := by
    intro k j hk
    rw [Function.update_of_ne (hs.served k j hk).2.2.1.ne]
    exact hk
  obtain ⟨h1, h2, h3, h4, h5, h6, h7, h8, h9, h10, h11⟩ := hs
  refine ⟨⟨?_, ?_, ?_, ?_, ?_, ?_, ?_, ?_, ?_, h10, ?_⟩, ?_⟩
  · grind -ring -linarith [Function.update_apply]
  · grind -ring -linarith [Function.update_apply]
  · intro j hj
    rcases h3 j hj with hp | ⟨k, hk⟩
    · obtain rfl : i = j := Option.some.inj (hpending.symm.trans hp)
      exact .inr ⟨s.threads, Function.update_self _ _ _⟩
    · exact .inr ⟨k, hkeep k j hk⟩
  · intro j hj
    obtain ⟨k, hk⟩ := h4 j hj
    exact ⟨k, hkeep k j hk⟩
  · grind -ring -linarith [Function.update_apply]
  · exact fun j hj => absurd hj (Option.some_ne_none j).symm
  · exact fun h => absurd h (by simp [hacc])
  · grind -ring -linarith [Function.update_apply]
  · grind -ring -linarith [Function.update_apply]
  · intro fd t ht
    by_cases hfd : fd = (s.conns i).fd
    · subst hfd
      obtain rfl : Thread.conn s.threads = t := by simpa using ht
      exact .inr ⟨s.threads, i, rfl, Function.update_self _ _ _, rfl⟩
    · obtain h | ⟨k, j, rfl, hk, hj⟩ := h11 fd t (by simpa [Function.update_of_ne hfd] using ht)
      · exact .inl h
      · exact .inr ⟨k, j, rfl, hkeep k j hk, hj⟩
  · rintro (_ | _ | k) ht'
    · exact ⟨rfl, fun h => absurd h (by simp [hacc])⟩
    · exact absurd rfl ht'
    · grind -ring -linarith [Rely, Function.update_apply]

theorem setTid_keeps (hs : Inv s) (hnaming : s.naming = some (i, k)) (hacc : s.ended .acceptor = false) :
    Keeps .acceptor s { s.update i ({ · with tid := some k }) with naming := none } := by
  obtain ⟨h1, h2, h3, h4, h5, h6, h7, h8, h9, h10, h11⟩ := hs
  unfold Table.update
  refine ⟨⟨?_, h2, ?_, ?_, ?_, ?_, ?_, h8, ?_, h10, ?_⟩, ?_⟩
  · grind -ring -linarith [Function.update_apply]
  · grind -ring -linarith [Function.update_apply]
  · grind -ring -linarith [Function.update_apply]
  · grind -ring -linarith [Function.update_apply]
  · grind -ring -linarith [Function.update_apply]
  · exact fun h => absurd h (by simp [hacc])
  · grind -ring -linarith
  · grind -ring -linarith [Function.update_apply]
  · rintro (_ | _ | k) ht'
    · exact ⟨rfl, fun h => absurd h (by simp [hacc])⟩
    · exact absurd rfl ht'
    · grind -ring -linarith [Rely, Function.update_apply]

theorem clearUsed_keeps (hs : Inv s) (hpending : s.pending = some i) (hacc : s.ended .acceptor = false) :
    Keeps .acceptor s { s.update i ({ · with used := false }) with pending := none } := by
  obtain ⟨h1, h2, h3, h4, h5, h6, h7, h8, h9, h10, h11⟩ := hs
  unfold Table.update
  refine ⟨⟨?_, h2, ?_, ?_, ?_, ?_, ?_, h8, h9, h10, ?_⟩, ?_⟩
  · grind -ring -linarith [Function.update_apply]
  · grind -ring -linarith [Function.update_apply]
  · grind -ring -linarith [Function.update_apply]
  · grind -ring -linarith [Function.update_apply]
  · grind -ring -linarith
  · exact fun h => absurd h (by simp [hacc])
  · grind -ring -linarith [Function.update_apply]
  · rintro (_ | _ | k) ht'
    · exact ⟨rfl, fun h => absurd h (by simp [hacc])⟩
    · exact absurd rfl ht'
    · grind -ring -linarith [Rely, Function.update_apply]

theorem close_keeps {t : Thread} (hs : Inv s) (hfd : s.fds fd = some t) :
    Keeps t s { s with fds := Function.update s.fds fd none } := by
  obtain ⟨h1, h2, h3, h4, h5, h6, h7, h8, h9, h10, h11⟩ := hs
  refine ⟨⟨h1, h2, h3, h4, h5, h6, ?_, h8, h9, h10, ?_⟩, ?_⟩
  · grind -ring -linarith [Function.update_apply]
  · grind -ring -linarith [Function.update_apply]
  · rintro (_ | _ | k) ht'
    · exact ⟨rfl, fun h => ⟨h, fun _ _ h => h, fun _ => rfl⟩⟩
    · grind -ring -linarith [Rely, Function.update_apply]
    · grind -ring -linarith [Rely, Function.update_apply]

theorem exit_acceptor_keeps (hs : Inv s) (hpending : s.pending = none) (hnaming : s.naming = none)
    (hfds : ∀ fd, s.fds fd ≠ some .acceptor) :
    Keeps .acceptor s { s with ended := Function.update s.ended .acceptor true } := by
  have hrefl := Rely.refl hs
  obtain ⟨h1, h2, h3, h4, h5, h6, h7, h8, h9, h10, h11⟩ := hs
  refine ⟨⟨h1, h2, h3, h4, h5, h6, fun _ => ⟨hpending, hnaming, hfds⟩, ?_, h9, ?_, h11⟩, ?_⟩
  · grind -ring -linarith [Function.update_apply]
  · exact fun _ => by simp
  · rintro (_ | _ | k) ht'
    · exact ⟨rfl, fun _ => ⟨by simp, fun _ _ h => h, fun _ => rfl⟩⟩
    · exact absurd rfl ht'
    · exact hrefl (.conn k)

/-- The thread of a connection changes whether the slot it serves has handles. -/
theorem setConn_keeps (hs : Inv s) (hserving : s.serving k = some i) (c : Bool) :
    Keeps (.conn k) s (s.update i ({ · with conn := c })) := by
  obtain ⟨h1, h2, h3, h4, h5, h6, h7, h8, h9, h10, h11⟩ := hs
  unfold Table.update
  refine ⟨⟨?_, h2, ?_, ?_, ?_, ?_, h7, h8, h9, h10, ?_⟩, ?_⟩
  · grind -ring -linarith [Function.update_apply]
  · grind -ring -linarith [Function.update_apply]
  · grind -ring -linarith [Function.update_apply]
  · grind -ring -linarith [Function.update_apply]
  · grind -ring -linarith [Function.update_apply]
  · grind -ring -linarith [Function.update_apply]
  · rintro (_ | _ | j) ht'
    · grind -ring -linarith [Rely, Function.update_apply]
    · grind -ring -linarith [Rely, Function.update_apply]
    · grind -ring -linarith [Rely, Function.update_apply]

theorem leave_keeps (hs : Inv s) (hserving : s.serving k = some i) (hconn : (s.conns i).conn = false)
    (hfds : ∀ fd, s.fds fd ≠ some (.conn k)) :
    Keeps (.conn k) s
      { s.update i ({ · with used := false }) with serving := Function.update s.serving k none } := by
  -- whoever serves another slot goes on to serve it
  have hkeep : ∀ j x, x ≠ i → s.serving j = some x → Function.update s.serving k none j = some x := by
    intro j x hx hj
    rw [Function.update_of_ne]
    · exact hj
    · rintro rfl
      exact hx (Option.some.inj (hj.symm.trans hserving))
  obtain ⟨h1, h2, h3, h4, h5, h6, h7, h8, h9, h10, h11⟩ := hs
  unfold Table.update
  refine ⟨⟨?_, ?_, ?_, ?_, ?_, ?_, h7, ?_, ?_, h10, ?_⟩, ?_⟩
  · grind -ring -linarith [Function.update_apply]
  · grind -ring -linarith [Function.update_apply]
  · intro x hx
    by_cases hxi : x = i
    · subst hxi
      simp at hx
    · refine (h3 x (by simpa [Function.update_of_ne hxi] using hx)).imp_right ?_
      exact fun ⟨j, hj⟩ => ⟨j, hkeep j x hxi hj⟩
  · intro x hx
    by_cases hxi : x = i
    · subst hxi
      simp [hconn] at hx
    · obtain ⟨j, hj⟩ := h4 x (by simpa [Function.update_of_ne hxi] using hx)
      exact ⟨j, hkeep j x hxi hj⟩
  · grind -ring -linarith [Function.update_apply]
  · grind -ring -linarith [Function.update_apply]
  · grind -ring -linarith [Function.update_apply]
  · grind -ring -linarith [Function.update_apply]
  · intro fd t ht
    obtain h | ⟨j, x, rfl, hj, hx⟩ := h11 fd t ht
    · exact .inl h
    · have hne : x ≠ i := by
        rintro rfl
        exact hfds fd (h2 j k x hj hserving ▸ ht)
      exact .inr ⟨j, x, rfl, hkeep j x hne hj, by simpa [Function.update_of_ne hne] using hx⟩
  · rintro (_ | _ | j) ht'
    · grind -ring -linarith [Rely, Function.update_apply]
    · grind -ring -linarith [Rely, Function.update_apply]
    · grind -ring -linarith [Rely, Function.update_apply]

theorem exit_conn_keeps (hs : Inv s) (hk : k < s.threads) (hserving : s.serving k = none) :
    Keeps (.conn k) s { s with ended := Function.update s.ended (.conn k) true } := by
  have hrefl := Rely.refl hs
  obtain ⟨h1, h2, h3, h4, h5, h6, h7, h8, h9, h10, h11⟩ := hs
  refine ⟨⟨h1, h2, h3, h4, h5, h6, ?_, ?_, h9, ?_, h11⟩, ?_⟩
  · grind -ring -linarith [Function.update_apply]
  · grind -ring -linarith [Function.update_apply]
  · grind -ring -linarith [Function.update_apply]
  · rintro (_ | _ | j) ht'
    · grind -ring -linarith [Rely, Function.update_apply]
    · grind -ring -linarith [Rely, Function.update_apply]
    · exact hrefl (.conn j)

theorem destroyContext_keeps (hs : Inv s) (hacc : s.ended .acceptor = true)
    (hserving : ∀ k, s.serving k = none) : Keeps .main s { s with destroyed := true } := by
  have hrefl := Rely.refl hs
  obtain ⟨h1, h2, h3, h4, h5, h6, h7, h8, h9, h10, h11⟩ := hs
  refine ⟨⟨?_, h2, h3, h4, h5, h6, h7, h8, h9, fun _ => hacc, h11⟩, ?_⟩
  · grind -ring -linarith
  · rintro (_ | _ | k) ht'
    · exact absurd rfl ht'
    · exact hrefl .acceptor
    · exact hrefl (.conn k)

end Steps

end KvBench.Server
