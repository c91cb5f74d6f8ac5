import KvBench.Bench.Requests
import KvBench.Hist.Record

/-!
# The books of a pipeline

What the memory of a worker satisfies between two requests: the active and the free slots are all
slots (`Slots`), and the counters and histograms account for the requests that are finished and for
the harvested work requests of those that are not (`Ledger`). The lemmas say what keeps the books:
a work request is harvested, a request is finished, a request is posted.
-/

namespace KvBench.Bench

open KvBench.Conc KvBench.Hist Worker

/-! ### Lists of slots -/

open scoped List in
/-- Removal by swapping with the last element takes out exactly one element. -/
theorem swapRemove_perm {l : List ℕ} {pos idx : ℕ} (h : l[pos]? = some idx) :
    l.Perm (idx :: swapRemove l pos) := by
  obtain ⟨hlt, rfl⟩ := List.getElem?_eq_some_iff.1 h
  have hne : l ≠ [] := List.ne_nil_of_length_pos (by omega)
  obtain ⟨init, z, rfl⟩ : ∃ init z, l = init ++ [z] :=
    ⟨l.dropLast, l.getLast hne, (List.dropLast_append_getLast hne).symm⟩
  have hswap : swapRemove (init ++ [z]) pos = ((init ++ [z]).set pos z).dropLast := by
    simp [swapRemove, List.getLastD_eq_getLast?]
  rw [hswap]
  have hlast : (init ++ [z]).Perm (z :: init) := List.perm_append_comm
  by_cases hpos : pos < init.length
  · rw [List.set_append_left _ _ hpos, List.dropLast_concat, List.getElem_append_left hpos]
    calc init ++ [z] ~ z :: init := hlast
      _ ~ z :: init[pos] :: init.eraseIdx pos := (List.getElem_cons_eraseIdx_perm hpos).symm.cons z
      _ ~ init[pos] :: z :: init.eraseIdx pos := .swap ..
      _ ~ init[pos] :: init.set pos z := (List.set_perm_cons_eraseIdx hpos z).symm.cons _
  · have hend : pos = init.length := by simp at hlt; omega
    subst hend
    simp

theorem sum_map_of_perm {l l' : List ℕ} {idx : ℕ} (h : l.Perm (idx :: l')) (f : ℕ → ℕ) :
    (l.map f).sum = f idx + (l'.map f).sum := by
  rw [(h.map f).sum_eq, List.map_cons, List.sum_cons]

/-! ### Samples -/

/-- The histogram `h` after `k` further samples is `h'`. -/
def Grown (h h' : KvHist) (k : ℕ) : Prop := ∃ xs : List ℕ, xs.length = k ∧ h' = recordAll h xs

theorem Grown.refl (h : KvHist) : Grown h h 0 := ⟨[], rfl, rfl⟩

theorem Grown.trans {h h' h'' : KvHist} {k k' : ℕ} (h1 : Grown h h' k) (h2 : Grown h' h'' k') :
    Grown h h'' (k + k') := by
  obtain ⟨xs, rfl, rfl⟩ := h1
  obtain ⟨ys, rfl, rfl⟩ := h2
  exact ⟨xs ++ ys, List.length_append, (List.foldl_append ..).symm⟩

theorem Grown.one (h : KvHist) (v : ℕ) : Grown h (kvHistRecord h v) 1 := ⟨[v], rfl, rfl⟩

/-- Where every value has a counter, no sample is dropped. -/
theorem Grown.totalCount {h h' : KvHist} {k p : ℕ} (hg : Grown h h' k) (hl : Covering h.toKvLayout p)
    (ht : h.totalCount < 2 ^ 64) : h'.totalCount = (h.totalCount + k) % 2 ^ 64 := by
  obtain ⟨xs, rfl, rfl⟩ := hg
  exact recordAll_totalCount hl ht xs

/-! ### Slots -/

/-- The work requests of a slot that have been harvested. -/
def harvested (s : WrSlot) : ℕ := ((Finset.range kvWrPerReq).filter fun wr => s.done wr = true).card

/-- The slots of a worker with the number `w` and `c` slots, between two requests; it has met no fault
so far. -/
structure Slots (c w : ℕ) (m : Worker) : Prop where
  id : m.id = w
  perm : (m.activeSlots ++ m.freeSlots).Perm (List.range c)
  empty : ∀ idx, idx ∉ m.activeSlots → ∀ send, (m.wrSlots idx).jetty send = none
  beyond : ∀ idx send, kvSendsPerReq ≤ send → (m.wrSlots idx).jetty send = none
  count : ∀ idx ∈ m.activeSlots, (m.wrSlots idx).doneCnt = harvested (m.wrSlots idx)
  faults : m.faults = []

/-- The counters of a worker that started with the memory `base`, with requests of ten times `size`
bytes, of which `fin` are finished. -/
structure Ledger (size : ℕ) (base : Worker) (fin : ℕ) (m : Worker) : Prop where
  ops : m.ops = base.ops + fin
  bytes : m.bytes = base.bytes + fin * (size * kvSendsPerReq)
  errors : m.errors = base.errors
  req : Grown base.histReq m.histReq fin
  wr : Grown base.histWr m.histWr
    (fin * kvWrPerReq + (m.activeSlots.map fun idx => (m.wrSlots idx).doneCnt).sum)

/-- The work requests under way: those of active slots that are not done. -/
def flyOf (m : Worker) : Set (ℕ × ℕ) :=
  {a | a.1 ∈ m.activeSlots ∧ a.2 < kvWrPerReq ∧ (m.wrSlots a.1).done a.2 = false}

section Slots

variable {c w size fin idx wr pos ns : ℕ} {base m m' : Worker}

theorem Slots.nodup (h : Slots c w m) : (m.activeSlots ++ m.freeSlots).Nodup :=
  h.perm.nodup_iff.2 List.nodup_range

theorem Slots.active_nodup (h : Slots c w m) : m.activeSlots.Nodup := h.nodup.of_append_left

theorem Slots.lt (h : Slots c w m) (hidx : idx ∈ m.activeSlots ++ m.freeSlots) : idx < c :=
  List.mem_range.1 (h.perm.mem_iff.1 hidx)

/-- A slot all of whose work requests are harvested. -/
theorem Slots.all_done (h : Slots c w m) (hidx : idx ∈ m.activeSlots)
    (hcnt : kvWrPerReq ≤ (m.wrSlots idx).doneCnt) :
    (m.wrSlots idx).doneCnt = kvWrPerReq ∧ ∀ wr < kvWrPerReq, (m.wrSlots idx).done wr = true := by
  have hle : harvested (m.wrSlots idx) ≤ kvWrPerReq := by
    simpa [harvested] using Finset.card_filter_le (Finset.range kvWrPerReq)
      fun wr => (m.wrSlots idx).done wr = true
  rw [h.count idx hidx] at hcnt ⊢
  have heq := le_antisymm hle hcnt
  refine ⟨heq, ?_⟩
  intro wr hwr
  have hall := Finset.card_filter_eq_iff.1
    (heq.trans (Finset.card_range kvWrPerReq).symm)
  exact hall wr (Finset.mem_range.2 hwr)

/-! ### A work request is harvested -/

/-- The slot after the work request `wr` has been harvested. -/
def WrSlot.markDone (wr : ℕ) (s : WrSlot) : WrSlot :=
  { s with done := Function.update s.done wr true, doneCnt := s.doneCnt + 1 }

theorem harvested_markDone {s : WrSlot} (hwr : wr < kvWrPerReq) (hdone : s.done wr = false) :
    harvested (s.markDone wr) = harvested s + 1 := by
  have hins : ((Finset.range kvWrPerReq).filter fun wr' => Function.update s.done wr true wr' = true)
      = insert wr ((Finset.range kvWrPerReq).filter fun wr' => s.done wr' = true) := by
    ext wr'
    by_cases hw : wr' = wr
    · subst hw
      simp [hwr]
    · simp [hw]
  show Finset.card _ = _
  rw [WrSlot.markDone, hins, Finset.card_insert_of_notMem (by simp [hdone])]
  rfl

theorem wrSlots_markDone_of_ne {idx' : ℕ} (h : idx' ≠ idx) :
    (recordWr ns (markDone idx wr m)).wrSlots idx' = m.wrSlots idx' := by
  show (markDone idx wr m).wrSlots idx' = _
  rw [markDone, wrSlots_setSlot_of_ne _ _ h]

theorem wrSlots_markDone_self :
    (recordWr ns (markDone idx wr m)).wrSlots idx = (m.wrSlots idx).markDone wr := by
  show (markDone idx wr m).wrSlots idx = _
  rw [markDone, wrSlots_setSlot_self]
  rfl

theorem Slots.markDone (h : Slots c w m) (hidx : idx ∈ m.activeSlots) (hwr : wr < kvWrPerReq)
    (hdone : (m.wrSlots idx).done wr = false) (ns : ℕ) :
    Slots c w (recordWr ns (markDone idx wr m)) where
  id := h.id
  perm := h.perm
  empty idx' hidx' send := by
    have hne : idx' ≠ idx := fun heq => hidx' (heq ▸ hidx)
    rw [wrSlots_markDone_of_ne hne]
    exact h.empty idx' hidx' send
  beyond idx' send hsend := by
    by_cases hi : idx' = idx
    · rw [hi, wrSlots_markDone_self]
      exact h.beyond idx send hsend
    · rw [wrSlots_markDone_of_ne hi]
      exact h.beyond idx' send hsend
  count idx' hidx' := by
    by_cases hi : idx' = idx
    · rw [hi, wrSlots_markDone_self, harvested_markDone hwr hdone, ← h.count idx hidx]
      rfl
    · rw [wrSlots_markDone_of_ne hi]
      exact h.count idx' hidx'
  faults := h.faults

theorem Ledger.markDone (h : Ledger size base fin m) (hs : Slots c w m)
    (hidx : idx ∈ m.activeSlots) (wr ns : ℕ) :
    Ledger size base fin (recordWr ns (markDone idx wr m)) where
  ops := h.ops
  bytes := h.bytes
  errors := h.errors
  req := h.req
  wr := by
    have hperm := List.perm_cons_erase hidx
    have hother : ∀ idx' ∈ m.activeSlots.erase idx,
        ((recordWr ns (Worker.markDone idx wr m)).wrSlots idx').doneCnt =
          (m.wrSlots idx').doneCnt := by
      intro idx' hidx'
      rw [wrSlots_markDone_of_ne (hs.active_nodup.mem_erase_iff.1 hidx').1]
    have hsum : (m.activeSlots.map fun idx' =>
        ((recordWr ns (Worker.markDone idx wr m)).wrSlots idx').doneCnt).sum =
        (m.activeSlots.map fun idx' => (m.wrSlots idx').doneCnt).sum + 1 := by
      rw [sum_map_of_perm hperm, sum_map_of_perm hperm, List.map_congr_left hother,
        wrSlots_markDone_self]
      show (m.wrSlots idx).doneCnt + 1 + _ = _
      omega
    show Grown base.histWr (kvHistRecord m.histWr ns) (_ + (m.activeSlots.map fun idx' =>
      ((recordWr ns (Worker.markDone idx wr m)).wrSlots idx').doneCnt).sum)
    rw [hsum, ← Nat.add_assoc]
    exact h.wr.trans (Grown.one _ ns)

theorem flyOf_markDone (idx wr ns : ℕ) (m : Worker) :
    flyOf (recordWr ns (markDone idx wr m)) = flyOf m \ {(idx, wr)} := by
  ext ⟨idx', wr'⟩
  simp only [flyOf, Set.mem_ofPred_eq, Set.mem_sdiff, Set.mem_singleton_iff, Prod.mk.injEq]
  by_cases hi : idx' = idx
  · subst hi
    rw [wrSlots_markDone_self, WrSlot.markDone]
    by_cases hw : wr' = wr
    · simp [hw]
    · simp [hw, recordWr, Worker.markDone, setSlot]
  · rw [wrSlots_markDone_of_ne hi]
    simp [hi, recordWr, Worker.markDone, setSlot]

/-! ### A request leaves -/

/-- The request at the position `pos` of the active slots, in the slot `idx`, is given up or
finished: from `m` to `m'`. -/
structure Retired (idx pos : ℕ) (m m' : Worker) : Prop where
  at_pos : m.activeSlots[pos]? = some idx
  id : m'.id = m.id
  active : m'.activeSlots = swapRemove m.activeSlots pos
  free : m'.freeSlots = idx :: m.freeSlots
  other : ∀ idx', idx' ≠ idx → m'.wrSlots idx' = m.wrSlots idx'
  empty : ∀ send, (m'.wrSlots idx).jetty send = none
  faults : m'.faults = m.faults

theorem Retired.perm (h : Retired idx pos m m') : m.activeSlots.Perm (idx :: m'.activeSlots) :=
  h.active ▸ swapRemove_perm h.at_pos

theorem Retired.mem_iff (h : Retired idx pos m m') (hs : Slots c w m) (idx' : ℕ) :
    idx' ∈ m'.activeSlots ↔ idx' ∈ m.activeSlots ∧ idx' ≠ idx := by
  have hnd : (idx :: m'.activeSlots).Nodup := h.perm.nodup_iff.1 hs.active_nodup
  rw [h.perm.mem_iff, List.mem_cons]
  constructor
  · intro hmem
    refine ⟨.inr hmem, ?_⟩
    rintro rfl
    exact (List.nodup_cons.1 hnd).1 hmem
  · rintro ⟨rfl | hmem, hne⟩
    · exact absurd rfl hne
    · exact hmem

theorem Retired.mem (h : Retired idx pos m m') : idx ∈ m.activeSlots :=
  List.mem_of_getElem? h.at_pos

theorem Retired.length (h : Retired idx pos m m') :
    m.activeSlots.length = m'.activeSlots.length + 1 := h.perm.length_eq

theorem Slots.retire (hs : Slots c w m) (h : Retired idx pos m m') : Slots c w m' where
  id := h.id.trans hs.id
  perm := by
    refine .trans ?_ hs.perm
    rw [h.free]
    exact List.perm_middle.trans ((h.perm.symm).append_right _)
  empty idx' hidx' send := by
    by_cases hi : idx' = idx
    · rw [hi]
      exact h.empty send
    · rw [h.other idx' hi]
      refine hs.empty idx' ?_ send
      intro hmem
      exact hidx' ((h.mem_iff hs idx').2 ⟨hmem, hi⟩)
  beyond idx' send hsend := by
    by_cases hi : idx' = idx
    · rw [hi]
      exact h.empty send
    · rw [h.other idx' hi]
      exact hs.beyond idx' send hsend
  count idx' hidx' := by
    obtain ⟨hmem, hi⟩ := (h.mem_iff hs idx').1 hidx'
    rw [h.other idx' hi]
    exact hs.count idx' hmem
  faults := h.faults.trans hs.faults

/-- A finished request is counted, with the work requests that had not been harvested before. -/
theorem Ledger.retire (hl : Ledger size base fin m) (hs : Slots c w m) (h : Retired idx pos m m')
    {k : ℕ} (hk : k + (m.wrSlots idx).doneCnt = kvWrPerReq) (hops : m'.ops = m.ops + 1)
    (hbytes : m'.bytes = m.bytes + size * kvSendsPerReq) (herrors : m'.errors = m.errors)
    (hreq : Grown m.histReq m'.histReq 1) (hwr : Grown m.histWr m'.histWr k) :
    Ledger size base (fin + 1) m' where
  ops := by rw [hops, hl.ops]; rfl
  bytes := by rw [hbytes, hl.bytes]; ring
  errors := herrors.trans hl.errors
  req := hl.req.trans hreq
  wr := by
    have hother : ∀ idx' ∈ m'.activeSlots, (m'.wrSlots idx').doneCnt = (m.wrSlots idx').doneCnt := by
      intro idx' hidx'
      rw [h.other idx' ((h.mem_iff hs idx').1 hidx').2]
    have hgrown := hl.wr.trans hwr
    rw [sum_map_of_perm h.perm] at hgrown
    rw [List.map_congr_left hother]
    have heq : (fin + 1) * kvWrPerReq + (m'.activeSlots.map fun idx => (m.wrSlots idx).doneCnt).sum =
        fin * kvWrPerReq + ((m.wrSlots idx).doneCnt +
          (m'.activeSlots.map fun idx => (m.wrSlots idx).doneCnt).sum) + k := by
      rw [Nat.succ_mul]
      omega
    rwa [heq]

theorem Retired.flyOf (h : Retired idx pos m m') (hs : Slots c w m) :
    flyOf m' = {a ∈ flyOf m | a.1 ≠ idx} := by
  ext ⟨idx', wr'⟩
  simp only [Bench.flyOf, Set.mem_ofPred_eq, h.mem_iff hs]
  by_cases hi : idx' = idx
  · simp [hi]
  · rw [h.other idx' hi]
    tauto

theorem finished_retired (hs : Slots c w m) (hpos : m.activeSlots[pos]? = some idx) (size ns : ℕ) :
    Retired idx pos m (finished size idx pos ns m) where
  at_pos := hpos
  id := rfl
  active := rfl
  free := rfl
  other idx' hi := by
    show (deactivate idx (clearJettys idx kvSendsPerReq _)).wrSlots idx' = _
    rw [deactivate, wrSlots_setSlot_of_ne _ _ hi, clearJettys, wrSlots_setSlot_of_ne _ _ hi]
  empty send := by
    show ((deactivate idx (clearJettys idx kvSendsPerReq _)).wrSlots idx).jetty send = none
    rw [deactivate, wrSlots_setSlot_self, clearJettys, wrSlots_setSlot_self]
    show (if send < kvSendsPerReq then none else (m.wrSlots idx).jetty send) = none
    split
    · rfl
    · exact hs.beyond idx send (by omega)
  faults := rfl

/-! ### A request is posted -/

/-- The worker `m` has posted a request in the slot `idx`, which is now `s`. -/
def Worker.posted (idx : ℕ) (rest : List ℕ) (s : WrSlot) (rng : ℕ × ℕ) (h : KvHist)
    (m : Worker) : Worker :=
  { posting idx s rng h { m with freeSlots := rest } with activeSlots := m.activeSlots ++ [idx] }

section Post

variable {rest : List ℕ} {s : WrSlot} {rng : ℕ × ℕ} {h : KvHist}

theorem wrSlots_posted_self : (posted idx rest s rng h m).wrSlots idx = s :=
  wrSlots_posting_self idx s rng h { m with freeSlots := rest }

theorem wrSlots_posted_of_ne {idx' : ℕ} (hi : idx' ≠ idx) :
    (posted idx rest s rng h m).wrSlots idx' = m.wrSlots idx' := Function.update_of_ne hi _ _

theorem Slots.head_notMem (hs : Slots c w m) (hfree : m.freeSlots = idx :: rest) :
    idx ∉ m.activeSlots := by
  intro hmem
  have hnd := hs.nodup
  rw [hfree] at hnd
  exact List.disjoint_of_nodup_append hnd hmem List.mem_cons_self

theorem harvested_of_halfPosted (hp : HalfPosted kvWrPerReq s) : harvested s = 0 := by
  refine Finset.card_eq_zero.2 (Finset.filter_eq_empty_iff.2 ?_)
  intro wr hwr hdone
  rw [hp.done wr (Finset.mem_range.1 hwr)] at hdone
  cases hdone

theorem Slots.post (hs : Slots c w m) (hfree : m.freeSlots = idx :: rest)
    (hp : HalfPosted kvWrPerReq s) : Slots c w (posted idx rest s rng h m) where
  id := hs.id
  perm := by
    have hperm := hs.perm
    rw [hfree] at hperm
    show ((m.activeSlots ++ [idx]) ++ rest).Perm _
    rwa [List.append_assoc]
  empty idx' hidx' send := by
    have hmem : idx' ∉ m.activeSlots ∧ idx' ≠ idx := by
      simpa [posted] using hidx'
    rw [wrSlots_posted_of_ne hmem.2]
    exact hs.empty idx' hmem.1 send
  beyond idx' send hsend := by
    by_cases hi : idx' = idx
    · rw [hi, wrSlots_posted_self]
      exact hp.free send hsend
    · rw [wrSlots_posted_of_ne hi]
      exact hs.beyond idx' send hsend
  count idx' hidx' := by
    by_cases hi : idx' = idx
    · rw [hi, wrSlots_posted_self, harvested_of_halfPosted hp, hp.doneCnt]
    · rw [wrSlots_posted_of_ne hi]
      refine hs.count idx' ?_
      simpa [posted, hi] using hidx'
  faults := hs.faults

theorem Ledger.post (hl : Ledger size base fin m) (hs : Slots c w m)
    (hfree : m.freeSlots = idx :: rest) (hp : HalfPosted kvWrPerReq s) :
    Ledger size base fin (posted idx rest s rng h m) where
  ops := hl.ops
  bytes := hl.bytes
  errors := hl.errors
  req := hl.req
  wr := by
    have hother : ∀ idx' ∈ m.activeSlots,
        ((posted idx rest s rng h m).wrSlots idx').doneCnt = (m.wrSlots idx').doneCnt := by
      intro idx' hidx'
      rw [wrSlots_posted_of_ne]
      rintro rfl
      exact hs.head_notMem hfree hidx'
    show Grown base.histWr m.histWr (_ + ((m.activeSlots ++ [idx]).map fun idx' =>
      ((posted idx rest s rng h m).wrSlots idx').doneCnt).sum)
    rw [List.map_append, List.sum_append, List.map_congr_left hother]
    simpa [wrSlots_posted_self, hp.doneCnt] using hl.wr

theorem flyOf_posted (hs : Slots c w m) (hfree : m.freeSlots = idx :: rest)
    (hp : HalfPosted kvWrPerReq s) :
    flyOf (posted idx rest s rng h m) = flyOf m ∪ firstWrs idx kvWrPerReq := by
  have hnot := hs.head_notMem hfree
  ext ⟨idx', wr'⟩
  show (idx' ∈ m.activeSlots ++ [idx] ∧ wr' < kvWrPerReq ∧
    ((posted idx rest s rng h m).wrSlots idx').done wr' = false) ↔
      (idx' ∈ m.activeSlots ∧ wr' < kvWrPerReq ∧ (m.wrSlots idx').done wr' = false) ∨
        (idx' = idx ∧ wr' < kvWrPerReq)
  by_cases hi : idx' = idx
  · subst hi
    rw [wrSlots_posted_self]
    have := hp.done wr'
    simp only [List.mem_append, List.mem_singleton, hnot]
    tauto
  · rw [wrSlots_posted_of_ne hi]
    simp [hi]

end Post

end Slots

end KvBench.Bench
