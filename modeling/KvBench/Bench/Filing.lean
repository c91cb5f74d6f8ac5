import KvBench.Bench.Books
import KvBench.Bench.Undo

/-!
# What is counted has landed

The pipelines, on exact states. The last work request posted under a name is on the sheet of its
worker with its token and its length (`Sheet.Open`), and when the worker takes it for done, it has
landed (`Sheet.Landed`). So the requests that a pipeline counts, in its main loop (`mainLoop_acts`) or
in its drain, have landed as a whole, and the counters of the worker agree with its sheet (`Books`).

When the pipeline returns `-1` it has given up some work requests; nothing is counted after that.
-/

namespace KvBench.Bench

open KvBench.Conc KvBench.Events KvBench.Hist
open Worker (setSlot setJetty markDone deactivate recordWr recordReq retire)

/-! ### Work requests on the sheet -/

namespace Sheet

/-- The last work request posted as `id` has `n` bytes and has landed. -/
def Landed (h : Sheet) (id : WrId) (n : ℕ) : Prop :=
  ∃ q, h.posted.find? (·.id = id) = some q ∧ q.wr.len = n ∧ q.fate = .landed

/-- The last work request posted as `id` has the token `t` and `n` bytes, and has landed or is
pending. If `lost` allows, it may also have been given up. -/
def Open (lost : Prop) (h : Sheet) (id : WrId) (t n : ℕ) : Prop :=
  ∃ q, h.posted.find? (·.id = id) = some q ∧ (q.wr.token = t ∧ q.wr.len = n) ∧
    (q.fate = .landed ∨ q.fate = .pending ∨ lost ∧ ¬ h.Awaits t)

end Sheet

section Settling

variable {h : Sheet} {id id' : WrId} {t t' n : ℕ} {f : Fate} {lost : Prop}

theorem find_settle (l : List Posted) : (settle t f l).find? (·.id = id) =
    (l.find? (·.id = id)).map (Posted.settled t f) := by
  unfold settle
  rw [List.find?_map]
  have hid : (fun p : Posted => decide (p.id = id)) ∘ Posted.settled t f = fun p => decide (p.id = id) := by
    funext p
    unfold Posted.settled
    simp only [Function.comp_apply]
    split <;> rfl
  exact congrArg (Option.map (Posted.settled t f)) (congrArg (fun c => List.find? c l) hid)

theorem awaits_of_settle (hf : f ≠ .pending) (haw : (h.settle t f).Awaits t') :
    h.Awaits t' ∧ t' ≠ t := by
  obtain ⟨q, hq, hpend, rfl⟩ := haw
  obtain ⟨⟨hmem, hp⟩, hne⟩ := (mem_settle_pending hf).1 ⟨hq, hpend⟩
  exact ⟨⟨q, hmem, hp, rfl⟩, hne⟩

/-- What has landed stays so. -/
theorem Sheet.Landed.settle (hl : h.Landed id n) (t : ℕ) (f : Fate) : (h.settle t f).Landed id n := by
  obtain ⟨q, hq, hlen, hfate⟩ := hl
  have hsame : q.settled t f = q := if_neg fun hc => by
    rw [hfate] at hc
    exact nomatch hc.2
  refine ⟨q, ?_, hlen, hfate⟩
  show (Bench.settle t f h.posted).find? _ = _
  rw [find_settle, hq, Option.map_some, hsame]

/-- A work request meets its fate; a bad one only where `lost` allows. -/
theorem Sheet.Open.settle (ho : h.Open lost id t n) (hf : f = .landed ∨ lost ∧ f ≠ .pending) (t' : ℕ) :
    (h.settle t' f).Open lost id t n := by
  obtain ⟨q, hq, ⟨htok, hlen⟩, hfate⟩ := ho
  have hne : f ≠ .pending := by
    rcases hf with rfl | hf
    · decide
    · exact hf.2
  have hfind : (h.settle t' f).posted.find? (·.id = id) = some (q.settled t' f) := by
    show (Bench.settle t' f h.posted).find? _ = _
    rw [find_settle, hq, Option.map_some]
  by_cases hc : q.wr.token = t' ∧ q.fate = .pending
  · have hset : q.settled t' f = { q with fate := f } := if_pos hc
    rw [hset] at hfind
    refine ⟨_, hfind, ⟨htok, hlen⟩, ?_⟩
    rcases hf with rfl | ⟨hlost, -⟩
    · exact .inl rfl
    · refine .inr (.inr ⟨hlost, fun haw => ?_⟩)
      exact (awaits_of_settle hne haw).2 (htok.symm.trans hc.1)
  · have hset : q.settled t' f = q := if_neg hc
    rw [hset] at hfind
    refine ⟨q, hfind, ⟨htok, hlen⟩, hfate.imp_right (Or.imp_right fun hno => ⟨hno.1, fun haw => ?_⟩)⟩
    exact hno.2 (awaits_of_settle hne haw).1

/-- A work request whose completion is consumed has landed. -/
theorem Sheet.Open.landed (ho : h.Open lost id t n) (haw : h.Awaits t) :
    (h.settle t .landed).Landed id n := by
  obtain ⟨q, hq, ⟨htok, hlen⟩, hfate⟩ := ho
  rcases hfate with hfate | hfate | ⟨-, hno⟩
  · exact Sheet.Landed.settle ⟨q, hq, hlen, hfate⟩ t .landed
  · have hset : q.settled t .landed = { q with fate := .landed } := if_pos ⟨htok, hfate⟩
    refine ⟨{ q with fate := .landed }, ?_, hlen, rfl⟩
    show (Bench.settle t .landed h.posted).find? _ = _
    rw [find_settle, hq, Option.map_some, hset]
  · exact absurd haw hno

theorem Sheet.Open.waited {h' : Sheet} {ok : Bool} (ho : h.Open True id t n) (hw : Waited t' h ok h') :
    h'.Open True id t n := by
  cases hw with
  | landed _ => exact ho.settle (.inl rfl) t'
  | failed => exact ho.settle (.inr ⟨trivial, by decide⟩) t'
  | dropped hd =>
    cases hd with
    | nothing => exact ho
    | aborted => exact ho.settle (.inr ⟨trivial, by decide⟩) t'

theorem Sheet.Landed.waited {h' : Sheet} {ok : Bool} (hl : h.Landed id n) (hw : Waited t' h ok h') :
    h'.Landed id n := by
  cases hw with
  | landed _ => exact hl.settle _ _
  | failed => exact hl.settle _ _
  | dropped hd =>
    cases hd with
    | nothing => exact hl
    | aborted => exact hl.settle _ _

theorem Sheet.Open.landed_of_waited {h' : Sheet} (ho : h.Open lost id t n) (hw : Waited t h true h') :
    h'.Landed id n := by
  cases hw with
  | landed haw => exact ho.landed haw

theorem Waited.tally {h' : Sheet} {ok : Bool} (hw : Waited t h ok h') : h'.tally = h.tally := by
  cases hw with
  | landed _ => rfl
  | failed => rfl
  | dropped hd => cases hd <;> rfl

theorem Sheet.Open.mono {lost' : Prop} (ho : h.Open lost id t n) (hlost : lost → lost') :
    h.Open lost' id t n := by
  obtain ⟨q, hq, hwr, hfate⟩ := ho
  exact ⟨q, hq, hwr, hfate.imp_right (Or.imp_right fun hno => ⟨hlost hno.1, hno.2⟩)⟩

end Settling

/-! ### Operations on the sheet -/

section Tally

/-- The bytes of the work requests of an operation. -/
def transferred (ws : List Wr) : ℕ := (ws.map (·.len)).sum

/-- What the operation with the work requests `ws` adds to `w->bytes`: a read of mixed mode is counted
like a write. -/
def charged (valueSize : ℕ) (ws : List Wr) : ℕ :=
  transferred ws + if ws.length = 1 then valueSize else 0

theorem landedOf_landed {h : Sheet} {n : ℕ} {ids : List WrId} (hall : ∀ id ∈ ids, h.Landed id n) :
    (landedOf ids h.posted).length = ids.length ∧
      transferred (landedOf ids h.posted) = ids.length * n := by
  induction ids with
  | nil => exact ⟨rfl, (Nat.zero_mul n).symm⟩
  | cons id ids ih =>
    obtain ⟨hlen, hsum⟩ := ih fun id' hid' => hall id' (List.mem_cons_of_mem _ hid')
    obtain ⟨q, hq, hn, hfate⟩ := hall id List.mem_cons_self
    have hcons : landedOf (id :: ids) h.posted = q.wr :: landedOf ids h.posted := by
      unfold landedOf
      rw [List.filterMap_cons_some]
      rw [hq, Option.bind_some, if_pos hfate]
    rw [hcons]
    unfold transferred at hsum ⊢
    rw [List.map_cons, List.sum_cons, hsum, hn, List.length_cons, List.length_cons, hlen]
    exact ⟨rfl, by ring⟩

theorem charged_landedOf {h : Sheet} {n : ℕ} {ids : List WrId} (hall : ∀ id ∈ ids, h.Landed id n)
    (v : ℕ) : charged v (landedOf ids h.posted) =
      ids.length * n + if ids.length = 1 then v else 0 := by
  obtain ⟨hlen, hsum⟩ := landedOf_landed hall
  unfold charged
  rw [hsum, hlen]

/-- The most that an operation is charged: the lengths of work requests have 32 bits. -/
def mostCharged : ℕ := kvWrPerReq * 2 ^ 32

/-- The counters are ahead of the sheet by `ops` operations and `bytes` bytes. -/
structure Books (valueSize ops bytes : ℕ) (F : Face) (h : Sheet) : Prop where
  ops : F.ops = h.tally.length + ops
  bytes : F.bytes = (h.tally.map (charged valueSize)).sum + bytes
  most : ∀ ws ∈ h.tally, charged valueSize ws ≤ mostCharged

/-- The operation by which the counters are ahead is put on the sheet. -/
theorem Books.enter {v bytes : ℕ} {F : Face} {h h' : Sheet} {ws : List Wr} (hb : Books v 1 bytes F h)
    (htally : h'.tally = ws :: h.tally) (hbytes : charged v ws = bytes)
    (hmost : bytes ≤ mostCharged) : Books v 0 0 F h' := by
  refine ⟨?_, ?_, fun ws' hws' => ?_⟩
  · rw [htally, hb.ops]
    rfl
  · rw [htally, List.map_cons, List.sum_cons, hbytes, hb.bytes]
    omega
  · rw [htally] at hws'
    rcases List.mem_cons.1 hws' with rfl | hmem
    · exact hbytes.trans_le hmost
    · exact hb.most ws' hmem

/-- A counter of 64 bits holds the bytes of fewer than `2 ^ 27` operations. -/
theorem Books.bytes_lt {v : ℕ} {F : Face} {h : Sheet} (hb : Books v 0 0 F h) (hops : F.ops < 2 ^ 27) :
    F.bytes < 2 ^ 64 := by
  have hlen := hb.ops
  have hsum : (h.tally.map (charged v)).sum ≤ (h.tally.map (charged v)).length • mostCharged :=
    List.sum_le_card_nsmul _ _ (by simpa using hb.most)
  rw [List.length_map, smul_eq_mul] at hsum
  have hle : h.tally.length * mostCharged ≤ 2 ^ 27 * mostCharged := Nat.mul_le_mul_right _ (by omega)
  have hmost : 2 ^ 27 * mostCharged < 2 ^ 64 := by decide
  rw [hb.bytes]
  omega

end Tally

/-! ### The slots of a pipeline -/

/-- How many work requests of the slot are done. -/
def Cell.harvested (c : Cell) : ℕ := Nat.count (fun wr => c.done wr = true) kvWrPerReq

/-- The work requests of the active slots, of `n` bytes each, are on the sheet, and those that are
done have landed. -/
structure Filed (lost : Prop) (n : ℕ) (F : Face) (h : Sheet) : Prop where
  nodup : (F.activeSlots ++ F.freeSlots).Nodup
  count : ∀ idx ∈ F.activeSlots, (F.cells idx).doneCnt = (F.cells idx).harvested
  known : ∀ idx ∈ F.activeSlots, ∀ wr < kvWrPerReq,
    h.Open lost (.slot idx wr) ((F.cells idx).token wr) n
  landed : ∀ idx ∈ F.activeSlots, ∀ wr < kvWrPerReq, (F.cells idx).done wr = true →
    h.Landed (.slot idx wr) n

section Slots

variable {lost : Prop} {n v : ℕ} {F F' : Face} {h h' : Sheet} {idx wr t : ℕ}

theorem Sheet.Open.small {id : WrId} (ho : h.Open lost id t n) : t < 2 ^ 40 := by
  obtain ⟨q, -, ⟨rfl, -⟩, -⟩ := ho
  exact q.wr.token_lt

/-- The lanes of the slots, the counters and the rest of the sheet do not matter. -/
theorem Filed.congr (hF : Filed lost n F h) (hactive : F'.activeSlots = F.activeSlots)
    (hfree : F'.freeSlots = F.freeSlots)
    (hcell : ∀ idx, ∃ jetty, F'.cells idx = { F.cells idx with jetty := jetty })
    (hposted : h'.posted = h.posted) : Filed lost n F' h' := by
  have haw : ∀ t, h'.Awaits t ↔ h.Awaits t := fun t => by
    unfold Sheet.Awaits
    rw [hposted]
  refine ⟨by rw [hactive, hfree]; exact hF.nodup, fun idx hidx => ?_, fun idx hidx wr hwr => ?_,
    fun idx hidx wr hwr => ?_⟩
  all_goals
    rw [hactive] at hidx
    obtain ⟨jetty, hc⟩ := hcell idx
    rw [hc]
  · exact hF.count idx hidx
  · obtain ⟨q, hq, hwr, hfate⟩ := hF.known idx hidx wr hwr
    rw [← hposted] at hq
    rw [← haw] at hfate
    exact ⟨q, hq, hwr, hfate⟩
  · intro hdone
    obtain ⟨q, hq, hwr⟩ := hF.landed idx hidx wr hwr hdone
    rw [← hposted] at hq
    exact ⟨q, hq, hwr⟩

theorem Filed.mono {lost' : Prop} (hF : Filed lost n F h) (hlost : lost → lost') : Filed lost' n F h :=
  ⟨hF.nodup, hF.count, fun idx hidx wr hwr => (hF.known idx hidx wr hwr).mono hlost, hF.landed⟩

/-- A wait of a drain. -/
theorem Filed.waited {ok : Bool} (hF : Filed True n F h) (hw : Waited t h ok h') : Filed True n F h' :=
  ⟨hF.nodup, hF.count, fun idx hidx wr hwr => (hF.known idx hidx wr hwr).waited hw,
    fun idx hidx wr hwr hdone => (hF.landed idx hidx wr hwr hdone).waited hw⟩

/-- A slot all of whose work requests are done. -/
theorem Filed.all_landed (hF : Filed lost n F h) (hidx : idx ∈ F.activeSlots)
    (hcnt : kvWrPerReq ≤ (F.cells idx).doneCnt) : ∀ id ∈ reqIds idx, h.Landed id n := by
  intro id hid
  obtain ⟨wr, hwr, rfl⟩ := List.mem_map.1 hid
  have hwr := List.mem_range.1 hwr
  rw [hF.count idx hidx] at hcnt
  have hall := Nat.count_iff_forall.1 (le_antisymm (Nat.count_le _) hcnt)
  exact hF.landed idx hidx wr hwr (hall wr hwr)

theorem Cell.harvested_update {c : Cell} (hwr : wr < kvWrPerReq) (hdone : c.done wr = false) :
    ({ c with done := Function.update c.done wr true, doneCnt := c.doneCnt + 1 } : Cell).harvested =
      c.harvested + 1 := by
  unfold Cell.harvested
  simp only [Nat.count_eq_card_filter_range]
  have hins : ((Finset.range kvWrPerReq).filter fun wr' => Function.update c.done wr true wr' = true)
      = insert wr ((Finset.range kvWrPerReq).filter fun wr' => c.done wr' = true) := by
    ext wr'
    by_cases hw : wr' = wr
    · subst hw
      simp [hwr]
    · simp [hw]
  rw [hins, Finset.card_insert_of_notMem (by simp [hdone])]

/-- A work request is harvested. -/
theorem Filed.harvest (hF : Filed False n F h) (hidx : idx ∈ F.activeSlots) (hwr : wr < kvWrPerReq)
    (hdone : (F.cells idx).done wr = false) (haw : h.Awaits ((F.cells idx).token wr)) :
    Filed False n (F.setCell idx { F.cells idx with
      done := Function.update (F.cells idx).done wr true
      doneCnt := (F.cells idx).doneCnt + 1 }) (h.settle ((F.cells idx).token wr) .landed) := by
  refine ⟨hF.nodup, fun idx' hidx' => ?_, fun idx' hidx' wr' hwr' => ?_,
    fun idx' hidx' wr' hwr' => ?_⟩
  · by_cases hi : idx' = idx
    · subst hi
      rw [Face.cells_setCell_self, Cell.harvested_update hwr hdone, ← hF.count idx' hidx]
    · rw [Face.cells_setCell_of_ne _ _ hi]
      exact hF.count idx' hidx'
  · have hopen := (hF.known idx' hidx' wr' hwr').settle (.inl rfl) ((F.cells idx).token wr)
    by_cases hi : idx' = idx
    · subst hi
      rw [Face.cells_setCell_self]
      exact hopen
    · rw [Face.cells_setCell_of_ne _ _ hi]
      exact hopen
  · intro hd
    by_cases hi : idx' = idx
    · subst hi
      by_cases hw : wr' = wr
      · subst hw
        exact (hF.known idx' hidx wr' hwr).landed haw
      · rw [Face.cells_setCell_self] at hd
        have hd : Function.update (F.cells idx').done wr true wr' = true := hd
        rw [Function.update_of_ne hw] at hd
        exact (hF.landed idx' hidx wr' hwr' hd).settle _ _
    · rw [Face.cells_setCell_of_ne _ _ hi] at hd
      exact (hF.landed idx' hidx' wr' hwr' hd).settle _ _

/-- A finished slot leaves the active ones. -/
theorem Filed.retire {pos : ℕ} (hF : Filed lost n F h) (hpos : F.activeSlots[pos]? = some idx) :
    Filed lost n { F with
      freeSlots := idx :: F.freeSlots
      activeSlots := swapRemove F.activeSlots pos } h := by
  have hperm := swapRemove_perm hpos
  have hsub : ∀ idx' ∈ swapRemove F.activeSlots pos, idx' ∈ F.activeSlots := fun idx' hidx' =>
    hperm.mem_iff.2 (List.mem_cons_of_mem _ hidx')
  refine ⟨?_, fun idx' hidx' => hF.count idx' (hsub idx' hidx'), fun idx' hidx' =>
    hF.known idx' (hsub idx' hidx'), fun idx' hidx' => hF.landed idx' (hsub idx' hidx')⟩
  have hmiddle : (swapRemove F.activeSlots pos ++ idx :: F.freeSlots).Perm
      (F.activeSlots ++ F.freeSlots) :=
    List.perm_middle.trans (hperm.symm.append_right _)
  exact hmiddle.nodup_iff.2 hF.nodup

theorem find_entries {f : ℕ → Fate} {w : ℕ → Wr} {k : ℕ} {old : List Posted} (hwr : wr < k) :
    (entries idx w f k ++ old).find? (·.id = .slot idx wr) = some ⟨.slot idx wr, w wr, f wr⟩ := by
  induction k with
  | zero => omega
  | succ k ih =>
    unfold entries
    rw [List.cons_append, List.find?_cons]
    by_cases hk : wr = k
    · subst hk
      simp
    · have hne : ¬ k = wr := fun h => hk h.symm
      simp only [WrId.slot.injEq, hne, and_false, decide_false]
      exact ih (by omega)

theorem find_entries_of_ne {f : ℕ → Fate} {w : ℕ → Wr} {k : ℕ} {old : List Posted} {id : WrId}
    (hid : ∀ wr, id ≠ .slot idx wr) :
    (entries idx w f k ++ old).find? (·.id = id) = old.find? (·.id = id) := by
  induction k with
  | zero => rfl
  | succ k ih =>
    unfold entries
    rw [List.cons_append, List.find?_cons, decide_eq_false (fun heq => hid k heq.symm)]
    exact ih

/-- A request has been posted. -/
theorem Filed.posted {rest : List ℕ} {w : ℕ → Wr} {lane : ℕ → Lane} {F₁ : Face} {size : ℕ}
    (hF : Filed False (size / 2 % 2 ^ 32) F h) (hfree : F.freeSlots = idx :: rest)
    (hP : Filling { F with freeSlots := rest } h idx size w lane kvWrPerReq kvSendsPerReq F₁ h') :
    Filed False (size / 2 % 2 ^ 32) { F₁ with activeSlots := F₁.activeSlots ++ [idx] } h' := by
  have hnd := hF.nodup
  rw [hfree] at hnd
  have hnot : idx ∉ F.activeSlots := fun hmem =>
    (List.nodup_append.1 hnd).2.2 idx hmem idx List.mem_cons_self rfl
  have hactive : F₁.activeSlots = F.activeSlots := by
    rw [hP.face]
    rfl
  have hposted : h'.posted = entries idx w (fun _ => .pending) kvWrPerReq ++ h.posted := by
    rw [hP.sheet]
  have hcells : ∀ idx' ∈ F.activeSlots, F₁.cells idx' = F.cells idx' := by
    intro idx' hidx'
    have hne : idx' ≠ idx := fun heq => hnot (heq ▸ hidx')
    rw [hP.face, Face.cells_setCell_of_ne _ _ hne]
  have hother : ∀ idx' ∈ F.activeSlots, ∀ wr wr', WrId.slot idx' wr ≠ .slot idx wr' := by
    rintro idx' hidx' wr wr' heq
    obtain ⟨rfl, -⟩ := WrId.slot.inj heq
    exact hnot hidx'
  have hmem : ∀ idx', idx' ∈ F₁.activeSlots ++ [idx] → idx' ∈ F.activeSlots ∨ idx' = idx := by
    intro idx' hidx'
    rw [hactive] at hidx'
    simpa using hidx'
  refine ⟨?_, fun idx' hidx' => ?_, fun idx' hidx' wr hwr => ?_, fun idx' hidx' wr hwr hdone => ?_⟩
  · have hrest : F₁.freeSlots = rest := by
      rw [hP.face]
      rfl
    show ((F₁.activeSlots ++ [idx]) ++ F₁.freeSlots).Nodup
    rw [hactive, hrest, List.append_assoc]
    exact hnd
  · show (F₁.cells idx').doneCnt = (F₁.cells idx').harvested
    rcases hmem idx' hidx' with hidx' | rfl
    · rw [hcells idx' hidx']
      exact hF.count idx' hidx'
    · rw [hP.doneCnt]
      refine (Nat.count_iff_forall_not.2 fun wr hwr => ?_).symm
      rw [hP.undone wr hwr]
      decide
  · show h'.Open False _ ((F₁.cells idx').token wr) _
    rcases hmem idx' hidx' with hidx' | rfl
    · obtain ⟨q, hq, hqwr, hfate⟩ := hF.known idx' hidx' wr hwr
      rw [hcells idx' hidx']
      refine ⟨q, ?_, hqwr, hfate.imp_right (Or.imp_right fun hno => hno.1.elim)⟩
      rw [hposted, find_entries_of_ne (hother idx' hidx' wr)]
      exact hq
    · refine ⟨⟨.slot idx' wr, w wr, .pending⟩, ?_, ⟨(hP.token wr hwr).symm, hP.wrLen wr hwr⟩,
        .inr (.inl rfl)⟩
      rw [hposted, find_entries hwr]
  · rcases hmem idx' hidx' with hidx' | rfl
    · have hdone : (F₁.cells idx').done wr = true := hdone
      rw [hcells idx' hidx'] at hdone
      obtain ⟨q, hq, hfate⟩ := hF.landed idx' hidx' wr hwr hdone
      refine ⟨q, ?_, hfate⟩
      rw [hposted, find_entries_of_ne (hother idx' hidx' wr)]
      exact hq
    · have hdone : (F₁.cells idx').done wr = true := hdone
      rw [hP.undone wr hwr] at hdone
      exact nomatch hdone

end Slots

/-! ### The main loop -/

/-- The slots are on the sheet, and the counters agree with it. -/
def InBooks (lost : Prop) (v n : ℕ) (F : Face) (h : Sheet) : Prop :=
  Filed lost n F h ∧ Books v 0 0 F h

theorem Books.congr {v ops bytes : ℕ} {F F' : Face} {h h' : Sheet} (hB : Books v ops bytes F h)
    (hops : F'.ops = F.ops) (hbytes : F'.bytes = F.bytes) (htally : h'.tally = h.tally) :
    Books v ops bytes F' h' := by
  refine ⟨?_, ?_, ?_⟩ <;> simp only [hops, hbytes, htally]
  · exact hB.ops
  · exact hB.bytes
  · exact hB.most

/-- A request of ten sends of `size` bytes consists of twenty work requests of half that size. -/
structure Pipe.Halves (p : Pipe) : Prop where
  sum : p.size * kvSendsPerReq = kvWrPerReq * (p.size / 2 % 2 ^ 32)
  fatal : p.fatalRc (-1) = true

theorem Pipe.Halves.most {p : Pipe} (hp : p.Halves) : p.size * kvSendsPerReq ≤ mostCharged := by
  rw [hp.sum]
  exact Nat.mul_le_mul_left _ (Nat.mod_lt _ (by decide)).le

section Main

variable {lost : Prop} {v : ℕ} {F : Face} {h : Sheet} {idx wr : ℕ} {ctx : Context} {p : Pipe}

theorem harvestWr_acts {n : ℕ} (hI : InBooks False v n F h) (hidx : idx ∈ F.activeSlots)
    (hwr : wr < kvWrPerReq) : Acts F h (harvestWr p idx wr) fun r F' h' =>
      r.elim (InBooks False v n F' h' ∧ F'.activeSlots = F.activeSlots) fun _ => Books v 0 0 F' h' := by
  unfold harvestWr
  refine Runs.get_bind fun m _ hm => ?_
  have hcell := Worker.cell_eq hm idx
  have htok : (m.wrSlots idx).eventToken wr = (F.cells idx).token wr :=
    congrArg (fun c : Cell => c.token wr) hcell
  have hdone : (m.wrSlots idx).done wr = (F.cells idx).done wr :=
    congrArg (fun c : Cell => c.done wr) hcell
  dsimp only
  rw [htok, hdone]
  refine Runs.ite (fun _ => Runs.pure ⟨hI, rfl⟩) fun hnot => ?_
  have hsmall := (hI.1.known idx hidx wr hwr).small
  refine Acts.same_bind (probeEvent_acts hsmall) fun r h' hp => ?_
  cases hp with
  | nothing => exact Runs.pure ⟨hI, rfl⟩
  | failed haw =>
    exact Acts.unseen_bind (fun _ => rfl) (fun _ => rfl) (Acts.say_bind (Runs.pure (hI.2.congr rfl rfl rfl)))
  | landed haw =>
    refine Acts.slot_bind (fun c => { c with
      done := Function.update c.done wr true
      doneCnt := c.doneCnt + 1 }) (fun _ => rfl) (Acts.now_bind fun t => ?_)
    refine Acts.unseen_bind (fun _ => rfl) (fun _ => rfl) (Runs.pure ⟨⟨?_, hI.2.congr rfl rfl rfl⟩, rfl⟩)
    exact hI.1.harvest hidx hwr (Bool.eq_false_of_not_eq_true hnot) haw

/-- The lanes of the slot `idx` change, and nothing else that matters here. -/
def LanesOnly (idx : ℕ) (F : Face) (h : Sheet) (F' : Face) (h' : Sheet) : Prop :=
  (∃ jetty, F' = F.setCell idx { F.cells idx with jetty := jetty }) ∧
    h'.posted = h.posted ∧ h'.tally = h.tally

theorem LanesOnly.refl (idx : ℕ) (F : Face) (h : Sheet) : LanesOnly idx F h F h :=
  ⟨⟨(F.cells idx).jetty, (F.setCell_self idx).symm⟩, rfl, rfl⟩

theorem LanesOnly.trans {F' F'' : Face} {h' h'' : Sheet} (h1 : LanesOnly idx F h F' h')
    (h2 : LanesOnly idx F' h' F'' h'') : LanesOnly idx F h F'' h'' := by
  obtain ⟨⟨jetty, rfl⟩, hp1, ht1⟩ := h1
  obtain ⟨⟨jetty', rfl⟩, hp2, ht2⟩ := h2
  exact ⟨⟨jetty', by simp⟩, hp2.trans hp1, ht2.trans ht1⟩

theorem LanesOnly.filed {n : ℕ} {F' : Face} {h' : Sheet} (hL : LanesOnly idx F h F' h')
    (hF : Filed lost n F h) : Filed lost n F' h' := by
  obtain ⟨⟨jetty, rfl⟩, hposted, -⟩ := hL
  refine hF.congr rfl rfl (fun idx' => ?_) hposted
  by_cases hi : idx' = idx
  · subst hi
    exact ⟨jetty, Face.cells_setCell_self _ _ _⟩
  · exact ⟨_, Face.cells_setCell_of_ne _ _ hi⟩

theorem LanesOnly.books {ops bytes : ℕ} {F' : Face} {h' : Sheet} (hL : LanesOnly idx F h F' h')
    (hB : Books v ops bytes F h) : Books v ops bytes F' h' := by
  obtain ⟨⟨jetty, rfl⟩, -, htally⟩ := hL
  exact hB.congr rfl rfl htally

theorem LanesOnly.active {F' : Face} {h' : Sheet} (hL : LanesOnly idx F h F' h') :
    F'.activeSlots = F.activeSlots := by
  obtain ⟨⟨jetty, rfl⟩, -⟩ := hL
  rfl

theorem LanesOnly.doneCnt {F' : Face} {h' : Sheet} (hL : LanesOnly idx F h F' h') :
    (F'.cells idx).doneCnt = (F.cells idx).doneCnt := by
  obtain ⟨⟨jetty, rfl⟩, -⟩ := hL
  rw [Face.cells_setCell_self]

theorem giveBack_lanesOnly (l : Option Lane) : LanesOnly idx F h F (l.elim h h.giveBack) := by
  cases l with
  | none => exact .refl idx F h
  | some l => exact ⟨(LanesOnly.refl idx F h).1, rfl, rfl⟩

theorem setJetty_acts (send : ℕ) (l : Option Lane) :
    Acts F h (modify (setJetty idx send l)) fun _ F' h' => LanesOnly idx F h F' h' :=
  Acts.slot (fun c => { c with jetty := Function.update c.jetty send l }) (fun _ => rfl)
    ⟨⟨_, rfl⟩, rfl, rfl⟩

theorem releaseSend_acts (send : ℕ) :
    Acts F h (releaseSend idx send) fun _ F' h' => LanesOnly idx F h F' h' := by
  unfold releaseSend
  refine Runs.get_bind fun m _ _ => Acts.same_bind (releaseSendLane_acts _ _) ?_
  rintro _ h' rfl
  exact (setJetty_acts send none).post fun _ F' h' hL => (giveBack_lanesOnly _).trans hL

theorem releaseSends_acts (idx : ℕ) {f : ℕ → Unit → Code Unit} (n : ℕ)
    (hf : ∀ send F h, Acts F h (f send ()) fun _ F' h' => LanesOnly idx F h F' h') :
    Acts F h (Proc.each f 0 n ()) fun _ F' h' => LanesOnly idx F h F' h' := by
  refine Runs.each (fun _ _ F' h' => LanesOnly idx F h F' h') ?_ (.refl idx F h)
  intro k _ F' h' _ _ hL
  exact (hf k F' h').post fun _ F'' h'' hL' => hL.trans hL'

theorem retire_face (m : Worker) (idx pos : ℕ) : (retire idx pos m).face =
    { m.face with
      freeSlots := idx :: m.face.freeSlots
      activeSlots := swapRemove m.face.activeSlots pos } := rfl

/-- A request all of whose work requests have landed is counted with what they moved. -/
theorem charged_request (hp : p.Halves) (hall : ∀ id ∈ reqIds idx, h.Landed id (p.size / 2 % 2 ^ 32)) :
    charged v (landedOf (reqIds idx) h.posted) = p.size * kvSendsPerReq := by
  have hlen : (reqIds idx).length = kvWrPerReq := by simp [reqIds]
  rw [charged_landedOf hall, hlen, hp.sum, if_neg (by decide)]
  rfl

theorem finishReq_acts (hp : p.Halves) {pos : ℕ} (hI : InBooks False v (p.size / 2 % 2 ^ 32) F h)
    (hpos : F.activeSlots[pos]? = some idx) (hcnt : kvWrPerReq ≤ (F.cells idx).doneCnt) :
    Acts F h (finishReq p idx pos) fun _ F' h' => InBooks False v (p.size / 2 % 2 ^ 32) F' h' := by
  unfold finishReq
  refine Acts.modify_bind { F with bytes := F.bytes + p.size * kvSendsPerReq } (fun _ => rfl)
    (fun m hm => by rw [← hm]; rfl) ?_
  refine Runs.bind (releaseSends_acts idx _ fun send _ _ => releaseSend_acts send) ?_
  intro _ F₁ h₁ hL
  refine Acts.unseen_slot_bind (fun _ => rfl) (Acts.now_bind fun t => ?_)
  refine Acts.unseen_bind (fun _ => rfl) (fun _ => rfl) ?_
  refine Acts.modify_bind { F₁ with ops := F₁.ops + 1 } (fun _ => rfl)
    (fun m hm => by rw [← hm]; rfl) ?_
  have hfiled : Filed False (p.size / 2 % 2 ^ 32) F₁ h₁ :=
    hL.filed (hI.1.congr rfl rfl (fun _ => ⟨_, rfl⟩) rfl)
  have hbooks : Books v 0 (p.size * kvSendsPerReq) F₁ h₁ :=
    hL.books ⟨hI.2.ops, congrArg (· + p.size * kvSendsPerReq) hI.2.bytes, hI.2.most⟩
  have hpos : F₁.activeSlots[pos]? = some idx := by
    rw [hL.active]
    exact hpos
  have hall := hfiled.all_landed (List.mem_of_getElem? hpos) (by rw [hL.doneCnt]; exact hcnt)
  refine Acts.same_bind (count_acts _) ?_
  rintro _ _ rfl
  refine Acts.update { F₁ with
    ops := F₁.ops + 1
    freeSlots := idx :: F₁.freeSlots
    activeSlots := swapRemove F₁.activeSlots pos } (fun _ => rfl) (fun m hm => ?_) ⟨?_, ?_⟩
  · rw [retire_face, hm]
  · exact (hfiled.retire hpos).congr rfl rfl (fun _ => ⟨_, rfl⟩) rfl
  · have hone : Books v 1 (p.size * kvSendsPerReq) { F₁ with ops := F₁.ops + 1 } h₁ :=
      ⟨congrArg (· + 1) hbooks.ops, hbooks.bytes, hbooks.most⟩
    exact (hone.enter rfl (charged_request hp hall) hp.most).congr rfl rfl rfl

/-- A round of the main loop either goes on or ends; when the pipeline returns `-1`, only the counters
matter. -/
def Either (v n : ℕ) {γ : Type} (r : Option γ) (F : Face) (h : Sheet) : Prop :=
  r.elim (Books v 0 0 F h) fun _ => InBooks False v n F h

theorem harvestRound_acts (hp : p.Halves) (kl : ℕ × Locals)
    (hI : InBooks False v (p.size / 2 % 2 ^ 32) F h) :
    Acts F h (harvestRound p kl) (Sum.elim (fun _ => InBooks False v (p.size / 2 % 2 ^ 32))
      (Either v (p.size / 2 % 2 ^ 32))) := by
  unfold harvestRound
  refine Acts.act_bind fun _ _ => Runs.get_bind fun m _ hm => ?_
  have hactive : m.activeSlots = F.activeSlots := congrArg Face.activeSlots hm
  rw [hactive]
  cases hpos : F.activeSlots[kl.1]? with
  | none => exact Runs.pure hI
  | some idx =>
    refine Acts.now_bind fun t0 => Runs.bind (Runs.search (fun _ F' h' =>
      InBooks False v (p.size / 2 % 2 ^ 32) F' h' ∧ F'.activeSlots = F.activeSlots)
      (fun _ => Books v 0 0) ?_ ⟨hI, rfl⟩) ?_
    · rintro wr F' h' - hwr ⟨hI', hsame⟩
      have hidx : idx ∈ F'.activeSlots := hsame ▸ List.mem_of_getElem? hpos
      refine (harvestWr_acts hI' hidx (by omega)).post ?_
      rintro (_ | _) F'' h'' hr
      · exact ⟨hr.1, hr.2.trans hsame⟩
      · exact hr
    · rintro (_ | _) F' h' hr
      · obtain ⟨hI', hsame⟩ := hr
        refine Acts.now_bind fun t1 => Runs.get_bind fun m' _ hm' => ?_
        have hcnt : (m'.wrSlots idx).doneCnt = (F'.cells idx).doneCnt :=
          congrArg Cell.doneCnt (Worker.cell_eq hm' idx)
        dsimp only
        rw [hcnt]
        refine Runs.ite (fun _ => Runs.pure hI') fun hge => ?_
        have hpos' : F'.activeSlots[kl.1]? = some idx := hsame ▸ hpos
        exact Runs.bind (finishReq_acts hp hI' hpos' (Nat.le_of_not_lt hge)) fun _ _ _ h => Runs.pure h
      · exact Runs.pure hr

theorem sendOne_acts (hp : p.Halves) {post : ℕ → ℕ → Code ℤ}
    (hpost : ∀ idx reqSeq, post idx reqSeq = postOne ctx p idx reqSeq) (l : Locals)
    (hI : InBooks False v (p.size / 2 % 2 ^ 32) F h) :
    Acts F h (sendOne p post l) (Sum.elim (fun _ => InBooks False v (p.size / 2 % 2 ^ 32))
      (Either v (p.size / 2 % 2 ^ 32))) := by
  unfold sendOne
  refine Runs.get_bind fun m _ hm => ?_
  have hslots : m.freeSlots = F.freeSlots := congrArg Face.freeSlots hm
  rw [hslots]
  cases hfree : F.freeSlots with
  | nil => exact Acts.act_bind fun _ _ => Runs.pure hI
  | cons slot rest =>
    refine Acts.modify_bind { F with freeSlots := rest } (fun _ => rfl)
      (fun m hm => by rw [← hm]; rfl) (Acts.now_bind fun t0 => ?_)
    rw [hpost]
    refine Runs.bind (postOne_acts l.reqSeq) ?_
    rintro rc F' h' (⟨rfl, wr, lane, F₁, hP, rfl⟩ | ⟨rfl, wr, lane, fate, k, S, hU⟩)
    · refine Runs.ite (fun hne => absurd rfl hne) fun _ => Acts.now_bind fun t1 => Runs.pure ?_
      refine ⟨hI.1.posted hfree hP, hI.2.congr ?_ ?_ ?_⟩
      · rw [hP.face]
        rfl
      · rw [hP.face]
        rfl
      · rw [hP.sheet]
    · have hbooks : Books v 0 0 F' h' := by
        refine hI.2.congr ?_ ?_ ?_
        · rw [hU.face]
          rfl
        · rw [hU.face]
          rfl
        · rw [hU.sheet]
      refine Runs.ite (fun _ => ?_) fun heq => absurd (by decide) heq
      refine Acts.modify_bind { F' with freeSlots := slot :: F'.freeSlots } (fun _ => rfl)
        (fun m hm => by rw [← hm]; rfl) ?_
      exact Runs.ite (fun _ => Runs.pure (hbooks.congr rfl rfl rfl)) fun hno =>
        absurd hp.fatal hno

theorem mainLoop_acts (hp : p.Halves) {post : ℕ → ℕ → Code ℤ}
    (hpost : ∀ idx reqSeq, post idx reqSeq = postOne ctx p idx reqSeq) (deadline : ℕ)
    (hI : InBooks False v (p.size / 2 % 2 ^ 32) F h) :
    Acts F h (mainLoop ctx p post deadline) fun ok F' h' =>
      if ok then InBooks False v (p.size / 2 % 2 ^ 32) F' h' else Books v 0 0 F' h' := by
  -- the two inner loops and the outer one have the same invariant
  have hharvest : ∀ kl F h, InBooks False v (p.size / 2 % 2 ^ 32) F h →
      Acts F h (Proc.loop (harvestRound p) kl) (Either v (p.size / 2 % 2 ^ 32)) := fun kl F h hI =>
    Runs.loop (fun _ => InBooks False v (p.size / 2 % 2 ^ 32))
      (fun kl F h hI => harvestRound_acts hp kl hI) hI
  have hsend : ∀ l F h, InBooks False v (p.size / 2 % 2 ^ 32) F h →
      Acts F h (Proc.loop (sendRound ctx p post deadline) l) (Either v (p.size / 2 % 2 ^ 32)) := by
    intro l F h hI
    refine Runs.loop (fun _ => InBooks False v (p.size / 2 % 2 ^ 32)) (fun l F h hI => ?_) hI
    refine Acts.act_bind fun _ _ => Acts.now_bind fun t => Runs.ite (fun _ => Runs.pure hI) fun _ => ?_
    refine Acts.act_bind fun fatal _ => Runs.ite (fun _ => Runs.pure hI) fun _ => ?_
    refine Runs.ite (fun _ => Runs.pure hI) fun _ => Still.bind (Still.pause ctx _) fun next => ?_
    exact sendOne_acts hp hpost _ hI
  unfold mainLoop
  refine Acts.now_bind fun t => Runs.bind (Q := Either v (p.size / 2 % 2 ^ 32))
    (Runs.loop (fun _ => InBooks False v (p.size / 2 % 2 ^ 32)) (fun l F h hI => ?_) hI) ?_
  · refine Acts.act_bind fun _ _ => Still.bind (Still.keepsRunning deadline) fun runs => ?_
    refine Runs.ite (fun _ => ?_) fun _ => Runs.pure hI
    unfold workRound
    refine Runs.bind (hharvest (0, l) F h hI) ?_
    rintro (_ | l) F h hr
    · exact Runs.pure hr
    refine Runs.bind (hsend l F h hr) ?_
    rintro (_ | l) F h hr
    · exact Runs.pure hr
    · exact Acts.now_bind fun t => Runs.pure hr
  · rintro (_ | l) F' h' hr
    · exact Runs.pure hr
    · exact Acts.say_bind (Runs.pure hr)

end Main

/-! ### The drains -/

/-- The drain of the slot `idx`, at the head of the active slots: when `completed`, the first `k` work
requests have landed. -/
def Emptying (v n : ℕ) (active : List ℕ) (idx k : ℕ) (completed : Bool) (F : Face) (h : Sheet) : Prop :=
  InBooks True v n F h ∧ F.activeSlots = active ∧
    (completed = true → ∀ wr < k, h.Landed (.slot idx wr) n)

section Drains

variable {v n : ℕ} {F : Face} {h : Sheet} {active : List ℕ} {idx k : ℕ} {completed : Bool}
  {ctx : Context} {p : Pipe}

/-- The next work request of the slot has landed, if the drain has completed it. -/
theorem Emptying.next {F' : Face} {h' : Sheet} {completed' : Bool}
    (hD : Emptying v n active idx k completed F h) (hI : InBooks True v n F' h')
    (hactive : F'.activeSlots = F.activeSlots)
    (hkeep : ∀ wr < k, h.Landed (.slot idx wr) n → h'.Landed (.slot idx wr) n)
    (hnew : completed' = true → completed = true ∧ h'.Landed (.slot idx k) n) :
    Emptying v n active idx (k + 1) completed' F' h' := by
  refine ⟨hI, hactive.trans hD.2.1, fun hc wr hwr => ?_⟩
  obtain ⟨hold, hlast⟩ := hnew hc
  rcases Nat.lt_succ_iff_lt_or_eq.1 hwr with hlt | rfl
  · exact hkeep wr hlt (hD.2.2 hold wr hlt)
  · exact hlast

/-- A wait for the work request `k`. -/
theorem Emptying.wait_bind {α : Type} (hD : Emptying v n active idx k completed F h)
    (hidx : idx ∈ active) (hk : k < kvWrPerReq) (timeoutMs : ℤ) {f : Bool → Code α}
    {R : α → Face → Sheet → Prop}
    (hf : ∀ ok h', Emptying v n active idx (k + 1) (completed && ok) F h' → Acts F h' (f ok) R) :
    Acts F h (waitEvent ((F.cells idx).token k) timeoutMs >>= f) R := by
  have hmem : idx ∈ F.activeSlots := hD.2.1 ▸ hidx
  have hopen := hD.1.1.known idx hmem k hk
  refine Acts.same_bind (waitEvent_acts hopen.small timeoutMs) fun ok h' hw => hf ok h' ?_
  refine hD.next ⟨hD.1.1.waited hw, hD.1.2.congr rfl rfl ?_⟩ rfl (fun wr _ hl => hl.waited hw) ?_
  · exact hw.tally
  · intro hc
    obtain ⟨hcomp, rfl⟩ := Bool.and_eq_true_iff.1 hc
    exact ⟨hcomp, hopen.landed_of_waited hw⟩

theorem Emptying.lanes {F' : Face} {h' : Sheet} (hD : Emptying v n active idx k completed F h)
    (hL : LanesOnly idx F h F' h') : Emptying v n active idx k completed F' h' := by
  refine ⟨⟨hL.filed hD.1.1, hL.books hD.1.2⟩, hL.active.trans hD.2.1, fun hc wr hwr => ?_⟩
  obtain ⟨q, hq, hlanded⟩ := hD.2.2 hc wr hwr
  rw [← hL.2.1] at hq
  exact ⟨q, hq, hlanded⟩

theorem drainWriteWr_acts (drainDeadline : ℕ) (d : WriteDrain) (hidx : idx ∈ active)
    (hk : k < kvWrPerReq) (hD : Emptying v n active idx k d.requestCompleted F h) :
    Acts F h (drainWriteWr drainDeadline idx k d) fun d' F' h' =>
      Emptying v n active idx (k + 1) d'.requestCompleted F' h' := by
  unfold drainWriteWr
  refine Runs.get_bind fun m _ hm => ?_
  have hcell := Worker.cell_eq hm idx
  have htok : (m.wrSlots idx).eventToken k = (F.cells idx).token k :=
    congrArg (fun c : Cell => c.token k) hcell
  have hdone : (m.wrSlots idx).done k = (F.cells idx).done k :=
    congrArg (fun c : Cell => c.done k) hcell
  dsimp only
  rw [htok, hdone]
  refine Runs.ite (fun hd => Runs.pure ?_) fun _ => Acts.now_bind fun t => ?_
  · have hmem : idx ∈ F.activeSlots := hD.2.1 ▸ hidx
    exact hD.next hD.1 rfl (fun _ _ hl => hl) fun hc => ⟨hc, hD.1.1.landed idx hmem k hk hd⟩
  refine hD.wait_bind hidx hk _ fun ok h' hD' => ?_
  cases ok with
  | true =>
    rw [Bool.and_true] at hD'
    exact Acts.now_bind fun t => Acts.unseen_bind (fun _ => rfl) (fun _ => rfl) (Runs.pure hD')
  | false =>
    rw [Bool.and_false] at hD'
    exact Acts.say_bind (Runs.pure hD')

theorem drainWriteSend_acts (drainDeadline send : ℕ) (d : WriteDrain) (hidx : idx ∈ active)
    (hsend : send < kvSendsPerReq)
    (hD : Emptying v n active idx (send * kvWrPerSend) d.requestCompleted F h) :
    Acts F h (drainWriteSend drainDeadline idx send d) fun d' F' h' =>
      Emptying v n active idx ((send + 1) * kvWrPerSend) d'.requestCompleted F' h' := by
  have hnext : send * kvWrPerSend + kvWrPerSend = (send + 1) * kvWrPerSend := by ring
  unfold drainWriteSend
  refine Runs.bind (Runs.each (fun k (d : WriteDrain) F' h' =>
    Emptying v n active idx k d.requestCompleted F' h') ?_ hD) ?_
  · intro k d F h _ hk hD
    refine drainWriteWr_acts drainDeadline d hidx ?_ hD
    simp only [kvWrPerSend, kvSendsPerReq, kvWrPerReq] at *
    omega
  · intro d F h hD
    rw [hnext] at hD
    have hend : ∀ h', LanesOnly idx F h F h' → Acts F h' (do
        modify (setJetty idx send none)
        pure d) fun d' F' h' =>
        Emptying v n active idx ((send + 1) * kvWrPerSend) d'.requestCompleted F' h' := fun h' hL =>
      Runs.bind (setJetty_acts send none) fun _ F' h'' hL' => Runs.pure (hD.lanes (hL.trans hL'))
    refine Runs.ite (fun _ => Runs.get_bind fun m _ _ => ?_) fun _ => hend h (.refl idx F h)
    refine Acts.same_bind (releaseSendLane_acts _ _) ?_
    rintro _ _ rfl
    exact hend _ (giveBack_lanesOnly _)

/-- A request that has been drained is counted with what it moved. -/
theorem countDrained_acts (hp : p.Halves) (hB : Books v 0 0 F h)
    (hall : ∀ wr < kvWrPerReq, h.Landed (.slot idx wr) (p.size / 2 % 2 ^ 32)) :
    Acts F h (countDrained p.size idx) fun _ F' h' => Books v 0 0 F' h' ∧
      F' = { F with ops := F.ops + 1, bytes := F.bytes + p.size * kvSendsPerReq } ∧
      h'.posted = h.posted := by
  unfold countDrained
  refine Acts.now_bind fun t => Acts.unseen_bind (fun _ => rfl) (fun _ => rfl) ?_
  refine Acts.modify_bind { F with ops := F.ops + 1, bytes := F.bytes + p.size * kvSendsPerReq }
    (fun _ => rfl) (fun m hm => by rw [← hm]; rfl) ?_
  refine (count_acts _).post ?_
  rintro _ _ _ ⟨rfl, rfl⟩
  have hone : Books v 1 (p.size * kvSendsPerReq)
      { F with ops := F.ops + 1, bytes := F.bytes + p.size * kvSendsPerReq } h :=
    ⟨congrArg (· + 1) hB.ops, congrArg (· + p.size * kvSendsPerReq) hB.bytes, hB.most⟩
  refine ⟨hone.enter rfl (charged_request hp fun id hid => ?_) hp.most, rfl, rfl⟩
  obtain ⟨wr, hwr, rfl⟩ := List.mem_map.1 hid
  exact hall wr (List.mem_range.1 hwr)

/-- The drained slot leaves the active ones. -/
theorem retireFirst_acts {tail : List ℕ} {α : Type} {x : Code α} {R : α → Face → Sheet → Prop}
    (hI : InBooks True v n F h) (hactive : F.activeSlots = idx :: tail)
    (hx : ∀ F', InBooks True v n F' h → Acts F' h x R) :
    Acts F h (do
      modify (retire idx 0)
      x) R := by
  have hpos : F.activeSlots[0]? = some idx := by rw [hactive]; rfl
  refine Acts.modify_bind { F with
    freeSlots := idx :: F.freeSlots
    activeSlots := swapRemove F.activeSlots 0 } (fun _ => rfl)
    (fun m hm => by rw [retire_face, hm]) (hx _ ⟨hI.1.retire hpos, hI.2.congr rfl rfl rfl⟩)

theorem drainWriteRound_acts {args : Argument} (hp : (writePipe args).Halves)
    (drainDeadline failures : ℕ) (hI : InBooks True v (args.sendSize / 2 % 2 ^ 32) F h) :
    Acts F h (drainWriteRound args drainDeadline failures)
      (Sum.elim (fun _ => InBooks True v (args.sendSize / 2 % 2 ^ 32)) fun _ => Books v 0 0) := by
  unfold drainWriteRound
  refine Runs.get_bind fun m _ hm => ?_
  have hactive : m.activeSlots = F.activeSlots := congrArg Face.activeSlots hm
  rw [hactive]
  cases ha : F.activeSlots with
  | nil => exact Runs.pure hI.2
  | cons idx tail =>
    refine Runs.bind (Runs.each (fun send (d : WriteDrain) F' h' =>
      Emptying v (args.sendSize / 2 % 2 ^ 32) (idx :: tail) idx (send * kvWrPerSend)
        d.requestCompleted F' h') ?_ ⟨hI, ha, fun _ wr hwr => absurd hwr (by simp)⟩) ?_
    · intro send d F h _ hsend hD
      exact drainWriteSend_acts drainDeadline send d List.mem_cons_self (by omega) hD
    · intro d F' h' hD
      have hend : ∀ F'' h'', InBooks True v (args.sendSize / 2 % 2 ^ 32) F'' h'' →
          F''.activeSlots = idx :: tail → Acts F'' h'' (do
            modify (deactivate idx)
            modify (retire idx 0)
            pure (Sum.inl d.failures) : Code (ℕ ⊕ ℕ)) (Sum.elim
              (fun _ => InBooks True v (args.sendSize / 2 % 2 ^ 32)) fun _ => Books v 0 0) :=
        fun F'' h'' hI' ha' => Acts.unseen_slot_bind (fun _ => rfl)
          (retireFirst_acts hI' ha' fun F₁ hI₁ => Runs.pure hI₁)
      refine Runs.ite (fun hc => ?_) fun _ => hend F' h' hD.1 hD.2.1
      have hall : ∀ wr < kvWrPerReq, h'.Landed (.slot idx wr) (args.sendSize / 2 % 2 ^ 32) :=
        fun wr hwr => hD.2.2 hc wr hwr
      refine Runs.bind (countDrained_acts (p := writePipe args) hp hD.1.2 hall) ?_
      rintro _ F'' h'' ⟨hB, rfl, hposted⟩
      exact hend _ h'' ⟨hD.1.1.congr rfl rfl (fun _ => ⟨_, rfl⟩) hposted, hB⟩ hD.2.1

theorem drainGetWr_acts (remaining : ℤ) (allOk : Bool) (hidx : idx ∈ active) (hk : k < kvWrPerReq)
    (hD : Emptying v n active idx k allOk F h) :
    Acts F h (drainGetWr remaining idx k allOk) fun allOk' F' h' =>
      Emptying v n active idx (k + 1) allOk' F' h' := by
  unfold drainGetWr
  refine Runs.get_bind fun m _ hm => ?_
  have htok : (m.wrSlots idx).eventToken k = (F.cells idx).token k :=
    congrArg (fun c : Cell => c.token k) (Worker.cell_eq hm idx)
  dsimp only
  rw [htok]
  refine hD.wait_bind hidx hk _ fun ok h' hD' => ?_
  cases ok with
  | true =>
    rw [Bool.and_true] at hD'
    exact Acts.now_bind fun t => Acts.unseen_bind (fun _ => rfl) (fun _ => rfl) (Runs.pure hD')
  | false =>
    rw [Bool.and_false] at hD'
    exact Acts.say_bind (Runs.pure hD')

theorem drainGetRound_acts {args : Argument} (hp : (getPipe args).Halves)
    (drainDeadline failures : ℕ) (hI : InBooks True v (args.valueSize / 2 % 2 ^ 32) F h) :
    Acts F h (drainGetRound args drainDeadline failures)
      (Sum.elim (fun _ => InBooks True v (args.valueSize / 2 % 2 ^ 32)) fun _ => Books v 0 0) := by
  unfold drainGetRound
  refine Runs.get_bind fun m _ hm => ?_
  have hactive : m.activeSlots = F.activeSlots := congrArg Face.activeSlots hm
  rw [hactive]
  cases ha : F.activeSlots with
  | nil => exact Runs.pure hI.2
  | cons idx tail =>
    refine Acts.now_bind fun t => Runs.bind (Runs.each (fun k allOk F' h' =>
      Emptying v (args.valueSize / 2 % 2 ^ 32) (idx :: tail) idx k allOk F' h') ?_
      ⟨hI, ha, fun _ wr hwr => absurd hwr (by simp)⟩) ?_
    · intro k allOk F h _ hk hD
      exact drainGetWr_acts _ allOk List.mem_cons_self (by omega) hD
    · intro allOk F' h' hD
      have hend : ∀ F'' h'', InBooks True v (args.valueSize / 2 % 2 ^ 32) F'' h'' →
          F''.activeSlots = idx :: tail → Acts F'' h'' (do
            modify (setSlot idx fun s => { s with jetty := fun _ => none, active := false })
            modify (retire idx 0)
            pure (Sum.inl (if allOk then failures else failures + 1)) : Code (ℕ ⊕ ℕ)) (Sum.elim
              (fun _ => InBooks True v (args.valueSize / 2 % 2 ^ 32)) fun _ => Books v 0 0) := by
        intro F'' h'' hI' ha'
        refine Acts.slot_bind (fun c => { c with jetty := fun _ => none }) (fun _ => rfl) ?_
        have hL : LanesOnly idx F'' h'' (F''.setCell idx { F''.cells idx with jetty := fun _ => none })
            h'' := ⟨⟨_, rfl⟩, rfl, rfl⟩
        exact retireFirst_acts ⟨hL.filed hI'.1, hL.books hI'.2⟩ (hL.active.trans ha') fun F₁ hI₁ =>
          Runs.pure hI₁
      refine Runs.ite (fun hc => ?_) fun _ => hend F' h' hD.1 hD.2.1
      have hall : ∀ wr < kvWrPerReq, h'.Landed (.slot idx wr) (args.valueSize / 2 % 2 ^ 32) :=
        fun wr hwr => hD.2.2 hc wr (by omega)
      unfold closeGet
      refine Runs.bind (Runs.bind (countDrained_acts (p := getPipe args) hp hD.1.2 hall) ?_)
        (Q := fun _ F'' h'' => InBooks True v (args.valueSize / 2 % 2 ^ 32) F'' h'' ∧
          F''.activeSlots = idx :: tail) fun _ F'' h'' hI' => hend F'' h'' hI'.1 hI'.2
      rintro _ F'' h'' ⟨hB, rfl, hposted⟩
      refine (releaseSends_acts idx _ fun send F h => ?_).post fun _ F₁ h₁ hL => ?_
      · refine Runs.get_bind fun m _ _ => (releaseSendLane_acts _ _).post ?_
        rintro _ _ _ ⟨rfl, rfl⟩
        exact giveBack_lanesOnly _
      · refine ⟨⟨hL.filed (hD.1.1.congr rfl rfl (fun _ => ⟨_, rfl⟩) hposted), hL.books hB⟩, ?_⟩
        exact hL.active.trans hD.2.1

/-- What both pipelines do after the main loop. -/
theorem drain_acts {args : Argument} {round : ℕ → ℕ → Code (ℕ ⊕ ℕ)} (hI : InBooks True v n F h)
    (hround : ∀ drainDeadline failures F h, InBooks True v n F h →
      Acts F h (round drainDeadline failures)
        (Sum.elim (fun _ => InBooks True v n) fun _ => Books v 0 0)) :
    Acts F h (do
      let drainDeadline ← drainDeadlineOf args
      let failures ← Proc.loop (round drainDeadline) 0
      reportFailures failures
      pure 0) fun (_ : ℤ) F' h' => Books v 0 0 F' h' := by
  refine Runs.bind (Q := fun _ F' h' => F' = F ∧ h' = h)
    (Acts.now_bind fun t => Runs.pure ⟨rfl, rfl⟩) ?_
  rintro drainDeadline _ _ ⟨rfl, rfl⟩
  refine Runs.bind (Runs.loop (fun _ => InBooks True v n) (hround drainDeadline) hI) ?_
  intro failures F h hB
  refine Runs.bind (Q := fun _ F' h' => Books v 0 0 F' h') ?_ fun _ F h hB => Runs.pure hB
  exact Runs.ite (fun _ => Acts.update F (fun _ => rfl) (fun _ hm => hm) hB) fun _ => Runs.pure hB

theorem clientWritePipeline_acts (hp : (writePipe ctx.args).Halves) (deadline : ℕ)
    (hI : InBooks False v (ctx.args.sendSize / 2 % 2 ^ 32) F h) :
    Acts F h (clientWritePipeline ctx deadline) fun _ F' h' => Books v 0 0 F' h' := by
  unfold clientWritePipeline
  refine Runs.bind (mainLoop_acts hp (fun _ _ => rfl) deadline hI) ?_
  rintro (_ | _) F' h' hr
  · exact Runs.pure hr
  · refine drain_acts (F := F') ⟨Filed.mono hr.1 fun h => h.elim, hr.2⟩ ?_
    exact fun drainDeadline failures F h hI => drainWriteRound_acts hp drainDeadline failures hI

theorem clientGetPipeline_acts (hp : (getPipe ctx.args).Halves) (deadline : ℕ)
    (hI : InBooks False v (ctx.args.valueSize / 2 % 2 ^ 32) F h) :
    Acts F h (clientGetPipeline ctx deadline) fun _ F' h' => Books v 0 0 F' h' := by
  unfold clientGetPipeline
  refine Runs.bind (mainLoop_acts hp (fun _ _ => rfl) deadline hI) ?_
  rintro (_ | _) F' h' hr
  · exact Runs.pure hr
  · refine drain_acts (F := F') ⟨Filed.mono hr.1 fun h => h.elim, hr.2⟩ ?_
    exact fun drainDeadline failures F h hI => drainGetRound_acts hp drainDeadline failures hI

end Drains

end KvBench.Bench
