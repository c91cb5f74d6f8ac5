import KvBench.Bench.Sheet

/-!
# Posting a request and undoing it

`post_one_req` and `post_one_get`, on exact states. `Filling` is the state after some work requests of
the request have been posted, and `Undone` what a call that gives up leaves behind: the lanes it took
are given back, each once, when all work requests posted on them have completed with success, and
kept otherwise.

The work requests of one call have tokens of their own (`Distinct`), so that the outcome of each wait
of a rollback is the fate of one of them.
-/

namespace KvBench.Bench

open KvBench.Conc KvBench.Events
open Worker (setSlot setJetty stamp markPosted deactivate recordWr recordPost)

/-! ### The work requests of a call -/

/-- The first `k` work requests `wr` of the request in the slot `idx`, the last first. -/
def entries (idx : ℕ) (wr : ℕ → Wr) (fate : ℕ → Fate) : ℕ → List Posted
  | 0 => []
  | k + 1 => ⟨.slot idx k, wr k, fate k⟩ :: entries idx wr fate k

/-- The work requests have different tokens, and none that one of `old` waits for. -/
structure Distinct (wr : ℕ → Wr) (k : ℕ) (old : List Posted) : Prop where
  inj : ∀ j < k, ∀ j' < k, (wr j).token = (wr j').token → j = j'
  new : ∀ j < k, ∀ p ∈ old, p.fate = .pending → p.wr.token ≠ (wr j).token

section Entries

variable {idx k t : ℕ} {wr wr' : ℕ → Wr} {fate fate' : ℕ → Fate} {f : Fate} {old : List Posted}

theorem entries_congr (hwr : ∀ j < k, wr j = wr' j) (hfate : ∀ j < k, fate j = fate' j) :
    entries idx wr fate k = entries idx wr' fate' k := by
  induction k with
  | zero => rfl
  | succ k ih =>
    have ih := ih (fun j hj => hwr j (by omega)) fun j hj => hfate j (by omega)
    unfold entries
    rw [hwr k (by omega), hfate k (by omega), ih]

theorem mem_entries {p : Posted} :
    p ∈ entries idx wr fate k ↔ ∃ j < k, p = ⟨.slot idx j, wr j, fate j⟩ := by
  induction k with
  | zero => simp [entries]
  | succ k ih =>
    rw [entries, List.mem_cons, ih]
    constructor
    · rintro (rfl | ⟨j, hj, rfl⟩)
      · exact ⟨k, by omega, rfl⟩
      · exact ⟨j, by omega, rfl⟩
    · rintro ⟨j, hj, rfl⟩
      by_cases hjk : j = k
      · subst hjk
        exact .inl rfl
      · exact .inr ⟨j, by omega, rfl⟩

theorem settle_entries : settle t f (entries idx wr fate k) =
    entries idx wr (fun j => if (wr j).token = t ∧ fate j = .pending then f else fate j) k := by
  induction k with
  | zero => rfl
  | succ k ih =>
    unfold entries
    rw [← ih]
    unfold settle
    rw [List.map_cons]
    dsimp only
    split <;> rfl

theorem settle_of_not_awaited (h : ∀ p ∈ old, p.fate = .pending → p.wr.token ≠ t) :
    settle t f old = old := by
  refine (List.map_congr_left fun p hp => ?_).trans (List.map_id old)
  exact if_neg fun hc => h p hp hc.2 hc.1

/-- The fate of one work request of the call. -/
theorem Distinct.settle (hd : Distinct wr k old) {j : ℕ} (hj : j < k) (hpend : fate j = .pending) :
    settle (wr j).token f (entries idx wr fate k ++ old) =
      entries idx wr (Function.update fate j f) k ++ old := by
  have hold : Bench.settle (wr j).token f old = old := settle_of_not_awaited (hd.new j hj)
  have hnew : Bench.settle (wr j).token f (entries idx wr fate k) = _ := settle_entries
  have hfates : entries idx wr (fun j' => if (wr j').token = (wr j).token ∧ fate j' = .pending
      then f else fate j') k = entries idx wr (Function.update fate j f) k := by
    refine entries_congr (fun _ _ => rfl) fun j' hj' => ?_
    by_cases hjj : j' = j
    · subst hjj
      rw [if_pos ⟨rfl, hpend⟩, Function.update_self]
    · rw [if_neg fun hc => hjj (hd.inj j' hj' j hj hc.1), Function.update_of_ne hjj]
  rw [← hfates, ← hnew]
  unfold Bench.settle at hold ⊢
  rw [List.map_append, hold]

/-- A wait for a work request of the call decides its fate; it is successful exactly when the work
request is. -/
theorem Waited.settles {h h' : Sheet} {ok : Bool} {j : ℕ} (hw : Waited (wr j).token h ok h')
    (hd : Distinct wr k old) (hj : j < k) (hpend : fate j = .pending)
    (hposted : h.posted = entries idx wr fate k ++ old) :
    ∃ f, (ok = true ↔ f = .landed) ∧
      h' = { h with posted := entries idx wr (Function.update fate j f) k ++ old } := by
  have hsettle : ∀ f, h.settle (wr j).token f =
      { h with posted := entries idx wr (Function.update fate j f) k ++ old } := by
    intro f
    unfold Sheet.settle
    rw [hposted, hd.settle hj hpend]
  cases hw with
  | landed haw => exact ⟨.landed, by simp, hsettle _⟩
  | failed => exact ⟨.failed, by simp, hsettle _⟩
  | dropped hdrop =>
    cases hdrop with
    | nothing =>
      refine ⟨.pending, by simp, ?_⟩
      rw [← hpend, Function.update_eq_self, ← hposted]
    | aborted => exact ⟨.aborted, by simp, hsettle _⟩

end Entries

/-! ### Rolling back -/

/-- The work requests of the send `s` among the first `k` have all completed with success. -/
def SendLanded (fate : ℕ → Fate) (k s : ℕ) : Prop := ∀ j < k, j / kvWrPerSend = s → fate j = .landed

instance (fate : ℕ → Fate) (k s : ℕ) : Decidable (SendLanded fate k s) :=
  inferInstanceAs (Decidable (∀ j < k, _ → _))

/-- How often the lane `l` is given back when the first `s` sends are. -/
def givenBack (lane : ℕ → Lane) (fate : ℕ → Fate) (k s : ℕ) (l : Lane) : ℕ :=
  Nat.count (fun s' => lane s' = l ∧ SendLanded fate k s') s

/-- The sheet `h` once the work requests of the call have met their fates and the lanes of the first
`s` sends have been given back. -/
def Sheet.undo (h : Sheet) (idx : ℕ) (wr : ℕ → Wr) (lane : ℕ → Lane) (old : List Posted)
    (fate : ℕ → Fate) (k s : ℕ) : Sheet :=
  { h with
    posted := entries idx wr fate k ++ old
    released := fun l => h.released l + givenBack lane fate k s l }

/-- The lanes of the first `s` sends are no longer in the slot. -/
def Cell.clear (c : Cell) (s : ℕ) : Cell :=
  { c with jetty := fun s' => if s' < s then none else c.jetty s' }

@[simp] theorem Cell.clear_zero (c : Cell) : c.clear 0 = c := rfl

theorem Cell.clear_succ (c : Cell) (s : ℕ) :
    { c.clear s with jetty := Function.update (c.clear s).jetty s none } = c.clear (s + 1) := by
  refine congrArg (fun jetty => (⟨jetty, c.token, c.done, c.doneCnt⟩ : Cell)) (funext fun s' => ?_)
  show Function.update (fun s' => if s' < s then none else c.jetty s') s none s' =
    if s' < s + 1 then none else c.jetty s'
  by_cases hs : s' = s
  · subst hs
    rw [Function.update_self, if_pos (by omega)]
  · rw [Function.update_of_ne hs]
    by_cases hlt : s' < s
    · rw [if_pos hlt, if_pos (by omega)]
    · rw [if_neg hlt, if_neg (by omega)]

section Rollback

variable {idx k : ℕ} {wr : ℕ → Wr} {lane : ℕ → Lane} {old : List Posted} {fate fate' : ℕ → Fate}

theorem SendLanded.congr {s : ℕ} (h : ∀ j, j / kvWrPerSend = s → fate j = fate' j) :
    SendLanded fate k s ↔ SendLanded fate' k s := by
  unfold SendLanded
  constructor
  · intro hl j hj hs
    rw [← h j hs]
    exact hl j hj hs
  · intro hl j hj hs
    rw [h j hs]
    exact hl j hj hs

theorem givenBack_succ (s : ℕ) (l : Lane) : givenBack lane fate k (s + 1) l =
    givenBack lane fate k s l + if lane s = l ∧ SendLanded fate k s then 1 else 0 :=
  Nat.count_succ _ _

/-- Only the fates of the sends themselves matter. -/
theorem givenBack_congr {s : ℕ} (h : ∀ j, j / kvWrPerSend < s → fate j = fate' j) :
    givenBack lane fate k s = givenBack lane fate' k s := by
  induction s with
  | zero => rfl
  | succ s ih =>
    have ih := ih fun j hj => h j (by omega)
    have hs := SendLanded.congr (k := k) (s := s) fun j hj => h j (by omega)
    funext l
    rw [givenBack_succ, givenBack_succ, ih]
    simp only [hs]

variable {F : Face} {h : Sheet} (hd : Distinct wr k old)
include hd

/-- The waits for the work requests of one send: `completed` says whether all were successful. -/
theorem rollbackWrs_acts (timeoutMs : ℤ) {s : ℕ} (hs : s * kvWrPerSend ≤ k)
    (htok : ∀ j < k, (F.cells idx).token j = (wr j).token)
    (hposted : h.posted = entries idx wr fate k ++ old)
    (hpend : ∀ j, s ≤ j / kvWrPerSend → fate j = .pending) :
    Acts F h (Proc.each (rollbackWr timeoutMs idx) (s * kvWrPerSend)
      (min (s * kvWrPerSend + kvWrPerSend) k - s * kvWrPerSend) true) fun completed F' h' =>
      F' = F ∧ ∃ fate', (∀ j, j / kvWrPerSend ≠ s → fate' j = fate j) ∧
        (completed = true ↔ SendLanded fate' k s) ∧
        h' = { h with posted := entries idx wr fate' k ++ old } := by
  unfold SendLanded
  simp only [kvWrPerSend] at *
  refine Runs.post (Runs.each (fun n completed F' h' => F' = F ∧ ∃ fate',
    (∀ j, (j < s * 2 ∨ n ≤ j) → fate' j = fate j) ∧
      (completed = true ↔ ∀ j, s * 2 ≤ j → j < n → fate' j = .landed) ∧
      h' = { h with posted := entries idx wr fate' k ++ old }) ?_ ?_) ?_
  · rintro j completed F' h' hlo hhi ⟨hF, fate', hsame, hall, rfl⟩
    subst hF
    have hj : j < k := by omega
    have hjp : fate' j = .pending := (hsame j (.inr le_rfl)).trans (hpend j (by omega))
    refine Runs.get_bind fun m _ hm => ?_
    have htm : (m.wrSlots idx).eventToken j = (wr j).token :=
      (congrArg (fun c : Cell => c.token j) (Worker.cell_eq hm idx)).trans (htok j hj)
    dsimp only
    rw [htm]
    refine Acts.same_bind (waitEvent_acts (wr j).token_lt timeoutMs) fun ok h' hw => ?_
    obtain ⟨f, hok, rfl⟩ := hw.settles hd hj hjp rfl
    -- the fates with that of this work request
    have hsame' : ∀ j', (j' < s * 2 ∨ j + 1 ≤ j') → Function.update fate' j f j' = fate j' := by
      intro j' hj'
      rw [Function.update_of_ne (by omega)]
      exact hsame j' (by omega)
    have hnew : (∀ j', s * 2 ≤ j' → j' < j + 1 → Function.update fate' j f j' = .landed) ↔
        f = .landed ∧ ∀ j', s * 2 ≤ j' → j' < j → fate' j' = .landed := by
      constructor
      · intro hl
        refine ⟨by simpa using hl j hlo (by omega), fun j' h1 h2 => ?_⟩
        have := hl j' h1 (by omega)
        rwa [Function.update_of_ne (by omega)] at this
      · rintro ⟨hf, hl⟩ j' h1 h2
        by_cases hjj : j' = j
        · rw [hjj, Function.update_self, hf]
        · rw [Function.update_of_ne hjj]
          exact hl j' h1 (by omega)
    refine Runs.ite (fun ht => Acts.now_bind fun t => ?_) fun hf => ?_
    · refine Acts.unseen_bind (fun _ => rfl) (fun _ => rfl) (Runs.pure ⟨rfl, _, hsame', ?_, rfl⟩)
      rw [hnew, hall]
      exact ⟨fun hl => ⟨hok.1 ht, hl⟩, And.right⟩
    · refine Runs.pure ⟨rfl, _, hsame', ?_, rfl⟩
      rw [hnew]
      exact ⟨fun hc => absurd hc (by simp), fun hl => absurd (hok.2 hl.1) hf⟩
  · refine ⟨rfl, fate, fun _ _ => rfl, ?_, ?_⟩
    · exact ⟨fun _ j h1 h2 => absurd h1 (by omega), fun _ => rfl⟩
    · rw [← hposted]
  · rintro completed F' h' ⟨hF, fate', hsame, hall, hh⟩
    refine ⟨hF, fate', fun j hj => ?_, hall.trans ⟨fun hl j hj hjs => ?_, fun hl j h1 h2 => ?_⟩, hh⟩
    · by_cases hjk : j < s * 2 ∨ s * 2 + (min (s * 2 + 2) k - s * 2) ≤ j
      · exact hsame j hjk
      · omega
    · exact hl j (by omega) (by omega)
    · exact hl j (by omega) (by omega)

omit hd in
theorem undo_refate {s : ℕ} (hsame : ∀ j, j / kvWrPerSend ≠ s → fate' j = fate j) :
    { h.undo idx wr lane old fate k s with posted := entries idx wr fate' k ++ old } =
      h.undo idx wr lane old fate' k s := by
  have hgiven : givenBack lane fate k s = givenBack lane fate' k s :=
    givenBack_congr fun j hj => (hsame j (by omega)).symm
  unfold Sheet.undo
  rw [hgiven]

omit hd in
theorem undo_giveBack {s : ℕ} (hs : SendLanded fate k s) :
    (h.undo idx wr lane old fate k s).giveBack (lane s) = h.undo idx wr lane old fate k (s + 1) := by
  unfold Sheet.undo Sheet.giveBack
  congr 1
  funext l
  rw [givenBack_succ]
  by_cases hl : l = lane s
  · subst hl
    rw [Function.update_self, if_pos ⟨rfl, hs⟩]
    exact Nat.add_assoc _ _ _
  · rw [Function.update_of_ne hl, if_neg fun hc => hl hc.1.symm]
    rfl

omit hd in
theorem giveBack_undo (l : Lane) (s : ℕ) :
    (h.giveBack l).undo idx wr lane old fate k s =
      (h.undo idx wr lane old fate k s).giveBack l := by
  refine congrArg (fun released => ({ h with
    posted := entries idx wr fate k ++ old, released := released } : Sheet)) (funext fun l' => ?_)
  show Function.update h.released l (h.released l + 1) l' + _ =
    Function.update (fun l => h.released l + givenBack lane fate k s l) l _ l'
  by_cases hl : l' = l
  · subst hl
    rw [Function.update_self, Function.update_self]
    exact Nat.add_right_comm _ _ _
  · rw [Function.update_of_ne hl, Function.update_of_ne hl]

omit hd in
theorem undo_keep {s : ℕ} (hs : ¬ SendLanded fate k s) :
    h.undo idx wr lane old fate k s = h.undo idx wr lane old fate k (s + 1) := by
  unfold Sheet.undo
  congr 1
  funext l
  rw [givenBack_succ, if_neg fun hc => hs hc.2]
  rfl

/-- **The rollback**: it decides the fates of the work requests, and gives back the lane of a send
exactly when the send has landed. -/
theorem rollback_acts (op : Op) (timeoutMs : ℤ)
    (htok : ∀ j < k, (F.cells idx).token j = (wr j).token)
    (hjetty : ∀ s < (k + 1) / 2, (F.cells idx).jetty s = some (lane s))
    (hposted : h.posted = entries idx wr (fun _ => .pending) k ++ old) :
    Acts F h (rollback op timeoutMs idx k) fun _ F' h' =>
      F' = F.setCell idx ((F.cells idx).clear ((k + 1) / 2)) ∧
        ∃ fate, h' = h.undo idx wr lane old fate k ((k + 1) / 2) := by
  unfold rollback
  have hcount : (k + kvWrPerSend - 1) / kvWrPerSend = (k + 1) / 2 := rfl
  rw [hcount]
  refine Runs.post (Runs.each (fun s _ F' h' => F' = F.setCell idx ((F.cells idx).clear s) ∧
    ∃ fate : ℕ → Fate, (∀ j, s ≤ j / kvWrPerSend → fate j = .pending) ∧
      h' = h.undo idx wr lane old fate k s) ?_ ?_) ?_
  · rintro s _ F' h' - hs ⟨rfl, fate, hpend, rfl⟩
    have hcell := F.cells_setCell_self idx ((F.cells idx).clear s)
    unfold rollbackSend
    have hfirst : s * kvWrPerSend ≤ k := by
      simp only [kvWrPerSend]
      omega
    have htok' : ∀ j < k, ((F.setCell idx ((F.cells idx).clear s)).cells idx).token j =
        (wr j).token := by
      rw [hcell]
      exact htok
    refine Runs.bind (rollbackWrs_acts hd timeoutMs hfirst htok' rfl hpend) ?_
    rintro completed _ _ ⟨rfl, fate', hsame, hall, rfl⟩
    rw [undo_refate hsame]
    -- the lane leaves the slot in any case
    have hend : ∀ h', h' = h.undo idx wr lane old fate' k (s + 1) →
        Acts (F.setCell idx ((F.cells idx).clear s)) h' (modify (setJetty idx s none))
          fun _ F' h' => F' = F.setCell idx ((F.cells idx).clear (s + 1)) ∧
            ∃ fate : ℕ → Fate, (∀ j, s + 1 ≤ j / kvWrPerSend → fate j = .pending) ∧
              h' = h.undo idx wr lane old fate k (s + 1) := by
      rintro _ rfl
      refine Acts.slot (fun c => { c with jetty := Function.update c.jetty s none }) (fun _ => rfl)
        ⟨?_, fate', fun j hj => (hsame j (by omega)).trans (hpend j (by omega)), rfl⟩
      rw [hcell, Face.setCell_setCell, Cell.clear_succ]
    refine Runs.ite (fun hc => Runs.get_bind fun m _ hm => ?_) fun hc => ?_
    · have hj : (m.wrSlots idx).jetty s = some (lane s) := by
        have hcells := (Worker.cell_eq hm idx).trans hcell
        refine (congrArg (fun c : Cell => c.jetty s) hcells).trans ?_
        show (if s < s then none else _) = _
        rw [if_neg (by omega)]
        exact hjetty s (by omega)
      rw [hj]
      refine Acts.same_bind (releaseSendLane_acts _ _) fun _ h' hh => hend h' ?_
      rw [hh, ← undo_giveBack (hall.1 hc)]
      rfl
    · refine Acts.say_bind (hend _ ?_)
      exact undo_keep fun hl => hc (hall.2 hl)
  · refine ⟨?_, fun _ => .pending, fun _ _ => rfl, ?_⟩
    · rw [Cell.clear_zero, Face.setCell_self]
    · unfold Sheet.undo
      rw [← hposted]
      rfl
  · rintro _ F' h' ⟨hF, fate, -, hh⟩
    rw [Nat.zero_add] at hF hh
    exact ⟨hF, fate, hh⟩

end Rollback

/-! ### Posting -/

/-- In a call that started with `F₀` and `h₀`, `k` work requests of `size / 2` bytes have been posted
and `S` lanes taken. -/
structure Filling (F₀ : Face) (h₀ : Sheet) (idx size : ℕ) (wr : ℕ → Wr) (lane : ℕ → Lane) (k S : ℕ)
    (F : Face) (h : Sheet) : Prop where
  face : F = F₀.setCell idx (F.cells idx)
  jetty : ∀ s < S, (F.cells idx).jetty s = some (lane s)
  token : ∀ j < k, (F.cells idx).token j = (wr j).token
  undone : ∀ j < k, (F.cells idx).done j = false
  doneCnt : (F.cells idx).doneCnt = 0
  sheet : h = { h₀ with
    posted := entries idx wr (fun _ => .pending) k ++ h₀.posted
    acquired := fun l => h₀.acquired l + Nat.count (lane · = l) S }
  distinct : Distinct wr k h₀.posted
  lanes : ∀ s < S, ∀ s' < S, lane s = lane s' → s = s'
  idle : ∀ s < S, h₀.acquired (lane s) = h₀.released (lane s)
  wrLane : ∀ j < k, (wr j).lane = lane (j / 2)
  wrLen : ∀ j < k, (wr j).len = size / 2 % 2 ^ 32

/-- The call has given up after `k` work requests and `S` lanes: the work requests have met their
`fate`, and the lanes whose work requests landed are given back. -/
structure Undone (F₀ : Face) (h₀ : Sheet) (idx : ℕ) (wr : ℕ → Wr) (lane : ℕ → Lane)
    (fate : ℕ → Fate) (k S : ℕ) (F : Face) (h : Sheet) : Prop where
  face : F = F₀.setCell idx (F.cells idx)
  sheet : h = { h₀ with
    posted := entries idx wr fate k ++ h₀.posted
    acquired := fun l => h₀.acquired l + Nat.count (lane · = l) S
    released := fun l => h₀.released l + givenBack lane fate k S l }
  distinct : Distinct wr k h₀.posted
  lanes : ∀ s < S, ∀ s' < S, lane s = lane s' → s = s'
  idle : ∀ s < S, h₀.acquired (lane s) = h₀.released (lane s)
  wrLane : ∀ j < k, (wr j).lane = lane (j / 2) ∧ j / 2 < S

/-- The call has given up. -/
def GaveUp (F₀ : Face) (h₀ : Sheet) (idx : ℕ) (F : Face) (h : Sheet) : Prop :=
  ∃ wr lane fate k S, Undone F₀ h₀ idx wr lane fate k S F h

section Posting

variable {F₀ F : Face} {h₀ h : Sheet} {idx size k S : ℕ} {wr : ℕ → Wr} {lane : ℕ → Lane}
  {ctx : Context} {p : Pipe}

theorem giveUp_acts {old : List Posted} (hd : Distinct wr k old)
    (htok : ∀ j < k, (F.cells idx).token j = (wr j).token)
    (hjetty : ∀ s < (k + 1) / 2, (F.cells idx).jetty s = some (lane s))
    (hposted : h.posted = entries idx wr (fun _ => .pending) k ++ old) :
    Acts F h (giveUp ctx p idx k) fun r F' h' => r = some (-1) ∧
      F' = F.setCell idx ((F.cells idx).clear ((k + 1) / 2)) ∧
        ∃ fate, h' = h.undo idx wr lane old fate k ((k + 1) / 2) := by
  have hroll := fun op => rollback_acts (F := F) hd op ctx.args.timeoutMs htok hjetty hposted
  unfold giveUp
  refine Runs.bind (Q := fun _ F' h' =>
    F' = F.setCell idx ((F.cells idx).clear ((k + 1) / 2)) ∧
      ∃ fate, h' = h.undo idx wr lane old fate k ((k + 1) / 2)) ?_ ?_
  · cases p.op with
    | write => exact hroll _
    | get => exact hroll _
    | mixed => exact hroll _
  · intro _ F' h' hFh
    exact Acts.unseen_slot_bind (fun _ => rfl) (Runs.pure ⟨rfl, hFh⟩)

/-- Giving up when no lane has been taken for the next work request. -/
theorem Filling.giveUp (hP : Filling F₀ h₀ idx size wr lane k ((k + 1) / 2) F h) :
    Acts F h (giveUp ctx p idx k) fun r F' h' => r = some (-1) ∧ GaveUp F₀ h₀ idx F' h' := by
  have hposted : h.posted = entries idx wr (fun _ => .pending) k ++ h₀.posted := by rw [hP.sheet]
  refine (giveUp_acts hP.distinct hP.token hP.jetty hposted).post ?_
  rintro r F' h' ⟨hr, rfl, fate, rfl⟩
  refine ⟨hr, wr, lane, fate, k, (k + 1) / 2, ?_, ?_, hP.distinct, hP.lanes, hP.idle, ?_⟩
  · rw [hP.face]
    simp
  · unfold Sheet.undo
    rw [hP.sheet]
  · exact fun j hj => ⟨hP.wrLane j hj, by omega⟩

/-- Giving up when the next work request has a lane. -/
theorem Filling.returnLane (hP : Filling F₀ h₀ idx size wr lane k (k / 2 + 1) F h) :
    Acts F h (do
        returnLane idx k (some (lane (k / 2)))
        Bench.giveUp ctx p idx k) fun r F' h' => r = some (-1) ∧ GaveUp F₀ h₀ idx F' h' := by
  by_cases hk : k % kvWrPerSend = 0
  · have hk' : k % 2 = 0 := hk
    have hhalf : (k + 1) / 2 = k / 2 := by omega
    refine Runs.bind (Q := fun _ F' h' => F' = F.setCell idx { F.cells idx with
      jetty := Function.update (F.cells idx).jetty (k / 2) none } ∧
        h' = h.giveBack (lane (k / 2))) ?_ ?_
    · unfold Bench.returnLane
      rw [if_pos hk]
      refine Acts.same_bind (releaseSendLane_acts _ _) fun _ h' hh => ?_
      exact Acts.slot (fun c => { c with jetty := Function.update c.jetty (k / 2) none })
        (fun _ => rfl) ⟨rfl, hh⟩
    rintro _ _ _ ⟨rfl, rfl⟩
    have hposted : (h.giveBack (lane (k / 2))).posted =
        entries idx wr (fun _ => .pending) k ++ h₀.posted := by
      show h.posted = _
      rw [hP.sheet]
    have hjetty : ∀ s < (k + 1) / 2, ((F.setCell idx { F.cells idx with
        jetty := Function.update (F.cells idx).jetty (k / 2) none }).cells idx).jetty s =
          some (lane s) := by
      intro s hs
      rw [Face.cells_setCell_self]
      show Function.update (F.cells idx).jetty (k / 2) none s = _
      rw [Function.update_of_ne (by omega)]
      exact hP.jetty s (by omega)
    refine (giveUp_acts hP.distinct ?_ hjetty hposted).post ?_
    · intro j hj
      rw [Face.cells_setCell_self]
      exact hP.token j hj
    rintro r F' h' ⟨hr, rfl, fate, rfl⟩
    refine ⟨hr, wr, lane, fate, k, k / 2 + 1, ?_, ?_, hP.distinct, hP.lanes, hP.idle, ?_⟩
    · rw [hP.face]
      simp
    · -- the send without work requests counts as one that has landed
      have hvac : SendLanded fate k (k / 2) := fun j hj hs => by
        simp only [kvWrPerSend] at hs
        omega
      rw [hhalf, giveBack_undo, undo_giveBack hvac]
      unfold Sheet.undo
      rw [hP.sheet]
    · exact fun j hj => ⟨hP.wrLane j hj, by omega⟩
  · have hk' : k % 2 ≠ 0 := hk
    have hhalf : k / 2 + 1 = (k + 1) / 2 := by omega
    rw [hhalf] at hP
    refine Runs.bind (Q := fun _ F' h' => F' = F ∧ h' = h) ?_ ?_
    · unfold Bench.returnLane
      rw [if_neg hk]
      exact Runs.pure ⟨rfl, rfl⟩
    · rintro _ _ _ ⟨rfl, rfl⟩
      exact hP.giveUp

theorem count_update (lane : ℕ → Lane) (S : ℕ) (l l' : Lane) :
    Nat.count (fun s => Function.update lane S l s = l') (S + 1) =
      Nat.count (lane · = l') S + if l = l' then 1 else 0 := by
  have hsame : ∀ s < S, Function.update lane S l s = lane s := fun s hs =>
    Function.update_of_ne (by omega) _ _
  rw [Nat.count_succ, Function.update_self]
  congr 1
  refine le_antisymm (Nat.count_mono_left fun s hs h => ?_) (Nat.count_mono_left fun s hs h => ?_)
  · rwa [hsame s hs] at h
  · rwa [hsame s hs]

/-- The call starts. -/
theorem Filling.start (F₀ : Face) (h₀ : Sheet) (idx size : ℕ) : ∃ wr lane,
    Filling F₀ h₀ idx size wr lane 0 ((0 + 1) / 2)
      (F₀.setCell idx { F₀.cells idx with doneCnt := 0 }) h₀ := by
  refine ⟨fun _ => ⟨0, 0, 0, 0, 0, 0, 0, false⟩, fun _ => 0, ?_⟩
  have hnone : ∀ j, ¬ j < 0 := Nat.not_lt_zero
  refine ⟨by simp, fun s hs => absurd hs (hnone s), fun j hj => absurd hj (hnone j),
    fun j hj => absurd hj (hnone j), by simp, ?_, ⟨fun j hj => absurd hj (hnone j),
    fun j hj => absurd hj (hnone j)⟩, fun s hs => absurd hs (hnone s),
    fun s hs => absurd hs (hnone s), fun j hj => absurd hj (hnone j),
    fun j hj => absurd hj (hnone j)⟩
  rfl

/-- A lane is taken: it is none of those the call has already. -/
theorem Filling.take (hP : Filling F₀ h₀ idx size wr lane k S F h) (hk : k ≤ 2 * S) {l : Lane}
    (hl : h.acquired l = h.released l) :
    Filling F₀ h₀ idx size wr (Function.update lane S l) k (S + 1)
      (F.setCell idx { F.cells idx with jetty := Function.update (F.cells idx).jetty S (some l) })
      (h.take l) := by
  have hsame : ∀ s, s ≠ S → Function.update lane S l s = lane s := fun s hs =>
    Function.update_of_ne hs _ _
  have hcount : h₀.acquired l + Nat.count (lane · = l) S = h₀.released l := by
    rw [hP.sheet] at hl
    exact hl
  have hnew : ∀ s < S, lane s ≠ l := by
    rintro s hs rfl
    have hidle := hP.idle s hs
    have h0 : Nat.count (lane · = lane s) S = 0 := by omega
    exact Nat.count_iff_forall_not.1 h0 s hs rfl
  have hzero : Nat.count (lane · = l) S = 0 := Nat.count_iff_forall_not.2 hnew
  refine ⟨?_, fun s hs => ?_, ?_, ?_, ?_, ?_, hP.distinct, fun s hs s' hs' hss => ?_, fun s hs => ?_,
    fun j hj => ?_, hP.wrLen⟩
  · rw [hP.face]
    simp
  · rw [Face.cells_setCell_self]
    show Function.update (F.cells idx).jetty S (some l) s = _
    by_cases hsS : s = S
    · rw [hsS, Function.update_self, Function.update_self]
    · rw [Function.update_of_ne hsS, hsame s hsS]
      exact hP.jetty s (by omega)
  · rw [Face.cells_setCell_self]
    exact hP.token
  · rw [Face.cells_setCell_self]
    exact hP.undone
  · rw [Face.cells_setCell_self]
    exact hP.doneCnt
  · rw [hP.sheet]
    refine congrArg (fun acquired => (⟨_, h₀.tally, acquired, h₀.released⟩ : Sheet)) ?_
    funext l'
    show Function.update _ l _ l' = _
    rw [count_update]
    by_cases hll : l' = l
    · subst hll
      rw [Function.update_self, if_pos rfl]
      exact Nat.add_assoc _ _ _
    · rw [Function.update_of_ne hll, if_neg (Ne.symm hll), Nat.add_zero]
  · by_cases h1 : s = S <;> by_cases h2 : s' = S
    · rw [h1, h2]
    · subst h1
      rw [Function.update_self, hsame s' h2] at hss
      exact absurd hss.symm (hnew s' (by omega))
    · subst h2
      rw [Function.update_self, hsame s h1] at hss
      exact absurd hss (hnew s (by omega))
    · rw [hsame s h1, hsame s' h2] at hss
      exact hP.lanes s (by omega) s' (by omega) hss
  · by_cases hsS : s = S
    · rw [hsS, Function.update_self]
      omega
    · rw [hsame s hsS]
      exact hP.idle s (by omega)
  · rw [hsame _ (by omega)]
    exact hP.wrLane j hj

/-- A work request is posted, on the lane of its send and with a token nobody waits for. -/
theorem Filling.post (hP : Filling F₀ h₀ idx size wr lane k S F h) {r : Wr}
    (hlane : r.lane = lane (k / 2)) (hlen : r.len = size / 2 % 2 ^ 32) (hfree : ¬ h.Awaits r.token) :
    Filling F₀ h₀ idx size (Function.update wr k r) lane (k + 1) S
      (F.setCell idx { F.cells idx with
        token := Function.update (F.cells idx).token k r.token
        done := Function.update (F.cells idx).done k false }) (h.post (.slot idx k) r) := by
  have hsame : ∀ j, j ≠ k → Function.update wr k r j = wr j := fun j hj =>
    Function.update_of_ne hj _ _
  have hposted : h.posted = entries idx wr (fun _ => .pending) k ++ h₀.posted := by rw [hP.sheet]
  -- the token is none of those of the call, and none of the older ones
  have hcall : ∀ j < k, (wr j).token ≠ r.token := by
    intro j hj heq
    refine hfree ⟨⟨.slot idx j, wr j, .pending⟩, ?_, rfl, heq⟩
    rw [hposted]
    exact List.mem_append_left _ (mem_entries.2 ⟨j, hj, rfl⟩)
  have hold : ∀ q ∈ h₀.posted, q.fate = .pending → q.wr.token ≠ r.token := by
    intro q hq hpend heq
    refine hfree ⟨q, ?_, hpend, heq⟩
    rw [hposted]
    exact List.mem_append_right _ hq
  refine ⟨?_, ?_, fun j hj => ?_, fun j hj => ?_, ?_, ?_, ⟨fun j hj j' hj' hjj => ?_,
    fun j hj => ?_⟩, hP.lanes, hP.idle, fun j hj => ?_, fun j hj => ?_⟩
  · rw [hP.face]
    simp
  · rw [Face.cells_setCell_self]
    exact hP.jetty
  · rw [Face.cells_setCell_self]
    show Function.update (F.cells idx).token k r.token j = _
    by_cases hjk : j = k
    · rw [hjk, Function.update_self, Function.update_self]
    · rw [Function.update_of_ne hjk, hsame j hjk]
      exact hP.token j (by omega)
  · rw [Face.cells_setCell_self]
    show Function.update (F.cells idx).done k false j = _
    by_cases hjk : j = k
    · rw [hjk, Function.update_self]
    · rw [Function.update_of_ne hjk]
      exact hP.undone j (by omega)
  · rw [Face.cells_setCell_self]
    exact hP.doneCnt
  · unfold Sheet.post entries
    rw [Function.update_self, hposted, entries_congr (fun j hj => hsame j (by omega)) fun _ _ => rfl,
      hP.sheet]
    rfl
  · by_cases h1 : j = k <;> by_cases h2 : j' = k
    · rw [h1, h2]
    · subst h1
      rw [Function.update_self, hsame j' h2] at hjj
      exact absurd hjj.symm (hcall j' (by omega))
    · subst h2
      rw [Function.update_self, hsame j h1] at hjj
      exact absurd hjj (hcall j (by omega))
    · rw [hsame j h1, hsame j' h2] at hjj
      exact hP.distinct.inj j (by omega) j' (by omega) hjj
  · by_cases hjk : j = k
    · rw [hjk, Function.update_self]
      exact hold
    · rw [hsame j hjk]
      exact hP.distinct.new j (by omega)
  · by_cases hjk : j = k
    · rw [hjk, Function.update_self]
      exact hlane
    · rw [hsame j hjk]
      exact hP.wrLane j (by omega)
  · by_cases hjk : j = k
    · rw [hjk, Function.update_self]
      exact hlen
    · rw [hsame j hjk]
      exact hP.wrLen j (by omega)

/-- An event that no posted work request waits for can be dropped. -/
theorem Dropped.eq {t : ℕ} {h' : Sheet} (hd : Dropped t h h') (hfree : ¬ h.Awaits t) : h' = h := by
  cases hd with
  | nothing => rfl
  | aborted =>
    unfold Sheet.settle
    rw [settle_of_not_awaited fun p hp hpend heq => hfree ⟨p, hp, hpend, heq⟩]

/-! ### The post functions -/

theorem postOnLane_acts (hP : Filling F₀ h₀ idx p.size wr lane k (k / 2 + 1) F h) (reqSeq : ℕ)
    (src dst : ℤ) :
    Acts F h (postOnLane ctx p idx reqSeq k src dst (some (lane (k / 2)))) fun r F' h' =>
      r.elim (∃ wr, Filling F₀ h₀ idx p.size wr lane (k + 1) (k / 2 + 1) F' h')
        fun rc => rc = -1 ∧ GaveUp F₀ h₀ idx F' h' := by
  have hgive : Acts F h (do
      returnLane idx k (some (lane (k / 2)))
      giveUp ctx p idx k) fun r F' h' =>
      r.elim (∃ wr, Filling F₀ h₀ idx p.size wr lane (k + 1) (k / 2 + 1) F' h')
        fun rc => rc = -1 ∧ GaveUp F₀ h₀ idx F' h' := by
    refine hP.returnLane.post ?_
    rintro r F' h' ⟨rfl, hg⟩
    exact ⟨rfl, hg⟩
  unfold postOnLane
  refine Acts.same_bind postEvent_acts ?_
  rintro ⟨ue, token⟩ h' ⟨rfl, htoken⟩
  refine Runs.ite (fun _ => Acts.say_bind hgive) fun hue => ?_
  obtain ⟨-, hmask⟩ := htoken hue
  refine Acts.now_bind fun t => Acts.unseen_slot_bind (fun _ => rfl) (Acts.now_bind fun t0 => ?_)
  refine Runs.get_bind fun m _ _ => Acts.same_bind (postRw_acts _ _ _ _ _ _ _ _ _) ?_
  rintro ok h'' ⟨r, ⟨hlane, hlen, htok⟩, hfree, rfl⟩
  refine Acts.now_bind fun t1 => Acts.unseen_bind (fun _ => rfl) (fun _ => rfl) ?_
  have htok : r.token = token := htok.trans hmask
  cases ok with
  | true =>
    refine Acts.slot_bind (fun c => { c with
      token := Function.update c.token k token
      done := Function.update c.done k false }) (fun _ => rfl) (Runs.pure ?_)
    have hnext := hP.post hlane hlen hfree
    rw [htok] at hnext
    exact ⟨_, hnext⟩
  | false =>
    refine Acts.say_bind (Acts.same_bind abortEvent_acts fun _ h'' hdrop => ?_)
    rw [htok] at hfree
    rw [hdrop.eq hfree]
    exact hgive

theorem chooseChips_acts (send : ℕ) : Still F h (chooseChips ctx send) := by
  unfold chooseChips
  exact Runs.get_bind fun m hm hF => Runs.set_bind hm hF (Runs.pure ⟨rfl, rfl⟩)

theorem postWr_acts (hP : Filling F₀ h₀ idx p.size wr lane k ((k + 1) / 2) F h) (reqSeq : ℕ) :
    Acts F h (postWr ctx p idx reqSeq k) fun r F' h' =>
      r.elim (∃ wr lane, Filling F₀ h₀ idx p.size wr lane (k + 1) ((k + 1 + 1) / 2) F' h')
        fun rc => rc = -1 ∧ GaveUp F₀ h₀ idx F' h' := by
  have hnext : (k + 1 + 1) / 2 = k / 2 + 1 := by omega
  unfold postWr
  refine Still.bind (chooseChips_acts _) ?_
  rintro ⟨src, dst⟩
  rw [hnext]
  refine Runs.ite (fun heven => ?_) fun hodd => ?_
  · have heven : k % 2 = 0 := heven
    have hhalf : (k + 1) / 2 = k / 2 := by omega
    refine Acts.same_bind (acquireSendLane_acts _) ?_
    rintro (_ | l) h' ⟨rfl, hl⟩
    · refine Acts.say_bind (hP.giveUp.post ?_)
      rintro r F' h' ⟨rfl, hg⟩
      exact ⟨rfl, hg⟩
    · rw [hhalf] at hP
      have htaken := hP.take (by omega) (hl l rfl)
      refine Acts.slot_bind (fun c => { c with jetty := Function.update c.jetty (k / 2) (some l) })
        (fun _ => rfl) ?_
      have hpost := @postOnLane_acts _ _ _ _ _ _ _ _ ctx _ htaken reqSeq src dst
      rw [Function.update_self] at hpost
      refine hpost.post ?_
      rintro (_ | rc) F' h' hr
      · exact ⟨hr.choose, _, hr.choose_spec⟩
      · exact hr
  · have hodd : k % 2 ≠ 0 := hodd
    have hhalf : (k + 1) / 2 = k / 2 + 1 := by omega
    rw [hhalf] at hP
    refine Runs.get_bind fun m _ hm => ?_
    have hjetty : (m.wrSlots idx).jetty (k / kvWrPerSend) = some (lane (k / 2)) :=
      (congrArg (fun c : Cell => c.jetty (k / 2)) (Worker.cell_eq hm idx)).trans
        (hP.jetty (k / 2) (by omega))
    dsimp only
    rw [hjetty]
    refine (postOnLane_acts hP reqSeq src dst).post ?_
    rintro (_ | rc) F' h' hr
    · exact ⟨hr.choose, _, hr.choose_spec⟩
    · exact hr

/-- **The post functions**: they post a whole request, or give up. -/
theorem postOne_acts (reqSeq : ℕ) : Acts F h (postOne ctx p idx reqSeq) fun rc F' h' =>
    (rc = 0 ∧ ∃ wr lane F₁, Filling F h idx p.size wr lane kvWrPerReq kvSendsPerReq F₁ h' ∧
      F' = { F₁ with activeSlots := F₁.activeSlots ++ [idx] }) ∨
    (rc = -1 ∧ GaveUp F h idx F' h') := by
  unfold postOne
  refine Acts.act_bind fun _ _ => ?_
  refine Acts.slot_bind (fun c => { c with doneCnt := 0 }) (fun _ => rfl) (Acts.now_bind fun t => ?_)
  refine Acts.unseen_slot_bind (fun _ => rfl) ?_
  refine Runs.bind (Runs.search (fun k F' h' => ∃ wr lane,
    Filling F h idx p.size wr lane k ((k + 1) / 2) F' h')
    (fun rc F' h' => rc = -1 ∧ GaveUp F h idx F' h') ?_ ?_) ?_
  · rintro k F' h' - - ⟨wr, lane, hP⟩
    refine (postWr_acts hP reqSeq).post ?_
    rintro (_ | rc) F' h' hr
    · exact hr
    · exact hr
  · exact Filling.start F h idx p.size
  · rintro (_ | rc) F' h' hr
    · obtain ⟨wr, lane, hP⟩ := hr
      refine Acts.modify_bind { F' with activeSlots := F'.activeSlots ++ [idx] } (fun _ => rfl)
        (fun m hm => by rw [← hm]; rfl) (Runs.pure (.inl ⟨rfl, wr, lane, F', hP, rfl⟩))
    · exact Runs.pure (.inr hr)

end Posting

end KvBench.Bench
