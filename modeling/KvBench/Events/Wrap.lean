import KvBench.Events.Refine

/-!
# Runs of any length

The generations of a slot wrap around after `2 ^ 32 - 1` acquisitions, so a long run issues the same
token again. What the words and the free stack of a pool say about its tokens does not depend on
that (`pool_representation`), and a token that has been taken stays without effect for as long as
its slot has not run through all generations (`stale_tokens_inert`).
-/

namespace KvBench.Events

open KvBench.Conc

/-- `Available`. -/
def EventSlots.available (ev : EventSlots) : ℕ := ev.freeSlots.length

/-- The representation invariant of `EventSlotPool`: the free stack lists the slots whose word is
`0`, and every other word is that of a token of the slot's current generation. -/
structure PoolRep (ev : EventSlots) (states : ℕ → ℕ) : Prop where
  nodup : ev.freeSlots.Nodup
  free : ∀ i, i ∈ ev.freeSlots ↔ i < 256 ∧ states i = 0
  word : ∀ i < 256, states i ≠ 0 → ∃ token tag, states i = token <<< 2 ||| tag ∧ tag ≤ 2 ∧
    token &&& kSlotMask = i ∧ token >>> kSlotBits = ev.generations i

/-- The slot of a compare-exchange from `0`. -/
def SlotAct.zeroSlot : {β : Type} → SlotAct β → Option ℕ
  | _, .casStrong i expected _ => if expected = 0 then some i else none
  | _, _ => none

/-- The slot that the rest of an operation is about to exchange from `0`; only `Acquire` does. -/
def zeroSlot : Prog EventSlots SlotAct (Event × EventSlots) → Option ℕ
  | .act _ e _ => e.zeroSlot
  | _ => none

/-! ### The words between two operations -/

theorem encode_eq_zero_iff {tr : List Event} (htr : ProperTrace tr) (i : ℕ) :
    encode (view tr i) = 0 ↔ view tr i = none := by
  cases hv : view tr i with
  | none => simp [encode]
  | some x =>
    obtain ⟨t, o⟩ := x
    obtain ⟨-, h0, ht⟩ := htr.held_small hv
    cases o with
    | none => simpa [encode] using pending_ne_zero h0 ht
    | some ok => simpa [encode] using done_ne_zero ht ok

/-- The word of a token and its tag. -/
theorem encode_eq_or {t : ℕ} (ht : t < 2 ^ 40) (o : Option Bool) :
    ∃ tag, encode (some (t, o)) = t <<< 2 ||| tag ∧ tag ≤ 2 := by
  have hshift : pending t = t <<< 2 := by rw [pending_eq ht, Nat.shiftLeft_eq]
  cases o with
  | none => exact ⟨0, by simp [encode, hshift], by norm_num⟩
  | some ok =>
    refine ⟨if ok then 1 else 2, by simp [encode, done, hshift], ?_⟩
    split <;> norm_num

section Idle

variable {c : PoolRun} (h : c.Inv) (hidle : c.running = none)
include h hidle

theorem PoolRun.Inv.rep : PoolRep c.slots c.states where
  nodup := (h.idle hidle).nodup
  free i := by
    rw [(h.idle hidle).free]
    refine and_congr_right fun hi => ?_
    rw [h.states i hi, encode_eq_zero_iff h.proper]
  word i hi hne := by
    rw [h.states i hi] at hne ⊢
    cases hv : view c.trace i with
    | none => simp [hv, encode] at hne
    | some x =>
      obtain ⟨t, o⟩ := x
      obtain ⟨hidx, -, ht⟩ := h.proper.held_small hv
      obtain ⟨-, -, heq⟩ := h.proper.held hv
      obtain ⟨tag, htag, hle⟩ := encode_eq_or ht o
      refine ⟨t, tag, htag, hle, hidx, ?_⟩
      rw [(h.idle hidle).generation i hi, heq, tokenOf_eq _ hi, Nat.shiftRight_eq_div_pow, kSlotBits]
      omega

/-- **Every slot is free or holds one token.** -/
theorem PoolRun.Inv.available_add_live :
    c.slots.available + {t | Live (view c.trace) t}.ncard = 256 := by
  set held := (Finset.range 256).filter (fun i => view c.trace i ≠ none) with hheld
  have himage : index '' {t | Live (view c.trace) t} = held := by
    ext i
    simp only [Set.mem_image, Set.mem_ofPred_eq, hheld, Finset.coe_filter, Finset.mem_range]
    constructor
    · rintro ⟨t, ⟨o, ho⟩, rfl⟩
      exact ⟨index_lt t, by simp [ho]⟩
    · rintro ⟨-, hne⟩
      obtain ⟨⟨t, o⟩, ho⟩ := Option.ne_none_iff_exists'.1 hne
      have hidx := (h.proper.held_small ho).1
      exact ⟨t, ⟨o, by rw [hidx, ho]⟩, hidx⟩
  have hinj : Set.InjOn index {t | Live (view c.trace) t} := by
    rintro t ⟨o, ho⟩ t' ⟨o', ho'⟩ heq
    rw [heq, ho'] at ho
    simpa using (congrArg (Option.map Prod.fst) ho).symm
  have hcard : {t | Live (view c.trace) t}.ncard = held.card := by
    rw [← hinj.ncard_image, himage, Set.ncard_coe_finset]
  have hfree : c.slots.freeSlots.toFinset =
      (Finset.range 256).filter (fun i => ¬ view c.trace i ≠ none) := by
    ext i
    rw [List.mem_toFinset, (h.idle hidle).free]
    simp
  have hlen : c.slots.available =
      ((Finset.range 256).filter (fun i => ¬ view c.trace i ≠ none)).card := by
    rw [← hfree, List.toFinset_card_of_nodup (h.idle hidle).nodup]
    rfl
  rw [hcard, hlen, add_comm, hheld, Finset.card_filter_add_card_filter_not, Finset.card_range]

/-- **A whole `Acquire`**: it is refused when the free stack is empty and succeeds otherwise. -/
theorem PoolRun.Inv.acquire_outcome (spurious : Bool) :
    (c.slots.freeSlots = [] ∧
        c.plays [.call .acquire, .access spurious] =
          { c with trace := c.trace ++ [.refused] }) ∨
      (c.slots.freeSlots ≠ [] ∧
        ∃ t, (c.plays [.call .acquire, .access spurious]).trace = c.trace ++ [.acquired t]) := by
  have hslots := h.idle hidle
  have hstates := h.states
  obtain ⟨⟨gens, free⟩, running, states, trace⟩ := c
  obtain rfl : running = none := hidle
  cases free with
  | nil => exact Or.inl ⟨rfl, rfl⟩
  | cons i rest =>
    have hi := (hslots.free i).1 (by simp)
    have hzero : states i = 0 := by
      have := hstates i hi.1
      rw [hi.2] at this
      exact this
    refine Or.inr ⟨by simp, tokenOf (nextGeneration (gens i)) i, ?_⟩
    simp only [PoolRun.plays, List.foldl_cons, List.foldl_nil, PoolRun.play, acquire_prog,
      PoolRun.continue, SlotAct.run, hzero, if_true]

end Idle

/-- The exchange of `Acquire` finds a free slot, whatever has happened since it took the slot. -/
theorem PoolRun.Inv.zeroSlot_free {c : PoolRun} (h : c.Inv) {i : ℕ}
    (hi : c.running.bind zeroSlot = some i) : c.states i = 0 := by
  obtain ⟨p, hp, hz⟩ := Option.bind_eq_some_iff.1 hi
  have hstage := h.busy p hp
  cases hstage with
  | @acquire gens j rest hslots =>
    obtain ⟨hj, hv⟩ := (hslots.free j).1 (by simp)
    obtain rfl : j = i := by
      rw [acquire_prog] at hz
      simpa [zeroSlot, SlotAct.zeroSlot] using hz
    rw [h.states j hj, hv]
    rfl
  | probe hslots h0 ht =>
    rw [probe_prog _ h0] at hz
    simp [zeroSlot, SlotAct.zeroSlot] at hz
  | probeDone hslots ht hv =>
    rw [probeRest_done] at hz
    simp [zeroSlot, SlotAct.zeroSlot, done_ne_zero ht] at hz
  | abort hslots h0 ht =>
    rw [abort_prog _ h0] at hz
    simp [zeroSlot, SlotAct.zeroSlot] at hz
  | @abortHead ev t v hslots h0 ht hv =>
    obtain ⟨body, b, k, hloop, -⟩ := unroll_abortRest ev t v
    rw [hloop] at hz
    simp [zeroSlot] at hz
  | abortCas hslots h0 ht hv => simp [abortCas, zeroSlot, SlotAct.zeroSlot] at hz

/-- **The representation invariant of the event pool**, in every run: between two operations the
free stack and the words say which slots are free and what the others hold, the free slots and the
live tokens make up 256, and `Acquire` fails exactly when 256 tokens are live; its compare-exchange
never fails, also not when completions come in between. -/
theorem pool_representation (mvs : List PoolMove) (hsmall : ∀ mv ∈ mvs, mv.Small) :
    let c := PoolRun.fresh.plays mvs
    (c.running = none →
      PoolRep c.slots c.states ∧
      c.slots.available + {t | Live (view c.trace) t}.ncard = 256 ∧
      ∀ spurious, let c' := c.plays [.call .acquire, .access spurious]
        (c'.trace = c.trace ++ [.refused] ↔ {t | Live (view c.trace) t}.ncard = 256) ∧
        ({t | Live (view c.trace) t}.ncard ≠ 256 → ∃ t, c'.trace = c.trace ++ [.acquired t])) ∧
    ∀ i, c.running.bind zeroSlot = some i → c.states i = 0 := by
  intro c
  have h : c.Inv := PoolRun.fresh_inv.plays hsmall
  refine ⟨fun hidle => ⟨h.rep hidle, h.available_add_live hidle, fun spurious => ?_⟩,
    fun i hi => h.zeroSlot_free hi⟩
  intro c'
  have hsum := h.available_add_live hidle
  rcases h.acquire_outcome hidle spurious with ⟨hnil, hplay⟩ | ⟨hne, t, hplay⟩
  · have h0 : c.slots.available = 0 := by simp [EventSlots.available, hnil]
    have htr : c'.trace = c.trace ++ [.refused] := congrArg PoolRun.trace hplay
    exact ⟨⟨fun _ => by omega, fun _ => htr⟩, fun hlt => absurd (by omega) hlt⟩
  · have hpos : 0 < c.slots.available := List.length_pos_of_ne_nil hne
    have htr : c'.trace = c.trace ++ [.acquired t] := hplay
    exact ⟨⟨fun heq => by simp [htr] at heq, fun heq => by omega⟩, fun _ => ⟨t, htr⟩⟩

/-- A pool with one live token. -/
theorem pool_representation_one :
    let c := PoolRun.fresh.plays [.call .acquire, .access false]
    c.running = none ∧ PoolRep c.slots c.states := by
  have h := pool_representation [.call .acquire, .access false] (by simp [PoolMove.Small])
  exact ⟨rfl, (h.1 rfl).1⟩

/-! ### Stale tokens -/

section Stale

variable {c : PoolRun} (h : c.Inv) {t : ℕ} (hlive : ¬ Live (view c.trace) t)
include h hlive

theorem PoolRun.Inv.complete_stale (ht : t < 2 ^ 40) (ok : Bool) :
    c.play (.complete t ok) = { c with trace := c.trace ++ [.completed t ok] } := by
  have hsame : complete t ok c.states = c.states := by
    rcases Nat.eq_zero_or_pos t with rfl | h0
    · rfl
    · rw [complete_eq h0, if_neg]
      exact fun hp => hlive ⟨_, (word_eq_pending_iff h.proper h.states h0.ne' ht).1 hp⟩
  simp only [PoolRun.play, hsame]

variable (hidle : c.running = none)
include hidle

/-- **A whole `Probe`** of a token that is not in its slot. -/
theorem PoolRun.Inv.probe_stale (h0 : t ≠ 0) (ht : t < 2 ^ 40) (spurious : Bool) :
    c.plays [.call (.probe t), .access spurious] =
      { c with trace := c.trace ++ [.probed t 0] } := by
  have hne : ∀ ok, c.states (index t) ≠ done t ok := fun ok hok =>
    hlive ⟨_, (word_eq_done_iff h.proper h.states ht ok).1 hok⟩
  obtain ⟨slots, running, states, trace⟩ := c
  obtain rfl : running = none := hidle
  simp only [PoolRun.plays, List.foldl_cons, List.foldl_nil, PoolRun.play, probe_prog slots h0,
    PoolRun.continue, SlotAct.run, probeRest_of_ne slots hne]

/-- **A whole `Abort`** of a token that is not in its slot. -/
theorem PoolRun.Inv.abort_stale (h0 : t ≠ 0) (spurious spurious' : Bool) :
    c.plays [.call (.abort t), .access spurious, .access spurious'] =
      { c with trace := c.trace ++ [.aborted t false] } := by
  have hne : ¬ c.states (index t) >>> 2 = t := fun hw =>
    hlive ((word_shift_iff h.proper h.states h0).1 hw)
  obtain ⟨slots, running, states, trace⟩ := c
  obtain rfl : running = none := hidle
  obtain ⟨body, b, k, hloop, hunroll⟩ := unroll_abortRest slots t (states (index t))
  rw [if_neg hne] at hunroll
  simp only [PoolRun.plays, List.foldl_cons, List.foldl_nil, PoolRun.play, abort_prog slots h0,
    PoolRun.continue, SlotAct.run, hloop, hunroll]

end Stale

/-- **Stale tokens are inert** up to the exact wrap of the generations, in runs of any length:
tokens are non-zero and have 40 bits; between two issues of one token lie at least `2 ^ 32 - 2`
other acquisitions of its slot; and as long as the slot of a token that has been taken was acquired
fewer than `2 ^ 32 - 1` times since, `Complete`, `Probe` and `Abort` of the token leave the pool as
it is. -/
theorem stale_tokens_inert (mvs : List PoolMove) (hsmall : ∀ mv ∈ mvs, mv.Small) :
    let c := PoolRun.fresh.plays mvs
    (∀ t, Event.acquired t ∈ c.trace → 0 < t ∧ t < 2 ^ 40) ∧
    (∀ t pre mid post, c.trace = pre ++ .acquired t :: mid ++ .acquired t :: post →
      2 ^ 32 - 2 ≤ acquisitions mid (index t)) ∧
    ∀ t e pre post, c.trace = pre ++ e :: post → e.Consumes t = true →
      acquisitions post (index t) < 2 ^ 32 - 1 →
      (∀ ok, c.play (.complete t ok) = { c with trace := c.trace ++ [.completed t ok] }) ∧
      (c.running = none →
        (∀ s, c.plays [.call (.probe t), .access s] =
          { c with trace := c.trace ++ [.probed t 0] }) ∧
        ∀ s s', c.plays [.call (.abort t), .access s, .access s'] =
          { c with trace := c.trace ++ [.aborted t false] }) := by
  intro c
  have h : c.Inv := PoolRun.fresh_inv.plays hsmall
  refine ⟨fun t hmem => ?_, fun t pre mid post htr => ?_, fun t e pre post htr hc hb => ?_⟩
  · obtain ⟨pre, post, htr⟩ := List.append_of_mem hmem
    have hproper : ProperTrace (pre ++ .acquired t :: post) := htr ▸ h.proper
    rw [hproper.issued]
    obtain ⟨h1, h2, -⟩ := tokenOf_genOf (Nat.succ_pos (acquisitions pre (index t))) (index_lt t)
    exact ⟨h1, h2⟩
  · exact (htr ▸ h.proper).reissued
  · have hproper : ProperTrace (pre ++ e :: post) := htr ▸ h.proper
    have hlive : ¬ Live (view c.trace) t := htr ▸ hproper.stale hc hb
    obtain ⟨⟨o, ho⟩, -⟩ := hproper.last.live_of_consumes hc
    obtain ⟨-, h0, ht⟩ := hproper.of_append.held_small ho
    exact ⟨h.complete_stale hlive ht, fun hidle =>
      ⟨h.probe_stale hlive hidle h0.ne' ht, h.abort_stale hlive hidle h0.ne'⟩⟩

/-- A token that was completed and probed, and then completed once more. -/
theorem stale_tokens_inert_run :
    let c := PoolRun.fresh.plays [.call .acquire, .access false, .complete 256 true,
      .call (.probe 256), .access false, .access false]
    c.trace = [.acquired 256, .completed 256 true, .probed 256 1] ∧
      c.play (.complete 256 false) = { c with trace := c.trace ++ [.completed 256 false] } := by
  have h := stale_tokens_inert [.call .acquire, .access false, .complete 256 true,
      .call (.probe 256), .access false, .access false] (by simp [PoolMove.Small])
  exact ⟨by decide, (h.2.2 256 (.probed 256 1) [.acquired 256, .completed 256 true] [] (by decide)
    (by decide) (by decide)).1 false⟩

end KvBench.Events
