import KvBench.Conc.Prog

/-!
# The completion events of one worker (`event_slot_pool.h`)

`EventSlotPool` has 256 slots. The worker issues a token by taking a slot from its free stack and
moving the slot's atomic word from `0` to pending; the completion thread moves it from pending to
done; the worker consumes it back to `0`. A token is a generation and a slot index, so a late
completion misses the slot once the slot has a new token.

The atomic words `states_` are shared; `generations_` and the free stack belong to the worker and
form `EventSlots`. The operations of the worker are programs over the three atomic accesses they
use. They are written against a `Port`, which says where the memory of a thread keeps its
`EventSlots` and how its actions embed these accesses.
-/

namespace KvBench.Events

open KvBench.Conc

/-- `kSlotCount`. -/
def kSlotCount : ℕ := 256

/-- `kSlotBits`. -/
def kSlotBits : ℕ := 8

/-- `kSlotMask`. -/
def kSlotMask : ℕ := kSlotCount - 1

/-- The members of `EventSlotPool` that only the worker touches. -/
structure EventSlots where
  generations : ℕ → ℕ
  /-- `freeSlots_[0 .. freeCount_)`, the top of the stack first. -/
  freeSlots : List ℕ

/-- The atomic accesses to `states_`. A compare-exchange responds with `none` when it has exchanged
the value, and otherwise with the value it found. -/
inductive SlotAct : Type → Type where
  | load (index : ℕ) : SlotAct ℕ
  | casStrong (index expected desired : ℕ) : SlotAct (Option ℕ)
  | casWeak (index expected desired : ℕ) : SlotAct (Option ℕ)

/-- The effect of an access; a weak compare-exchange may fail although the value is the expected
one. -/
def SlotAct.run (spurious : Bool) : {β : Type} → SlotAct β → (ℕ → ℕ) → β × (ℕ → ℕ)
  | _, .load index, states => (states index, states)
  | _, .casStrong index expected desired, states =>
    if states index = expected then (none, Function.update states index desired)
    else (some (states index), states)
  | _, .casWeak index expected desired, states =>
    if states index = expected ∧ spurious = false then
      (none, Function.update states index desired)
    else (some (states index), states)

theorem SlotAct.run_casStrong (spurious : Bool) (index expected desired : ℕ) (states : ℕ → ℕ) :
    SlotAct.run spurious (.casStrong index expected desired) states =
      if states index = expected then (none, Function.update states index desired)
      else (some (states index), states) := rfl

/-! ### Tokens and slot words -/

/-- `Pending`. -/
def pending (token : ℕ) : ℕ := (token <<< 2) % 2 ^ 64

/-- `Done`. -/
def done (token : ℕ) (ok : Bool) : ℕ := pending token ||| (if ok then 1 else 2)

/-- `Index`. -/
def index (token : ℕ) : ℕ := token &&& kSlotMask

/-- The generation after `generation` in 32 bits, as `Acquire` steps it: `0` is left out. -/
def nextGeneration (generation : ℕ) : ℕ :=
  if (generation + 1) % 2 ^ 32 = 0 then ((generation + 1) % 2 ^ 32 + 1) % 2 ^ 32
  else (generation + 1) % 2 ^ 32

/-- The token of a generation and a slot. -/
def tokenOf (generation index : ℕ) : ℕ := (generation <<< kSlotBits) ||| index

/-- `Release`. -/
def EventSlots.release (ev : EventSlots) (index : ℕ) : EventSlots :=
  { ev with freeSlots := index :: ev.freeSlots }

/-- The constructor of `EventSlotPool`: slot 0 is on top of the stack. -/
def EventSlots.fresh : EventSlots := ⟨fun _ => 0, List.range kSlotCount⟩

/-- The same when the slots `taken` are in use elsewhere. -/
def EventSlots.without (taken : List ℕ) : EventSlots :=
  { EventSlots.fresh with freeSlots := EventSlots.fresh.freeSlots.filter (· ∉ taken) }

theorem EventSlots.mem_without {taken : List ℕ} {k : ℕ} :
    k ∈ (EventSlots.without taken).freeSlots ↔ k < kSlotCount ∧ k ∉ taken := by
  have hfree : EventSlots.fresh.freeSlots = List.range kSlotCount := by
    simp only [EventSlots.fresh]
  unfold EventSlots.without
  rw [List.mem_filter, hfree, List.mem_range, decide_eq_true_eq]

theorem EventSlots.nodup_without (taken : List ℕ) :
    (EventSlots.without taken).freeSlots.Nodup :=
  List.nodup_range.filter _

@[simp] theorem EventSlots.without_nil : EventSlots.without [] = EventSlots.fresh := by
  unfold EventSlots.without
  have hall : EventSlots.fresh.freeSlots.filter (· ∉ ([] : List ℕ)) = EventSlots.fresh.freeSlots :=
    List.filter_eq_self.2 fun k _ => decide_eq_true List.not_mem_nil
  rw [hall]

/-- `Complete`: the completion thread's compare-exchange from pending to done. -/
def complete (token : ℕ) (ok : Bool) (states : ℕ → ℕ) : ℕ → ℕ :=
  if token = 0 then states
  else (SlotAct.run false (.casStrong (index token) (pending token) (done token ok)) states).2

/-! ### The operations of the worker -/

/-- A thread with memory `M` and actions `A` that owns an `EventSlotPool`. -/
structure Port (M : Type) (A : Type → Type) where
  slots : M → EventSlots
  setSlots : EventSlots → M → M
  access : {β : Type} → SlotAct β → A β

section Operations

variable {M : Type} {A : Type → Type} (p : Port M A)

/-- `Acquire`: the token, or `none` when it returns `false`. -/
def Port.acquire : Proc M A (Option ℕ) := do
  let ev := p.slots (← get)
  match ev.freeSlots with
  | [] => pure none
  | index :: rest =>
    let generation := nextGeneration (ev.generations index)
    let token := tokenOf generation index
    modify (p.setSlots ⟨Function.update ev.generations index generation, rest⟩)
    match ← Proc.act (p.access (.casStrong index 0 (pending token))) with
    | none => pure (some token)
    | some _ =>
      modify fun m => p.setSlots ((p.slots m).release index) m
      pure none

/-- The end of `Probe`, once the slot has been read as `value`. -/
def Port.probeValue (token value : ℕ) : Proc M A ℤ := do
  if value ≠ done token true ∧ value ≠ done token false then pure 0
  else
    match ← Proc.act (p.access (.casStrong (index token) value 0)) with
    | some _ => pure 0
    | none =>
      modify fun m => p.setSlots ((p.slots m).release (index token)) m
      pure (if value = done token true then 1 else -1)

/-- `Probe`. -/
def Port.probe (token : ℕ) : Proc M A ℤ := do
  if token = 0 then pure 0
  else
    let value ← Proc.act (p.access (.load (index token)))
    p.probeValue token value

/-- One round of the loop of `Abort`. -/
def Port.abortRound (token value : ℕ) : Proc M A (ℕ ⊕ Bool) := do
  if value >>> 2 = token then
    match ← Proc.act (p.access (.casWeak (index token) value 0)) with
    | none =>
      modify fun m => p.setSlots ((p.slots m).release (index token)) m
      pure (.inr true)
    | some found => pure (.inl found)
  else pure (.inr false)

/-- `Abort`. -/
def Port.abort (token : ℕ) : Proc M A Bool := do
  if token = 0 then pure false
  else
    let value ← Proc.act (p.access (.load (index token)))
    Proc.loop (p.abortRound token) value

end Operations

/-! ### Arithmetic of tokens and words -/

theorem pending_eq {token : ℕ} (h : token < 2 ^ 40) : pending token = token * 4 := by
  unfold pending
  rw [Nat.shiftLeft_eq, Nat.mod_eq_of_lt (by omega)]

theorem done_eq {token : ℕ} (h : token < 2 ^ 40) (ok : Bool) :
    done token ok = token * 4 + if ok then 1 else 2 := by
  unfold done
  rw [pending_eq h, show token * 4 = 2 ^ 2 * token by ring]
  cases ok
  · exact (Nat.two_pow_add_eq_or_of_lt (i := 2) (b := 2) (by norm_num) token).symm
  · exact (Nat.two_pow_add_eq_or_of_lt (i := 2) (b := 1) (by norm_num) token).symm

theorem index_eq (token : ℕ) : index token = token % 256 := by
  exact Nat.and_two_pow_sub_one_eq_mod token 8

theorem index_lt (token : ℕ) : index token < 256 := by
  rw [index_eq]; omega

theorem tokenOf_eq {i : ℕ} (generation : ℕ) (hi : i < 256) :
    tokenOf generation i = generation * 256 + i := by
  unfold tokenOf
  rw [kSlotBits, Nat.shiftLeft_eq, Nat.mul_comm,
    ← Nat.two_pow_add_eq_or_of_lt (i := 8) (by simpa using hi)]

theorem pending_ne_zero {t : ℕ} (h0 : 0 < t) (ht : t < 2 ^ 40) : pending t ≠ 0 := by
  rw [pending_eq ht]; omega

theorem done_ne_zero {t : ℕ} (ht : t < 2 ^ 40) (ok : Bool) : done t ok ≠ 0 := by
  rw [done_eq ht]; split <;> omega

theorem pending_ne_done {t t' : ℕ} (ht : t < 2 ^ 40) (ht' : t' < 2 ^ 40) (ok : Bool) :
    pending t ≠ done t' ok := by
  rw [pending_eq ht, done_eq ht']; split <;> omega

theorem pending_inj {t t' : ℕ} (ht : t < 2 ^ 40) (ht' : t' < 2 ^ 40) (h : pending t = pending t') :
    t = t' := by
  rw [pending_eq ht, pending_eq ht'] at h; omega

theorem done_inj {t t' : ℕ} {ok ok' : Bool} (ht : t < 2 ^ 40) (ht' : t' < 2 ^ 40)
    (h : done t ok = done t' ok') : t = t' ∧ ok = ok' := by
  rw [done_eq ht, done_eq ht'] at h
  cases ok <;> cases ok' <;> simp at h ⊢ <;> omega

theorem pending_shift {t : ℕ} (ht : t < 2 ^ 40) : pending t >>> 2 = t := by
  rw [pending_eq ht, Nat.shiftRight_eq_div_pow]; omega

theorem done_shift {t : ℕ} (ht : t < 2 ^ 40) (ok : Bool) : done t ok >>> 2 = t := by
  rw [done_eq ht, Nat.shiftRight_eq_div_pow]; split <;> omega

/-- A completion reaches the slot when its token is pending there. -/
theorem complete_eq {t : ℕ} (h0 : 0 < t) (ok : Bool) (states : ℕ → ℕ) :
    complete t ok states =
      if states (index t) = pending t then Function.update states (index t) (done t ok)
      else states := by
  unfold complete
  rw [if_neg (by omega), SlotAct.run_casStrong]
  split <;> rfl

/-! ### The tokens of one slot -/

/-- The generation of the `k`-th token a slot issues. -/
def genOf (k : ℕ) : ℕ := nextGeneration^[k] 0

theorem genOf_succ (k : ℕ) : genOf (k + 1) = nextGeneration (genOf k) :=
  Function.iterate_succ_apply' _ _ _

/-- The generations run through `1 .. 2 ^ 32 - 1` and start again. -/
theorem genOf_eq {k : ℕ} (hk : 1 ≤ k) : genOf k = (k - 1) % (2 ^ 32 - 1) + 1 := by
  induction k, hk using Nat.le_induction with
  | base => rfl
  | succ k hk ih =>
    rw [genOf_succ, ih, nextGeneration]
    split <;> omega

/-- Tokens of a slot repeat only after all generations. -/
theorem genOf_ne {a b : ℕ} (ha : 1 ≤ a) (hab : a < b) (hb : b - a < 2 ^ 32 - 1) :
    genOf a ≠ genOf b := by
  rw [genOf_eq ha, genOf_eq (by omega)]
  omega

theorem tokenOf_genOf {k i : ℕ} (hk : 1 ≤ k) (hi : i < 256) :
    0 < tokenOf (genOf k) i ∧ tokenOf (genOf k) i < 2 ^ 40 ∧ index (tokenOf (genOf k) i) = i := by
  rw [index_eq, tokenOf_eq _ hi, genOf_eq hk]
  omega

theorem tokenOf_inj {g g' i : ℕ} (hi : i < 256) (h : tokenOf g i = tokenOf g' i) : g = g' := by
  rw [tokenOf_eq _ hi, tokenOf_eq _ hi] at h
  omega

end KvBench.Events
