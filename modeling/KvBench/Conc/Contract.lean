import KvBench.Conc.Prog

/-!
# Contracts

A `Contract` says what a program owes when it makes an action, and where it may find itself with the
response. `Safe` is partial correctness with respect to a contract, by a bound on the number of steps
that are looked at; `Ok` is total correctness, so that a loop is only `Ok` when it ends.

Both are a `Judgement`: they say the same of a return, of an action and of one round of a loop, and
they carry over from a point to another one that allows for nothing else. The rules for procedures
(`Spec`) are proved from that once. Only the rules for loops differ: one asks for an invariant
(`Spec.loop`), the other one for a variant as well (`Spec.loop_of_variant`).
-/

namespace KvBench.Conc

/-- What is asked of a program with memory `M` at the points `X` of its runs. -/
structure Contract (M X : Type) (A : Type → Type) where
  /-- What the program owes when it makes an action. -/
  duty : {β : Type} → M → X → A β → Prop
  /-- The points at which the program may go on with a response. -/
  next : {β : Type} → M → X → A β → β → X → Prop

section Contract

variable {M X V α β γ : Type} {A : Type → Type} (C : Contract M X A)

/-- Whatever may follow at the second of two related points may follow at the first one, and leads to
related points again. -/
def Contract.Follows (R : X → X → Prop) : Prop :=
  ∀ {β : Type} m (e : A β) x y, R x y → C.duty m x e →
    C.duty m y e ∧ ∀ r y', C.next m y e r y' → ∃ x', C.next m x e r x' ∧ R x' y'

theorem Contract.follows_eq : C.Follows Eq := by
  rintro β m e x _ rfl hduty
  exact ⟨hduty, fun r y hy => ⟨y, hy, rfl⟩⟩

/-- In its first `n` steps the program does what it owes, and if it returns, then with `Q`. -/
def Safe (Q : α → X → Prop) : ℕ → Prog M A α → X → Prop
  | 0, _, _ => True
  | _ + 1, .ret a, x => Q a x
  | n + 1, .act m e k, x => C.duty m x e ∧ ∀ r y, C.next m x e r y → Safe Q n (k r) y
  | n + 1, .loop body b k, x => Safe Q n (.unroll body b k) x

/-- The program does what it owes, comes to an end, and returns with `Q`. -/
inductive Ok {α : Type} (Q : α → X → Prop) : Prog M A α → X → Prop
  | ret {a : α} {x : X} (h : Q a x) : Ok Q (.ret a) x
  | act {β : Type} {m : M} {e : A β} {k : β → Prog M A α} {x : X} (hduty : C.duty m x e)
      (hnext : ∀ r y, C.next m x e r y → Ok Q (k r) y) : Ok Q (.act m e k) x
  | loop {β γ : Type} {body : β → Prog M A (β ⊕ γ)} {b : β} {k : γ → Prog M A α} {x : X}
      (h : Ok Q (.unroll body b k) x) : Ok Q (.loop body b k) x

variable {C}

theorem Safe.follow {R : X → X → Prop} (hR : C.Follows R) {Q : α → X → Prop} {Q' : β → X → Prop}
    {f : α → Prog M A β} {n : ℕ} (hf : ∀ a x y, R x y → Q a x → ∀ n' ≤ n, Safe C Q' n' (f a) y)
    {p : Prog M A α} {x y : X} (hxy : R x y) (h : Safe C Q n p x) : Safe C Q' n (p.bind f) y := by
  induction n generalizing p x y with
  | zero => trivial
  | succ n ih =>
    have hf' : ∀ a x y, R x y → Q a x → ∀ n' ≤ n, Safe C Q' n' (f a) y :=
      fun a x y hxy ha n' hn => hf a x y hxy ha n' (by omega)
    cases p with
    | ret a => exact hf a x y hxy h (n + 1) le_rfl
    | act m e k =>
      obtain ⟨hduty, hback⟩ := hR m e x y hxy h.1
      refine ⟨hduty, fun r y' hy' => ?_⟩
      obtain ⟨x', hx', hxy'⟩ := hback r y' hy'
      exact ih hf' hxy' (h.2 r x' hx')
    | loop body b k =>
      show Safe C Q' n (.unroll body b fun c => (k c).bind f) y
      rw [← Prog.unroll_bind]
      exact ih hf' hxy h

theorem Ok.follow {R : X → X → Prop} (hR : C.Follows R) {Q : α → X → Prop} {Q' : β → X → Prop}
    {f : α → Prog M A β} (hf : ∀ a x y, R x y → Q a x → Ok C Q' (f a) y) {p : Prog M A α} {x y : X}
    (hxy : R x y) (h : Ok C Q p x) : Ok C Q' (p.bind f) y := by
  induction h generalizing y with
  | ret h => exact hf _ _ y hxy h
  | act hduty _ ih =>
    obtain ⟨hduty', hback⟩ := hR _ _ _ y hxy hduty
    refine .act hduty' fun r y' hy' => ?_
    obtain ⟨x', hx', hxy'⟩ := hback r y' hy'
    exact ih r x' hx' hxy'
  | loop _ ih =>
    refine .loop ?_
    rw [← Prog.unroll_bind]
    exact ih hxy

/-! ### Judgements -/

variable (C) in
/-- A way to judge programs by a contract. -/
structure Judgement where
  holds : {α : Type} → (α → X → Prop) → Prog M A α → X → Prop
  ret : ∀ {α : Type} {Q : α → X → Prop} {a : α} {x : X}, holds Q (.ret a) x ↔ Q a x
  act : ∀ {α β : Type} {Q : α → X → Prop} {m : M} {e : A β} {k : β → Prog M A α} {x : X},
    holds Q (.act m e k) x ↔ C.duty m x e ∧ ∀ r y, C.next m x e r y → holds Q (k r) y
  loop : ∀ {α β γ : Type} {Q : α → X → Prop} {body : β → Prog M A (β ⊕ γ)} {b : β}
    {k : γ → Prog M A α} {x : X}, holds Q (.loop body b k) x ↔ holds Q (.unroll body b k) x
  follow : ∀ {R : X → X → Prop}, C.Follows R → ∀ {α β : Type} {Q : α → X → Prop}
    {Q' : β → X → Prop} {f : α → Prog M A β}, (∀ a x y, R x y → Q a x → holds Q' (f a) y) →
    ∀ {p : Prog M A α} {x y : X}, R x y → holds Q p x → holds Q' (p.bind f) y

variable (C) in
/-- Partial correctness. -/
def Contract.safe : Judgement C where
  holds Q p x := ∀ n, Safe C Q n p x
  ret := by
    intro α Q a x
    refine ⟨fun h => h 1, fun h n => ?_⟩
    cases n with
    | zero => trivial
    | succ n => exact h
  act := by
    intro α β Q m e k x
    refine ⟨fun h => ⟨(h 1).1, fun r y hy n => (h (n + 1)).2 r y hy⟩, fun h n => ?_⟩
    cases n with
    | zero => trivial
    | succ n => exact ⟨h.1, fun r y hy => h.2 r y hy n⟩
  loop := by
    intro α β γ Q body b k x
    refine ⟨fun h n => h (n + 1), fun h n => ?_⟩
    cases n with
    | zero => trivial
    | succ n => exact h n
  follow hR _ _ _ _ _ hf _ _ _ hxy h n :=
    Safe.follow hR (fun a x y hxy ha n' _ => hf a x y hxy ha n') hxy (h n)

/-- A program that owes nothing is safe. -/
theorem Contract.safe_of_duty (hduty : ∀ {β : Type} m x (e : A β), C.duty m x e) (p : Prog M A α)
    (x : X) : C.safe.holds (fun _ _ => True) p x := by
  intro n
  induction n generalizing p x with
  | zero => trivial
  | succ n ih =>
    cases p with
    | ret a => trivial
    | act m e k => exact ⟨hduty m x e, fun r y _ => ih (k r) y⟩
    | loop body b k => exact ih _ x

variable (C) in
/-- Total correctness. -/
def Contract.total : Judgement C where
  holds := Ok C
  ret := by
    intro α Q a x
    refine ⟨fun h => ?_, .ret⟩
    cases h with
    | ret h => exact h
  act := by
    intro α β Q m e k x
    refine ⟨fun h => ?_, fun h => .act h.1 h.2⟩
    cases h with
    | act hduty hnext => exact ⟨hduty, hnext⟩
  loop := by
    intro α β γ Q body b k x
    refine ⟨fun h => ?_, .loop⟩
    cases h with
    | loop h => exact h
  follow hR _ _ _ _ _ hf _ _ _ := Ok.follow hR hf

namespace Judgement

variable (J : Judgement C) {Q : α → X → Prop} {p : Prog M A α} {x : X}

theorem bind {R : β → X → Prop} {f : α → Prog M A β} (h : J.holds Q p x)
    (hf : ∀ a x, Q a x → J.holds R (f a) x) : J.holds R (p.bind f) x := by
  refine J.follow C.follows_eq ?_ rfl h
  rintro a x _ rfl
  exact hf a x

/-- The points of a run can be replaced by others. -/
theorem transfer {R : X → X → Prop} (hR : C.Follows R) {Q' : α → X → Prop}
    (hQ : ∀ a x y, R x y → Q a x → Q' a y) {y : X} (hxy : R x y) (h : J.holds Q p x) :
    J.holds Q' p y := by
  rw [← p.bind_ret]
  exact J.follow hR (fun a x y hxy ha => J.ret.2 (hQ a x y hxy ha)) hxy h

theorem mono {Q' : α → X → Prop} (h : J.holds Q p x) (hQ : ∀ a x, Q a x → Q' a x) :
    J.holds Q' p x := by
  refine J.transfer C.follows_eq ?_ rfl h
  rintro a x _ rfl
  exact hQ a x

/-- What every action keeps still holds at the return. -/
theorem frame {F : X → Prop}
    (hF : ∀ {β : Type} m (e : A β) x r y, C.next m x e r y → F x → F y) (h : J.holds Q p x)
    (hx : F x) : J.holds (fun a x => Q a x ∧ F x) p x := by
  have hR : C.Follows fun x y => x = y ∧ F x := by
    rintro β m e x _ ⟨rfl, hx⟩ hduty
    exact ⟨hduty, fun r y hy => ⟨y, hy, rfl, hF m e x r y hy hx⟩⟩
  refine J.transfer hR ?_ ⟨rfl, hx⟩ h
  rintro a x _ ⟨rfl, hx⟩ ha
  exact ⟨ha, hx⟩

end Judgement

/-! ### Specifications of procedures -/

/-- Started with `P`, the procedure does what it owes and returns with `Q`; the assertions are about
what `v` shows of a point. -/
structure Spec (J : Judgement C) (v : X → V) (P : M → V → Prop) (c : Proc M A α)
    (Q : α → M → V → Prop) : Prop where
  holds : ∀ m x, P m (v x) → J.holds (fun am y => Q am.1 am.2 (v y)) (c m) x

namespace Spec

variable {J : Judgement C} {v : X → V} {P P' : M → V → Prop} {c d : Proc M A α}
  {Q Q' : α → M → V → Prop} {R : β → M → V → Prop}

/-- Assertions about what is shown of a point are assertions about the point. -/
theorem of_points (hc : Spec J id (fun m x => P m (v x)) c fun a m x => Q a m (v x)) :
    Spec J v P c Q :=
  ⟨hc.holds⟩

theorem pure {a : α} (h : ∀ m w, P m w → Q a m w) : Spec J v P (Pure.pure a) Q :=
  ⟨fun m x hP => J.ret.2 (h m (v x) hP)⟩

theorem bind {f : α → Proc M A β} (hc : Spec J v P c Q) (hf : ∀ a, Spec J v (Q a) (f a) R) :
    Spec J v P (c >>= f) R :=
  ⟨fun m x hP => J.bind (hc.holds m x hP) fun am y hQ => (hf am.1).holds am.2 y hQ⟩

theorem get_bind {f : M → Proc M A β}
    (hf : ∀ m₀, Spec J v (fun m w => m = m₀ ∧ P m w) (f m₀) R) : Spec J v P (get >>= f) R :=
  ⟨fun m x hP => (hf m).holds m x ⟨rfl, hP⟩⟩

theorem set_bind (P' : M → V → Prop) {m' : M} {f : PUnit → Proc M A β}
    (hm : ∀ m w, P m w → P' m' w) (hf : Spec J v P' (f ⟨⟩) R) : Spec J v P (set m' >>= f) R :=
  ⟨fun m x hP => hf.holds m' x (hm m (v x) hP)⟩

theorem modify_bind (P' : M → V → Prop) {g : M → M} {f : PUnit → Proc M A β}
    (hg : ∀ m w, P m w → P' (g m) w) (hf : Spec J v P' (f ⟨⟩) R) : Spec J v P (modify g >>= f) R :=
  ⟨fun m x hP => hf.holds (g m) x (hg m (v x) hP)⟩

theorem modify {g : M → M} {R : PUnit → M → V → Prop} (hg : ∀ m w, P m w → R ⟨⟩ (g m) w) :
    Spec J v P (modify g) R :=
  ⟨fun m x hP => J.ret.2 (hg m (v x) hP)⟩

theorem conseq (hc : Spec J v P c Q) (hP : ∀ m w, P' m w → P m w)
    (hQ : ∀ a m w, Q a m w → Q' a m w) : Spec J v P' c Q' :=
  ⟨fun m x h => J.mono (hc.holds m x (hP m (v x) h)) fun am y => hQ am.1 am.2 (v y)⟩

theorem pre (hc : Spec J v P c Q) (hP : ∀ m w, P' m w → P m w) : Spec J v P' c Q :=
  hc.conseq hP fun _ _ _ h => h

theorem post (hc : Spec J v P c Q) (hQ : ∀ a m w, Q a m w → Q' a m w) : Spec J v P c Q' :=
  hc.conseq (fun _ _ h => h) hQ

theorem ite {p : Prop} [Decidable p] (hc : p → Spec J v P c Q) (hd : ¬ p → Spec J v P d Q) :
    Spec J v P (if p then c else d) Q := by
  by_cases h : p
  · rw [if_pos h]
    exact hc h
  · rw [if_neg h]
    exact hd h

/-- A fact that does not depend on the run is available to the proof. -/
theorem of_fact {p : Prop} (hp : ∀ m w, P m w → p) (hc : p → Spec J v P c Q) : Spec J v P c Q :=
  ⟨fun m x hP => (hc (hp m (v x) hP)).holds m x hP⟩

theorem of_exists {ι : Sort*} {P : ι → M → V → Prop} (hc : ∀ a, Spec J v (P a) c Q) :
    Spec J v (fun m w => ∃ a, P a m w) c Q :=
  ⟨fun m x ⟨a, ha⟩ => (hc a).holds m x ha⟩

theorem or (hc : Spec J v P c Q) (hc' : Spec J v P' c Q) :
    Spec J v (fun m w => P m w ∨ P' m w) c Q := by
  refine ⟨fun m x h => h.elim (fun hP => ?_) fun hP => ?_⟩
  · exact hc.holds m x hP
  · exact hc'.holds m x hP

/-- A conjunct that does not depend on the run. -/
theorem and {p : Prop} (hc : p → Spec J v P c Q) : Spec J v (fun m w => p ∧ P m w) c Q :=
  ⟨fun m x hP => (hc hP.1).holds m x hP.2⟩

/-- One action. -/
theorem act {e : A β} (hduty : ∀ m x, P m (v x) → C.duty m x e)
    (hnext : ∀ m x r y, P m (v x) → C.next m x e r y → R r m (v y)) : Spec J v P (Proc.act e) R :=
  ⟨fun m x hP => J.act.2 ⟨hduty m x hP, fun r y hy => J.ret.2 (hnext m x r y hP hy)⟩⟩

/-- The rule for `Proc.each`: `I k` holds before round `k`. -/
theorem each {f : ℕ → β → Proc M A β} (I : ℕ → β → M → V → Prop) {start count : ℕ}
    (hf : ∀ k b, start ≤ k → k < start + count →
      Spec J v (I k b) (f k b) (fun b' => I (k + 1) b')) (b : β) :
    Spec J v (I start b) (Proc.each f start count b) (fun b' => I (start + count) b') := by
  induction count generalizing start b with
  | zero => exact pure fun m w h => h
  | succ count ih =>
    refine bind (hf start b le_rfl (by omega)) fun b' => ?_
    have hrest : Spec J v (I (start + 1) b') (Proc.each f (start + 1) count b')
        (fun b' => I (start + 1 + count) b') :=
      ih (fun k b hk hlt => hf k b (by omega) (by omega)) b'
    rwa [show start + 1 + count = start + (count + 1) by omega] at hrest

/-- The rule for `Proc.search`: `I k` holds before round `k`, and a round that leaves establishes
`Z`. -/
theorem search {f : ℕ → Proc M A (Option β)} (I : ℕ → M → V → Prop) (Z : β → M → V → Prop)
    {start count : ℕ}
    (hf : ∀ k, start ≤ k → k < start + count →
      Spec J v (I k) (f k) (fun r => r.elim (I (k + 1)) Z)) :
    Spec J v (I start) (Proc.search f start count) (fun r => r.elim (I (start + count)) Z) := by
  induction count generalizing start with
  | zero => exact pure fun m w h => h
  | succ count ih =>
    refine bind (hf start le_rfl (by omega)) fun r => ?_
    cases r with
    | some b => exact pure fun m w h => h
    | none =>
      have hrest : Spec J v (I (start + 1)) (Proc.search f (start + 1) count)
          (fun r => r.elim (I (start + 1 + count)) Z) :=
        ih fun k hk hlt => hf k (by omega) (by omega)
      rwa [show start + 1 + count = start + (count + 1) by omega] at hrest

/-! ### Loops -/

section Loop

variable {body : β → Proc M A (β ⊕ γ)} {Q : γ → M → V → Prop}

/-- **Loops.** `I` holds whenever the body starts. -/
theorem loop (I : β → M → V → Prop)
    (hbody : ∀ b, Spec C.safe v (I b) (body b) (Sum.elim I Q)) (b : β) :
    Spec C.safe v (I b) (Proc.loop body b) Q := by
  have key : ∀ n b m x, I b m (v x) →
      Safe C (fun cm y => Q cm.1 cm.2 (v y)) n (Proc.loop body b m) x := by
    intro n
    -- each round leaves fewer steps to look at
    induction n using Nat.strong_induction_on with
    | _ n ih =>
      intro b m x hI
      cases n with
      | zero => trivial
      | succ n =>
        show Safe C _ n (Prog.unroll _ (b, m) .ret) x
        unfold Prog.unroll
        rw [Prog.bind_assoc]
        refine Safe.follow C.follows_eq ?_ rfl ((hbody b).holds m x hI n)
        rintro ⟨b' | c, m'⟩ y _ rfl hr n' hn'
        · exact ih n' (by omega) b' m' y hr
        · exact C.safe.ret.2 hr n'
  exact ⟨fun m x hI n => key n b m x hI⟩

/-- **Loops that end.** `I` holds whenever the body starts, and each round either leaves the loop or
makes the variant smaller. -/
theorem loop_of_variant (I : β → M → V → Prop) (variant : β → M → V → ℕ)
    (hbody : ∀ b d, Spec C.total v (fun m w => variant b m w = d ∧ I b m w) (body b)
      (Sum.elim (fun b' m w => I b' m w ∧ variant b' m w < d) Q)) (b : β) :
    Spec C.total v (I b) (Proc.loop body b) Q := by
  have key : ∀ d b m x, variant b m (v x) = d → I b m (v x) →
      Ok C (fun cm y => Q cm.1 cm.2 (v y)) (Proc.loop body b m) x := by
    intro d
    induction d using Nat.strong_induction_on with
    | _ d ih =>
      intro b m x hd hI
      refine .loop ?_
      unfold Prog.unroll
      rw [Prog.bind_assoc]
      refine C.total.bind ((hbody b d).holds m x ⟨hd, hI⟩) ?_
      rintro ⟨b' | c, m'⟩ y hr
      · exact ih _ hr.2 b' m' y rfl hr.1
      · exact .ret hr
  exact ⟨fun m x hI => key _ b m x rfl hI⟩

end Loop

end Spec

end Contract

end KvBench.Conc
