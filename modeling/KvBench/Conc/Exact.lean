import KvBench.Conc.Local

/-!
# Code on exact states

For code whose effect matters in detail it is easier to name the state in which it starts than to
find an assertion that covers it. `Runs` speaks about the part of a thread's memory that a proof is
about (its `face`) and about its history, both at the start, and relates them to those at the end. The
rest of the memory only has to keep an invariant (`ok`).
-/

namespace KvBench.Conc

section Exact

variable {M X H α β γ : Type} {A : Type → Type} (L : Private M H A) (ok : M → Prop) (face : M → X)

/-- Started with the face `x` and the history `h`, the procedure does what it owes, and if it returns,
then with `Q`. -/
def Runs (x : X) (h : H) (c : Proc M A α) (Q : α → X → H → Prop) : Prop :=
  Keeps L (fun m h' => ok m ∧ face m = x ∧ h' = h) c fun a m h' => ok m ∧ Q a (face m) h'

variable {L ok face}

/-- Code that runs from every state of an assertion keeps it. -/
theorem Runs.keeps {P : X → H → Prop} {c : Proc M A α} {Q : α → X → H → Prop}
    (hc : ∀ x h, P x h → Runs L ok face x h c Q) :
    Keeps L (fun m h => ok m ∧ P (face m) h) c fun a m h => ok m ∧ Q a (face m) h :=
  ⟨fun m h hP => (hc (face m) h hP.2).holds m h ⟨hP.1, rfl, rfl⟩⟩

namespace Runs

variable {x x' : X} {h : H} {c d : Proc M A α} {Q Q' : α → X → H → Prop} {R : β → X → H → Prop}

theorem pure {a : α} (hQ : Q a x h) : Runs L ok face x h (Pure.pure a) Q := by
  refine Spec.pure ?_
  rintro m _ ⟨hm, rfl, rfl⟩
  exact ⟨hm, hQ⟩

theorem bind {f : α → Proc M A β} (hc : Runs L ok face x h c Q)
    (hf : ∀ a x' h', Q a x' h' → Runs L ok face x' h' (f a) R) : Runs L ok face x h (c >>= f) R :=
  Spec.bind hc fun a => Runs.keeps (hf a)

theorem post (hc : Runs L ok face x h c Q) (hQ : ∀ a x' h', Q a x' h' → Q' a x' h') :
    Runs L ok face x h c Q' :=
  Spec.post hc fun a _ h' hq => ⟨hq.1, hQ a _ h' hq.2⟩

theorem get_bind {f : M → Proc M A β}
    (hf : ∀ m₀, ok m₀ → face m₀ = x → Runs L ok face x h (f m₀) R) :
    Runs L ok face x h (get >>= f) R := by
  refine ⟨?_⟩
  rintro m _ ⟨hm, rfl, rfl⟩
  exact (hf m hm rfl).holds m _ ⟨hm, rfl, rfl⟩

theorem set_bind {m' : M} {f : PUnit → Proc M A β} (hm' : ok m') (hx : face m' = x')
    (hf : Runs L ok face x' h (f ⟨⟩) R) : Runs L ok face x h (set m' >>= f) R :=
  Spec.set_bind _ (fun _ _ hP => ⟨hm', hx, hP.2.2⟩) hf

theorem modify_bind {g : M → M} {f : PUnit → Proc M A β} (x' : X)
    (hg : ∀ m, ok m → face m = x → ok (g m) ∧ face (g m) = x')
    (hf : Runs L ok face x' h (f ⟨⟩) R) : Runs L ok face x h (modify g >>= f) R :=
  Spec.modify_bind _
    (fun m _ hP => ⟨(hg m hP.1 hP.2.1).1, (hg m hP.1 hP.2.1).2, hP.2.2⟩) hf

theorem modify {g : M → M} {R : PUnit → X → H → Prop} (x' : X)
    (hg : ∀ m, ok m → face m = x → ok (g m) ∧ face (g m) = x') (hR : R ⟨⟩ x' h) :
    Runs L ok face x h (modify g) R := by
  refine Spec.modify ?_
  rintro m _ ⟨hm, hx, rfl⟩
  obtain ⟨h1, h2⟩ := hg m hm hx
  exact ⟨h1, h2 ▸ hR⟩

theorem ite {p : Prop} [Decidable p] (hc : p → Runs L ok face x h c Q)
    (hd : ¬ p → Runs L ok face x h d Q) : Runs L ok face x h (if p then c else d) Q :=
  Spec.ite hc hd

theorem act {e : A β} {Q : β → X → H → Prop} (hduty : ∀ m, L.duty m h e)
    (hstep : ∀ m r, ok m → face m = x → L.fact m h e r → Q r x (L.step e r h)) :
    Runs L ok face x h (Proc.act e) Q := by
  refine Keeps.act ?_ ?_
  · rintro m _ ⟨-, -, rfl⟩
    exact hduty m
  · rintro m _ r ⟨hm, rfl, rfl⟩ hr
    exact ⟨hm, hstep m r hm rfl hr⟩

theorem loop {body : β → Proc M A (β ⊕ γ)} {Q : γ → X → H → Prop} (I : β → X → H → Prop)
    (hbody : ∀ b x h, I b x h → Runs L ok face x h (body b) (Sum.elim I Q)) {b : β}
    (hI : I b x h) : Runs L ok face x h (Proc.loop body b) Q := by
  refine Spec.pre (Spec.loop (fun b m h => ok m ∧ I b (face m) h)
    (fun b => (Runs.keeps (hbody b)).post ?_) b) ?_
  · rintro (b' | c) m h' hP
    · exact hP
    · exact hP
  · rintro m _ ⟨hm, rfl, rfl⟩
    exact ⟨hm, hI⟩

theorem each {f : ℕ → β → Proc M A β} (I : ℕ → β → X → H → Prop) {start count : ℕ}
    (hf : ∀ k b x h, start ≤ k → k < start + count → I k b x h →
      Runs L ok face x h (f k b) (I (k + 1))) {b : β} (hI : I start b x h) :
    Runs L ok face x h (Proc.each f start count b) (I (start + count)) := by
  refine Spec.pre (Spec.each (fun k b m h => ok m ∧ I k b (face m) h)
    (fun k b h1 h2 => Runs.keeps fun x h => hf k b x h h1 h2) b) ?_
  rintro m _ ⟨hm, rfl, rfl⟩
  exact ⟨hm, hI⟩

theorem search {f : ℕ → Proc M A (Option β)} (I : ℕ → X → H → Prop) (Z : β → X → H → Prop)
    {start count : ℕ}
    (hf : ∀ k x h, start ≤ k → k < start + count → I k x h →
      Runs L ok face x h (f k) fun r => r.elim (I (k + 1)) Z) (hI : I start x h) :
    Runs L ok face x h (Proc.search f start count) fun r => r.elim (I (start + count)) Z := by
  refine Spec.conseq (Spec.search (fun k m h => ok m ∧ I k (face m) h)
    (fun b m h => ok m ∧ Z b (face m) h) fun k h1 h2 =>
      (Runs.keeps fun x h => hf k x h h1 h2).post ?_) ?_ ?_
  · rintro (_ | b) m h hP
    · exact hP
    · exact hP
  · rintro m _ ⟨hm, rfl, rfl⟩
    exact ⟨hm, hI⟩
  · rintro (_ | b) m h hP
    · exact hP
    · exact hP

end Runs

end Exact

end KvBench.Conc
