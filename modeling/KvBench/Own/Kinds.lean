import KvBench.Own.Store

/-!
# Kinds of objects

A use is not a reference, so the counts do not see to it that an object outlives those that are made
from it. What kinds of objects are made from what kinds does: an object can be unmade when nothing of
a kind that may use it is left (`Owned.drop_clean`). Objects of a shared kind are held by those that
use them, and need no such care.

`Sound L s` is what there is to know about a store for a program whose references are those in `L`,
each with the kind of the variable it is in.
-/

namespace KvBench.Own.Store

variable {K X : Type} {mayUse : K → K → Prop} {shared : K → Prop} {R : Multiset ℕ}
  {s s' : Store K X} {h g : ℕ}

/-- The kind of the object `h`. -/
def kindOf (s : Store K X) (h : ℕ) : Option K := s.objs[h]?.map Obj.kind

/-- Objects are made from objects of the kinds they may use. Those of a shared kind are also held by
the objects that use them, and only those are. -/
structure Kinded (mayUse : K → K → Prop) (shared : K → Prop) (s : Store K X) : Prop where
  uses : ∀ g h, h ∈ s.usesOf g → ∃ a b, s.kindOf g = some a ∧ s.kindOf h = some b ∧ mayUse a b ∧
    (shared b → h ∈ s.holdsOf g)
  holds : ∀ g h, h ∈ s.holdsOf g → h ∈ s.usesOf g ∧ ∃ b, s.kindOf h = some b ∧ shared b

theorem Kinded.empty : Kinded mayUse shared (empty : Store K X) :=
  ⟨fun _ _ h => by simp [usesOf, Store.empty] at h, fun _ _ h => by simp [holdsOf, Store.empty] at h⟩

theorem Kinded.congr (hk : Kinded mayUse shared s) (hobjs : s'.objs = s.objs) :
    Kinded mayUse shared s' := by
  obtain ⟨h1, h2⟩ := hk
  unfold usesOf kindOf holdsOf at h1 h2
  rw [← hobjs] at h1 h2
  exact ⟨h1, h2⟩

@[simp] theorem kindOf_new_self {o : Obj K} : (s.new o).kindOf s.objs.length = some o.kind := by
  simp [kindOf]

theorem kindOf_new_of_some {o : Obj K} {k : K} (hk : s.kindOf h = some k) :
    (s.new o).kindOf h = some k := by
  unfold kindOf at hk ⊢
  obtain ⟨o', ho', rfl⟩ := Option.map_eq_some_iff.1 hk
  rw [new_getElem? (List.getElem?_eq_some_iff.1 ho').1.ne, ho']
  rfl

theorem Kinded.new {o : Obj K} (hk : Kinded mayUse shared s)
    (huses : ∀ h ∈ o.uses, ∃ b, s.kindOf h = some b ∧ mayUse o.kind b ∧ (shared b → h ∈ o.holds))
    (hholds : ∀ h ∈ o.holds, h ∈ o.uses ∧ ∃ b, s.kindOf h = some b ∧ shared b) :
    Kinded mayUse shared (s.new o) := by
  have huses_self : (s.new o).usesOf s.objs.length = o.uses := by
    unfold usesOf
    rw [new_getElem?_self]
    rfl
  have hholds_self : (s.new o).holdsOf s.objs.length = o.holds := by
    unfold holdsOf
    rw [new_getElem?_self]
    rfl
  have huses_ne : ∀ g, g ≠ s.objs.length → (s.new o).usesOf g = s.usesOf g := by
    intro g hg
    unfold usesOf
    rw [new_getElem? hg]
  have hholds_ne : ∀ g, g ≠ s.objs.length → (s.new o).holdsOf g = s.holdsOf g := by
    intro g hg
    unfold holdsOf
    rw [new_getElem? hg]
  refine ⟨fun g h hh => ?_, fun g h hh => ?_⟩ <;> by_cases hg : g = s.objs.length
  · subst hg
    rw [huses_self] at hh
    rw [hholds_self]
    obtain ⟨b, hb, hmay, hshared⟩ := huses h hh
    exact ⟨o.kind, b, kindOf_new_self, kindOf_new_of_some hb, hmay, hshared⟩
  · rw [huses_ne g hg] at hh
    rw [hholds_ne g hg]
    obtain ⟨a, b, ha, hb, hrest⟩ := hk.uses g h hh
    exact ⟨a, b, kindOf_new_of_some ha, kindOf_new_of_some hb, hrest⟩
  · subst hg
    rw [hholds_self] at hh
    rw [huses_self]
    obtain ⟨hmem, b, hb, hshared⟩ := hholds h hh
    exact ⟨hmem, b, kindOf_new_of_some hb, hshared⟩
  · rw [hholds_ne g hg] at hh
    rw [huses_ne g hg]
    obtain ⟨hmem, b, hb, hshared⟩ := hk.holds g h hh
    exact ⟨hmem, b, kindOf_new_of_some hb, hshared⟩

/-- What lives is of a kind of which the program has a reference, or of a shared kind that such a kind
uses. -/
theorem Owned.kindOf_alive (hs : Owned R s) (hk : Kinded mayUse shared s) {p : K → Prop}
    (hclosed : ∀ a b, p a → mayUse a b → shared b → p b)
    (hR : ∀ g ∈ R, ∃ a, s.kindOf g = some a ∧ p a) (hh : s.count h ≠ 0) :
    ∃ a, s.kindOf h = some a ∧ p a := by
  refine hs.alive_induct (p := fun h => ∃ a, s.kindOf h = some a ∧ p a) hR ?_ hh
  rintro g - ⟨a, ha, hpa⟩ x hx
  obtain ⟨huse, b, hb, hshared⟩ := hk.holds g x hx
  obtain ⟨a', b', ha', hb', hmay, -⟩ := hk.uses g x huse
  obtain rfl : a = a' := Option.some.inj (ha.symm.trans ha')
  obtain rfl : b = b' := Option.some.inj (hb.symm.trans hb')
  exact ⟨b, hb, hclosed a b hpa hmay hshared⟩

/-- An object of a shared kind is not used any more when the last reference to it goes. -/
theorem Owned.not_used_of_shared (hs : Owned (h ::ₘ R) s) (hk : Kinded mayUse shared s)
    (hshared : ∃ b, s.kindOf h = some b ∧ shared b) (hh : s.count h = 1) (hg : s.count g ≠ 0) :
    h ∉ s.usesOf g := by
  intro hmem
  obtain ⟨b, hb, hsb⟩ := hshared
  obtain ⟨a, b', -, hb', -, hholds⟩ := hk.uses g h hmem
  obtain rfl : b = b' := Option.some.inj (hb.symm.trans hb')
  have hle := le_held (h := h) hg (hs.lt_length hg)
  have hpos := List.count_pos_iff.2 (hholds hsb)
  have heq := hs.count_eq h
  rw [Multiset.count_cons_self] at heq
  omega

/-- **Orderly drops.** When nothing that lives uses the object, or the object is of a shared kind, then
nothing that is unmade by dropping the reference is still used. -/
theorem Owned.drop_clean (hs : Owned (h ::ₘ R) s) (hk : Kinded mayUse shared s)
    (hnone : (∀ g, s.count g ≠ 0 → h ∉ s.usesOf g) ∨ ∃ b, s.kindOf h = some b ∧ shared b) :
    ∃ l, (s.drop h).log = l ++ s.log ∧ ∀ e ∈ l, e.Clean := by
  -- nothing comes back to life while references are dropped
  refine (drop_induct (D := fun x => (∀ g, s.count g ≠ 0 → x ∉ s.usesOf g) ∨
      ∃ b, s.kindOf x = some b ∧ shared b)
    (P := fun R s' => Owned R s' ∧ s'.objs = s.objs ∧ (∀ g, s'.count g ≠ 0 → s.count g ≠ 0) ∧
      ∃ l, s'.log = l ++ s.log ∧ ∀ e ∈ l, e.Clean)
    ?_ ?_ ?_ hnone ⟨hs, rfl, fun _ => id, [], rfl, by simp⟩).2.2.2
  · rintro R s' x - ⟨hs', hobjs, hlive, hlog⟩ hx
    refine ⟨hs'.lessen hx, hobjs, fun g hg => ?_, hlog⟩
    by_cases hgx : g = x
    · subst hgx
      exact hlive g (hs'.count_pos (Multiset.mem_cons_self g R))
    · exact hlive g (by rwa [lessen_count, Function.update_of_ne hgx] at hg)
  · rintro R' s' x hD ⟨hs', hobjs, hlive, l, hlog, hl⟩ hx
    have hnone : (s'.users x).filter (· ≠ x) = [] := by
      refine List.filter_eq_nil_iff.2 fun g hg _ => ?_
      obtain ⟨⟨-, hcount⟩, huse⟩ := mem_users.1 hg
      rcases hD with hD | hshared
      · refine hD g (hlive g hcount) ?_
        unfold usesOf at huse ⊢
        rwa [hobjs] at huse
      · refine hs'.not_used_of_shared (hk.congr hobjs) ?_ hx hcount huse
        unfold kindOf at hshared ⊢
        rwa [hobjs]
    refine ⟨hs'.unmake hx, hobjs, fun g hg => hlive g fun hz => hg ?_, .gone x _ :: l,
      congrArg (_ :: ·) hlog, List.forall_mem_cons.2 ⟨hnone, hl⟩⟩
    rw [unmake_count, Function.update_apply, hz, ite_self]
  · rintro R s' x - ⟨hs', hobjs, -, -⟩ g hg
    refine ⟨hs'.older x g hg, .inr ?_⟩
    obtain ⟨-, b, hb, hshared⟩ := (hk.congr hobjs).holds x g hg
    unfold kindOf at hb ⊢
    exact ⟨b, hobjs ▸ hb, hshared⟩

/-! ### References with kinds -/

/-- The counts are right for the references `L`, which refer to objects of their kinds. -/
structure Sound (mayUse : K → K → Prop) (shared : K → Prop) (L : Multiset (K × ℕ)) (s : Store K X) :
    Prop where
  owned : Owned (L.map Prod.snd) s
  kinded : Kinded mayUse shared s
  typed : ∀ p ∈ L, s.kindOf p.2 = some p.1

/-- An object of kind `k` need not outlive one of kind `a`, nor what is held by one. -/
def MayGo (mayUse : K → K → Prop) (shared : K → Prop) (k a : K) : Prop :=
  shared k ∨ ¬ mayUse a k ∧ ∀ b, mayUse a b → shared b → ¬ mayUse b k

/-- Between `s` and `s'` nothing has been done to an object too early or too late. -/
def Orderly (s s' : Store K X) : Prop := ∃ l, s'.log = l ++ s.log ∧ ∀ e ∈ l, e.Clean

theorem Orderly.refl (s : Store K X) : Orderly s s := ⟨[], rfl, by simp⟩

theorem Orderly.trans {s₁ s₂ s₃ : Store K X} (h₁ : Orderly s₁ s₂) (h₂ : Orderly s₂ s₃) :
    Orderly s₁ s₃ := by
  obtain ⟨l₁, hlog₁, hl₁⟩ := h₁
  obtain ⟨l₂, hlog₂, hl₂⟩ := h₂
  refine ⟨l₂ ++ l₁, by rw [hlog₂, hlog₁, List.append_assoc], fun e he => ?_⟩
  exact (List.mem_append.1 he).elim (hl₂ e) (hl₁ e)

/-- The calls with which something was wrong. -/
def faults (s : Store K X) : List (Entry X) := s.log.filter fun e => ¬ e.Clean

theorem Orderly.faults_eq {s s' : Store K X} (h : Orderly s s') : s'.faults = s.faults := by
  obtain ⟨l, hlog, hl⟩ := h
  unfold faults
  rw [hlog, List.filter_append, List.filter_eq_nil_iff.2 fun e he => by simpa using hl e he,
    List.nil_append]

theorem Orderly.note (s : Store K X) (x : X) : Orderly s (s.note x) :=
  ⟨[.mark x s.alive], rfl, by simp [Entry.Clean]⟩

section Sound

variable {L : Multiset (K × ℕ)} {k : K} {o : Obj K}

theorem Sound.empty : Sound mayUse shared 0 (empty : Store K X) :=
  ⟨Owned.empty, .empty, by simp⟩

theorem Sound.alive (hs : Sound mayUse shared L s) (hh : (k, h) ∈ L) : s.count h ≠ 0 :=
  hs.owned.count_pos (Multiset.mem_map.2 ⟨_, hh, rfl⟩)

theorem Sound.note (hs : Sound mayUse shared L s) (x : X) : Sound mayUse shared L (s.note x) :=
  ⟨hs.owned.note x, hs.kinded.congr rfl, hs.typed⟩

theorem Sound.copy (hs : Sound mayUse shared L s) (hh : (k, h) ∈ L) :
    Sound mayUse shared ((k, h) ::ₘ L) (s.copy h) where
  owned := by
    rw [Multiset.map_cons]
    exact hs.owned.copy (hs.alive hh)
  kinded := hs.kinded.congr rfl
  typed := Multiset.forall_mem_cons.2 ⟨hs.typed _ hh, hs.typed⟩

/-- An object is made. `H` are the references that are given away to it. -/
theorem Sound.new {H : List (K × ℕ)} (hs : Sound mayUse shared (H + L) s)
    (hholds : o.holds = H.map Prod.snd) (hshared : ∀ p ∈ H, p.2 ∈ o.uses ∧ shared p.1)
    (huses : ∀ h ∈ o.uses, ∃ k, (k, h) ∈ (H + L : Multiset (K × ℕ)) ∧ mayUse o.kind k ∧
      (shared k → h ∈ o.holds)) :
    Sound mayUse shared ((o.kind, s.objs.length) ::ₘ L) (s.new o) ∧ Orderly s (s.new o) := by
  refine ⟨⟨?_, hs.kinded.new ?_ ?_, ?_⟩, [.made _ _], rfl, List.forall_mem_singleton.2 ?_⟩
  · rw [Multiset.map_cons]
    refine Owned.new ?_
    have := hs.owned
    rwa [Multiset.map_add, Multiset.map_coe, ← hholds] at this
  · intro h hh
    obtain ⟨k, hk, hmay, himp⟩ := huses h hh
    exact ⟨k, hs.typed _ hk, hmay, himp⟩
  · intro h hh
    rw [hholds] at hh
    obtain ⟨p, hp, rfl⟩ := List.mem_map.1 hh
    exact ⟨(hshared p hp).1, p.1, hs.typed p (Multiset.mem_add.2 (.inl hp)), (hshared p hp).2⟩
  · refine Multiset.forall_mem_cons.2 ⟨kindOf_new_self, fun p hp => ?_⟩
    exact kindOf_new_of_some (hs.typed p (Multiset.mem_add.2 (.inr hp)))
  · refine List.filter_eq_nil_iff.2 fun h hh hz => ?_
    obtain ⟨k, hk, -⟩ := huses h hh
    exact hs.alive hk (of_decide_eq_true hz)

theorem Sound.owned_cons (hs : Sound mayUse shared ((k, h) ::ₘ L) s) :
    Owned (h ::ₘ L.map Prod.snd) s := by
  have := hs.owned
  rwa [Multiset.map_cons] at this

theorem Sound.drop (hs : Sound mayUse shared ((k, h) ::ₘ L) s) :
    Sound mayUse shared L (s.drop h) := by
  have hobjs : (s.drop h).objs = s.objs := hs.owned_cons.drop_frame.1
  refine ⟨hs.owned_cons.drop, hs.kinded.congr hobjs, fun p hp => ?_⟩
  unfold kindOf
  rw [hobjs]
  exact hs.typed p (Multiset.mem_cons_of_mem hp)

/-- A reference is dropped in good order when what the other references are to need not outlive the
object. -/
theorem Sound.drop_orderly (hs : Sound mayUse shared ((k, h) ::ₘ L) s)
    (hflat : ∀ a b, shared a → mayUse a b → ¬ shared b)
    (hL : ∀ p ∈ (k, h) ::ₘ L, MayGo mayUse shared k p.1) : Orderly s (s.drop h) := by
  by_cases hk : shared k
  · exact hs.owned_cons.drop_clean hs.kinded (.inr ⟨k, hs.typed _ (Multiset.mem_cons_self _ _), hk⟩)
  refine hs.owned_cons.drop_clean hs.kinded (.inl fun g hg huse => ?_)
  have hR : ∀ g ∈ ((k, h) ::ₘ L).map Prod.snd, ∃ a, s.kindOf g = some a ∧
      (¬ mayUse a k ∧ ∀ b, mayUse a b → shared b → ¬ mayUse b k) := by
    intro g hg
    obtain ⟨p, hp, rfl⟩ := Multiset.mem_map.1 hg
    exact ⟨p.1, hs.typed p hp, (hL p hp).resolve_left hk⟩
  obtain ⟨a, ha, hnot, -⟩ := hs.owned.kindOf_alive hs.kinded
    (fun a b ha hab hb => ⟨ha.2 b hab hb, fun c hbc hc => absurd hc (hflat b c hb hbc)⟩) hR hg
  obtain ⟨a', b, ha', hb, hmay, -⟩ := hs.kinded.uses g h huse
  obtain rfl : a = a' := Option.some.inj (ha.symm.trans ha')
  obtain rfl : k = b := Option.some.inj ((hs.typed _ (Multiset.mem_cons_self _ _)).symm.trans hb)
  exact hnot hmay

theorem Sound.dropAll {M : List (K × ℕ)} (hs : Sound mayUse shared (M + L) s) :
    Sound mayUse shared L (s.dropAll (M.map Prod.snd)) := by
  induction M generalizing s with
  | nil => simpa using hs
  | cons p M ih =>
    rw [← Multiset.cons_coe, Multiset.cons_add] at hs
    exact ih hs.drop

theorem Sound.dropAll_objs {M : List (K × ℕ)} (hs : Sound mayUse shared (M + L) s) :
    (s.dropAll (M.map Prod.snd)).objs = s.objs := by
  induction M generalizing s with
  | nil => rfl
  | cons p M ih =>
    rw [← Multiset.cons_coe, Multiset.cons_add] at hs
    exact (ih hs.drop).trans hs.owned_cons.drop_frame.1

/-- References are dropped in good order when none of the objects need outlive those after it, nor what
the references that stay are to. -/
theorem Sound.dropAll_orderly {M : List (K × ℕ)} (hs : Sound mayUse shared (M + L) s)
    (hflat : ∀ a b, shared a → mayUse a b → ¬ shared b) (hself : ∀ k, MayGo mayUse shared k k)
    (hM : M.Pairwise fun p q => MayGo mayUse shared p.1 q.1)
    (hL : ∀ p ∈ M, ∀ q ∈ L, MayGo mayUse shared p.1 q.1) : Orderly s (s.dropAll (M.map Prod.snd)) := by
  induction M generalizing s with
  | nil => exact .refl s
  | cons p M ih =>
    rw [← Multiset.cons_coe, Multiset.cons_add] at hs
    obtain ⟨hp, hM⟩ := List.pairwise_cons.1 hM
    obtain ⟨hpL, hL⟩ := List.forall_mem_cons.1 hL
    refine (hs.drop_orderly hflat fun q hq => ?_).trans (ih hs.drop hM hL)
    rcases Multiset.mem_cons.1 hq with rfl | hq
    · exact hself _
    · exact (Multiset.mem_add.1 hq).elim (hp q) (hpL q)

end Sound

end KvBench.Own.Store
