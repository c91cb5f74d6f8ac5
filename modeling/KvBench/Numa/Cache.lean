import KvBench.Numa.Topology

/-!
# The tables of `read_cpu_numa`

For a single thread the tables cannot be noticed: any sequence of calls returns what sysfs says
(`tables_transparent`).

For several threads they can. `read_cpu_numa` stores that the node is known before it stores the node, so
another thread may find a node known and read the value the table started with. In every interleaving
what a thread is told is the node of the CPU or `0`, and `0` can be told for every CPU that the tables
have room for (`tables_shared`).
-/

namespace KvBench.Numa

open KvBench.Bench KvBench.Conc

/-! ### Calls -/

/-- A call of one of the functions. -/
inductive Query where
  | readCpuNuma (cpu : ℤ)
  | getNumNumaNodes
  | numaToChip (numa : ℤ)
  | chipToFirstNuma (chip : ℤ)
  | cpuToChip (cpu : ℤ)

variable (sys : Sysfs)

/-- The function that is called. -/
def Query.code : Query → Code ℤ
  | .readCpuNuma cpu => Numa.readCpuNuma sys cpu
  | .getNumNumaNodes => Numa.getNumNumaNodes sys
  | .numaToChip numa => Numa.numaToChip sys numa
  | .chipToFirstNuma chip => Numa.chipToFirstNuma sys chip
  | .cpuToChip cpu => Numa.cpuToChip sys cpu

/-- What it should return. -/
def Query.answer : Query → ℤ
  | .readCpuNuma cpu => nodeOf sys cpu
  | .getNumNumaNodes => nodeCount sys
  | .numaToChip numa => chipOfNode sys numa
  | .chipToFirstNuma chip => firstNodeOf sys chip
  | .cpuToChip cpu => chipOfNode sys (nodeOf sys cpu)

/-- Calls one after the other, with what they return. -/
def ask : List Query → Code (List ℤ)
  | [] => pure []
  | q :: qs => do
    let r ← q.code sys
    let rs ← ask qs
    pure (r :: rs)

/-- Threads that are about to make their calls, with the tables as they are at the start. -/
def asking {ι : Type} (qs : ι → List Query) : Conf ι Unit Tables Act (List ℤ × Unit) where
  prog i := ask sys (qs i) ()
  time _ := 0
  state := ⟨fun _ => false, fun _ => 0, -1⟩

/-! ### One thread -/

/-- What is in the tables is right. -/
structure Faithful (s : Tables) : Prop where
  numa : ∀ cpu, s.known cpu = true → s.numa cpu = nodeOf sys cpu
  count : s.count = -1 ∨ s.count = nodeCount sys

/-- Nobody else touches the tables. -/
def alone : Discipline Unit Unit Tables Act where
  inv _ := True
  rely _ s s' := s' = s
  promise _ _ _ _ _ := True

section Alone

variable {sys}

theorem alone_stable (P : Tables → Prop) : alone.Stable () P := by
  rintro s s' - hP rfl -
  exact hP

/-- The procedure returns with `Q`, for a thread that is alone. -/
abbrev Solo {α : Type} (P : Tables → Prop) (x : Code α) (Q : α → Tables → Prop) : Prop :=
  Spec (alone.total (tables Unit) ()) Discipline.Point.state (fun _ => P) x fun a _ => Q a

theorem solo_act {β : Type} {e : Act β} {P : Tables → Prop} {Q : β → Tables → Prop}
    (h : ∀ s, P s → Q (e.run s).1 (e.run s).2) : Solo P (Proc.act e) Q := by
  refine Discipline.spec_run (fun _ => alone_stable P) ?_
  intro _ s _ _ hP _ _
  exact ⟨⟨trivial, fun j hj => absurd rfl hj, trivial⟩, h s hP⟩

/-- The procedure returns `r` and leaves the tables right. -/
abbrev Finds (sys : Sysfs) {α : Type} (x : Code α) (r : α) : Prop :=
  Solo (Faithful sys) x fun a s => a = r ∧ Faithful sys s

theorem Finds.bind {α β : Type} {x : Code α} {a : α} {f : α → Code β} {b : β} (hx : Finds sys x a)
    (hf : Finds sys (f a) b) : Finds sys (x >>= f) b := by
  refine Spec.bind hx fun a' => Spec.and fun ha => ?_
  rw [ha]
  exact hf

theorem Finds.pure {α : Type} (a : α) : Finds sys (Pure.pure a) a := Spec.pure fun _ _ h => ⟨rfl, h⟩

/-- Between the two stores only the entry of the CPU may be wrong. -/
theorem remember_finds (cpu : ℤ) : Finds sys (remember cpu (nodeOf sys cpu)) (nodeOf sys cpu) := by
  unfold remember
  refine Spec.ite (fun _ => ?_) fun _ => Finds.pure _
  refine Spec.bind (Q := fun _ _ s => (∀ c, c ≠ cpu → s.known c = true → s.numa c = nodeOf sys c) ∧
    (s.count = -1 ∨ s.count = nodeCount sys)) (solo_act ?_) fun _ => ?_
  · intro s hs
    refine ⟨fun c hc hknown => hs.numa c ?_, hs.count⟩
    change Function.update s.known cpu _ c = true at hknown
    rwa [Function.update_of_ne hc] at hknown
  refine Spec.bind (Q := fun _ _ s => Faithful sys s) (solo_act ?_) fun _ => Finds.pure _
  rintro s ⟨hnuma, hcount⟩
  refine ⟨fun c hknown => ?_, hcount⟩
  show Function.update s.numa cpu _ c = _
  by_cases hc : c = cpu
  · rw [hc, Function.update_self]
  · rw [Function.update_of_ne hc]
    exact hnuma c hc hknown

theorem lookUp_finds (cpu : ℤ) : Finds sys (lookUp sys cpu) (nodeOf sys cpu) := by
  have h : Finds sys (remember cpu (nodeOf sys cpu)) (nodeOf sys cpu) := remember_finds cpu
  unfold lookUp
  unfold nodeOf at h ⊢
  cases hdir : sys.dir cpu with
  | none => exact Finds.pure _
  | some entries =>
    rw [hdir] at h
    exact h

theorem readCpuNuma_finds (cpu : ℤ) : Finds sys (readCpuNuma sys cpu) (nodeOf sys cpu) := by
  unfold readCpuNuma
  refine Spec.ite (fun _ => ?_) fun _ => lookUp_finds cpu
  refine Spec.bind (Q := fun known _ s => Faithful sys s ∧ s.known cpu = known)
    (solo_act fun s hs => ⟨hs, rfl⟩) fun known => ?_
  cases known with
  | true => exact solo_act fun s hs => ⟨hs.1.numa cpu hs.2, hs.1⟩
  | false => exact (lookUp_finds cpu).pre fun _ _ h => h.1

/-- The loop has seen the nodes of the first `k` CPUs. -/
theorem countLoop_finds (k : ℕ) : Finds sys (Proc.each (countRound sys) 0 k (∅, 0))
    (nodes sys k, ((nodes sys k).card : ℤ)) := by
  have hround : ∀ j, Finds sys (countRound sys j (nodes sys j, ((nodes sys j).card : ℤ)))
      (nodes sys (j + 1), ((nodes sys (j + 1)).card : ℤ)) := by
    intro j
    rw [← countNode_nodes]
    exact (readCpuNuma_finds j).bind (Finds.pure _)
  have hloop : Solo
      (fun s => ((∅ : Finset ℤ), (0 : ℤ)) = (nodes sys 0, ((nodes sys 0).card : ℤ)) ∧ Faithful sys s)
      (Proc.each (countRound sys) 0 k (∅, 0))
      fun x s => x = (nodes sys (0 + k), ((nodes sys (0 + k)).card : ℤ)) ∧ Faithful sys s := by
    refine Spec.each (fun j x _ s => x = (nodes sys j, ((nodes sys j).card : ℤ)) ∧ Faithful sys s) ?_ _
    refine fun j x _ _ => Spec.and fun hx => ?_
    rw [hx]
    exact hround j
  rw [zero_add] at hloop
  exact hloop.pre fun _ s hs => ⟨by simp [nodes], hs⟩

theorem getNumNumaNodes_finds : Finds sys (getNumNumaNodes sys) (nodeCount sys) := by
  unfold getNumNumaNodes
  refine Spec.bind (Q := fun count _ s => Faithful sys s ∧ s.count = count)
    (solo_act fun s hs => ⟨hs, rfl⟩) fun count => Spec.ite (fun hcount => ?_) fun _ => ?_
  · refine solo_act ?_
    rintro s ⟨hs, rfl⟩
    refine ⟨hs.count.resolve_left fun hneg => ?_, hs⟩
    rw [hneg] at hcount
    omega
  refine Spec.bind (Q := fun x _ s =>
      x.2 = ((nodes sys (min sys.ncpu maxCpus)).card : ℤ) ∧ Faithful sys s) ?_ fun x => ?_
  · refine (countLoop_finds (min sys.ncpu maxCpus)).conseq (fun _ _ h => h.1) ?_
    rintro x _ s ⟨rfl, hs⟩
    exact ⟨rfl, hs⟩
  · refine Spec.bind (Q := fun _ _ s => Faithful sys s ∧ s.count = nodeCount sys) (solo_act ?_) fun _ => ?_
    · rintro s ⟨hx, hs⟩
      have hcount : (if 0 < x.2 then x.2 else 1) = nodeCount sys := by
        rw [hx, nodeCount]
        split_ifs <;> omega
      exact ⟨⟨hs.numa, .inr hcount⟩, hcount⟩
    · exact solo_act fun s hs => ⟨hs.2, hs.1⟩

theorem numaToChip_finds (numa : ℤ) : Finds sys (numaToChip sys numa) (chipOfNode sys numa) :=
  getNumNumaNodes_finds.bind (Finds.pure _)

/-- The search goes on while no node of the chip has come. -/
theorem chipToFirstNuma_finds (chip : ℤ) :
    Finds sys (chipToFirstNuma sys chip) (firstNodeOf sys chip) := by
  obtain ⟨hnode, hleast⟩ := firstNodeOf_spec sys chip
  refine getNumNumaNodes_finds.bind ?_
  refine Spec.bind (Q := fun r _ s => r.getD (-1) = firstNodeOf sys chip ∧ Faithful sys s) ?_
    fun r => Spec.pure fun _ _ h => h
  have hround : ∀ k, Finds sys (firstRound sys chip k)
      (if chipOfNode sys k = chip then some (k : ℤ) else none) := fun k =>
    (numaToChip_finds k).bind (Finds.pure _)
  have hsearch : Solo (fun s => (∀ j < 0, chipOfNode sys (j : ℕ) ≠ chip) ∧ Faithful sys s)
      (Proc.search (firstRound sys chip) 0 (nodeCount sys).toNat)
      fun r s => r.elim ((∀ j < 0 + (nodeCount sys).toNat, chipOfNode sys (j : ℕ) ≠ chip) ∧
        Faithful sys s) fun n => n = firstNodeOf sys chip ∧ Faithful sys s := by
    refine (Spec.search (fun k _ s => (∀ j < k, chipOfNode sys (j : ℕ) ≠ chip) ∧ Faithful sys s)
      (fun n _ s => n = firstNodeOf sys chip ∧ Faithful sys s) ?_).post ?_
    · refine fun k _ hk => Spec.and fun hbefore => (hround k).post ?_
      rintro r m s' ⟨rfl, hs'⟩
      by_cases hc : chipOfNode sys k = chip
      · simp only [if_pos hc, Option.elim]
        obtain ⟨h0, hle⟩ := hleast k (by omega) (by omega) hc
        refine ⟨?_, hs'⟩
        by_contra hne
        obtain ⟨-, hchip⟩ := hnode h0
        refine hbefore (firstNodeOf sys chip).toNat (by omega) ?_
        rwa [Int.toNat_of_nonneg h0]
      · simp only [if_neg hc, Option.elim]
        refine ⟨fun j hj => ?_, hs'⟩
        rcases Nat.lt_succ_iff_lt_or_eq.1 hj with hj | rfl
        · exact hbefore j hj
        · exact hc
    · intro r _ _ h
      cases r <;> exact h
  refine hsearch.conseq (fun _ s hs => ⟨by simp, hs⟩) fun r _ s hr => ?_
  cases r with
  | some n => exact hr
  | none =>
    refine ⟨?_, hr.2⟩
    have hneg : ¬ 0 ≤ firstNodeOf sys chip := by
      intro h0
      obtain ⟨hlt, hchip⟩ := hnode h0
      refine hr.1 (firstNodeOf sys chip).toNat (by omega) ?_
      rwa [Int.toNat_of_nonneg h0]
    show -1 = _
    unfold firstNodeOf at hneg ⊢
    have := nodeCount_pos sys
    split_ifs at hneg ⊢ <;> omega

theorem query_finds (q : Query) : Finds sys (q.code sys) (q.answer sys) := by
  cases q with
  | readCpuNuma cpu => exact readCpuNuma_finds cpu
  | getNumNumaNodes => exact getNumNumaNodes_finds
  | numaToChip numa => exact numaToChip_finds numa
  | chipToFirstNuma chip => exact chipToFirstNuma_finds chip
  | cpuToChip cpu => exact (readCpuNuma_finds cpu).bind (numaToChip_finds _)

theorem ask_finds (qs : List Query) : Finds sys (ask sys qs) (qs.map (Query.answer sys)) := by
  induction qs with
  | nil => exact Finds.pure _
  | cons q qs ih => exact (query_finds q).bind (ih.bind (Finds.pure _))

theorem asking_good (qs : List Query) :
    (asking sys fun _ : Unit => qs).Good (alone.total (tables Unit))
      fun _ r _ => r.1 = qs.map (Query.answer sys) := by
  refine ⟨trivial, fun _ => ?_⟩
  refine Judgement.mono _ ((ask_finds qs).holds () ⟨_, 0, trivial⟩ ⟨by simp [asking], .inl rfl⟩) ?_
  exact fun _ _ h => h.1

end Alone

/-- **The tables are transparent for one thread.** Any sequence of calls ends, and returns what the
functions are for, whatever has been remembered on the way. -/
theorem tables_transparent (qs : List Query) :
    (∀ c, Reachable (tables Unit) (asking sys fun _ => qs) c → ∀ r, c.result () = some r →
      r.1 = qs.map (Query.answer sys)) ∧
    ∀ mv, FairRun (tables Unit) (asking sys fun _ => qs) () mv →
      ∃ k r, ((asking sys fun _ => qs).after (tables Unit) mv k).result () = some r := by
  have hstable : ∀ (i : Unit) (r : List ℤ × Unit),
      alone.Stable i fun _ => r.1 = qs.map (Query.answer sys) := fun _ _ => alone_stable _
  refine ⟨fun c hc r hr => ?_, fun mv hrun => ?_⟩
  · exact ((asking_good qs).reachable hstable (fun e => e.elim) hc).result hr
  · obtain ⟨k, r, hr, -⟩ := (asking_good qs).returns hstable (fun e => e.elim) hrun
    exact ⟨k, r, Conf.result_of_prog hr⟩

/-! ### Several threads -/

/-- An entry is right or as it was at the start. -/
def Tame (s : Tables) : Prop := ∀ cpu, s.numa cpu = 0 ∨ s.numa cpu = nodeOf sys cpu

/-- The others may store what they like, as long as it is right. -/
def together (ι : Type) : Discipline ι Unit Tables Act where
  inv := Tame sys
  rely _ _ _ := True
  promise _ _ _ _ _ := True

section Together

variable {sys} {ι : Type} {i : ι}

/-- The procedure returns with `Q`, whatever the others do meanwhile. -/
abbrev Shared (sys : Sysfs) (i : ι) {α : Type} (x : Code α) (Q : α → Prop) : Prop :=
  Spec ((together sys ι).total (tables ι) i) Discipline.Point.state (fun _ _ => True) x fun a _ _ => Q a

theorem shared_act {β : Type} {e : Act β} {Q : β → Prop}
    (h : ∀ s, Tame sys s → Q (e.run s).1 ∧ Tame sys (e.run s).2) : Shared sys i (Proc.act e) Q := by
  refine Discipline.spec_run (fun _ _ _ _ _ _ _ => trivial) ?_
  intro _ s _ hs _ _ _
  obtain ⟨hQ, htame⟩ := h s hs
  exact ⟨⟨htame, fun _ _ => trivial, trivial⟩, hQ⟩

theorem remember_shared (cpu : ℤ) :
    Shared sys i (remember cpu (nodeOf sys cpu)) fun r => r = nodeOf sys cpu := by
  unfold remember
  refine Spec.ite (fun _ => ?_) fun _ => Spec.pure fun _ _ _ => rfl
  refine Spec.bind (Q := fun _ _ _ => True) (shared_act fun s hs => ⟨trivial, hs⟩) fun _ => ?_
  refine Spec.bind (Q := fun _ _ _ => True) (shared_act fun s hs => ⟨trivial, fun c => ?_⟩) fun _ =>
    Spec.pure fun _ _ _ => rfl
  show Function.update s.numa cpu _ c = 0 ∨ Function.update s.numa cpu _ c = _
  by_cases hc : c = cpu
  · rw [hc, Function.update_self]
    exact .inr rfl
  · rw [Function.update_of_ne hc]
    exact hs c

theorem readCpuNuma_shared (cpu : ℤ) :
    Shared sys i (readCpuNuma sys cpu) fun r => r = nodeOf sys cpu ∨ r = 0 := by
  have hlook : Shared sys i (lookUp sys cpu) fun r => r = nodeOf sys cpu ∨ r = 0 := by
    have h : Shared sys i (remember cpu (nodeOf sys cpu)) fun r => r = nodeOf sys cpu :=
      remember_shared cpu
    unfold lookUp
    unfold nodeOf at h ⊢
    cases hdir : sys.dir cpu with
    | none => exact Spec.pure fun _ _ _ => .inl rfl
    | some entries =>
      rw [hdir] at h
      exact h.post fun _ _ _ h => .inl h
  unfold readCpuNuma
  refine Spec.ite (fun _ => ?_) fun _ => hlook
  refine Spec.bind (Q := fun _ _ _ => True) (shared_act fun s hs => ⟨trivial, hs⟩) fun known => ?_
  exact Spec.ite (fun _ => shared_act fun s hs => ⟨(hs cpu).symm, hs⟩) fun _ => hlook

theorem ask_shared (cpus : List ℤ) :
    Shared sys i (ask sys (cpus.map .readCpuNuma))
      fun rs => List.Forall₂ (fun cpu r => r = nodeOf sys cpu ∨ r = 0) cpus rs := by
  induction cpus with
  | nil => exact Spec.pure fun _ _ _ => .nil
  | cons cpu cpus ih =>
    refine Spec.bind (Q := fun r _ _ => r = nodeOf sys cpu ∨ r = 0) (readCpuNuma_shared cpu) fun r => ?_
    refine Spec.of_fact (fun _ _ hr => hr) fun hr => ?_
    exact Spec.bind (ih.pre fun _ _ _ => trivial) fun rs => Spec.pure fun _ _ hrs => .cons hr hrs

end Together

section Race

variable {ι : Type} [DecidableEq ι]

theorem tables_reachable (c : Conf ι Unit Tables Act (List ℤ × Unit)) (mvs : List (Move ι Unit Empty)) :
    Reachable (tables ι) c (c.plays (tables ι) mvs) := by
  refine Reachable.of_plays ?_
  induction mvs generalizing c with
  | nil => trivial
  | cons mv mvs ih =>
    refine ⟨?_, ih _⟩
    cases mv with
    | env e => exact e.elim
    | thread i o =>
      unfold Conf.Enabled
      dsimp only
      split <;> trivial

/-- A step of the thread `i`. -/
theorem tables_play {c : Conf ι Unit Tables Act (List ℤ × Unit)} {i : ι} {β : Type} {e : Act β}
    {k : β → Prog Unit Act (List ℤ × Unit)} (h : c.prog i = .act () e k) :
    (c.play (tables ι) (.thread i ())).prog i = k (e.run c.state).1 ∧
      (∀ j, j ≠ i → (c.play (tables ι) (.thread i ())).prog j = c.prog j) ∧
      (c.play (tables ι) (.thread i ())).state = (e.run c.state).2 := by
  unfold Conf.play
  dsimp only
  rw [h]
  exact ⟨Function.update_self .., fun j hj => Function.update_of_ne hj .., rfl⟩

/-- The run in which the second thread comes between the two stores of the first. -/
theorem race {cpu : ℤ} (hin : inTable cpu) (hpos : 0 < nodeOf sys cpu) :
    ∃ c, Reachable (tables (Fin 2)) (asking sys fun _ => [.readCpuNuma cpu]) c ∧
      c.result 1 = some ([0], ()) := by
  obtain ⟨entries, hdir, hnode⟩ : ∃ entries, sys.dir cpu = some entries ∧
      nodeOfEntries entries = nodeOf sys cpu := by
    unfold nodeOf at hpos ⊢
    cases hdir : sys.dir cpu with
    | none =>
      rw [hdir] at hpos
      exact absurd hpos (by decide)
    | some entries => exact ⟨entries, rfl, rfl⟩
  have hcode : readCpuNuma sys cpu = (do
      let known ← Proc.act (.loadKnown cpu)
      if known then Proc.act (.loadNuma cpu)
      else do
        Proc.act (.storeKnown cpu true)
        Proc.act (.storeNuma cpu (nodeOf sys cpu))
        pure (nodeOf sys cpu)) := by
    simp only [readCpuNuma, lookUp, hdir, hnode, remember, if_pos hin, decide_eq_true hpos.le]
  obtain ⟨k, hk, hfirst, hsecond⟩ : ∃ k : Bool → Prog Unit Act (List ℤ × Unit),
      (∀ i, (asking sys fun _ : Fin 2 => [.readCpuNuma cpu]).prog i = .act () (.loadKnown cpu) k) ∧
      (∃ k', k false = .act () (.storeKnown cpu true) k') ∧
      k true = .act () (.loadNuma cpu) fun v => .ret ([v], ()) := by
    simp only [asking, ask, Query.code, hcode]
    exact ⟨_, fun _ => rfl, ⟨_, rfl⟩, rfl⟩
  obtain ⟨k', hfirst⟩ := hfirst
  refine ⟨_, tables_reachable _ [.thread 0 (), .thread 0 (), .thread 1 (), .thread 1 ()], ?_⟩
  refine Conf.result_of_prog ?_
  simp only [Conf.plays]
  -- the first thread finds the node unknown, and stores that it is known
  obtain ⟨hp₁, hq₁, hs₁⟩ := tables_play (hk 0)
  generalize (asking sys fun _ => [.readCpuNuma cpu]).play (tables (Fin 2)) (.thread 0 ()) = c₁ at *
  obtain ⟨-, hq₂, hs₂⟩ := tables_play (hp₁.trans hfirst)
  generalize c₁.play (tables (Fin 2)) (.thread 0 ()) = c₂ at *
  -- the second finds it known, and loads what is still there
  have hprog : c₂.prog 1 = .act () (.loadKnown cpu) k := by
    rw [hq₂ 1 (by decide), hq₁ 1 (by decide), hk]
  have hknown : c₂.state.known cpu = true := by
    rw [hs₂]
    exact Function.update_self ..
  have hnuma : c₂.state.numa cpu = 0 := by
    rw [hs₂, hs₁]
    rfl
  obtain ⟨hp₃, -, hs₃⟩ := tables_play hprog
  generalize c₂.play (tables (Fin 2)) (.thread 1 ()) = c₃ at *
  have hload : c₃.prog 1 = k true := by
    rw [hp₃, ← hknown]
    rfl
  obtain ⟨hp₄, -, -⟩ := tables_play (hload.trans hsecond)
  rw [hp₄, hs₃]
  show Prog.ret ([c₂.state.numa cpu], ()) = _
  rw [hnuma]

end Race

/-- **The tables are not transparent for several threads.** In every interleaving, what a thread is told
of a CPU is its node or `0`, and every thread is told something; and for every CPU that the tables have
room for and that is on another node than `0`, there is an interleaving of two threads in which one of
them is told `0`. -/
theorem tables_shared {n : ℕ} (cpus : Fin n → List ℤ) :
    (∀ c, Reachable (tables (Fin n)) (asking sys fun i => (cpus i).map .readCpuNuma) c → ∀ i r,
      c.result i = some r → List.Forall₂ (fun cpu r => r = nodeOf sys cpu ∨ r = 0) (cpus i) r.1) ∧
    (∀ i mv, FairRun (tables (Fin n)) (asking sys fun i => (cpus i).map .readCpuNuma) i mv →
      ∃ k r, ((asking sys fun i => (cpus i).map .readCpuNuma).after (tables (Fin n)) mv k).result i =
        some r) ∧
    ∀ cpu, inTable cpu → 0 < nodeOf sys cpu →
      ∃ c, Reachable (tables (Fin 2)) (asking sys fun _ => [.readCpuNuma cpu]) c ∧
        c.result 1 = some ([0], ()) := by
  have hgood : (asking sys fun i => (cpus i).map .readCpuNuma).Good
      ((together sys (Fin n)).total (tables (Fin n))) fun i r _ =>
        List.Forall₂ (fun cpu r => r = nodeOf sys cpu ∨ r = 0) (cpus i) r.1 := by
    have hstart : Tame sys (asking sys fun i => (cpus i).map .readCpuNuma).state := fun _ => .inl rfl
    exact ⟨hstart, fun i => (ask_shared (cpus i)).holds () ⟨_, 0, hstart⟩ trivial⟩
  have hstable : ∀ (i : Fin n) (r : List ℤ × Unit), (together sys (Fin n)).Stable i fun _ =>
      List.Forall₂ (fun cpu r => r = nodeOf sys cpu ∨ r = 0) (cpus i) r.1 := fun _ _ _ _ _ h _ _ => h
  refine ⟨fun c hc i r hr => ?_, fun i mv hrun => ?_, fun cpu => race sys⟩
  · exact (hgood.reachable hstable (fun e => e.elim) hc).result hr
  · obtain ⟨k, r, hr, -⟩ := hgood.returns hstable (fun e => e.elim) hrun
    exact ⟨k, r, Conf.result_of_prog hr⟩

end KvBench.Numa
