/-
  Executions of C code and runs of operations.
  An execution either returns a value or does something C leaves undefined (`Fault`).
  `runOps` performs a list of operations in turn; `SafeRun` says that every step of a run meets
  a condition on the state before it. `safeRun_simulates`: one step lemma carries a relation to
  an abstract transition system through whole runs. `Follows` says of every state of a run that it
  is the one of an abstract machine. Nothing here depends on the modelled code.
-/

namespace JxtaC.Lib

open List

/-- How C code ends without an answer: it leaves the language, does not return, or calls `abort`. -/
inductive Fault where
  | outOfBounds
  | nullPointer
  | danglingPointer
  | signedOverflow
  | neverReturns
  | aborted
  deriving Repr, DecidableEq

/-- A computation of the C code: a value, or a fault. -/
abbrev Exec (α : Type) := Except Fault α

section Bind
variable {ε α β : Type}
variable {b : β} {f : β → α → Except ε β}

@[simp] theorem ok_bind (a : α) (f : α → Except ε β) : (Except.ok a >>= f) = f a := rfl

@[simp] theorem error_bind (e : ε) (f : α → Except ε β) :
    (Except.error e >>= f) = Except.error e := rfl

theorem bind_eq_ok {x : Except ε α} {f : α → Except ε β} :
    (x >>= f) = .ok b ↔ ∃ a, x = .ok a ∧ f a = .ok b := by
  cases x with
  | error e => simp
  | ok a => simp

theorem pure_eq_ok (a : α) : (pure a : Except ε α) = .ok a := rfl

/-- A fold each of whose steps succeeds. -/
theorem foldlM_eq_ok {g : β → α → β} (xs : List α) (h : ∀ b, ∀ x ∈ xs, f b x = .ok (g b x))
    (b : β) : xs.foldlM f b = .ok (xs.foldl g b) := by
  induction xs generalizing b with
  | nil => rfl
  | cons x xs ih =>
    rw [foldlM_cons, h b x mem_cons_self, ok_bind, foldl_cons]
    exact ih (fun b y hy => h b y (mem_cons_of_mem x hy)) (g b x)

/-- Each step of a fold that succeeds succeeds somewhere. -/
theorem exists_ok_of_foldlM {xs : List α} {b' : β} (h : xs.foldlM f b = .ok b') :
    ∀ x ∈ xs, ∃ c c', f c x = .ok c' := by
  induction xs generalizing b with
  | nil =>
    intro x hx
    exact absurd hx not_mem_nil
  | cons x xs ih =>
    rw [foldlM_cons] at h
    obtain ⟨c, hc, hrest⟩ := bind_eq_ok.mp h
    intro y hy
    rcases mem_cons.mp hy with rfl | hy
    · exact ⟨b, c, hc⟩
    · exact ih hrest y hy

/-- A fold that fails does so at one of its steps. -/
theorem exists_error_of_foldlM {xs : List α} {e : ε} (h : xs.foldlM f b = .error e) :
    ∃ front x back c, xs = front ++ x :: back ∧
      front.foldlM f b = .ok c ∧ f c x = .error e := by
  induction xs generalizing b with
  | nil => exact absurd h (by simp [pure_eq_ok])
  | cons x xs ih =>
    rw [foldlM_cons] at h
    cases hstep : f b x with
    | error e' =>
      rw [hstep] at h
      cases h
      exact ⟨[], x, xs, b, rfl, rfl, hstep⟩
    | ok c =>
      rw [hstep, ok_bind] at h
      obtain ⟨front, y, back, c', rfl, hfront, hy⟩ := ih h
      refine ⟨x :: front, y, back, c', rfl, ?_, hy⟩
      rw [foldlM_cons, hstep, ok_bind, hfront]

end Bind

/-- The value, where there is one, satisfies `P`. -/
def Returns {α : Type} (x : Exec α) (P : α → Prop) : Prop :=
  match x with
  | .ok a => P a
  | .error _ => True

instance {α : Type} (x : Exec α) (P : α → Prop) [DecidablePred P] : Decidable (Returns x P) :=
  match x with
  | .ok a => inferInstanceAs (Decidable (P a))
  | .error _ => isTrue trivial

theorem returns_ok {α : Type} {x : Exec α} {P : α → Prop} {a : α} (h : Returns x P)
    (hx : x = .ok a) : P a := by
  subst hx; exact h

/-! ## runs -/

section Runs
variable {σ τ ω ρ : Type}
variable {step : σ → ω → Exec (σ × ρ)} {Inv : σ → Prop} {s s' : σ} {rs : List ρ}
variable {Safe : σ → ω → Prop} {Rel : σ → τ → Prop} {spec : τ → ω → τ × ρ} {t : τ} {P : σ → Prop}
variable {Q : σ → ω → ρ → σ → Prop} (os : List ω)

/-- Performs the operations in turn and collects what each one returned. -/
def runOps (step : σ → ω → Exec (σ × ρ)) : σ → List ω → Exec (σ × List ρ)
  | s, [] => .ok (s, [])
  | s, o :: os => do
    let (s', r) ← step s o
    let (s'', rs) ← runOps step s' os
    return (s'', r :: rs)

/-- Each step of the run starts in a state that meets `Safe` for its operation. -/
def SafeRun (step : σ → ω → Exec (σ × ρ)) (Safe : σ → ω → Prop) : σ → List ω → Prop
  | _, [] => True
  | s, o :: os => Safe s o ∧ Returns (step s o) fun p => SafeRun step Safe p.1 os

instance SafeRun.decidable (step : σ → ω → Exec (σ × ρ)) (Safe : σ → ω → Prop)
    [∀ s o, Decidable (Safe s o)] : ∀ (s : σ) (os : List ω), Decidable (SafeRun step Safe s os)
  | _, [] => isTrue trivial
  | s, o :: os =>
    have : ∀ s', Decidable (SafeRun step Safe s' os) := fun s' => SafeRun.decidable step Safe s' os
    inferInstanceAs (Decidable (Safe s o ∧ Returns (step s o) fun p => SafeRun step Safe p.1 os))

/-- What every step keeps holds at the end of a run. -/
theorem runOps_keeps (hkeep : ∀ s o s' r, Inv s → step s o = .ok (s', r) → Inv s') (os : List ω)
    (hs : Inv s) (hrun : runOps step s os = .ok (s', rs)) : Inv s' := by
  induction os generalizing s rs with
  | nil =>
    cases hrun
    exact hs
  | cons o os ih =>
    unfold runOps at hrun
    obtain ⟨⟨t, r⟩, hstep, hrest⟩ := bind_eq_ok.mp hrun
    obtain ⟨⟨t', rs'⟩, hrun', heq⟩ := bind_eq_ok.mp hrest
    cases heq
    exact ih (hkeep s o t r hs hstep) hrun'

/-- Two conditions on the steps that agree wherever an invariant holds agree on runs. -/
theorem safeRun_congr {P Q : σ → ω → Prop} (hiff : ∀ s o, Inv s → (P s o ↔ Q s o))
    (hkeep : ∀ s o s' r, Inv s → step s o = .ok (s', r) → Inv s') (os : List ω) (s : σ)
    (hs : Inv s) : SafeRun step P s os ↔ SafeRun step Q s os := by
  induction os generalizing s with
  | nil => exact Iff.rfl
  | cons o os ih =>
    unfold SafeRun
    apply and_congr (hiff s o hs)
    cases hstep : step s o with
    | error e => exact Iff.rfl
    | ok p => exact ih p.1 (hkeep s o p.1 p.2 hs hstep)

/-- An abstract transition system answers the operations with these responses. -/
inductive Answers (R : τ → ω → ρ → τ → Prop) : τ → List ω → List ρ → τ → Prop where
  | nil (t : τ) : Answers R t [] [] t
  | cons {t t' t'' : τ} {o : ω} {os : List ω} {r : ρ} {rs : List ρ} (head : R t o r t')
      (tail : Answers R t' os rs t'') : Answers R t (o :: os) (r :: rs) t''

theorem runOps_cons_ok {o : ω} {r : ρ} (h : step s o = .ok (s', r)) (os : List ω) :
    runOps step s (o :: os) = (do let (s'', rs) ← runOps step s' os; return (s'', r :: rs)) := by
  rw [runOps, h, ok_bind]

/-- A step lemma under `Safe` carries the relation `Rel` through every safe run. -/
theorem safeRun_simulates {R : τ → ω → ρ → τ → Prop} (hstep : ∀ s t o, Rel s t → Safe s o →
      ∃ s' r t', step s o = .ok (s', r) ∧ R t o r t' ∧ Rel s' t') (os : List ω) (s : σ) (t : τ)
    (hrel : Rel s t) (hsafe : SafeRun step Safe s os) :
    ∃ s' rs t', runOps step s os = .ok (s', rs) ∧ Answers R t os rs t' ∧ Rel s' t' := by
  induction os generalizing s t with
  | nil => exact ⟨s, [], t, rfl, .nil t, hrel⟩
  | cons o os ih =>
    obtain ⟨ho, hrest⟩ := hsafe
    obtain ⟨s', r, t', hs', hR, hrel'⟩ := hstep s t o hrel ho
    have hos := returns_ok hrest hs'
    obtain ⟨s'', rs, t'', hrun, hans, hrel''⟩ := ih s' t' hrel' hos
    refine ⟨s'', r :: rs, t'', ?_, .cons hR hans, hrel''⟩
    rw [runOps_cons_ok hs', hrun]
    rfl

/-- The run of a machine that always answers. -/
def runSpec (spec : τ → ω → τ × ρ) : τ → List ω → τ × List ρ
  | t, [] => (t, [])
  | t, o :: os =>
    let (t', rs) := runSpec spec (spec t o).1 os
    (t', (spec t o).2 :: rs)

/-- In every state of the run the machine `spec` is at the state it is related to, and it gives the
same answer to every operation. -/
def Follows (step : σ → ω → Exec (σ × ρ)) (spec : τ → ω → τ × ρ) (Rel : σ → τ → Prop) :
    σ → τ → List ω → Prop
  | s, t, [] => Rel s t
  | s, t, o :: os =>
    Rel s t ∧ ∃ s', step s o = .ok (s', (spec t o).2) ∧ Follows step spec Rel s' (spec t o).1 os

theorem Follows.rel {os : List ω} (h : Follows step spec Rel s t os) : Rel s t := by
  cases os with
  | nil => exact h
  | cons o os => exact h.1

/-- A run that follows `spec` gives its answers and ends in a state related to its last one. -/
theorem Follows.runOps (h : Follows step spec Rel s t os) :
    ∃ s', runOps step s os = .ok (s', (runSpec spec t os).2) ∧ Rel s' (runSpec spec t os).1 := by
  induction os generalizing s t with
  | nil => exact ⟨s, rfl, h⟩
  | cons o os ih =>
    obtain ⟨-, s', hstep, hrest⟩ := h
    obtain ⟨s'', hrun, hrel⟩ := ih hrest
    refine ⟨s'', ?_, hrel⟩
    rw [runOps_cons_ok hstep, hrun]
    rfl

/-- Where `Safe` says when one step follows `spec`, the runs that follow it are the safe ones. -/
theorem follows_iff_safeRun (hstep : ∀ s t o, Rel s t → (Safe s o ↔
      ∃ s', step s o = .ok (s', (spec t o).2) ∧ Rel s' (spec t o).1)) (os : List ω)
    (hrel : Rel s t) : Follows step spec Rel s t os ↔ SafeRun step Safe s os := by
  induction os generalizing s t with
  | nil => exact iff_of_true hrel trivial
  | cons o os ih =>
    unfold SafeRun
    constructor
    · intro h
      obtain ⟨-, s', hs', hrest⟩ := h
      rw [hs']
      exact ⟨(hstep s t o hrel).mpr ⟨s', hs', hrest.rel⟩, (ih hrest.rel).mp hrest⟩
    · intro h
      obtain ⟨ho, hrest⟩ := h
      obtain ⟨s', hs', hrel'⟩ := (hstep s t o hrel).mp ho
      have hos := returns_ok hrest hs'
      exact ⟨hrel, s', hs', (ih hrel').mpr hos⟩

/-- Where each safe step follows `spec`, so does every safe run. -/
theorem follows_of_safeRun (hstep : ∀ s t o, Rel s t → Safe s o →
      ∃ s', step s o = .ok (s', (spec t o).2) ∧ Rel s' (spec t o).1) (os : List ω)
    (hrel : Rel s t) (hsafe : SafeRun step Safe s os) : Follows step spec Rel s t os := by
  induction os generalizing s t with
  | nil => exact hrel
  | cons o os ih =>
    obtain ⟨ho, hrest⟩ := hsafe
    obtain ⟨s', hs', hrel'⟩ := hstep s t o hrel ho
    have hos := returns_ok hrest hs'
    exact ⟨hrel, s', hs', ih hrel' hos⟩

/-- The run does not fail, `P` holds of every state of it and `Q` of every step. -/
def Throughout (step : σ → ω → Exec (σ × ρ)) (P : σ → Prop) (Q : σ → σ → Prop) :
    σ → List ω → Prop
  | s, [] => P s
  | s, o :: os => P s ∧ ∃ s' r, step s o = .ok (s', r) ∧ Q s s' ∧ Throughout step P Q s' os

theorem Throughout.first {Q : σ → σ → Prop} {os : List ω} (h : Throughout step P Q s os) :
    P s := by
  cases os with
  | nil => exact h
  | cons o os => exact h.1

theorem Throughout.last {Q : σ → σ → Prop} (h : Throughout step P Q s os)
    (hrun : runOps step s os = .ok (s', rs)) : P s' := by
  induction os generalizing s rs with
  | nil =>
    cases hrun
    exact h
  | cons o os ih =>
    obtain ⟨-, t, r, hstep, -, hrest⟩ := h
    rw [runOps_cons_ok hstep] at hrun
    obtain ⟨⟨t', rs'⟩, hrun', heq⟩ := bind_eq_ok.mp hrun
    cases heq
    exact ih hrest hrun'

theorem Throughout.runOps {Q : σ → σ → Prop} (h : Throughout step P Q s os) :
    ∃ s' rs, runOps step s os = .ok (s', rs) ∧ P s' := by
  induction os generalizing s with
  | nil => exact ⟨s, [], rfl, h⟩
  | cons o os ih =>
    obtain ⟨-, t, r, hstep, -, hrest⟩ := h
    obtain ⟨s', rs, hrun, hs'⟩ := ih hrest
    refine ⟨s', r :: rs, ?_, hs'⟩
    rw [runOps_cons_ok hstep, hrun]
    rfl

/-- An invariant that safe steps keep gives the property of every state. -/
theorem throughout_of_safeRun {Q : σ → σ → Prop} (hP : ∀ s, Inv s → P s)
    (hstep : ∀ s o, Inv s → Safe s o → ∃ s' r, step s o = .ok (s', r) ∧ Q s s' ∧ Inv s')
    (os : List ω) (hs : Inv s) (hsafe : SafeRun step Safe s os) : Throughout step P Q s os := by
  induction os generalizing s with
  | nil => exact hP s hs
  | cons o os ih =>
    obtain ⟨ho, hrest⟩ := hsafe
    obtain ⟨s', r, hs', hq, hinv⟩ := hstep s o hs ho
    have hos := returns_ok hrest hs'
    exact ⟨hP s hs, s', r, hs', hq, ih hinv hos⟩

/-- Where `Safe` says which steps keep the property, it holds throughout the safe runs only. -/
theorem throughout_iff_safeRun
    (hstep : ∀ s o, P s → (Safe s o ↔ ∃ s' r, step s o = .ok (s', r) ∧ P s')) (os : List ω)
    (hs : P s) : Throughout step P (fun _ _ => True) s os ↔ SafeRun step Safe s os := by
  induction os generalizing s with
  | nil => exact iff_of_true hs trivial
  | cons o os ih =>
    unfold SafeRun
    constructor
    · intro h
      obtain ⟨-, s', r, hs', -, hrest⟩ := h
      have hp : P s' := hrest.first
      rw [hs']
      exact ⟨(hstep s o hs).mpr ⟨s', r, hs', hp⟩, (ih hp).mp hrest⟩
    · intro h
      obtain ⟨ho, hrest⟩ := h
      obtain ⟨s', r, hs', hp⟩ := (hstep s o hs).mp ho
      have hos := returns_ok hrest hs'
      exact ⟨hs, s', r, hs', trivial, (ih hp).mpr hos⟩

/-- The run does not fail, `P` holds of every state of it and `Q` of every step with its answer. -/
def Along (step : σ → ω → Exec (σ × ρ)) (P : σ → Prop) (Q : σ → ω → ρ → σ → Prop) :
    σ → List ω → Prop
  | s, [] => P s
  | s, o :: os => P s ∧ ∃ s' r, step s o = .ok (s', r) ∧ Q s o r s' ∧ Along step P Q s' os

instance Along.decidable (step : σ → ω → Exec (σ × ρ)) (P : σ → Prop) (Q : σ → ω → ρ → σ → Prop)
    [DecidablePred P] [∀ s o r s', Decidable (Q s o r s')] :
    ∀ (s : σ) (os : List ω), Decidable (Along step P Q s os)
  | s, [] => inferInstanceAs (Decidable (P s))
  | s, o :: os =>
    match h : step s o with
    | .error _ => isFalse fun hrun => by
      obtain ⟨-, s', r, hs', -⟩ := hrun
      rw [h] at hs'
      cases hs'
    | .ok (s', r) =>
      have : Decidable (Along step P Q s' os) := Along.decidable step P Q s' os
      decidable_of_iff (P s ∧ Q s o r s' ∧ Along step P Q s' os) <| by
        constructor
        · intro ⟨hp, hq, hrest⟩
          exact ⟨hp, s', r, h, hq, hrest⟩
        · intro ⟨hp, t, r', ht, hq, hrest⟩
          obtain ⟨rfl, rfl⟩ := Prod.mk.inj (Except.ok.inj (h.symm.trans ht))
          exact ⟨hp, hq, hrest⟩

theorem Along.last (h : Along step P Q s os) (hrun : runOps step s os = .ok (s', rs)) : P s' := by
  induction os generalizing s rs with
  | nil =>
    cases hrun
    exact h
  | cons o os ih =>
    obtain ⟨-, t, r, hstep, -, hrest⟩ := h
    rw [runOps_cons_ok hstep] at hrun
    obtain ⟨⟨t', rs'⟩, hrun', heq⟩ := bind_eq_ok.mp hrun
    cases heq
    exact ih hrest hrun'

/-- What safe steps answer in an invariant, and keep, they do along every safe run. -/
theorem along_of_safeRun (hP : ∀ s, Inv s → P s)
    (hstep : ∀ s o, Inv s → Safe s o → ∃ s' r, step s o = .ok (s', r) ∧ Q s o r s' ∧ Inv s')
    (os : List ω) (hs : Inv s) (hsafe : SafeRun step Safe s os) : Along step P Q s os := by
  induction os generalizing s with
  | nil => exact hP s hs
  | cons o os ih =>
    obtain ⟨ho, hrest⟩ := hsafe
    obtain ⟨s', r, hs', hq, hinv⟩ := hstep s o hs ho
    have hos := returns_ok hrest hs'
    exact ⟨hP s hs, s', r, hs', hq, ih hinv hos⟩

theorem Along.imp {P' : σ → Prop} {Q' : σ → ω → ρ → σ → Prop} (hP : ∀ s, P s → P' s)
    (hQ : ∀ s o r s', Q s o r s' → Q' s o r s') (os : List ω) (h : Along step P Q s os) :
    Along step P' Q' s os := by
  induction os generalizing s with
  | nil => exact hP s h
  | cons o os ih =>
    obtain ⟨hp, s', r, hs', hq, hrest⟩ := h
    exact ⟨hP s hp, s', r, hs', hQ s o r s' hq, ih hrest⟩

theorem Along.first {os : List ω} (h : Along step P Q s os) : P s := by
  cases os with
  | nil => exact h
  | cons o os => exact h.1

/-- Where `Safe` says which steps answer as they should and keep the property, both hold along the
    safe runs only. -/
theorem along_iff_safeRun (hkeep : ∀ s o s' r, Inv s → step s o = .ok (s', r) → Inv s')
    (hstep : ∀ s o, Inv s → P s → (Safe s o ↔ ∃ s' r, step s o = .ok (s', r) ∧ Q s o r s' ∧ P s'))
    (os : List ω) (hs : Inv s) (hp : P s) : Along step P Q s os ↔ SafeRun step Safe s os := by
  induction os generalizing s with
  | nil => exact iff_of_true hp trivial
  | cons o os ih =>
    unfold SafeRun
    constructor
    · intro h
      obtain ⟨-, s', r, hs', hq, hrest⟩ := h
      have hinv := hkeep s o s' r hs hs'
      rw [hs']
      exact ⟨(hstep s o hs hp).mpr ⟨s', r, hs', hq, hrest.first⟩, (ih hinv hrest.first).mp hrest⟩
    · intro h
      obtain ⟨ho, hrest⟩ := h
      obtain ⟨s', r, hs', hq, hp'⟩ := (hstep s o hs hp).mp ho
      have hinv := hkeep s o s' r hs hs'
      have hos := returns_ok hrest hs'
      exact ⟨hp, s', r, hs', hq, (ih hinv hp').mpr hos⟩

end Runs

end JxtaC.Lib
