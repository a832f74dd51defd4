import JxtaC.Lib.Exec

/-
  Loops that end. A body goes on with a state or leaves with a result; a `Loop` has a measure that
  every state to go on with has less of. `Visits` are the states that the body meets on its way.
  Nothing here depends on the modelled code.
-/

namespace JxtaC.Lib

/-- A loop body, and why it does not go on forever. -/
structure Loop (σ ρ : Type) where
  body : σ → Exec (σ ⊕ ρ)
  size : σ → Nat
  decreases : ∀ s t, body s = .ok (.inl t) → size t < size s

namespace Loop
variable {σ ρ : Type}

/-- The loop, from a state on. -/
def run (L : Loop σ ρ) (s : σ) : Exec ρ :=
  match h : L.body s with
  | .error e => .error e
  | .ok (.inl t) => L.run t
  | .ok (.inr r) => .ok r
termination_by L.size s
decreasing_by exact L.decreases s t h

/-- The states that the body meets. -/
inductive Visits (L : Loop σ ρ) : σ → σ → Prop where
  | refl (s : σ) : Visits L s s
  | step {s t u : σ} (h : L.body s = .ok (.inl t)) (hrest : Visits L t u) : Visits L s u

variable {L : Loop σ ρ} {s t u : σ} {r : ρ} {e : Fault}

theorem run_error (h : L.body s = .error e) : L.run s = .error e := by
  rw [run]
  split
  · rename_i e' h'
    rw [h] at h'
    rw [Except.error.inj h']
  · rename_i h'
    rw [h] at h'
    cases h'
  · rename_i h'
    rw [h] at h'
    cases h'

theorem run_next (h : L.body s = .ok (.inl t)) : L.run s = L.run t := by
  rw [run]
  split
  · rename_i h'
    rw [h] at h'
    cases h'
  · rename_i t' h'
    rw [h] at h'
    rw [Sum.inl.inj (Except.ok.inj h')]
  · rename_i h'
    rw [h] at h'
    cases h'

theorem run_done (h : L.body s = .ok (.inr r)) : L.run s = .ok r := by
  rw [run]
  split
  · rename_i h'
    rw [h] at h'
    cases h'
  · rename_i h'
    rw [h] at h'
    cases h'
  · rename_i r' h'
    rw [h] at h'
    rw [Sum.inr.inj (Except.ok.inj h')]

/-- What holds of a state if it holds of the one that the body goes on with holds of all. -/
theorem induction {P : σ → Prop} (L : Loop σ ρ)
    (h : ∀ s, (∀ t, L.body s = .ok (.inl t) → P t) → P s) (s : σ) : P s := by
  induction hn : L.size s using Nat.strongRecOn generalizing s with
  | ind n ih => exact h s fun t ht => ih (L.size t) (hn ▸ L.decreases s t ht) t rfl

end Loop

end JxtaC.Lib
