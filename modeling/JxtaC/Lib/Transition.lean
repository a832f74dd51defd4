import Mathlib.Data.List.Basic
import JxtaC.Lib.Exec

/-
  Systems that take one step after the other: the states that are reached by steps which meet a
  condition, and what holds in all of them (`Reaches.invariant`). Threads are a list of program
  points, of which a step changes one (`exists_split`).
  Nothing here depends on the modelled code.
-/

namespace JxtaC.Lib

open List
variable {α : Type} {l : List α} {i : Nat} {a : α} {β : Type} {f : α → Option β}

section Reaches
variable {σ α : Type}

/-- The states that are reached from a state by steps that meet a condition. -/
inductive Reaches (next : σ → α → σ → Prop) (ok : σ → α → Prop) (s : σ) : σ → Prop
  | refl : Reaches next ok s s
  | step {t u : σ} {a : α} (h : Reaches next ok s t) (hok : ok t a) (hnext : next t a u) :
      Reaches next ok s u

variable {next : σ → α → σ → Prop} {ok : σ → α → Prop} {s t : σ}

theorem Reaches.invariant {Inv : σ → Prop} (hs : Inv s)
    (hstep : ∀ {t u a}, Inv t → ok t a → next t a u → Inv u) (h : Reaches next ok s t) : Inv t := by
  induction h with
  | refl => exact hs
  | step _ hok hnext ih => exact hstep ih hok hnext

/-- A step before a run. -/
theorem Reaches.head {a : α} {r : σ} (hok : ok r a) (hnext : next r a s) (h : Reaches next ok s t) :
    Reaches next ok r t := by
  induction h with
  | refl => exact .step .refl hok hnext
  | step _ hok' hnext' ih => exact .step ih hok' hnext'

/-- A run that is computed. -/
theorem reaches_of_foldlM {f : σ → α → Option σ}
    (hf : ∀ {t a u}, f t a = some u → ok t a ∧ next t a u) {l : List α} (h : l.foldlM f s = some t) :
    Reaches next ok s t := by
  have hfrom : ∀ (l : List α) (r : σ), Reaches next ok s r → l.foldlM f r = some t →
      Reaches next ok s t := by
    intro l
    induction l with
    | nil =>
      intro r hr hrun
      exact Option.some.inj hrun ▸ hr
    | cons a l ih =>
      intro r hr hrun
      rw [foldlM_cons] at hrun
      obtain ⟨u, hu, hrest⟩ := Option.bind_eq_some_iff.mp hrun
      exact ih u (.step hr (hf hu).1 (hf hu).2) hrest
  exact hfrom l s .refl h

/-- A step that goes on, under a condition. -/
def goOn (step : σ → α → Option (Exec σ)) (ok : σ → α → Bool) (s : σ) (a : α) : Option σ :=
  match step s a with
  | some (.ok s') => if ok s a then some s' else none
  | _ => none

theorem goOn_eq_some {step : σ → α → Option (Exec σ)} {ok : σ → α → Bool} {a : α}
    (h : goOn step ok s a = some t) : ok s a = true ∧ step s a = some (.ok t) := by
  unfold goOn at h
  split at h
  next u hstep =>
    split at h
    next hok => exact ⟨hok, Option.some.inj h ▸ hstep⟩
    next => cases h
  next => cases h

end Reaches

/-- The thread that takes a step, with those before and behind it. -/
theorem exists_split (h : l[i]? = some a) :
    ∃ pre post, l = pre ++ a :: post ∧ (∀ b, l.set i b = pre ++ b :: post) ∧
      l.eraseIdx i = pre ++ post := by
  induction l generalizing i with
  | nil => simp at h
  | cons x l ih =>
    cases i with
    | zero =>
      cases h
      exact ⟨[], l, rfl, fun _ => rfl, rfl⟩
    | succ i =>
      obtain ⟨pre, post, rfl, hset, herase⟩ := ih h
      refine ⟨x :: pre, post, rfl, fun b => ?_, ?_⟩
      · exact congrArg (x :: ·) (hset b)
      · exact congrArg (x :: ·) herase

/-- What the threads contribute to a list, while one of them changes. -/
theorem exists_filterMap_set (f : α → Option β) (h : l[i]? = some a) :
    ∃ pre post, l.filterMap f = pre ++ (f a).toList ++ post ∧
      ∀ b, (l.set i b).filterMap f = pre ++ (f b).toList ++ post := by
  have happend : ∀ (pre post : List α) (b : α), (pre ++ b :: post).filterMap f =
      pre.filterMap f ++ (f b).toList ++ post.filterMap f := by
    intro pre post b
    rw [filterMap_append, filterMap_cons, append_assoc]
    cases f b <;> rfl
  obtain ⟨pre, post, rfl, hset, -⟩ := exists_split h
  exact ⟨pre.filterMap f, post.filterMap f, happend pre post a, fun b => by rw [hset, happend]⟩

section
variable (h : l[i]? = some a)
include h

theorem filterMap_set_of_eq {b : α} (hb : f b = f a) : (l.set i b).filterMap f = l.filterMap f := by
  obtain ⟨pre, post, hl, hset⟩ := exists_filterMap_set f h
  rw [hset, hl, hb]

/-- The one thread that contributes changes. -/
theorem filterMap_set_of_some {x : β} {c : Option β} (hx : f a = some x)
    (hl : l.filterMap f = c.toList) (b : α) :
    c = some x ∧ (l.set i b).filterMap f = (f b).toList := by
  obtain ⟨pre, post, heq, hset⟩ := exists_filterMap_set f h
  rw [heq, hx] at hl
  have hlength := congrArg List.length hl
  simp only [length_append, Option.toList_some, length_singleton] at hlength
  have hle : c.toList.length ≤ 1 := by cases c <;> simp
  obtain rfl : pre = [] := length_eq_zero_iff.mp (by omega)
  obtain rfl : post = [] := length_eq_zero_iff.mp (by omega)
  refine ⟨?_, by rw [hset, nil_append, append_nil]⟩
  cases c with
  | none => cases hl
  | some y => cases hl; rfl

/-- A thread is the first to contribute. -/
theorem filterMap_set_of_nil (hl : l.filterMap f = []) (b : α) :
    (l.set i b).filterMap f = (f b).toList := by
  obtain ⟨pre, post, heq, hset⟩ := exists_filterMap_set f h
  rw [heq] at hl
  obtain ⟨hpre, rfl⟩ := append_eq_nil_iff.mp hl
  obtain ⟨rfl, -⟩ := append_eq_nil_iff.mp hpre
  rw [hset, nil_append, append_nil]

/-- An entry is changed, and the others are as before. -/
theorem getElem?_set_iff {j : Nat} {b x : α} :
    (l.set i b)[j]? = some x ↔ (j = i ∧ b = x) ∨ (j ≠ i ∧ l[j]? = some x) := by
  have hlt : i < l.length := (List.getElem?_eq_some_iff.mp h).1
  by_cases hj : j = i
  · subst hj
    rw [getElem?_set_self hlt]
    simp
  · rw [getElem?_set_ne (Ne.symm hj)]
    simp [hj]

end

/-- An entry is added at the end. -/
theorem getElem?_concat_iff {j : Nat} {x : α} :
    (l ++ [a])[j]? = some x ↔ l[j]? = some x ∨ (j = l.length ∧ a = x) := by
  rcases Nat.lt_trichotomy j l.length with hj | rfl | hj
  · rw [getElem?_append_left hj]
    simp [Nat.ne_of_lt hj]
  · simp
  · have hleft : l[j]? = none := getElem?_eq_none (Nat.le_of_lt hj)
    have hlength : (l ++ [a]).length ≤ j := by
      rw [length_append]
      exact hj
    have hboth : (l ++ [a])[j]? = none := getElem?_eq_none hlength
    simp [hleft, hboth, Nat.ne_of_gt hj]

end JxtaC.Lib
