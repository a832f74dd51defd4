import JxtaC.Lib.Exec

/-
  Actions on a stream: they read from its front or write at its end, and may leave early.
  `Reads x bs a` says that `x` takes exactly `bs` and returns `a`; `Emits W x bs` that `x` appends
  `bs`, unless the sink `W` refuses a chunk. Both compose along `>>=`, so that the bytes of a whole
  format are the appended bytes of its parts. The `_iff` lemmas take an outcome of a sequence
  apart. Nothing here depends on the modelled code.
-/

namespace JxtaC.Lib.Stream

open List

/-- How an action ends: with a value, early with a code, or outside the language. -/
inductive Result (β ε α : Type) where
  | ok (a : α) (s : List β)
  | exit (e : ε) (s : List β)
  | fault (f : Fault)
  deriving Repr, DecidableEq

/-- An action takes the stream it finds to the stream it leaves. -/
def Action (β ε α : Type) : Type := List β → Result β ε α

variable {β ε α γ : Type}

instance : Monad (Action β ε) where
  pure a := fun s => .ok a s
  bind x f := fun s =>
    match x s with
    | .ok a s' => f a s'
    | .exit e s' => .exit e s'
    | .fault g => .fault g

/-- Leaves with a code. -/
def leave (e : ε) : Action β ε α := fun s => .exit e s

/-- Leaves the language. -/
def crash (f : Fault) : Action β ε α := fun _ => .fault f

/-- The value of an action, or the code it left with. -/
def attempt (x : Action β ε α) : Action β ε (Except ε α) := fun s =>
  match x s with
  | .ok a s' => .ok (.ok a) s'
  | .exit e s' => .ok (.error e) s'
  | .fault g => .fault g

/-- The values of `n` turns. -/
def collect (x : Action β ε α) : Nat → Action β ε (List α)
  | 0 => pure []
  | n + 1 => do
    let a ← x
    let as ← collect x n
    return a :: as

section Sequence
variable {x : Action β ε α} {f : α → Action β ε γ} {s s' r : List β} {a : α} {c : γ} {e : ε}
  {g : Fault}

@[simp] theorem pure_apply (a : α) (s : List β) : (pure a : Action β ε α) s = .ok a s := rfl

@[simp] theorem crash_apply (g : Fault) (s : List β) : (crash g : Action β ε α) s = .fault g := rfl

theorem bind_of_ok (h : x s = .ok a s') : (x >>= f) s = f a s' := by
  show (match x s with | .ok a s' => f a s' | .exit e s' => .exit e s' | .fault g => .fault g) = _
  rw [h]

theorem bind_of_exit (h : x s = .exit e s') : (x >>= f) s = .exit e s' := by
  show (match x s with | .ok a s' => f a s' | .exit e s' => .exit e s' | .fault g => .fault g) = _
  rw [h]

theorem bind_of_fault (h : x s = .fault g) : (x >>= f) s = .fault g := by
  show (match x s with | .ok a s' => f a s' | .exit e s' => .exit e s' | .fault g => .fault g) = _
  rw [h]

theorem bind_ok_iff : (x >>= f) s = .ok c r ↔ ∃ a s', x s = .ok a s' ∧ f a s' = .ok c r := by
  cases h : x s with
  | ok a s' =>
    rw [bind_of_ok h]
    exact ⟨fun hf => ⟨a, s', rfl, hf⟩, fun ⟨_, _, heq, hf⟩ => by cases heq; exact hf⟩
  | exit e s' => simp [bind_of_exit h]
  | fault g => simp [bind_of_fault h]

theorem bind_exit_iff : (x >>= f) s = .exit e r ↔
    x s = .exit e r ∨ ∃ a s', x s = .ok a s' ∧ f a s' = .exit e r := by
  cases h : x s with
  | ok a s' =>
    rw [bind_of_ok h]
    refine ⟨fun hf => .inr ⟨a, s', rfl, hf⟩, ?_⟩
    rintro (heq | ⟨_, _, heq, hf⟩) <;> cases heq
    exact hf
  | exit e s' => simp [bind_of_exit h]
  | fault g => simp [bind_of_fault h]

theorem bind_fault_iff : (x >>= f) s = .fault g ↔
    x s = .fault g ∨ ∃ a s', x s = .ok a s' ∧ f a s' = .fault g := by
  cases h : x s with
  | ok a s' =>
    rw [bind_of_ok h]
    refine ⟨fun hf => .inr ⟨a, s', rfl, hf⟩, ?_⟩
    rintro (heq | ⟨_, _, heq, hf⟩) <;> cases heq
    exact hf
  | exit e s' => simp [bind_of_exit h]
  | fault g => simp [bind_of_fault h]

end Sequence

section Leaves
variable {E : ε → Prop} {x : Action β ε α} {f : α → Action β ε γ} {s : List β}

/-- On this stream the action keeps to the language, and leaves early only with these codes. -/
def Leaves (E : ε → Prop) (x : Action β ε α) (s : List β) : Prop :=
  (∀ g, x s ≠ .fault g) ∧ ∀ e r, x s = .exit e r → E e

theorem leaves_pure (a : α) (s : List β) : Leaves E (pure a) s :=
  ⟨fun _ h => (by cases h), fun _ _ h => by cases h⟩

theorem leaves_leave {e : ε} (h : E e) (s : List β) : Leaves E (leave e : Action β ε α) s :=
  ⟨fun _ h => (by cases h), fun _ _ heq => by cases heq; exact h⟩

theorem Leaves.bind (hx : Leaves E x s) (hf : ∀ a r, x s = .ok a r → Leaves E (f a) r) :
    Leaves E (x >>= f) s := by
  constructor
  · intro g hg
    rcases bind_fault_iff.mp hg with h | ⟨a, r, hok, h⟩
    · exact hx.1 g h
    · exact (hf a r hok).1 g h
  · intro e r he
    rcases bind_exit_iff.mp he with h | ⟨a, r', hok, h⟩
    · exact hx.2 e r h
    · exact (hf a r' hok).2 e r h

theorem Leaves.cases (h : Leaves E x s) :
    (∃ a r, x s = .ok a r) ∨ ∃ e r, x s = .exit e r ∧ E e := by
  cases hx : x s with
  | ok a r => exact .inl ⟨a, r, rfl⟩
  | exit e r => exact .inr ⟨e, r, rfl, h.2 e r hx⟩
  | fault g => exact absurd hx (h.1 g)

end Leaves

/-! ## reading -/

/-- A source: the code of a read that asks for more than there is, and what that read leaves. -/
structure Source (β ε : Type) where
  err : ε
  leftover : List β → Nat → List β
  leftover_le : ∀ s n, (leftover s n).length ≤ s.length

/-- A source that is empty after a read that fails. -/
def Source.exhausted (β : Type) {ε : Type} (err : ε) : Source β ε :=
  ⟨err, fun _ _ => [], fun _ _ => Nat.zero_le _⟩

/-- Reads `n` items, or `none` where there are not as many. -/
def read (P : Source β ε) (n : Nat) : Action β ε (Option (List β)) := fun s =>
  if n ≤ s.length then .ok (some (s.take n)) (s.drop n) else .ok none (P.leftover s n)

/-- Reads `n` items, or leaves with the code of the source. -/
def readAll (P : Source β ε) (n : Nat) : Action β ε (List β) := do
  match ← read P n with
  | some bs => return bs
  | none => leave P.err

section Reading
variable {P : Source β ε} {x : Action β ε α} {f : α → Action β ε γ} {bs cs s r : List β} {a : α}
  {c : γ} {n : Nat}

/-- The action takes exactly these items off the stream and returns this value. -/
def Reads (x : Action β ε α) (bs : List β) (a : α) : Prop := ∀ rest, x (bs ++ rest) = .ok a rest

theorem Reads.bind_apply (h : Reads x bs a) (rest : List β) : (x >>= f) (bs ++ rest) = f a rest :=
  bind_of_ok (h rest)

theorem reads_pure (a : α) : Reads (pure a : Action β ε α) [] a := fun _ => rfl

theorem Reads.bind (hx : Reads x bs a) (hf : Reads (f a) cs c) : Reads (x >>= f) (bs ++ cs) c := by
  intro rest
  rw [append_assoc, hx.bind_apply]
  exact hf rest

/-- Of two readings of one stream, none takes more than the other. -/
theorem Reads.unique {bs' rest rest' : List β} {a' : α} (h : Reads x bs a) (h' : Reads x bs' a')
    (heq : bs ++ rest = bs' ++ rest') : a = a' ∧ rest = rest' := by
  have hread := h rest
  rw [heq, h' rest'] at hread
  cases hread
  exact ⟨rfl, rfl⟩

theorem Reads.attempt (hx : Reads x bs a) : Reads (attempt x) bs (.ok a) := by
  intro rest
  unfold Stream.attempt
  rw [hx rest]

theorem reads_read (P : Source β ε) (h : bs.length = n) : Reads (read P n) bs (some bs) := by
  subst h
  intro rest
  unfold read
  rw [if_pos (by rw [length_append]; omega), take_left, drop_left]

theorem reads_readAll (P : Source β ε) (h : bs.length = n) : Reads (readAll P n) bs bs := by
  intro rest
  unfold readAll
  rw [(reads_read P h).bind_apply]
  rfl

theorem Reads.collect {ι : Type} {items : List ι} {enc : ι → List β} {val : ι → α}
    (h : ∀ i ∈ items, Reads x (enc i) (val i)) :
    Reads (collect x items.length) (items.flatMap enc) (items.map val) := by
  induction items with
  | nil => exact reads_pure []
  | cons i items ih =>
    have htail := ih fun j hj => h j (mem_cons_of_mem i hj)
    intro rest
    show (x >>= fun a => Stream.collect x items.length >>= fun as => pure (a :: as)) _ = _
    rw [flatMap_cons, append_assoc, (h i mem_cons_self).bind_apply, htail.bind_apply]
    rfl

theorem read_ok {o : Option (List β)} (h : read P n s = .ok o r) :
    (∃ bs, o = some bs ∧ s = bs ++ r ∧ bs.length = n) ∨ (o = none ∧ s.length < n) := by
  unfold read at h
  split at h
  · cases h
    exact .inl ⟨_, rfl, (take_append_drop n s).symm, length_take_of_le ‹_›⟩
  · cases h
    exact .inr ⟨rfl, by omega⟩

theorem read_total (P : Source β ε) (n : Nat) (s : List β) : ∃ o r, read P n s = .ok o r := by
  unfold read
  split
  · exact ⟨_, _, rfl⟩
  · exact ⟨_, _, rfl⟩

/-- The two ways a read ends. -/
theorem readAll_cases (P : Source β ε) (n : Nat) (s : List β) :
    (∃ bs r, s = bs ++ r ∧ bs.length = n ∧ readAll P n s = .ok bs r) ∨
      (s.length < n ∧ ∃ r, readAll P n s = .exit P.err r) := by
  obtain ⟨o, r, hr⟩ := read_total P n s
  unfold readAll
  rw [bind_of_ok hr]
  rcases read_ok hr with ⟨bs, rfl, hs, hlen⟩ | ⟨rfl, hlt⟩
  · exact .inl ⟨bs, r, hs, hlen, rfl⟩
  · exact .inr ⟨hlt, r, rfl⟩

theorem readAll_ok (h : readAll P n s = .ok bs r) : s = bs ++ r ∧ bs.length = n := by
  rcases readAll_cases P n s with ⟨bs', r', hs, hlen, hok⟩ | ⟨-, r', hexit⟩
  · rw [h] at hok
    cases hok
    exact ⟨hs, hlen⟩
  · rw [h] at hexit
    cases hexit

theorem readAll_exit {e : ε} (h : readAll P n s = .exit e r) : e = P.err ∧ s.length < n := by
  rcases readAll_cases P n s with ⟨bs', r', hs, hlen, hok⟩ | ⟨hlt, r', hexit⟩
  · rw [h] at hok
    cases hok
  · rw [h] at hexit
    cases hexit
    exact ⟨rfl, hlt⟩

theorem readAll_ne_fault (g : Fault) : readAll P n s ≠ .fault g := by
  rcases readAll_cases P n s with ⟨bs', r', hs, hlen, hok⟩ | ⟨hlt, r', hexit⟩
  · rw [hok]; simp
  · rw [hexit]; simp

theorem leaves_read {E : ε → Prop} (P : Source β ε) (n : Nat) (s : List β) :
    Leaves E (read P n) s := by
  obtain ⟨o, r, h⟩ := read_total P n s
  constructor
  · intro g hg
    rw [h] at hg
    cases hg
  · intro e r' he
    rw [h] at he
    cases he

theorem leaves_collect {E : ε → Prop} (h : ∀ s, Leaves E x s) (n : Nat) (s : List β) :
    Leaves E (collect x n) s := by
  induction n generalizing s with
  | zero => exact leaves_pure [] s
  | succ n ih => exact (h s).bind fun a r _ => (ih r).bind fun as r' _ => leaves_pure (a :: as) r'

/-- An action that leaves no more of the stream than there was. -/
def Shrinks (x : Action β ε α) : Prop := ∀ s a r, x s = .ok a r → r.length ≤ s.length

theorem shrinks_pure (a : α) : Shrinks (pure a : Action β ε α) := fun _ _ _ h => by
  cases h
  exact Nat.le_refl _

theorem shrinks_leave (e : ε) : Shrinks (leave e : Action β ε α) := fun _ _ _ h => by cases h

theorem Shrinks.bind (hx : Shrinks x) (hf : ∀ a, Shrinks (f a)) : Shrinks (x >>= f) := by
  intro s c r h
  obtain ⟨a, s', ha, hc⟩ := bind_ok_iff.mp h
  exact Nat.le_trans (hf a s' c r hc) (hx s a s' ha)

theorem shrinks_read (P : Source β ε) (n : Nat) : Shrinks (read P n) := by
  intro s o r h
  unfold read at h
  split at h
  · cases h
    rw [length_drop]
    omega
  · cases h
    exact P.leftover_le s n

theorem shrinks_readAll (P : Source β ε) (n : Nat) : Shrinks (readAll P n) :=
  (shrinks_read P n).bind fun o => by
    cases o with
    | none => exact shrinks_leave P.err
    | some bs => exact shrinks_pure bs

theorem leaves_readAll {E : ε → Prop} (h : E P.err) (n : Nat) (s : List β) :
    Leaves E (readAll P n) s :=
  ⟨readAll_ne_fault, fun _ _ he => (readAll_exit he).1 ▸ h⟩

/-- What a collection of values was read from, item by item. -/
theorem collect_ok {ι : Type} {enc : ι → List β} {val : ι → α} {Good : ι → Prop}
    (hx : ∀ s a r, x s = .ok a r → ∃ i, Good i ∧ s = enc i ++ r ∧ val i = a) (n : Nat) (s : List β)
    (as : List α) (r : List β) (h : collect x n s = .ok as r) :
    ∃ items : List ι, s = items.flatMap enc ++ r ∧ items.length = n ∧ (∀ i ∈ items, Good i) ∧
      items.map val = as := by
  induction n generalizing s as with
  | zero =>
    cases h
    exact ⟨[], rfl, rfl, fun i hi => absurd hi not_mem_nil, rfl⟩
  | succ n ih =>
    obtain ⟨a, s₁, ha, h₁⟩ := bind_ok_iff.mp h
    obtain ⟨as', s₂, has, h₂⟩ := bind_ok_iff.mp h₁
    cases h₂
    obtain ⟨i, hgood, rfl, rfl⟩ := hx s a s₁ ha
    obtain ⟨items, rfl, rfl, hall, rfl⟩ := ih s₁ as' has
    refine ⟨i :: items, ?_, rfl, ?_, rfl⟩
    · rw [flatMap_cons, append_assoc]
    · intro j hj
      rcases mem_cons.mp hj with rfl | hj
      · exact hgood
      · exact hall j hj

end Reading

/-! ## writing -/

/-- A sink: the code it refuses a chunk with, given what was written before. -/
abbrev Sink (β ε : Type) := List β → List β → Option ε

/-- A sink that takes everything. -/
def Sink.Open (W : Sink β ε) : Prop := ∀ out chunk, W out chunk = none

/-- Hands a chunk to the sink. -/
def write (W : Sink β ε) (chunk : List β) : Action β ε Unit := fun out =>
  match W out chunk with
  | none => .ok () (out ++ chunk)
  | some e => .exit e out

section Writing
variable {W : Sink β ε} {x y : Action β ε Unit} {bs cs : List β}

/-- The action appends these items, or the sink refuses a chunk. -/
def Emits (W : Sink β ε) (x : Action β ε Unit) (bs : List β) : Prop :=
  ∀ out, x out = .ok () (out ++ bs) ∨ ∃ e o h c, x out = .exit e o ∧ W h c = some e

theorem emits_pure (W : Sink β ε) : Emits W (pure ()) [] := by
  intro out
  left
  rw [append_nil]
  rfl

theorem emits_write (W : Sink β ε) (chunk : List β) : Emits W (write W chunk) chunk := by
  intro out
  unfold write
  cases h : W out chunk with
  | none => exact .inl rfl
  | some e => exact .inr ⟨e, out, out, chunk, rfl, h⟩

theorem Emits.bind {f : Unit → Action β ε Unit} (hx : Emits W x bs) (hf : Emits W (f ()) cs) :
    Emits W (x >>= f) (bs ++ cs) := by
  intro out
  rcases hx out with hok | ⟨e, o, h, c, hexit, hW⟩
  · rw [bind_of_ok hok, ← append_assoc]
    exact hf _
  · exact .inr ⟨e, o, h, c, bind_of_exit hexit, hW⟩

theorem Emits.of_open (h : Emits W x bs) (hW : W.Open) (out : List β) :
    x out = .ok () (out ++ bs) := by
  rcases h out with hok | ⟨e, o, g, c, -, hrefused⟩
  · exact hok
  · rw [hW g c] at hrefused
    cases hrefused

/-- Writes every item of a list in turn. -/
def writeEach {ι : Type} (f : ι → Action β ε Unit) : List ι → Action β ε Unit
  | [] => pure ()
  | i :: items => do
    f i
    writeEach f items

theorem emits_writeEach {ι : Type} {f : ι → Action β ε Unit} {enc : ι → List β} (items : List ι)
    (h : ∀ i ∈ items, Emits W (f i) (enc i)) : Emits W (writeEach f items) (items.flatMap enc) := by
  induction items with
  | nil => exact emits_pure W
  | cons i items ih =>
    rw [flatMap_cons]
    exact (h i mem_cons_self).bind (ih fun j hj => h j (mem_cons_of_mem i hj))

end Writing

end JxtaC.Lib.Stream
