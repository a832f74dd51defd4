import JxtaC.Lib.Stream

/-
  Writers as the chunks that they hand on in turn, and how they end.
  A `Script` does not know its consumer. `run` hands its chunks to a sink, and is a map of monads:
  a writer over sinks is `run` of a script once its parts are. `drive` hands them to a consumer with
  a state of its own, chunk by chunk, until that one refuses. Nothing here depends on the modelled
  code.
-/

namespace JxtaC.Lib

open Stream

/-- How a script ends. -/
inductive Ending (ε α : Type) where
  | value (a : α)
  | exit (e : ε)
  | fault (f : Fault)
  deriving DecidableEq

/-- The chunks of a writer, and its end. -/
structure Script (β ε α : Type) where
  chunks : List (List β)
  ending : Ending ε α
  deriving DecidableEq

namespace Script

variable {β ε α γ : Type}

instance : Monad (Script β ε) where
  pure a := ⟨[], .value a⟩
  bind x f :=
    match x.ending with
    | .value a => ⟨x.chunks ++ (f a).chunks, (f a).ending⟩
    | .exit e => ⟨x.chunks, .exit e⟩
    | .fault g => ⟨x.chunks, .fault g⟩

/-- Hands a chunk on. -/
def put (chunk : List β) : Script β ε Unit := ⟨[chunk], .value ()⟩

/-- Leaves with a code. -/
def leave (e : ε) : Script β ε α := ⟨[], .exit e⟩

/-- Leaves the language. -/
def crash (f : Fault) : Script β ε α := ⟨[], .fault f⟩

/-- The scripts of the items in turn. -/
def each {ι : Type} (f : ι → Script β ε Unit) : List ι → Script β ε Unit
  | [] => pure ()
  | i :: items => do
    f i
    each f items

/-- All that is handed on. -/
def bytes (x : Script β ε α) : List β := x.chunks.flatten

/-! ## how it ends -/

section Exits
variable {E : ε → Prop}

/-- The script leaves with these codes only. -/
def Exits (E : ε → Prop) (x : Script β ε α) : Prop := ∀ e, x.ending = .exit e → E e

theorem exits_pure (a : α) : Exits E (pure a : Script β ε α) := fun _ h => by cases h

theorem exits_put (chunk : List β) : Exits E (put chunk) := fun _ h => by cases h

theorem exits_leave {e : ε} (h : E e) : Exits E (leave e : Script β ε α) := fun _ heq => by
  cases heq
  exact h

theorem exits_crash (f : Fault) : Exits E (crash f : Script β ε α) := fun _ h => by cases h

theorem Exits.bind {x : Script β ε α} {f : α → Script β ε γ} (hx : Exits E x)
    (hf : ∀ a, Exits E (f a)) : Exits E (x >>= f) := by
  obtain ⟨chunks, ending⟩ := x
  cases ending with
  | value a => exact hf a
  | exit e =>
    intro e' h
    cases h
    exact hx e rfl
  | fault g => exact fun _ h => by cases h

theorem exits_each {ι : Type} {f : ι → Script β ε Unit} (h : ∀ i, Exits E (f i)) (items : List ι) :
    Exits E (each f items) := by
  induction items with
  | nil => exact exits_pure ()
  | cons i items ih => exact (h i).bind fun _ => ih

end Exits

section Completes

/-- The script ends with its value. -/
def Completes (x : Script β ε Unit) : Prop := x.ending = .value ()

theorem completes_pure : Completes (pure () : Script β ε Unit) := rfl

theorem completes_put (chunk : List β) : Completes (put chunk : Script β ε Unit) := rfl

theorem Completes.bind {x : Script β ε Unit} {f : Unit → Script β ε Unit} (hx : Completes x)
    (hf : Completes (f ())) : Completes (x >>= f) := by
  obtain ⟨chunks, ending⟩ := x
  obtain rfl : ending = .value () := hx
  exact hf

theorem completes_each {ι : Type} {f : ι → Script β ε Unit} (h : ∀ i, Completes (f i))
    (items : List ι) : Completes (each f items) := by
  induction items with
  | nil => exact completes_pure
  | cons i items ih => exact (h i).bind ih

end Completes

/-! ## to a sink -/

section Run
variable {W : Sink β ε}

/-- The chunks, to a sink. -/
def writeChunks (W : Sink β ε) : List (List β) → Action β ε Unit := writeEach (write W)

/-- The end. -/
def finish : Ending ε α → Action β ε α
  | .value a => pure a
  | .exit e => Stream.leave e
  | .fault f => Stream.crash f

/-- A script with a sink. -/
def run (W : Sink β ε) (x : Script β ε α) : Action β ε α := do
  writeChunks W x.chunks
  finish x.ending

theorem action_bind_assoc {δ : Type} (x : Action β ε α) (f : α → Action β ε γ)
    (g : γ → Action β ε δ) : (x >>= f) >>= g = x >>= fun a => f a >>= g := by
  funext s
  cases h : x s with
  | ok a s' =>
    rw [@bind_of_ok _ _ _ _ x (fun a => f a >>= g) s s' a h]
    cases h' : f a s' with
    | ok b r => rw [bind_of_ok ((bind_of_ok h).trans h'), bind_of_ok h']
    | exit e r => rw [bind_of_exit ((bind_of_ok h).trans h'), bind_of_exit h']
    | fault f => rw [bind_of_fault ((bind_of_ok h).trans h'), bind_of_fault h']
  | exit e s' => rw [bind_of_exit (bind_of_exit h), bind_of_exit h]
  | fault f => rw [bind_of_fault (bind_of_fault h), bind_of_fault h]

theorem action_bind_pure (x : Action β ε α) : (x >>= fun a => pure a) = x := by
  funext s
  cases h : x s with
  | ok a s' => rw [bind_of_ok h, pure_apply]
  | exit e s' => rw [bind_of_exit h]
  | fault f => rw [bind_of_fault h]

theorem writeChunks_append (a b : List (List β)) :
    writeChunks W (a ++ b) = writeChunks W a >>= fun _ => writeChunks W b := by
  induction a with
  | nil => rfl
  | cons chunk a ih =>
    show (write W chunk >>= fun _ => writeChunks W (a ++ b)) = _
    rw [ih, ← action_bind_assoc]
    rfl

theorem run_bind (x : Script β ε α) (f : α → Script β ε γ) :
    run W (x >>= f) = run W x >>= fun a => run W (f a) := by
  obtain ⟨chunks, ending⟩ := x
  cases ending with
  | value a =>
    show (writeChunks W (chunks ++ (f a).chunks) >>= fun _ => finish (f a).ending) = _
    rw [writeChunks_append, action_bind_assoc]
    unfold run
    rw [action_bind_assoc]
    rfl
  | exit e =>
    unfold run
    rw [action_bind_assoc]
    rfl
  | fault g =>
    unfold run
    rw [action_bind_assoc]
    rfl

@[simp] theorem run_pure (a : α) : run W (pure a : Script β ε α) = pure a := rfl

@[simp] theorem run_put (chunk : List β) : run W (put chunk) = write W chunk := by
  show ((write W chunk >>= fun _ => pure ()) >>= fun _ => pure ()) = _
  rw [action_bind_assoc]
  exact action_bind_pure (write W chunk)

theorem run_each {ι : Type} (f : ι → Script β ε Unit) (items : List ι) :
    run W (each f items) = writeEach (fun i => run W (f i)) items := by
  induction items with
  | nil => rfl
  | cons i items ih =>
    show run W (f i >>= fun _ => each f items) = _
    rw [run_bind, ih]
    rfl

/-- What a sink that takes everything has in the end. -/
theorem run_open (hW : W.Open) (x : Script β ε α) (out : List β) :
    run W x out =
      match x.ending with
      | .value a => .ok a (out ++ x.bytes)
      | .exit e => .exit e (out ++ x.bytes)
      | .fault f => .fault f := by
  have hchunks : writeChunks W x.chunks out = .ok () (out ++ x.bytes) := by
    have hemits : Emits W (writeChunks W x.chunks) (x.chunks.flatMap id) :=
      emits_writeEach x.chunks fun chunk _ => emits_write W chunk
    rw [hemits.of_open hW out]
    unfold bytes
    rw [List.flatMap_id]
  unfold run
  rw [bind_of_ok hchunks]
  cases x.ending with
  | value a => rfl
  | exit e => rfl
  | fault f => rfl

end Run

/-! ## to a consumer with a state -/

section Drive
variable {σ : Type} (put : σ → List β → Exec (σ × Option ε))

/-- The chunks in turn, until one is refused. -/
def driveChunks : List (List β) → σ → Exec (σ × Option ε)
  | [], s => .ok (s, none)
  | chunk :: chunks, s => do
    let (s, refused) ← put s chunk
    match refused with
    | none => driveChunks chunks s
    | some e => return (s, some e)

/-- A script with a consumer: its state, and the code that the writer leaves with, if any. -/
def drive (x : Script β ε Unit) (s : σ) : Exec (σ × Option ε) := do
  let (s, refused) ← driveChunks put x.chunks s
  match refused with
  | some e => return (s, some e)
  | none =>
    match x.ending with
    | .value () => return (s, none)
    | .exit e => return (s, some e)
    | .fault f => .error f

variable {put} {s s' : σ} {x : Script β ε Unit}

/-- A property of the state and of what was handed on, kept by every chunk that is taken. -/
theorem driveChunks_none {P : σ → List β → Prop} {chunks : List (List β)} {bs : List β}
    (hput : ∀ s s' chunk bs, P s bs → put s chunk = .ok (s', none) → P s' (bs ++ chunk))
    (h : driveChunks put chunks s = .ok (s', none)) (hP : P s bs) :
    P s' (bs ++ chunks.flatten) := by
  induction chunks generalizing s bs with
  | nil =>
    cases h
    rwa [List.flatten_nil, List.append_nil]
  | cons chunk chunks ih =>
    obtain ⟨⟨s₁, refused⟩, hchunk, hrest⟩ := bind_eq_ok.mp h
    cases refused with
    | none =>
      rw [List.flatten_cons, ← List.append_assoc]
      exact ih hrest (hput s s₁ chunk bs hP hchunk)
    | some e => cases hrest

/-- A property of the state and the code wherever a chunk is refused. -/
theorem driveChunks_some {Q : σ → ε → Prop} {chunks : List (List β)} {e : ε}
    (hput : ∀ s s' chunk e, put s chunk = .ok (s', some e) → Q s' e)
    (h : driveChunks put chunks s = .ok (s', some e)) : Q s' e := by
  induction chunks generalizing s with
  | nil => cases h
  | cons chunk chunks ih =>
    obtain ⟨⟨s₁, refused⟩, hchunk, hrest⟩ := bind_eq_ok.mp h
    cases refused with
    | none => exact ih hrest
    | some e' =>
      cases hrest
      exact hput s _ chunk e hchunk

/-- No code: every chunk was taken and the script ends with its value. -/
theorem drive_none (h : x.drive put s = .ok (s', none)) :
    driveChunks put x.chunks s = .ok (s', none) ∧ x.ending = .value () := by
  obtain ⟨⟨s₁, refused⟩, hchunks, hend⟩ := bind_eq_ok.mp h
  cases refused with
  | some e => cases hend
  | none =>
    cases hending : x.ending with
    | value u =>
      rw [hending] at hend
      cases hend
      exact ⟨hchunks, rfl⟩
    | exit e =>
      rw [hending] at hend
      cases hend
    | fault f =>
      rw [hending] at hend
      cases hend

/-- With its value at the end a script ends as its chunks do. -/
theorem drive_completes (hx : x.Completes) : x.drive put s = driveChunks put x.chunks s := by
  unfold drive
  cases hchunks : driveChunks put x.chunks s with
  | error f => rfl
  | ok p =>
    obtain ⟨s₁, refused⟩ := p
    cases refused with
    | some e => rfl
    | none =>
      rw [ok_bind, hx]
      rfl

/-- A consumer that refuses nothing: a code is the script's own. -/
theorem drive_exit {e : ε} (hput : ∀ s chunk, ∃ s', put s chunk = .ok (s', none))
    (h : x.drive put s = .ok (s', some e)) : x.ending = .exit e := by
  have hchunks : ∀ (chunks : List (List β)) (s : σ), ∃ s', driveChunks put chunks s = .ok (s', none) := by
    intro chunks
    induction chunks with
    | nil => exact fun s => ⟨s, rfl⟩
    | cons chunk chunks ih =>
      intro s
      obtain ⟨s₁, hchunk⟩ := hput s chunk
      obtain ⟨s₂, hrest⟩ := ih s₁
      exact ⟨s₂, by rw [driveChunks, hchunk]; exact hrest⟩
  obtain ⟨s₁, hchunks⟩ := hchunks x.chunks s
  unfold drive at h
  rw [hchunks] at h
  cases hending : x.ending with
  | value u =>
    rw [hending] at h
    cases h
  | exit e' =>
    rw [hending] at h
    cases h
    rfl
  | fault f =>
    rw [hending] at h
    cases h

/-- A code: of the script, or of the chunk that was refused. -/
theorem drive_some {e : ε} (h : x.drive put s = .ok (s', some e)) (hending : x.ending = .value ()) :
    driveChunks put x.chunks s = .ok (s', some e) := by
  obtain ⟨⟨s₁, refused⟩, hchunks, hend⟩ := bind_eq_ok.mp h
  cases refused with
  | some e' =>
    cases hend
    exact hchunks
  | none =>
    rw [hending] at hend
    cases hend

end Drive

end Script

end JxtaC.Lib
