import JxtaC.TcpConnection

/-
  Reading from a bucket brigade (`brigade_read` in jxta_util_priv.c), as `jxta_message_read` does
  with the body of a message. A bucket holds data, or cannot be read; splitting one succeeds.
-/

namespace JxtaC

open Lib List

namespace TcpConnection

/-- What `apr_bucket_read` finds in a bucket: its data, or a code that is not `APR_SUCCESS`. -/
inductive Bucket where
  | data (bytes : List Byte)
  | unreadable (rv : Nat)
  deriving DecidableEq

/-- What `brigade_read` returns: `JXTA_SUCCESS`, `APR_EOF`, or the code of a bucket. -/
inductive ReadStatus where
  | success
  | eof
  | failed (rv : Nat)
  deriving DecidableEq

/-- A return of `brigade_read`, with the bytes that were copied from the start of the buffer on. -/
structure BufferRead where
  status : ReadStatus
  buf : List Byte
  deriving DecidableEq

/-- The loop of `brigade_read`. -/
def readBuckets : (brigade : List Bucket) → (len : Nat) → (buf : List Byte) →
    List Bucket × BufferRead
  | [], _, buf => ([], ⟨.success, buf⟩)
  | .unreadable rv :: brigade, _, buf => (.unreadable rv :: brigade, ⟨.failed rv, buf⟩)
  | .data bytes :: brigade, len, buf =>
    if bytes.length = 0 then (.data bytes :: brigade, ⟨.eof, buf⟩)
    else if len ≤ bytes.length then
      if len < bytes.length then
        (.data (bytes.drop len) :: brigade, ⟨.success, buf ++ bytes.take len⟩)
      else (brigade, ⟨.success, buf ++ bytes.take len⟩)
    else readBuckets brigade (len - bytes.length) (buf ++ bytes)

/-- `brigade_read`. -/
def brigadeRead (brigade : List Bucket) (len : Nat) : List Bucket × BufferRead :=
  if len = 0 then (brigade, ⟨.success, []⟩) else readBuckets brigade len []

/-- One call. -/
def readStep (brigade : List Bucket) (len : Nat) : Exec (List Bucket × BufferRead) :=
  .ok (brigadeRead brigade len)

/-! ## the claim of the reader -/

def Bucket.bytes : Bucket → List Byte
  | .data bytes => bytes
  | .unreadable _ => []

/-- The bytes of a brigade. -/
def held (brigade : List Bucket) : List Byte := brigade.flatMap Bucket.bytes

/-- Of a brigade the buckets at its front are taken, and maybe a part of the next one. -/
def TakenFrom (brigade rest : List Bucket) : Prop :=
  rest <:+ brigade ∨ ∃ taken bytes after len, brigade = taken ++ .data bytes :: after ∧
    rest = .data (bytes.drop len) :: after

/-- A success fills the buffer with the first `len` bytes, and takes them from the brigade; and
there is none with fewer bytes. -/
structure ReadsExactly (brigade : List Bucket) (len : Nat) (r : BufferRead)
    (rest : List Bucket) : Prop where
  stored : r.status = .success → r.buf = (held brigade).take len
  advanced : r.status = .success → held rest = (held brigade).drop len ∧ TakenFrom brigade rest
  short : (held brigade).length < len → r.status ≠ .success

/-- The bucket stops the reader: it is empty, or cannot be read. -/
def Bucket.Stops (e : Bucket) : Prop := e.bytes = []

/-- There are enough bytes, or a bucket that stops the reader. -/
def Suffices (brigade : List Bucket) (len : Nat) : Prop :=
  len ≤ (held brigade).length ∨ ∃ e ∈ brigade, e.Stops

section Reads
variable {brigade rest : List Bucket} {len : Nat} {buf : List Byte} {r : BufferRead}

theorem held_cons (e : Bucket) (brigade : List Bucket) :
    held (e :: brigade) = e.bytes ++ held brigade := flatMap_cons

theorem TakenFrom.cons (e : Bucket) (h : TakenFrom brigade rest) :
    TakenFrom (e :: brigade) rest := by
  rcases h with h | ⟨taken, bytes, after, len, rfl, hrest⟩
  · exact .inl (h.trans (suffix_cons _ _))
  · exact .inr ⟨e :: taken, bytes, after, len, rfl, hrest⟩

/-- A success leaves the bytes behind those that were copied. -/
theorem readBuckets_success (hlen : len ≠ 0) (hread : readBuckets brigade len buf = (rest, r))
    (hr : r.status = .success) : r.buf = buf ++ (held brigade).take len ∧
      held rest = (held brigade).drop len ∧ TakenFrom brigade rest := by
  induction brigade generalizing len buf with
  | nil =>
    cases hread
    exact ⟨(append_nil _).symm.trans (by rw [held, flatMap_nil, take_nil]),
      by rw [held, flatMap_nil, drop_nil], .inl suffix_rfl⟩
  | cons e brigade ih =>
    cases e with
    | unreadable rv =>
      cases hread
      cases hr
    | data bytes =>
      rw [held_cons]
      unfold readBuckets at hread
      split at hread
      · cases hread
        cases hr
      split at hread
      next hle =>
        have htake : (bytes ++ held brigade).take len = bytes.take len :=
          take_append_of_le_length hle
        have hdrop : (bytes ++ held brigade).drop len = bytes.drop len ++ held brigade :=
          drop_append_of_le_length hle
        split at hread
        · cases hread
          refine ⟨congrArg _ htake.symm, ?_, .inr ⟨[], bytes, brigade, len, rfl, rfl⟩⟩
          rw [held_cons]
          exact hdrop.symm
        next hge =>
          obtain ⟨rfl, rfl⟩ := Prod.mk.inj hread
          refine ⟨congrArg _ htake.symm, ?_, .inl (suffix_cons _ _)⟩
          have hall : bytes.drop len = [] := drop_eq_nil_of_le (Nat.not_lt.mp hge)
          exact ((congrArg (· ++ held brigade) hall).symm.trans hdrop.symm :)
      next hlt =>
        obtain ⟨hbuf, hrest, htaken⟩ := ih (by omega) hread
        have hle : (Bucket.data bytes).bytes.length ≤ len := Nat.le_of_not_le hlt
        refine ⟨?_, ?_, htaken.cons _⟩
        · rw [hbuf, append_assoc, take_append, take_of_length_le hle]
          rfl
        · rw [hrest, drop_append, drop_eq_nil_of_le hle]
          rfl

/-- With too few bytes there is a success, unless a bucket stops the reader. -/
theorem readBuckets_short (hlen : (held brigade).length < len)
    (hread : readBuckets brigade len buf = (rest, r)) :
    r.status = .success ↔ ¬∃ e ∈ brigade, e.Stops := by
  induction brigade generalizing len buf with
  | nil =>
    cases hread
    exact iff_of_true rfl (by simp)
  | cons e brigade ih =>
    cases e with
    | unreadable rv =>
      cases hread
      refine iff_of_false (by simp) fun h => h ⟨_, mem_cons_self, rfl⟩
    | data bytes =>
      rw [held_cons, length_append] at hlen
      unfold readBuckets at hread
      split at hread
      next hempty =>
        cases hread
        refine iff_of_false (by simp) fun h => h ⟨_, mem_cons_self, ?_⟩
        exact eq_nil_of_length_eq_zero hempty
      next hfull =>
        have hlt : ¬len ≤ bytes.length := by
          intro hle
          have hless : bytes.length < len := Nat.lt_of_le_of_lt (Nat.le_add_right _ _) hlen
          exact Nat.lt_irrefl _ (Nat.lt_of_le_of_lt hle hless)
        rw [if_neg hlt] at hread
        have hrest : (held brigade).length < len - bytes.length := Nat.lt_sub_of_add_lt (by
          rw [Nat.add_comm]
          exact hlen)
        have hno : ¬(Bucket.data bytes).Stops := fun hnil => hfull (congrArg List.length hnil)
        rw [ih hrest hread]
        simp [hno]

/-- A call is exact if and only if there are enough bytes, or a bucket stops the reader. -/
theorem brigadeRead_iff (hread : brigadeRead brigade len = (rest, r)) :
    ReadsExactly brigade len r rest ↔ Suffices brigade len := by
  unfold brigadeRead at hread
  split at hread
  next hzero =>
    cases hread
    subst hzero
    refine iff_of_true ⟨fun _ => rfl, fun _ => ⟨rfl, .inl suffix_rfl⟩, ?_⟩
      (.inl (Nat.zero_le _))
    exact fun hno => absurd hno (Nat.not_lt_zero _)
  next hlen =>
    by_cases hshort : (held brigade).length < len
    · have hstatus := readBuckets_short hshort hread
      constructor
      · intro h
        refine .inr (by_contra fun hno => ?_)
        exact h.short hshort (hstatus.mpr hno)
      · intro h
        have hstops := h.resolve_left (Nat.not_le.mpr hshort)
        have hfail : r.status ≠ .success := fun hr => hstatus.mp hr hstops
        exact ⟨fun hr => absurd hr hfail, fun hr => absurd hr hfail, fun _ => hfail⟩
    · refine iff_of_true ⟨fun hr => ?_, fun hr => ?_, fun hno => absurd hno hshort⟩
        (.inl (Nat.not_lt.mp hshort))
      · exact (readBuckets_success hlen hread hr).1
      · exact (readBuckets_success hlen hread hr).2

end Reads

/-- All calls of a reader are exact if and only if each of them finds enough bytes, or a bucket that
stops it. -/
theorem reads_exactly_along_iff (brigade : List Bucket) (lens : List Nat) :
    Along readStep (fun _ => True) ReadsExactly brigade lens ↔
      SafeRun readStep Suffices brigade lens := by
  have hkeep : ∀ brigade len rest r, (fun _ => True) brigade →
      readStep brigade len = .ok (rest, r) → (fun _ => True) rest := fun _ _ _ _ _ _ => trivial
  refine along_iff_safeRun hkeep ?_ lens trivial trivial
  intro brigade len _ _
  have hiff : ReadsExactly brigade len (brigadeRead brigade len).2 (brigadeRead brigade len).1 ↔
      Suffices brigade len := brigadeRead_iff rfl
  rw [← hiff]
  constructor
  · intro h
    exact ⟨_, _, rfl, h, trivial⟩
  · intro h
    obtain ⟨rest, r, hread, h, -⟩ := h
    obtain ⟨rfl, rfl⟩ := Prod.mk.inj (Except.ok.inj hread)
    exact h

/-- Two bytes are read from a brigade of one, and the reader is told of a success. -/
theorem not_reads_exactly_along : ¬∀ (brigade : List Bucket) (lens : List Nat),
    Along readStep (fun _ => True) ReadsExactly brigade lens := by
  intro h
  obtain ⟨-, rest, r, hread, hexactly, -⟩ := h [.data [1]] [2]
  cases hread
  exact hexactly.short (by decide) (by decide)

end TcpConnection

end JxtaC
