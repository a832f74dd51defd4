import JxtaC.Bytevector.Spec

/-
  The byte vector refines a byte list.
  `ByteList` is what a byte vector is for: a list of bytes with some room reserved. `ListStep`
  says what each operation answers and leaves there. `step_refines` is one operation under the
  condition `Safe`; `bytevector_run_refines` follows every run of safe operations from a new vector.
-/

namespace JxtaC.Bytevector

open Lib Lib.Block List
variable {i k dst : Nat}

/-- What a call answers: its status, and the bytes it hands out. -/
structure Reply where
  status : Status
  bytes : List Byte
  deriving Repr, DecidableEq

/-- The operations, with the arguments their callers pass. -/
inductive Op where
  | addByteAt (byte : Byte) (atIndex : Nat)
  | addByteFirst (byte : Byte)
  | addByteLast (byte : Byte)
  | addBytesAt (bytes : List Byte) (atIndex : Nat)
  | addNullAt (length atIndex : Nat)
  | addBytevectorAt (bytes : Operand) (dstindex : Nat)
  | addPartialBytevectorAt (bytes : Operand) (srcIndex length dstindex : Nat)
  | addFromStreamAt (func : ReadFunc) (length atIndex : Nat)
  | setFromStreamAt (func : ReadFunc) (length atIndex : Nat)
  | getByteAt (atIndex : Nat)
  | getBytesAt (atIndex length : Nat)
  | write (func : List Byte → Status) (atIndex length : Nat)
  | removeByteAt (atIndex : Nat)
  | removeBytesAt (atIndex length : Nat)
  | clear (initialSize : Nat)

/-- An operation that hands out no bytes. -/
def answer (x : Exec (Bytevector × Status)) : Exec (Bytevector × Reply) := do
  let (v, status) ← x
  return (v, ⟨status, []⟩)

/-- An operation that leaves the vector alone. -/
def look (v : Bytevector) (x : Exec (Status × List Byte)) : Exec (Bytevector × Reply) := do
  let (status, bytes) ← x
  return (v, ⟨status, bytes⟩)

def step (heap : Heap) (v : Bytevector) : Op → Exec (Bytevector × Reply)
  | .addByteAt byte atIndex => answer (addByteAt heap v byte atIndex)
  | .addByteFirst byte => answer (addByteFirst heap v byte)
  | .addByteLast byte => answer (addByteLast heap v byte)
  | .addBytesAt bytes atIndex => answer (addBytesAt heap v (.outside bytes) atIndex bytes.length)
  | .addNullAt length atIndex => answer (addBytesAt heap v .null atIndex length)
  | .addBytevectorAt bytes dstindex => answer (addBytevectorAt heap v bytes dstindex)
  | .addPartialBytevectorAt bytes srcIndex length dstindex =>
    answer (addPartialBytevectorAt heap v bytes srcIndex length dstindex)
  | .addFromStreamAt func length atIndex => answer (addFromStreamAt heap v func length atIndex)
  | .setFromStreamAt func length atIndex => answer (setFromStreamAt v func length atIndex)
  | .getByteAt atIndex => look v (getByteAt v atIndex)
  | .getBytesAt atIndex length => look v (getBytesAt v atIndex length)
  | .write func atIndex length => look v (write v func atIndex length)
  | .removeByteAt atIndex => answer (removeByteAt v atIndex)
  | .removeBytesAt atIndex length => answer (removeBytesAt v atIndex length)
  | .clear initialSize => answer (.ok (clear heap v initialSize))

/-! ## the byte list -/

/-- A list of bytes with room reserved for it. -/
structure ByteList where
  bytes : List Byte
  room : Nat
  fits : bytes.length ≤ room

/-- The bytes of an operand: another list, or the list itself. -/
def Operand.list (t : ByteList) : Operand → List Byte
  | .other w => w.bytes
  | .self => t.bytes

/-- Inserting `xs` at index `i`: in range it is done, or refused for want of memory; out of range
    it is refused. A refusal changes nothing. -/
inductive ListInsert (limit : Nat) (t : ByteList) (i : Nat) (xs : List Byte) :
    Reply → ByteList → Prop where
  | done {t' : ByteList} (hi : i ≤ t.bytes.length)
      (hbytes : t'.bytes = t.bytes.take i ++ xs ++ t.bytes.drop i) :
      ListInsert limit t i xs ⟨.success, []⟩ t'
  | outOfRange (hi : t.bytes.length < i) : ListInsert limit t i xs ⟨.invalidArgument, []⟩ t
  | exhausted (hi : i ≤ t.bytes.length)
      (hlimit : limit < t.bytes.length + xs.length + indexDefaultIncrease) :
      ListInsert limit t i xs ⟨.nomem, []⟩ t

/-- Inserting what a stream delivers: a failed read answers the stream's status and changes
    nothing. -/
inductive ListInsertStream (limit : Nat) (t : ByteList) (func : ReadFunc) (k i : Nat) :
    Reply → ByteList → Prop where
  | read {r : Reply} {t' : ByteList} (hstatus : (func.call k).1 = .success)
      (h : ListInsert limit t i (func.call k).2 r t') : ListInsertStream limit t func k i r t'
  | failed {t' : ByteList} (hi : i ≤ t.bytes.length) (hstatus : (func.call k).1 ≠ .success)
      (hbytes : t'.bytes = t.bytes) :
      ListInsertStream limit t func k i ⟨(func.call k).1, []⟩ t'
  | outOfRange (hi : t.bytes.length < i) :
      ListInsertStream limit t func k i ⟨.invalidArgument, []⟩ t
  | exhausted (hi : i ≤ t.bytes.length)
      (hlimit : limit < t.bytes.length + k + indexDefaultIncrease) :
      ListInsertStream limit t func k i ⟨.nomem, []⟩ t

/-- Overwriting from index `i` with what a stream delivers, inside the room there is. -/
inductive ListSetStream (t : ByteList) (func : ReadFunc) (k i : Nat) :
    Reply → ByteList → Prop where
  | done {t' : ByteList} (hi : i ≤ t.bytes.length) (hstatus : (func.call k).1 = .success)
      (hbytes : t'.bytes = t.bytes.take i ++ (func.call k).2 ++ t.bytes.drop (i + k)) :
      ListSetStream t func k i ⟨.success, []⟩ t'
  | failed {t' : ByteList} (hi : i ≤ t.bytes.length) (hstatus : (func.call k).1 ≠ .success)
      (hbytes : t'.bytes = t.bytes) : ListSetStream t func k i ⟨(func.call k).1, []⟩ t'
  | outOfRange (h : t.bytes.length < i ∨ t.room < i + k) :
      ListSetStream t func k i ⟨.invalidArgument, []⟩ t

/-- Removing `k` bytes at index `i`, as many as there are. -/
inductive ListRemove (t : ByteList) (i k : Nat) : Reply → ByteList → Prop where
  | done {t' : ByteList} (hi : i < t.bytes.length)
      (hbytes : t'.bytes = t.bytes.take i ++ t.bytes.drop (i + k)) :
      ListRemove t i k ⟨.success, []⟩ t'
  | outOfRange (hi : t.bytes.length ≤ i) : ListRemove t i k ⟨.invalidArgument, []⟩ t

/-- Handing out `k` bytes from index `i`, as many as there are, with the status `func` gives. -/
inductive ListLook (t : ByteList) (func : List Byte → Status) (i k : Nat) :
    Reply → ByteList → Prop where
  | done (hi : i < t.bytes.length) :
      ListLook t func i k ⟨func ((t.bytes.drop i).take k), (t.bytes.drop i).take k⟩ t
  | outOfRange (hi : t.bytes.length ≤ i) : ListLook t func i k ⟨.invalidArgument, []⟩ t

/-- Dropping every byte; the new block may be refused. -/
inductive ListClear (limit : Nat) (initialSize : Nat) : Reply → ByteList → Prop where
  | done {t' : ByteList} (hbytes : t'.bytes = []) : ListClear limit initialSize ⟨.success, []⟩ t'
  | exhausted {t' : ByteList} (hbytes : t'.bytes = [])
      (hlimit : limit < max initialSize indexDefaultSize) :
      ListClear limit initialSize ⟨.nomem, []⟩ t'

/-- What each operation means on a byte list. -/
def ListStep (limit : Nat) (t : ByteList) : Op → Reply → ByteList → Prop
  | .addByteAt byte atIndex => ListInsert limit t atIndex [byte]
  | .addByteFirst byte => ListInsert limit t 0 [byte]
  | .addByteLast byte => ListInsert limit t t.bytes.length [byte]
  | .addBytesAt bytes atIndex => ListInsert limit t atIndex bytes
  | .addNullAt length atIndex => ListInsert limit t atIndex (List.replicate length 0)
  | .addBytevectorAt bytes dstindex => ListInsert limit t dstindex (bytes.list t)
  | .addPartialBytevectorAt bytes srcIndex length dstindex => fun r t' =>
    if srcIndex ≥ (bytes.list t).length then r = ⟨.invalidArgument, []⟩ ∧ t' = t
    else ListInsert limit t dstindex (((bytes.list t).drop srcIndex).take length) r t'
  | .addFromStreamAt func length atIndex => ListInsertStream limit t func length atIndex
  | .setFromStreamAt func length atIndex => ListSetStream t func length atIndex
  | .getByteAt atIndex => ListLook t (fun _ => .success) atIndex 1
  | .getBytesAt atIndex length => ListLook t (fun _ => .success) atIndex length
  | .write func atIndex length => ListLook t func atIndex length
  | .removeByteAt atIndex => ListRemove t atIndex 1
  | .removeBytesAt atIndex length => ListRemove t atIndex length
  | .clear initialSize => ListClear limit initialSize

/-! ## when an operation meets its meaning -/

/-- An operand's bytes can be inserted: another vector is a valid one; the vector itself is copied
    without `realloc`, from at or before the gap. -/
def OperandSafe (v : Bytevector) (offset k dstindex : Nat) : Operand → Prop
  | .other w => w.size ≤ w.capacity
  | .self => dstindex ≤ v.size → v.size + k < v.capacity ∧ offset ≤ dstindex

/-- The condition on the state before an operation under which the code does what `ListStep`
    says: an insertion longer than the contents only goes to the end, sums of sizes do not wrap,
    the last index fits an `unsigned int`, and `set_from_stream_at` either appends (or sets
    nothing) or is refused. -/
def Safe (v : Bytevector) : Op → Prop
  | .addByteAt _ atIndex => MovesTail v atIndex 1
  | .addByteFirst _ => MovesTail v 0 1
  | .addByteLast _ => v.size < uintMod
  | .addBytesAt bytes atIndex => MovesTail v atIndex bytes.length
  | .addNullAt length atIndex => MovesTail v atIndex length
  | .addBytevectorAt bytes dstindex =>
    MovesTail v dstindex (bytes.resolve v).2 ∧ OperandSafe v 0 (bytes.resolve v).2 dstindex bytes
  | .addPartialBytevectorAt bytes srcIndex length dstindex =>
    let size := (bytes.resolve v).2
    srcIndex < size → MovesTail v dstindex (min length (size - srcIndex)) ∧
      OperandSafe v srcIndex (min length (size - srcIndex)) dstindex bytes
  | .addFromStreamAt _ length atIndex => MovesTail v atIndex length
  | .setFromStreamAt _ length atIndex =>
    (atIndex ≤ v.size ∧ (atIndex = v.size ∨ length = 0)) ∨
      (atIndex ≤ v.capacity ∧ v.capacity - atIndex < length)
  | _ => True

instance (v : Bytevector) (i k : Nat) : Decidable (MovesTail v i k) :=
  inferInstanceAs (Decidable (_ ∨ _))

instance (v : Bytevector) (offset k dstindex : Nat) :
    ∀ o, Decidable (OperandSafe v offset k dstindex o)
  | .other w => inferInstanceAs (Decidable (w.size ≤ w.capacity))
  | .self => inferInstanceAs (Decidable (_ → _))

instance (v : Bytevector) : ∀ o, Decidable (Safe v o)
  | .addByteAt _ i => inferInstanceAs (Decidable (MovesTail v i 1))
  | .addByteFirst _ => inferInstanceAs (Decidable (MovesTail v 0 1))
  | .addByteLast _ => inferInstanceAs (Decidable (_ < _))
  | .addBytesAt bytes i => inferInstanceAs (Decidable (MovesTail v i bytes.length))
  | .addNullAt k i => inferInstanceAs (Decidable (MovesTail v i k))
  | .addBytevectorAt .. => inferInstanceAs (Decidable (_ ∧ _))
  | .addPartialBytevectorAt .. => inferInstanceAs (Decidable (_ → _))
  | .addFromStreamAt _ k i => inferInstanceAs (Decidable (MovesTail v i k))
  | .setFromStreamAt .. => inferInstanceAs (Decidable (_ ∨ _))
  | .getByteAt _ | .getBytesAt .. | .write .. | .removeByteAt _ | .removeBytesAt .. | .clear _ =>
    isTrue trivial

/-! ## one operation -/

/-- The vector holds the bytes of the list, in a block of the list's room. -/
structure Refines (heap : Heap) (v : Bytevector) (t : ByteList) : Prop where
  wf : WellFormed heap v
  bytes_eq : t.bytes = v.bytes
  room_eq : t.room = v.capacity

/-- The list a vector stands for. -/
def toByteList (v : Bytevector) (h : v.size ≤ v.capacity) : ByteList where
  bytes := v.bytes
  room := v.capacity
  fits := by rw [length_bytes h]; exact h

variable {heap : Heap} {v : Bytevector} {t : ByteList}

theorem refines_toByteList (hwf : WellFormed heap v) : Refines heap v (v.toByteList hwf.size_le) :=
  ⟨hwf, rfl, rfl⟩

theorem Refines.length_eq (h : Refines heap v t) : t.bytes.length = v.size := by
  rw [h.bytes_eq, length_bytes h.wf.size_le]

/-- The outcome of an operation that agrees with the list. -/
def Agrees (heap : Heap) (R : Reply → ByteList → Prop) (x : Exec (Bytevector × Reply)) : Prop :=
  ∃ v' r t', x = .ok (v', r) ∧ R r t' ∧ Refines heap v' t'

section
variable (h : Refines heap v t)
include h

theorem agrees_insert {xs : List Byte} {p : Bytevector × Status} (hp : Inserts heap v i xs p) :
    Agrees heap (ListInsert heap.limit t i xs) (answer (.ok p)) := by
  have hlen := h.length_eq
  cases hp with
  | done hi hbytes hsize hwf =>
    refine ⟨_, _, _, rfl, .done (by omega) ?_, refines_toByteList hwf⟩
    rw [h.bytes_eq]
    exact hbytes
  | outOfRange hi => exact ⟨_, _, t, rfl, .outOfRange (by omega), h⟩
  | exhausted hi hlimit => exact ⟨_, _, t, rfl, .exhausted (by omega) (by omega), h⟩

theorem agrees_addBytesAt (src : Source) (i : Nat) (xs : List Byte)
    (hmoves : MovesTail v i xs.length) (hsup : i ≤ v.size → Supplies v i xs src) :
    Agrees heap (ListInsert heap.limit t i xs) (answer (addBytesAt heap v src i xs.length)) := by
  obtain ⟨p, hp, hins⟩ := addBytesAt_spec h.wf src i xs hmoves hsup
  rw [hp]
  exact agrees_insert h hins

theorem agrees_removeBytesAt (i k : Nat) :
    Agrees heap (ListRemove t i k) (answer (removeBytesAt v i k)) := by
  have hlen := h.length_eq
  obtain ⟨p, hp, hrem⟩ := removeBytesAt_spec h.wf i k
  rw [hp]
  cases hrem with
  | done hi hbytes hcap hwf =>
    refine ⟨_, _, _, rfl, .done (by omega) ?_, refines_toByteList hwf⟩
    rw [h.bytes_eq]
    exact hbytes
  | outOfRange hi => exact ⟨_, _, t, rfl, .outOfRange (by omega), h⟩

/-! ### operands -/

theorem length_operand {o : Operand} {offset : Nat} (ho : OperandSafe v offset k dst o) :
    (o.list t).length = (o.resolve v).2 := by
  cases o with
  | other w => exact length_bytes ho
  | self => exact h.length_eq

theorem length_operand_le (o : Operand) : (o.list t).length ≤ (o.resolve v).2 := by
  cases o with
  | other w => exact length_take_le _ _
  | self => exact Nat.le_of_eq h.length_eq

theorem operand_supplies (o : Operand) {offset : Nat} (ho : OperandSafe v offset k dst o)
    (hk : offset + k ≤ (o.resolve v).2) (hdst : dst ≤ v.size) :
    Supplies v dst (((o.list t).drop offset).take k) ((o.resolve v).1 offset) := by
  have hlen : (((o.list t).drop offset).take k).length = k := by
    rw [length_take, length_drop, length_operand h ho]; omega
  cases o with
  | other w =>
    have hk : offset + k ≤ w.size := hk
    show (w.bytes.drop offset).take k =
      (w.content.drop offset).take ((w.bytes.drop offset).take k).length
    rw [show ((w.bytes.drop offset).take k).length = k from hlen]
    simp only [bytes, drop_take, take_take]
    rw [Nat.min_eq_left (by omega)]
  | self =>
    obtain ⟨hfit, hoff⟩ := ho hdst
    refine ⟨by rw [hlen]; exact hfit, hoff, by rw [hlen]; exact hk, ?_⟩
    rw [hlen, Operand.list, h.bytes_eq]

theorem agrees_addBytevectorAt (o : Operand) (hmoves : MovesTail v dst (o.resolve v).2)
    (ho : OperandSafe v 0 (o.resolve v).2 dst o) :
    Agrees heap (ListInsert heap.limit t dst (o.list t))
      (answer (addBytevectorAt heap v o dst)) := by
  have hlen := length_operand h ho
  unfold addBytevectorAt
  rw [← hlen] at hmoves ⊢
  refine agrees_addBytesAt h _ _ _ hmoves fun hdst => ?_
  have hsup := operand_supplies h o ho (by omega) hdst
  rwa [drop_zero, ← hlen, take_length] at hsup

theorem agrees_addPartialBytevectorAt (o : Operand) {srcIndex length : Nat}
    (hs : Safe v (.addPartialBytevectorAt o srcIndex length dst)) :
    Agrees heap (ListStep heap.limit t (.addPartialBytevectorAt o srcIndex length dst))
      (answer (addPartialBytevectorAt heap v o srcIndex length dst)) := by
  unfold addPartialBytevectorAt ListStep
  by_cases hsrc : srcIndex ≥ (o.resolve v).2
  · have hle := length_operand_le h o
    simp only [if_pos hsrc, if_pos (Nat.le_trans hle hsrc)]
    exact ⟨_, _, t, rfl, ⟨rfl, rfl⟩, h⟩
  obtain ⟨hmoves, ho⟩ := hs (by omega)
  have hlen := length_operand h ho
  simp only [hlen, if_neg hsrc]
  have hmin : (if length ≤ (o.resolve v).2 - srcIndex then length
      else (o.resolve v).2 - srcIndex) = min length ((o.resolve v).2 - srcIndex) := by
    split <;> omega
  rw [hmin]
  generalize hk : min length ((o.resolve v).2 - srcIndex) = k at *
  have htake : ((o.list t).drop srcIndex).take length = ((o.list t).drop srcIndex).take k := by
    rw [take_eq_take_iff, length_drop, hlen]
    omega
  have hxs : (((o.list t).drop srcIndex).take k).length = k := by
    rw [length_take, length_drop, hlen]; omega
  rw [htake]
  have hag := agrees_addBytesAt h ((o.resolve v).1 srcIndex) dst _
    (by rw [hxs]; exact hmoves) fun hdst => operand_supplies h o ho (by omega) hdst
  rwa [hxs] at hag

end

/-! ### streams -/

/-- The block after a stream wrote into the gap of an insertion. -/
theorem bytes_of_filled {added : Bytevector} {a g b d filled : List Byte}
    (hbytes : added.bytes = a ++ g ++ b) (ha : a.length = i) (hd : d.length ≤ g.length)
    (hle : added.size ≤ added.capacity) (hw : writeAt added.content i d = .ok filled) :
    (⟨filled, added.size⟩ : Bytevector).bytes = a ++ (d ++ g.drop d.length) ++ b := by
  have hlen : a.length + g.length + b.length = added.size := by
    rw [← length_bytes hle, hbytes]; simp only [length_append]
  have htake := take_writeAt (n := added.size) hw (by omega)
  rw [show added.content.take added.size = a ++ g ++ b from hbytes] at htake
  refine htake.trans ?_
  subst ha
  rw [append_assoc a, take_left, drop_append, drop_append,
    drop_eq_nil_of_le (by omega : a.length ≤ a.length + d.length),
    show a.length + d.length - a.length = d.length by omega,
    show d.length - g.length = 0 by omega]
  simp only [nil_append, drop_zero, append_assoc]

/-- The exit of a stream function that put `g` into the gap at `i`: on success the bytes stay, on
    failure the gap is closed again. -/
theorem afterStream_spec {added : Bytevector} (hwf : WellFormed heap added) {a g b : List Byte}
    (hbytes : added.bytes = a ++ g ++ b) (ha : a.length = i) (err : Status) :
    ∃ v', afterStream added err i g.length = .ok (v', err) ∧ WellFormed heap v' ∧
      (err = .success → v' = added) ∧ (err ≠ .success → v'.bytes = a ++ b) := by
  unfold afterStream
  by_cases herr : err = .success
  · rw [if_pos herr]
    exact ⟨added, by rw [herr], hwf, fun _ => rfl, fun h => absurd herr h⟩
  rw [if_neg herr]
  have hlen : a.length + g.length + b.length = added.size := by
    rw [← length_bytes hwf.size_le, hbytes]; simp only [length_append]
  obtain ⟨p, hp, hrem⟩ := removeBytesAt_spec hwf i g.length
  rw [hp, ok_bind]
  cases hrem with
  | done hi hbytes' hcap hwf' =>
    refine ⟨_, rfl, hwf', fun h => absurd h herr, fun _ => ?_⟩
    rw [hbytes', hbytes]
    subst ha
    rw [append_assoc a, take_left, ← append_assoc, drop_left' (by simp)]
  | outOfRange hi =>
    -- the gap is empty and at the end
    refine ⟨_, rfl, hwf, fun h => absurd h herr, fun _ => ?_⟩
    have hg : g = [] := eq_nil_of_length_eq_zero (by omega)
    rw [hbytes, hg, append_nil]

section
variable (h : Refines heap v t)
include h

theorem agrees_addFromStreamAt (func : ReadFunc) (hmoves : MovesTail v i k) :
    Agrees heap (ListInsertStream heap.limit t func k i)
      (answer (addFromStreamAt heap v func k i)) := by
  have hlen := h.length_eq
  have hrep : (List.replicate k (0 : Byte)).length = k := length_replicate
  obtain ⟨p, hp, hins⟩ := addBytesAt_spec h.wf .null i (List.replicate k 0)
    (by rw [hrep]; exact hmoves) fun _ => by rw [Supplies, hrep]
  rw [hrep] at hp
  unfold addFromStreamAt
  rw [hp, ok_bind]
  cases hins with
  | outOfRange hi => exact ⟨_, _, t, rfl, .outOfRange (by omega), h⟩
  | exhausted hi hlimit => exact ⟨_, _, t, rfl, .exhausted (by omega) (by omega), h⟩
  | @done added hi hbytes hsize hwf =>
    have hd := func.length_le k
    have hle : added.size ≤ added.content.length := hwf.size_le
    obtain ⟨filled, hw⟩ := exists_writeAt added.content i ((func.call k).2)
      (by omega)
    have hti : (v.bytes.take i).length = i := by
      rw [length_take, length_bytes h.wf.size_le]; omega
    have hfilled := bytes_of_filled hbytes hti (by omega) hwf.size_le hw
    have hwf' : WellFormed heap ⟨filled, added.size⟩ := by
      have hfl := length_writeAt hw
      exact ⟨by rw [capacity, hfl]; exact hle, by rw [capacity, hfl]; exact hwf.capacity_le⟩
    have hg : ((func.call k).2 ++ (List.replicate k 0).drop (func.call k).2.length).length = k := by
      simp only [length_append, length_drop, hrep]; omega
    obtain ⟨v', hafter, hwf'', hok, hfail⟩ := afterStream_spec hwf' hfilled hti (func.call k).1
    rw [hg] at hafter
    simp only [hw, ok_bind, hafter]
    by_cases hst : (func.call k).1 = .success
    · refine ⟨v', _, _, rfl, .read hst ?_, refines_toByteList hwf''⟩
      rw [hst]
      refine .done (by omega) ?_
      have hfull := func.length_of_success k hst
      show v'.bytes = _
      rw [hok hst, h.bytes_eq]
      refine hfilled.trans ?_
      rw [drop_eq_nil_of_le (by omega), append_nil]
    · refine ⟨v', _, _, rfl, .failed (by omega) hst ?_, refines_toByteList hwf''⟩
      rw [h.bytes_eq]
      exact (hfail hst).trans (take_append_drop i v.bytes)

theorem agrees_setFromStreamAt (func : ReadFunc) (hs : Safe v (.setFromStreamAt func k i)) :
    Agrees heap (ListSetStream t func k i) (answer (setFromStreamAt v func k i)) := by
  have hlen := h.length_eq
  have hle : v.size ≤ v.content.length := h.wf.size_le
  have hcap : v.content.length < sizeMod := by
    have := h.wf.capacity_le
    have := heap.limit_lt
    unfold capacity sizeMod at *
    omega
  have hroom : i ≤ v.capacity → (v.capacity + sizeMod - i) % sizeMod = v.capacity - i := by
    intro hi
    unfold capacity at *
    rw [show v.content.length + sizeMod - i = (v.content.length - i) + sizeMod by omega,
      Nat.add_mod_right, Nat.mod_eq_of_lt (by omega)]
  unfold setFromStreamAt
  have hi : i ≤ v.capacity := by
    rcases hs with ⟨hi, _⟩ | ⟨hi, _⟩
    · exact Nat.le_trans hi hle
    · exact hi
  rw [hroom hi]
  by_cases hk : k > v.capacity - i
  · rw [if_pos hk]
    refine ⟨_, _, t, rfl, .outOfRange (.inr ?_), h⟩
    rw [h.room_eq]; omega
  rw [if_neg hk]
  obtain ⟨hi', happ⟩ : i ≤ v.size ∧ (i = v.size ∨ k = 0) := by
    rcases hs with hs | ⟨_, hs⟩
    · exact hs
    · omega
  have hd := func.length_le k
  have hfit : i + k ≤ v.content.length := by unfold capacity at hi hk; omega
  obtain ⟨filled, hw⟩ := exists_writeAt v.content i ((func.call k).2)
    (by omega)
  have hfl := length_writeAt hw
  rw [Nat.mod_eq_of_lt (by omega), hw, ok_bind]
  have hwf' : WellFormed heap ⟨filled, v.size + k⟩ := by
    refine ⟨?_, by rw [capacity, hfl]; exact h.wf.capacity_le⟩
    rw [capacity, hfl]
    show v.size + k ≤ v.content.length
    omega
  -- what lies behind the delivered bytes is inside the block, but not part of any list
  have hbytes : (⟨filled, v.size + k⟩ : Bytevector).bytes =
      v.bytes.take i ++ ((func.call k).2 ++
        (v.content.drop (i + (func.call k).2.length)).take (k - (func.call k).2.length)) ++
      v.bytes.drop i := by
    have htake := take_writeAt (n := v.size + k) hw (by omega)
    refine htake.trans ?_
    rcases happ with rfl | rfl
    · have hnil : v.bytes.drop v.size = [] := by
        exact drop_eq_nil_of_le (Nat.le_of_eq (length_bytes h.wf.size_le))
      rw [hnil, append_nil, take_take, Nat.min_eq_left (by omega), bytes,
        take_take, Nat.min_self, append_assoc, drop_take]
      rw [show v.size + k - (v.size + (func.call k).2.length) = k - (func.call k).2.length by omega]
    · have hnil : (func.call 0).2 = [] := eq_nil_of_length_eq_zero (by omega)
      simp only [hnil, append_nil, length_nil, Nat.add_zero, Nat.sub_self,
        take_zero]
      rfl
  have hti : (v.bytes.take i).length = i := by
    rw [length_take, length_bytes h.wf.size_le]; omega
  have hg : ((func.call k).2 ++ (v.content.drop (i + (func.call k).2.length)).take
      (k - (func.call k).2.length)).length = k := by
    simp only [length_append, length_take, length_drop]; omega
  obtain ⟨v', hafter, hwf'', hok, hfail⟩ := afterStream_spec hwf' hbytes hti (func.call k).1
  rw [hg] at hafter
  rw [hafter]
  by_cases hst : (func.call k).1 = .success
  · refine ⟨v', _, _, rfl, ?_, refines_toByteList hwf''⟩
    rw [hst]
    refine .done (by omega) hst ?_
    have hfull := func.length_of_success k hst
    show v'.bytes = _
    rw [hok hst, h.bytes_eq]
    refine hbytes.trans ?_
    rw [hfull, Nat.sub_self, take_zero, append_nil]
    rcases happ with rfl | rfl
    · rw [drop_eq_nil_of_le (Nat.le_of_eq (length_bytes h.wf.size_le)),
        drop_eq_nil_of_le (by rw [length_bytes h.wf.size_le]; omega)]
    · rfl
  · refine ⟨v', _, _, rfl, .failed (by omega) hst ?_, refines_toByteList hwf''⟩
    rw [h.bytes_eq]
    exact (hfail hst).trans (take_append_drop i v.bytes)

/-! ### the rest -/

theorem agrees_look (func : List Byte → Status) (i k : Nat) {x : Exec (Status × List Byte)}
    (hlt : i < v.size → x = .ok (func ((v.bytes.drop i).take k), (v.bytes.drop i).take k))
    (hge : v.size ≤ i → x = .ok (.invalidArgument, [])) :
    Agrees heap (ListLook t func i k) (look v x) := by
  have hlen := h.length_eq
  by_cases hi : i < v.size
  · rw [hlt hi, ← h.bytes_eq]
    exact ⟨_, _, t, rfl, .done (by omega), h⟩
  · rw [hge (by omega)]
    exact ⟨_, _, t, rfl, .outOfRange (by omega), h⟩

theorem agrees_getBytesAt (i k : Nat) :
    Agrees heap (ListLook t (fun _ => .success) i k) (look v (getBytesAt v i k)) := by
  refine agrees_look h (fun _ => .success) i k (fun hi => ?_) fun hi => ?_
  · exact getBytesAt1_of_lt h.wf.size_le hi
  · rw [getBytesAt, getBytesAt1, if_pos hi]

theorem agrees_write (func : List Byte → Status) (i k : Nat) :
    Agrees heap (ListLook t func i k) (look v (write v func i k)) := by
  refine agrees_look h func i k (fun hi => ?_) fun hi => ?_
  · exact write_of_lt h.wf.size_le func hi
  · rw [write, if_pos hi]

end

theorem agrees_clear (heap : Heap) (v : Bytevector) (n : Nat) :
    Agrees heap (ListClear heap.limit n) (answer (.ok (clear heap v n))) := by
  have hempty : WellFormed heap ⟨[], 0⟩ := ⟨Nat.le_refl _, Nat.zero_le _⟩
  unfold clear
  rcases ensureCapacity_cases (v := ⟨[], 0⟩) hempty.capacity_le
    (if n = 0 then indexDefaultSize else n) with ⟨g, hg, hgrown⟩ | ⟨hg, _, hlimit⟩
  · have hsize : g.size = 0 := hgrown.size_eq
    have hwf : WellFormed heap g := ⟨by omega, hgrown.capacity_le⟩
    refine ⟨g, _, _, by rw [hg]; rfl, .done ?_, refines_toByteList hwf⟩
    show g.bytes = []
    rw [bytes, hsize, take_zero]
  · refine ⟨_, _, _, by rw [hg]; rfl, .exhausted ?_ ?_, refines_toByteList hempty⟩
    · rfl
    · have : indexDefaultIncrease ≤ indexDefaultSize := by decide
      simp only [capacity, length_nil, Nat.zero_add] at hlimit
      split at hlimit <;> omega

/-- One safe operation does what it means on the byte list. -/
theorem step_refines (h : Refines heap v t) (o : Op) (hs : Safe v o) :
    Agrees heap (ListStep heap.limit t o) (step heap v o) := by
  cases o with
  | addByteAt byte i => exact agrees_addBytesAt h _ _ _ hs fun _ => rfl
  | addByteFirst byte => exact agrees_addBytesAt h _ _ [byte] hs fun _ => rfl
  | addByteLast byte =>
    have hlast : v.size % uintMod = v.size := Nat.mod_eq_of_lt hs
    have hsize : v.size + 1 < sizeMod := by
      have : v.size < uintMod := hs
      unfold uintMod at this
      unfold sizeMod
      omega
    show Agrees heap (ListInsert heap.limit t t.bytes.length [byte])
      (answer (addBytesAt heap v (.outside [byte]) (v.size % uintMod) 1))
    rw [hlast, h.length_eq]
    exact agrees_addBytesAt h _ _ [byte] (.inr ⟨hsize, .inr rfl⟩) fun _ => rfl
  | addBytesAt bytes i => exact agrees_addBytesAt h _ _ _ hs fun _ => take_length.symm
  | addNullAt k i =>
    have hrep : (List.replicate k (0 : Byte)).length = k := length_replicate
    have hag := agrees_addBytesAt h .null i (List.replicate k 0)
      (by rw [hrep]; exact hs) fun _ => by rw [Supplies, hrep]
    rw [hrep] at hag
    exact hag
  | addBytevectorAt o dst => exact agrees_addBytevectorAt h o hs.1 hs.2
  | addPartialBytevectorAt o srcIndex length dst => exact agrees_addPartialBytevectorAt h o hs
  | addFromStreamAt func k i => exact agrees_addFromStreamAt h func hs
  | setFromStreamAt func k i => exact agrees_setFromStreamAt h func hs
  | getByteAt i => exact agrees_getBytesAt h i 1
  | getBytesAt i k => exact agrees_getBytesAt h i k
  | write func i k => exact agrees_write h func i k
  | removeByteAt i => exact agrees_removeBytesAt h i 1
  | removeBytesAt i k => exact agrees_removeBytesAt h i k
  | clear n => exact agrees_clear heap v n

/-! ## every run -/

/-- The empty list a new vector stands for. -/
def emptyList (room : Nat) : ByteList := ⟨[], room, Nat.zero_le _⟩

theorem refines_new1 {n : Nat} (h : new1 heap n = some v) : Refines heap v (emptyList n) := by
  have hwf := wellFormed_new1 h
  unfold new1 at h
  split at h
  · cases h
    exact ⟨hwf, rfl, by simp [emptyList, capacity]⟩
  · cases h

/-- From a new vector of capacity `n`, the operations return, and answer and leave what they
    answer and leave on a byte list. -/
def RunRefines (heap : Heap) (n : Nat) (ops : List Op) : Prop :=
  ∀ v, new1 heap n = some v → ∃ v' rs t', runOps (step heap) v ops = .ok (v', rs) ∧
    Answers (ListStep heap.limit) (emptyList n) ops rs t' ∧
    v'.bytes = t'.bytes ∧ v'.size = t'.bytes.length

theorem bytevector_run_refines (heap : Heap) (n : Nat) (ops : List Op)
    (hsafe : ∀ v, new1 heap n = some v → SafeRun (step heap) Safe v ops) :
    RunRefines heap n ops := by
  intro v hv
  obtain ⟨v', rs, t', hrun, hans, hrel⟩ :=
    safeRun_simulates (fun s t o (h : Refines heap s t) hs => step_refines h o hs) ops v
      (emptyList n) (refines_new1 hv) (hsafe v hv)
  exact ⟨v', rs, t', hrun, hans, hrel.bytes_eq.symm, hrel.length_eq.symm⟩

/-- A stream that delivers `bytes` in one successful read of that many, and fails otherwise. -/
def streamOf (bytes : List Byte) : ReadFunc where
  call n := if n = bytes.length then (.success, bytes) else (.ioerr, [])
  length_le n := by split <;> simp_all
  length_of_success n := by split <;> simp_all

/-- A run that grows the block, inserts in the middle and in front, copies the vector into itself,
    reads streams, is refused twice and removes. -/
theorem bytevector_run_refines_growing : RunRefines ⟨1000, by decide⟩ 4
    [.addBytesAt [1, 2, 3, 4, 5] 0, .addByteAt 6 2, .addBytevectorAt .self 1,
      .addFromStreamAt (streamOf [7, 8]) 2 0, .setFromStreamAt (streamOf [9]) 1 14,
      .addByteLast 10, .removeBytesAt 3 4, .removeByteAt 40, .addByteAt 11 40,
      .getBytesAt 1 3] :=
  bytevector_run_refines _ _ _ fun v hv => by
    obtain rfl : ⟨List.replicate 4 0, 0⟩ = v := Option.some.inj hv
    decide +kernel

/-- Three bytes inserted in front of two overwrite them: the code is left with `7 8 9 0 0`. -/
theorem not_bytevector_run_refines : ¬∀ heap n ops, RunRefines heap n ops := by
  intro h
  obtain ⟨v', rs, t', hrun, hans, hbytes, -⟩ := h ⟨1000, by decide⟩ 4
    [.addBytesAt [1, 2] 0, .addBytesAt [7, 8, 9] 0] _ rfl
  have hv : (⟨[7, 8, 9] ++ List.replicate 65 0, 5⟩, [⟨.success, []⟩, ⟨.success, []⟩]) =
      (v', rs) := Except.ok.inj hrun
  cases hv
  cases hans with
  | cons h₁ hans =>
    cases hans with
    | cons h₂ hans =>
      cases hans
      cases h₁ with
      | done _ hb₁ =>
        cases h₂ with
        | done _ hb₂ =>
          rw [hb₁] at hb₂
          rw [hb₂] at hbytes
          cases hbytes

end JxtaC.Bytevector
