import JxtaC.Objecthashtable

/-
  The object hash table is a finite map modulo `equals`, and releases its mutex.
  `Inv` relates a table to the map it stands for, and says that nobody holds the mutex. As in the
  other hash table each function has one lemma, `step_refines` collects them, and
  `objecthashtable_run_refines` carries them through a run. `Safe` asks for a hash that is not
  zero, and for a table whose slots an `unsigned int` can count.
-/

namespace JxtaC.Objecthashtable

open Lib Lib.OpenAddressing Lib.Block

section Spec
variable {Key Val : Type} {heap : Heap} {H : Hashing Key} {t : Table Key Val}
  {M : Key → Option Val}

theorem capacity_eq (hlt : t.modmask + 1 ≤ 2 ^ 31) : capacity t = t.modmask + 1 := by
  unfold capacity
  exact Nat.mod_eq_of_lt (hlt.trans_lt (by decide))

theorem visited_eq (h : Sized H entrySize heap t M) (hlt : t.modmask + 1 ≤ 2 ^ 31) :
    visited t = .ok t.slots := by
  have hlen := h.valid.length_eq
  unfold visited
  rw [capacity_eq hlt, readAt_of_le (by omega), List.drop_zero,
    List.take_of_length_le (by omega)]

/-- The map has so many entries that a table of twice the size may be refused. -/
def Refused (heap : Heap) (H : Hashing Key) (M : Key → Option Val) : Prop :=
  ∃ es, Enumerates H M es ∧ heap.limit < 4 * entrySize * (es.length + 9)

/-- `grow` leaves the same map in a table with room, or changes nothing for want of memory. -/
theorem grow_spec (h : Sized H entrySize heap t M) (hlt : t.modmask + 1 ≤ 2 ^ 31) :
    (∃ t', grow heap H t = .ok (t', .success) ∧ Grown H entrySize heap t' M) ∨
      (grow heap H t = .ok (t, .nomem) ∧ Refused heap H M) := by
  obtain ⟨k, hk⟩ := h.valid.pow
  have hmax := h.max_eq
  unfold grow
  by_cases hdouble : doublingUsage t.maxOccupancy < t.usage
  · have hmask : ((t.modmask + 1) * 2 + uintMod - 1) % uintMod = (t.modmask + 1) * 2 - 1 := by
      unfold uintMod
      omega
    have hsize : (t.modmask + 1) * 2 - 1 + 1 = (t.modmask + 1) * 2 := by omega
    simp only [gt_iff_lt, hdouble, if_true, capacity_eq hlt, hmask, hsize]
    by_cases hserved : heap.limit < entrySize * ((t.modmask + 1) * 2)
    · refine .inr ⟨if_pos hserved, _, enumerates_entriesOf h.valid h.represents, ?_⟩
      have hle : t.modmask + 1 ≤ 2 * (t.usage + 9) := size_le_of_doubling (hmax ▸ hdouble)
      rw [length_entriesOf, ← h.valid.usage_eq]
      unfold entrySize at hserved ⊢
      omega
    · obtain ⟨t', hrun, hgrown, -⟩ := h.rehash (show (t.modmask + 1) * 2 = 2 ^ (k + 1) by
        rw [hk, Nat.pow_succ]) (.inr (Nat.mul_comm _ _)) (by unfold uintMod; omega)
        (Nat.le_of_not_lt hserved)
      refine .inl ⟨t', ?_, hgrown⟩
      rw [if_neg hserved, visited_eq h hlt, ok_bind, hrun]
      rfl
  · obtain ⟨t', hrun, hgrown, -⟩ := h.rehash hk (.inl ⟨Nat.le_of_not_lt hdouble, rfl⟩)
      h.modmask_lt h.served
    refine .inl ⟨t', ?_, hgrown⟩
    rw [Nat.add_sub_cancel] at hrun
    simp only [gt_iff_lt, hdouble, if_false, if_neg (Nat.not_lt.mpr h.served), visited_eq h hlt,
      ok_bind, hrun]
    rfl

/-- There is a slot to write without a rebuilding, or the slots can be counted. -/
def HasRoom (t : Table Key Val) : Prop :=
  t.occupancy ≤ t.maxOccupancy ∨ t.modmask + 1 ≤ 2 ^ 31

instance (t : Table Key Val) : Decidable (HasRoom t) := inferInstanceAs (Decidable (_ ∨ _))

section
variable (h : Sized H entrySize heap t M)
include h

theorem spotFor_spec (key : Key) (hroom : HasRoom t) :
    (∃ t' e, spotFor heap H t key = .ok (t', .ok e) ∧ Sized H entrySize heap t' M ∧
        Storable H t'.slots t'.modmask key e) ∨
      (spotFor heap H t key = .ok (t, .error .nomem) ∧ Refused heap H M) := by
  unfold spotFor
  by_cases hocc : t.occupancy > t.maxOccupancy
  · rcases grow_spec h (hroom.resolve_left (Nat.not_le.mpr hocc)) with
      ⟨u, hu, hgrown⟩ | ⟨hu, hrefused⟩
    · obtain ⟨t', e, hspot, hinv, hst, -⟩ := hgrown.exists_spot key
      refine .inl ⟨t', e, ?_, hinv, hst⟩
      have hspot' : findspot H u key true = .ok (t', some e) := hspot
      simp only [if_pos hocc, hu, ok_bind, hspot']
      rfl
    · refine .inr ⟨?_, hrefused⟩
      rw [if_pos hocc, hu]
      rfl
  · obtain ⟨t', e, hspot, hinv, hst, -⟩ := (h.grown (Nat.not_lt.mp hocc)).exists_spot key
    refine .inl ⟨t', e, ?_, hinv, hst⟩
    have hspot' : findspot H t key true = .ok (t', some e) := hspot
    simp only [if_neg hocc, ok_bind, hspot']
    rfl

theorem putLocked_spec {key : Key} (value : Val) (replaceOk : Bool) (hroom : HasRoom t) :
    (∃ t' res old, putLocked heap H t key value replaceOk = .ok (t', res, old) ∧
      if replaceOk = true ∨ M key = none then
        res = .success ∧ old = M key ∧
          Sized H entrySize heap t' (OpenAddressing.put H M key value)
      else res = .itemExists ∧ old = none ∧ Sized H entrySize heap t' M) ∨
    (putLocked heap H t key value replaceOk = .ok (t, .nomem, none) ∧ Refused heap H M) := by
  unfold putLocked
  rcases spotFor_spec h key hroom with ⟨u, e, hspot, hinv, hst⟩ | ⟨hspot, hrefused⟩
  · rw [hspot, ok_bind]
    have hstore := hinv.store hst value
    obtain ⟨s, hs⟩ : ∃ s, u.slots[e]? = some s := ⟨_, List.getElem?_eq_getElem hst.lt_length⟩
    rcases hinv.represents.at_spot hst with ⟨g, a, v, hlive, hM⟩ | ⟨hfree, hM⟩
    · simp only [hlive]
      cases replaceOk with
      | true =>
        refine .inl ⟨_, .success, some v, rfl, ?_⟩
        rw [if_pos (.inl rfl)]
        exact ⟨rfl, hM.symm, hstore⟩
      | false =>
        refine .inl ⟨u, .itemExists, none, rfl, ?_⟩
        rw [if_neg (by simp [hM])]
        exact ⟨rfl, rfl, hinv⟩
    · refine .inl ⟨u.store e (H.hash key) key value, .success, none, ?_, ?_⟩
      · cases s with
        | live g a v => exact absurd hs (hfree g a v)
        | blank | reusable =>
          simp only [hs]
          rfl
      · rw [if_pos (.inr hM)]
        exact ⟨rfl, hM.symm, hstore⟩
  · rw [hspot]
    exact .inr ⟨rfl, hrefused⟩

theorem lookup_spec (key : Key) :
    (M key = none ∧ lookup H t key = .ok none) ∨
      ∃ e v, M key = some v ∧ lookup H t key = .ok (some (e, v)) ∧
        Sized H entrySize heap (t.erase e) (remove H M key) := by
  obtain ⟨r, hspot, hcases⟩ := h.represents.lookup h.valid key
  have hspot' : findspot H t key false = .ok (t, r) := hspot
  unfold lookup
  rw [hspot', ok_bind]
  rcases hcases with ⟨e, g, a, v, rfl, hslot, hsame, hM⟩ | ⟨rfl, hM⟩
  · refine .inr ⟨e, v, hM, ?_, h.erase hslot hsame⟩
    simp only [hslot]
    rfl
  · exact .inl ⟨hM, rfl⟩

end

end Spec

/-! ## runs -/

inductive Op (Key Val : Type) where
  | put (key : Key) (value : Val)
  | putnoreplace (key : Key) (value : Val)
  | replace (key : Key) (value : Val) (wanted : Bool)
  | get (key : Key) (wanted : Bool)
  | del (key : Key) (wanted : Bool)
  | delcheck (key : Key) (value : Val)
  | keysGet
  | valuesGet
  deriving Repr, DecidableEq

variable {Key Val : Type} [DecidableEq Val]

def step (heap : Heap) (H : Hashing Key) (s : Objecthashtable Key Val) :
    Op Key Val → Exec (Objecthashtable Key Val × Reply Key Val)
  | .put key value => put heap H s key value
  | .putnoreplace key value => putnoreplace heap H s key value
  | .replace key value wanted => replace heap H s key value wanted
  | .get key wanted => get H s key wanted
  | .del key wanted => del H s key wanted
  | .delcheck key value => delcheck H s key value
  | .keysGet => keysGet heap s
  | .valuesGet => valuesGet heap s

/-- A map takes an insertion, or refuses it unchanged for want of memory. -/
def PutStep (heap : Heap) (H : Hashing Key) (M : Key → Option Val) (r : Reply Key Val)
    (M' : Key → Option Val) (took : Reply Key Val) (after : Key → Option Val) : Prop :=
  (r = took ∧ M' = after) ∨ (r = .status .nomem none ∧ M' = M ∧ Refused heap H M)

/-- What a finite map modulo `equals` answers, and what it becomes. -/
def MapStep (heap : Heap) (H : Hashing Key) (M : Key → Option Val) (op : Op Key Val)
    (r : Reply Key Val) (M' : Key → Option Val) : Prop :=
  match op with
  | .put key value =>
    PutStep heap H M r M' (.status .success none) (OpenAddressing.put H M key value)
  | .putnoreplace key value =>
    if M key = none then
      PutStep heap H M r M' (.status .success none) (OpenAddressing.put H M key value)
    else PutStep heap H M r M' (.status .itemExists none) M
  | .replace key value wanted =>
    PutStep heap H M r M' (.status .success (if wanted then M key else none))
      (OpenAddressing.put H M key value)
  | .get key wanted =>
    r = .status (if (M key).isSome then .success else .itemNotfound)
      (if wanted then M key else none) ∧ M' = M
  | .del key wanted =>
    r = .status (if (M key).isSome then .success else .itemNotfound)
      (if wanted then M key else none) ∧
      M' = if (M key).isSome then remove H M key else M
  | .delcheck key value =>
    match M key with
    | none => r = .status .itemNotfound none ∧ M' = M
    | some v =>
      if value = v then r = .status .success none ∧ M' = remove H M key
      else r = .status .violation none ∧ M' = M
  | .keysGet => (∃ es, Enumerates H M es ∧ r = .keys (es.map Prod.fst)) ∧ M' = M
  | .valuesGet => (∃ es, Enumerates H M es ∧ r = .values (es.map Prod.snd)) ∧ M' = M

/-- What a call needs: a key whose hash is not zero; slots that an `unsigned int` counts, where a
    loop visits them all. -/
def Safe (H : Hashing Key) (s : Objecthashtable Key Val) : Op Key Val → Prop
  | .put key _ | .putnoreplace key _ | .replace key _ _ => H.hash key ≠ 0 ∧ HasRoom s.tbl
  | .get key _ | .del key _ | .delcheck key _ => H.hash key ≠ 0
  | .keysGet | .valuesGet => s.tbl.modmask + 1 ≤ 2 ^ 31

instance (H : Hashing Key) (s : Objecthashtable Key Val) (op : Op Key Val) :
    Decidable (Safe H s op) := by
  cases op <;> unfold Safe <;> infer_instance

section Steps
variable {heap : Heap} {H : Hashing Key} {s : Objecthashtable Key Val} {M : Key → Option Val}

/-- The table stands for the map `M`, and the mutex is free. -/
structure Inv (heap : Heap) (H : Hashing Key) (s : Objecthashtable Key Val)
    (M : Key → Option Val) : Prop where
  sized : Sized H entrySize heap s.tbl M
  held : s.held = 0

/-- The call answers as the map does, the table stands for the new map, and the mutex is free. -/
def Agrees (heap : Heap) (H : Hashing Key) (M : Key → Option Val) (op : Op Key Val)
    (x : Exec (Objecthashtable Key Val × Reply Key Val)) : Prop :=
  ∃ s' r M', x = .ok (s', r) ∧ MapStep heap H M op r M' ∧ Inv heap H s' M'

omit [DecidableEq Val] in
/-- What `lock` and `unlock` around a change of the slots leave. -/
theorem Inv.unlocked (h : Inv heap H s M) {t : Table Key Val} {M' : Key → Option Val}
    (ht : Sized H entrySize heap t M') : Inv heap H (unlock { s.lock with tbl := t }) M' :=
  ⟨ht, h.held⟩

omit [DecidableEq Val] in
theorem comboput_spec (h : Inv heap H s M) {key : Key} (value : Val) (replaceOk : Bool)
    (hkey : H.hash key ≠ 0) (hroom : HasRoom s.tbl) :
    (∃ s' res old, comboput heap H s key value replaceOk = .ok (s', res, old) ∧
      if replaceOk = true ∨ M key = none then
        res = .success ∧ old = M key ∧ Inv heap H s' (OpenAddressing.put H M key value)
      else res = .itemExists ∧ old = none ∧ Inv heap H s' M) ∨
    (∃ s', comboput heap H s key value replaceOk = .ok (s', .nomem, none) ∧ Inv heap H s' M ∧
      Refused heap H M) := by
  unfold comboput
  simp only [if_neg hkey]
  rcases putLocked_spec h.sized value replaceOk hroom with ⟨t', res, old, hput, hcase⟩ | ⟨hput, hno⟩
  · refine .inl ⟨unlock { s.lock with tbl := t' }, res, old, ?_, ?_⟩
    · rw [show s.lock.tbl = s.tbl from rfl, hput]
      rfl
    · by_cases hputs : replaceOk = true ∨ M key = none
      · rw [if_pos hputs] at hcase ⊢
        exact ⟨hcase.1, hcase.2.1, h.unlocked hcase.2.2⟩
      · rw [if_neg hputs] at hcase ⊢
        exact ⟨hcase.1, hcase.2.1, h.unlocked hcase.2.2⟩
  · refine .inr ⟨unlock { s.lock with tbl := s.tbl }, ?_, h.unlocked h.sized, hno⟩
    rw [show s.lock.tbl = s.tbl from rfl, hput]
    rfl

section
variable (h : Inv heap H s M)
include h

section
variable (key : Key)

theorem agrees_put (value : Val) (hs : H.hash key ≠ 0 ∧ HasRoom s.tbl) :
    Agrees heap H M (.put key value) (put heap H s key value) := by
  rcases comboput_spec h value true hs.1 hs.2 with ⟨s', res, old, hput, hcase⟩ | ⟨s', hput, hinv, hno⟩
  · rw [if_pos (.inl rfl)] at hcase
    obtain ⟨rfl, -, hinv⟩ := hcase
    exact ⟨s', _, _, by rw [put, hput]; rfl, .inl ⟨rfl, rfl⟩, hinv⟩
  · exact ⟨s', _, _, by rw [put, hput]; rfl, .inr ⟨rfl, rfl, hno⟩, hinv⟩

theorem agrees_replace (value : Val) (wanted : Bool) (hs : H.hash key ≠ 0 ∧ HasRoom s.tbl) :
    Agrees heap H M (.replace key value wanted) (replace heap H s key value wanted) := by
  rcases comboput_spec h value true hs.1 hs.2 with ⟨s', res, old, hput, hcase⟩ | ⟨s', hput, hinv, hno⟩
  · rw [if_pos (.inl rfl)] at hcase
    obtain ⟨rfl, rfl, hinv⟩ := hcase
    exact ⟨s', _, _, by rw [replace, hput]; rfl, .inl ⟨rfl, rfl⟩, hinv⟩
  · exact ⟨s', .status .nomem none, _, by rw [replace, hput]; cases wanted <;> rfl,
      .inr ⟨rfl, rfl, hno⟩, hinv⟩

theorem agrees_putnoreplace (value : Val) (hs : H.hash key ≠ 0 ∧ HasRoom s.tbl) :
    Agrees heap H M (.putnoreplace key value) (putnoreplace heap H s key value) := by
  rcases comboput_spec h value false hs.1 hs.2 with ⟨s', res, old, hput, hcase⟩ | ⟨s', hput, hinv, hno⟩
  · by_cases hM : M key = none
    · rw [if_pos (.inr hM)] at hcase
      obtain ⟨rfl, -, hinv⟩ := hcase
      refine ⟨s', .status .success none, _, by rw [putnoreplace, hput]; rfl, ?_, hinv⟩
      simp only [MapStep, if_pos hM]
      exact .inl ⟨rfl, rfl⟩
    · rw [if_neg (by simp [hM])] at hcase
      obtain ⟨rfl, -, hinv⟩ := hcase
      refine ⟨s', .status .itemExists none, _, by rw [putnoreplace, hput]; rfl, ?_, hinv⟩
      simp only [MapStep, if_neg hM]
      exact .inl ⟨rfl, rfl⟩
  · refine ⟨s', .status .nomem none, M, by rw [putnoreplace, hput]; rfl, ?_, hinv⟩
    simp only [MapStep]
    split <;> exact .inr ⟨rfl, rfl, hno⟩

theorem agrees_get (wanted : Bool) (hkey : H.hash key ≠ 0) :
    Agrees heap H M (.get key wanted) (get H s key wanted) := by
  unfold get
  simp only [if_neg hkey, show s.lock.tbl = s.tbl from rfl]
  rcases lookup_spec h.sized key with ⟨hM, hlook⟩ | ⟨e, v, hM, hlook, -⟩
  · refine ⟨s.lock.unlock, .status .itemNotfound none, M, by rw [hlook]; rfl, ⟨?_, rfl⟩,
      h.unlocked h.sized⟩
    simp [hM]
  · refine ⟨s.lock.unlock, .status .success (if wanted then some v else none), M,
      by rw [hlook]; rfl, ⟨?_, rfl⟩, h.unlocked h.sized⟩
    simp [hM]

theorem agrees_del (wanted : Bool) (hkey : H.hash key ≠ 0) :
    Agrees heap H M (.del key wanted) (del H s key wanted) := by
  unfold del
  simp only [if_neg hkey, show s.lock.tbl = s.tbl from rfl]
  rcases lookup_spec h.sized key with ⟨hM, hlook⟩ | ⟨e, v, hM, hlook, herase⟩
  · refine ⟨s.lock.unlock, .status .itemNotfound none, M, by rw [hlook]; rfl, ?_,
      h.unlocked h.sized⟩
    simp [MapStep, hM]
  · refine ⟨unlock { s.lock with tbl := s.tbl.erase e },
      .status .success (if wanted then some v else none), remove H M key, by rw [hlook]; rfl, ?_,
      h.unlocked herase⟩
    simp [MapStep, hM]

theorem agrees_delcheck (value : Val) (hkey : H.hash key ≠ 0) :
    Agrees heap H M (.delcheck key value) (delcheck H s key value) := by
  unfold delcheck
  simp only [if_neg hkey, show s.lock.tbl = s.tbl from rfl]
  rcases lookup_spec h.sized key with ⟨hM, hlook⟩ | ⟨e, v, hM, hlook, herase⟩
  · refine ⟨s.lock.unlock, .status .itemNotfound none, M, by rw [hlook]; rfl, ?_,
      h.unlocked h.sized⟩
    simp [MapStep, hM]
  · by_cases heq : value = v
    · refine ⟨unlock { s.lock with tbl := s.tbl.erase e }, .status .success none, remove H M key,
        ?_, ?_, h.unlocked herase⟩
      · simp only [hlook, ok_bind, if_neg (not_not_intro heq)]
        rfl
      · simp [MapStep, hM, heq]
    · refine ⟨s.lock.unlock, .status .violation none, M, ?_, ?_, h.unlocked h.sized⟩
      · simp only [hlook, ok_bind, if_pos heq]
        rfl
      · simp [MapStep, hM, heq]

end

end

omit [DecidableEq Val] in
theorem collect_spec (h : Inv heap H s M) (hlt : s.tbl.modmask + 1 ≤ 2 ^ 31)
    (f : List (Key × Val) → Reply Key Val) :
    ∃ es, Enumerates H M es ∧ collect heap s f = .ok (s.lock.unlock, f es) := by
  refine ⟨_, enumerates_entriesOf h.sized.valid h.sized.represents, ?_⟩
  have husage := h.sized.valid.usage_le.trans h.sized.valid.occupancy_le
  have hserved := h.sized.served
  unfold collect
  rw [if_neg (by unfold pointerSize; unfold entrySize at hserved; omega)]
  show (do let slots ← visited s.tbl; return (s.lock.unlock, f (Table.entriesOf slots))) = _
  rw [visited_eq h.sized hlt]
  rfl

theorem step_refines (h : Inv heap H s M) (op : Op Key Val) (hs : Safe H s op) :
    Agrees heap H M op (step heap H s op) := by
  cases op with
  | put key value => exact agrees_put h key value hs
  | putnoreplace key value => exact agrees_putnoreplace h key value hs
  | replace key value wanted => exact agrees_replace h key value wanted hs
  | get key wanted => exact agrees_get h key wanted hs
  | del key wanted => exact agrees_del h key wanted hs
  | delcheck key value => exact agrees_delcheck h key value hs
  | keysGet =>
    obtain ⟨es, hes, hrun⟩ := collect_spec h hs fun es => .keys (es.map Prod.fst)
    exact ⟨_, _, M, hrun, ⟨⟨es, hes, rfl⟩, rfl⟩, h.unlocked h.sized⟩
  | valuesGet =>
    obtain ⟨es, hes, hrun⟩ := collect_spec h hs fun es => .values (es.map Prod.snd)
    exact ⟨_, _, M, hrun, ⟨⟨es, hes, rfl⟩, rfl⟩, h.unlocked h.sized⟩

end Steps

/-- A new table and the run of the operations on it: the constructor is refused its memory, or the
    run returns, answers as an empty map does, and leaves the mutex free. -/
def RunRefines (heap : Heap) (H : Hashing Key) (initialUsage : Nat) (ops : List (Op Key Val)) :
    Prop :=
  new heap initialUsage = .ok (none : Option (Objecthashtable Key Val)) ∨
    ∃ s s' rs M, new heap initialUsage = .ok (some s) ∧
      runOps (step heap H) s ops = .ok (s', rs) ∧
      Answers (MapStep heap H) (fun _ => none) ops rs M ∧ Inv heap H s' M

/-- The size asked for fits the mask, and every step of the run is safe. -/
def SafeUse (heap : Heap) (H : Hashing Key) (initialUsage : Nat) (ops : List (Op Key Val)) :
    Prop :=
  adjustedUsage initialUsage ≤ 2 ^ 32 ∧
    Returns (new heap initialUsage) fun o => ∀ s ∈ o, SafeRun (step heap H) (Safe H) s ops

instance (heap : Heap) (H : Hashing Key) (initialUsage : Nat) (ops : List (Op Key Val)) :
    Decidable (SafeUse heap H initialUsage ops) :=
  inferInstanceAs (Decidable (_ ∧ _))

omit [DecidableEq Val] in
theorem new_spec {heap : Heap} (H : Hashing Key) {initialUsage : Nat}
    (h : adjustedUsage initialUsage ≤ 2 ^ 32) :
    new heap initialUsage = .ok (none : Option (Objecthashtable Key Val)) ∨
      ∃ s : Objecthashtable Key Val, new heap initialUsage = .ok (some s) ∧
        Inv heap H s fun _ => none := by
  obtain ⟨k, hreal, hk⟩ := realSizeOf_spec h
  have hmask : (2 ^ k - 1) % uintMod = 2 ^ k - 1 := by
    have hpos : 0 < 2 ^ k := Nat.two_pow_pos k
    have hle : 2 ^ k ≤ 2 ^ 32 := Nat.pow_le_pow_right (by decide) hk
    exact Nat.mod_eq_of_lt (show 2 ^ k - 1 < 2 ^ 32 by omega)
  unfold new
  rw [hreal, ok_bind]
  by_cases hheap : entrySize * 2 ^ k > heap.limit
  · rw [if_pos hheap]
    exact .inl rfl
  · rw [if_neg hheap, hmask]
    exact .inr ⟨_, rfl, sized_new hk (Nat.le_of_not_lt hheap), rfl⟩

theorem objecthashtable_run_refines (heap : Heap) (H : Hashing Key) (initialUsage : Nat)
    (ops : List (Op Key Val)) (hsafe : SafeUse heap H initialUsage ops) :
    RunRefines heap H initialUsage ops := by
  obtain ⟨hsize, hrun⟩ := hsafe
  rcases @new_spec Key Val heap H initialUsage hsize with hnone | ⟨s, hnew, hinv⟩
  · exact .inl hnone
  · have hsteps := returns_ok hrun hnew _ rfl
    have hstep : ∀ (s : Objecthashtable Key Val) (M : Key → Option Val) (op : Op Key Val),
        Inv heap H s M → Safe H s op → Agrees heap H M op (step heap H s op) :=
      fun s M op h hs => step_refines h op hs
    obtain ⟨s', rs, M, hops, hans, hinv'⟩ := safeRun_simulates hstep ops _ _ hinv hsteps
    exact .inr ⟨_, s', rs, M, hnew, hops, hans, hinv'⟩

/-- Numbers that are equal modulo `m`, with a hash the caller chooses. -/
def modulo (m : Nat) (hash : Nat → Nat) : Hashing Nat where
  hash a := hash (a % m)
  same a b := a % m == b % m
  refl a := beq_self_eq_true _
  symm a b h := by rw [eq_of_beq h]; exact beq_self_eq_true _
  trans a b c h h' := by rw [eq_of_beq h]; exact h'
  hash_eq a b h := by rw [eq_of_beq h]

/-- Keys modulo 10, all of one hash, in a table that grows and then is refused memory. -/
theorem objecthashtable_run_refines_colliding :
    RunRefines ⟨200, by decide⟩ (modulo 10 fun _ => 7) 1
      [.put 1 10, .put 2 20, .del 11 true, .putnoreplace 3 30, .put 4 40, .put 5 50, .put 6 60,
        .put 7 70, .put 8 80, .replace 12 21 true, .delcheck 3 31, .valuesGet, .keysGet,
        .get 22 true] :=
  objecthashtable_run_refines _ _ _ _ (by decide)

/-- A key whose hash is zero is refused with the mutex held. -/
theorem not_objecthashtable_run_refines :
    ¬∀ heap (H : Hashing Nat) initialUsage (ops : List (Op Nat Nat)),
      RunRefines heap H initialUsage ops := by
  intro hall
  rcases hall ⟨1000, by decide⟩ (modulo 10 fun _ => 0) 1 [.get 1 true] with
    hnone | ⟨s, s', rs, M, hnew, hrun, -, hinv⟩
  · cases hnone
  · cases hnew
    cases hrun
    exact absurd hinv.held (by decide)

end JxtaC.Objecthashtable
