import JxtaC.Base.Status
import JxtaC.Lib.Exec
import JxtaC.Lib.Ring
import Mathlib.Data.List.Count
import Mathlib.Data.List.DropRight

/-
  The cache of the peers that were sent our route (mru_* in jxta_resolver_service_ref.c), a ring of
  peer ids. `mru_reset` leaves the ids it released in their slots, and the next one that comes into
  such a slot releases it again; and a cache that was set to capacity 0 remembers its last capacity,
  and takes it for the present one. Everywhere else it holds the newest ids, one reference for each
  (`mru_iff`). Of the reference counts only what the cache adds and takes is here.
-/

namespace JxtaC.Mru

open Lib Lib.Ring List

/-- A `Jxta_PID` object: there may be several of one peer. -/
structure PidObject (Pid : Type) where
  pid : Pid
  serial : Nat
  deriving DecidableEq

/-- The cache, and for every object the references it took less those it released. -/
structure Cache (Pid : Type) where
  capacity : Nat
  size : Nat
  pos : Nat
  mru : Option (List (Option (PidObject Pid)))
  refs : PidObject Pid → Int

/-- `sizeof(*new_mru)`. -/
def sizeofPidPointer : Nat := 8

section Code
variable {Pid Route : Type} [DecidableEq Pid]

/-- `JXTA_OBJECT_SHARE`. -/
def share (refs : PidObject Pid → Int) (x : PidObject Pid) : PidObject Pid → Int :=
  fun y => if y = x then refs y + 1 else refs y

/-- `JXTA_OBJECT_RELEASE`, which ignores NULL. -/
def release (refs : PidObject Pid → Int) : Option (PidObject Pid) → PidObject Pid → Int
  | none => refs
  | some x => fun y => if y = x then refs y - 1 else refs y

/-- `mru[i]`. -/
def slotAt (slots : List (Option (PidObject Pid))) (i : Nat) : Exec (Option (PidObject Pid)) :=
  match slots[i]? with
  | some x => .ok x
  | none => .error .outOfBounds

/-- `mru_reset`. -/
def mruReset (s : Cache Pid) : Exec (Cache Pid) :=
  match s.mru with
  | none => .ok s
  | some slots =>
    if slots.length < s.size then .error .outOfBounds
    else .ok { s with refs := (slots.take s.size).foldl release s.refs, size := 0, pos := 0 }

/-- The loop of `mru_capacity_set` over the extra entries. -/
def releaseEntries (slots : List (Option (PidObject Pid))) (capacity : Nat) :
    Nat → Nat → (PidObject Pid → Int) → Exec (Nat × (PidObject Pid → Int))
  | 0, pos, refs => .ok (pos, refs)
  | n + 1, pos, refs => do
    let x ← slotAt slots pos
    releaseEntries slots capacity n (next capacity pos) (release refs x)

/-- Its loop over the entries that it keeps. -/
def copyEntries (slots : List (Option (PidObject Pid))) (capacity : Nat) :
    Nat → Nat → Exec (List (Option (PidObject Pid)))
  | 0, _ => .ok []
  | n + 1, pos => do
    let x ← slotAt slots pos
    let rest ← copyEntries slots capacity n (next capacity pos)
    return x :: rest

/-- `mru_capacity_set` of a cache that is there, with the new block. -/
def resize (s : Cache Pid) (slots : List (Option (PidObject Pid))) (capacity : Nat) :
    Exec (Cache Pid) := do
  let pos := if s.size < s.capacity then 0 else s.pos
  let cnt := if s.size < capacity then s.size else capacity
  let (pos, refs) ← releaseEntries slots s.capacity (s.size - capacity) pos s.refs
  let kept ← copyEntries slots s.capacity cnt pos
  return { capacity, size := cnt, pos := if cnt = capacity then 0 else cnt,
           mru := some (kept ++ List.replicate (capacity - cnt) none), refs }

/-- `mru_capacity_set`. -/
def mruCapacitySet (heap : Heap) (s : Cache Pid) (capacity : Nat) : Exec (Cache Pid × Status) :=
  if capacity = s.capacity then .ok (s, .success)
  else if capacity = 0 then
    match s.mru with
    | none => .ok (s, .success)
    | some _ => do
      let s ← mruReset s
      return ({ s with mru := none, size := 0, pos := 0 }, .success)
  else if capacity * sizeofPidPointer > heap.limit then .ok (s, .nomem)
  else
    match s.mru with
    | none =>
      if s.size ≠ 0 ∨ s.pos ≠ 0 then .error .aborted
      else .ok ({ s with capacity, mru := some (List.replicate capacity none) }, .success)
    | some slots => do
      let s ← resize s slots capacity
      return (s, .success)

/-- The loop of `mru_check`. -/
def holdsPid (pid : Pid) : List (Option (PidObject Pid)) → Exec Bool
  | [] => .ok false
  | none :: _ => .error .nullPointer
  | some x :: rest => if x.pid = pid then .ok true else holdsPid pid rest

/-- `mru_check` where the cache does not have the peer. -/
def insert (s : Cache Pid) (slots : List (Option (PidObject Pid))) (peerid : PidObject Pid) :
    Exec (Cache Pid) := do
  let old ← slotAt slots s.pos
  return { s with
    refs := share (release s.refs old) peerid
    mru := some (slots.set s.pos (some peerid))
    pos := next s.capacity s.pos
    size := if s.size < s.capacity then s.size + 1 else s.size }

/-- `mru_check`: the cache, and the route that the query has then. -/
def mruCheck (localRoute : Option Route) (s : Cache Pid) (route : Option Route)
    (peerid : PidObject Pid) : Exec (Cache Pid × Option Route) :=
  match route, s.mru with
  | some _, _ => .ok (s, route)
  | none, none => .ok (s, localRoute)
  | none, some slots =>
    if slots.length < s.size then .error .outOfBounds
    else do
      if ← holdsPid peerid.pid (slots.take s.size) then return (s, none)
      else
        let s ← insert s slots peerid
        return (s, localRoute)

/-- The calls that change the cache. -/
inductive Op (Pid Route : Type) where
  | capacitySet (capacity : Nat)
  | reset
  | check (route : Option Route) (peerid : PidObject Pid)

/-- What they answer: a status, or the route that the query has. -/
inductive Answer (Route : Type) where
  | status (status : Status)
  | done
  | query (route : Option Route)

/-- One of the calls. -/
def perform (heap : Heap) (localRoute : Option Route) (s : Cache Pid) :
    Op Pid Route → Exec (Cache Pid × Answer Route)
  | .capacitySet capacity => do
    let (s, status) ← mruCapacitySet heap s capacity
    return (s, .status status)
  | .reset => do
    let s ← mruReset s
    return (s, .done)
  | .check route peerid => do
    let (s, route) ← mruCheck localRoute s route peerid
    return (s, .query route)

/-- The cache that the resolver starts with. -/
def start : Cache Pid :=
  { capacity := 20, size := 0, pos := 0, mru := some (List.replicate 20 none), refs := fun _ => 0 }

end Code

/-! ## what the cache is for -/

/-- The capacity that was set last, and the newest peers, the last one inserted at the end. -/
structure Newest (Pid : Type) where
  capacity : Nat
  held : List (PidObject Pid)

namespace Newest
variable {Pid Route : Type}

/-- Keeps the newest of its peers. -/
def keep (t : Newest Pid) (capacity : Nat) : Newest Pid := ⟨capacity, t.held.rtake capacity⟩

variable [DecidableEq Pid]

/-- It has an object of this peer. -/
def Has (t : Newest Pid) (pid : Pid) : Prop := pid ∈ t.held.map PidObject.pid

instance (t : Newest Pid) (pid : Pid) : Decidable (t.Has pid) :=
  inferInstanceAs (Decidable (pid ∈ t.held.map PidObject.pid))

/-- What the calls do: a capacity for which there is no memory is not set. -/
def perform (heap : Heap) (localRoute : Option Route) (t : Newest Pid) :
    Op Pid Route → Newest Pid × Answer Route
  | .capacitySet capacity =>
    if capacity ≠ t.capacity ∧ capacity * sizeofPidPointer > heap.limit then (t, .status .nomem)
    else (t.keep capacity, .status .success)
  | .reset => ({ t with held := [] }, .done)
  | .check (some route) _ => (t, .query (some route))
  | .check none peerid =>
    if t.Has peerid.pid then (t, .query none)
    else (keep ⟨t.capacity, t.held ++ [peerid]⟩ t.capacity, .query localRoute)

/-- The cache at the start. -/
def start : Newest Pid := ⟨20, []⟩

theorem perform_check (heap : Heap) (localRoute : Option Route) (t : Newest Pid)
    (p : PidObject Pid) : t.perform heap localRoute (.check none p) = if t.Has p.pid then
      (t, .query none)
    else (keep ⟨t.capacity, t.held ++ [p]⟩ t.capacity, .query localRoute) := rfl

end Newest

/-! ## the cache holds the newest peers -/

section Refines
variable {Pid Route : Type} {slots : List (Option (PidObject Pid))} {items : List (PidObject Pid)}
  {head : Nat}

theorem slotAt_first {x : PidObject Pid} (h : Stores slots head (x :: items)) :
    slotAt slots head = .ok (some x) := by
  unfold slotAt
  rw [h.first]

/-- The slots that are in use are the items, though not in order. -/
theorem take_perm (h : Stores slots head items) (hfirst : items.length < slots.length → head = 0) :
    (slots.take items.length).Perm (items.map some) := by
  by_cases hlt : items.length < slots.length
  · obtain rfl := hfirst hlt
    rw [h.take]
  · have hfull : items.length = slots.length := by
      have := h.length_le
      omega
    rw [← h.rotate hfull, hfull, take_length]
    exact (rotate_perm slots head).symm

theorem copyEntries_eq (n : Nat) (h : Stores slots head items) (hn : n ≤ items.length) :
    copyEntries slots slots.length n head = .ok ((items.take n).map some) := by
  induction n generalizing head items with
  | zero => rfl
  | succ n ih =>
    cases items with
    | nil => cases hn
    | cons y items =>
      rw [copyEntries, slotAt_first h, ok_bind, ih (stores_tail h) (Nat.le_of_succ_le_succ hn),
        ok_bind]
      rfl

variable {s : Cache Pid}

/-- The slots have the peers; a ring that is not full starts at the first slot. -/
structure Rings (s : Cache Pid) (slots : List (Option (PidObject Pid))) (head : Nat)
    (held : List (PidObject Pid)) : Prop where
  length : slots.length = s.capacity
  stores : Stores slots head held
  size : s.size = held.length
  pos : s.pos = slot s.capacity head held.length
  first : held.length < s.capacity → head = 0

theorem Rings.start_eq (h : Rings s slots head items) :
    (if s.size < s.capacity then 0 else s.pos) = head := by
  have hle := h.stores.length_le
  have hlen := h.length
  have hsize := h.size
  split
  · exact (h.first (by omega)).symm
  · have hfull : items.length = s.capacity := by omega
    rw [h.pos, hfull, ← hlen]
    exact slot_self h.stores.head_lt

variable [DecidableEq Pid]

/-- The cache has the newest peers, each once, and one reference for each of them. -/
structure Matches (s : Cache Pid) (t : Newest Pid) : Prop where
  distinct : (t.held.map PidObject.pid).Nodup
  fits : t.held.length ≤ t.capacity
  refs : ∀ x, s.refs x = if x ∈ t.held then 1 else 0
  ring : match s.mru with
    | none => t.capacity = 0 ∧ s.size = 0 ∧ s.pos = 0
    | some slots => t.capacity = s.capacity ∧ ∃ head, Rings s slots head t.held

/-- In a list without repetitions a member counts once. -/
theorem count_eq_ite {l : List (PidObject Pid)} (h : l.Nodup) (x : PidObject Pid) :
    (l.count x : Int) = if x ∈ l then 1 else 0 := by
  rw [h.count]
  split <;> rfl

theorem Matches.count {s : Cache Pid} {t : Newest Pid} (h : Matches s t) (x : PidObject Pid) :
    s.refs x = t.held.count x := by
  rw [h.refs, count_eq_ite h.distinct.of_map]

/-! ### references -/

theorem release_apply (refs : PidObject Pid → Int) (old : Option (PidObject Pid))
    (x : PidObject Pid) : release refs old x = refs x - if old = some x then 1 else 0 := by
  cases old with
  | none => simp [release]
  | some y =>
    unfold release
    by_cases hxy : x = y
    · simp [hxy]
    · simp [hxy, Ne.symm hxy]

theorem share_apply (refs : PidObject Pid → Int) (y x : PidObject Pid) :
    share refs y x = refs x + if x = y then 1 else 0 := by
  unfold share
  split <;> simp

theorem foldl_release (l : List (Option (PidObject Pid))) (refs : PidObject Pid → Int)
    (x : PidObject Pid) : l.foldl release refs x = refs x - l.count (some x) := by
  induction l generalizing refs with
  | nil => simp
  | cons old l ih =>
    rw [foldl_cons, ih, release_apply, count_cons]
    by_cases hold : old = some x
    · simp [hold]
      omega
    · simp [hold]

/-! ### the slots -/

theorem releaseEntries_eq (n : Nat) (h : Stores slots head items) (hn : n ≤ items.length)
    (refs : PidObject Pid → Int) : ∃ head' refs',
      releaseEntries slots slots.length n head refs = .ok (head', refs') ∧
        Stores slots head' (items.drop n) ∧ ∀ x, refs' x = refs x - (items.take n).count x := by
  induction n generalizing head items refs with
  | zero => exact ⟨head, refs, rfl, h, fun x => by simp⟩
  | succ n ih =>
    cases items with
    | nil => cases hn
    | cons y items =>
      obtain ⟨head', refs', hrelease, hstores, hrefs⟩ :=
        ih (stores_tail h) (Nat.le_of_succ_le_succ hn) (release refs (some y))
      refine ⟨head', refs', ?_, hstores, ?_⟩
      · rw [releaseEntries, slotAt_first h, ok_bind, hrelease]
      · intro x
        rw [hrefs, release_apply, take_succ_cons, count_cons]
        by_cases hyx : y = x
        · simp [hyx]
          omega
        · simp [hyx]

theorem holdsPid_any (pid : Pid) {l : List (Option (PidObject Pid))} (h : none ∉ l) :
    holdsPid pid l = .ok (l.any fun old => old.any fun x => x.pid = pid) := by
  induction l with
  | nil => rfl
  | cons old l ih =>
    rw [mem_cons, not_or] at h
    cases old with
    | none => exact absurd rfl h.1
    | some x =>
      unfold holdsPid
      by_cases hx : x.pid = pid
      · simp [hx]
      · simp [hx, ih h.2]

theorem holdsPid_eq (h : Stores slots head items)
    (hfirst : items.length < slots.length → head = 0) (pid : Pid) :
    holdsPid pid (slots.take items.length) = .ok (decide (pid ∈ items.map PidObject.pid)) := by
  have hperm := take_perm h hfirst
  have hnone : none ∉ slots.take items.length := by
    rw [hperm.mem_iff]
    simp
  rw [holdsPid_any pid hnone, hperm.any_eq, any_map]
  refine congrArg Except.ok ((Bool.eq_iff_iff).mpr ?_)
  simp

/-! ### the calls -/

variable {t : Newest Pid}

/-- `mru_reset` gives every reference back. -/
theorem mruReset_eq (h : Matches s t) : ∃ s', mruReset s = .ok s' ∧ Matches s' { t with held := [] } ∧
    s'.capacity = s.capacity ∧ s'.mru = s.mru ∧ ∀ x, s'.refs x = 0 := by
  have hring := h.ring
  unfold mruReset
  split
  · rename_i hmru
    rw [hmru] at hring
    have hheld : t.held = [] := by
      have := h.fits
      exact eq_nil_of_length_eq_zero (by omega)
    have hrefs (x : PidObject Pid) : s.refs x = 0 := by
      rw [h.refs, hheld]
      exact if_neg not_mem_nil
    refine ⟨s, rfl, ⟨nodup_nil, Nat.zero_le _, ?_, ?_⟩, rfl, rfl, hrefs⟩
    · intro x
      rw [hrefs]
      exact (if_neg not_mem_nil).symm
    · rw [hmru]
      exact hring
  · rename_i slots hmru
    rw [hmru] at hring
    obtain ⟨hcap, head, hrings⟩ := hring
    have hlen := hrings.length
    have hle := hrings.stores.length_le
    have hhead := hrings.stores.head_lt
    rw [hrings.size, if_neg (by omega)]
    have hperm := take_perm hrings.stores (fun hlt => hrings.first (by omega))
    have hrefs (x : PidObject Pid) :
        (slots.take t.held.length).foldl release s.refs x = 0 := by
      rw [foldl_release, hperm.count_eq, count_map_of_injective _ _ (fun _ _ => Option.some.inj),
        h.count]
      omega
    refine ⟨_, rfl, ⟨nodup_nil, Nat.zero_le _, ?_, ?_⟩, rfl, rfl, hrefs⟩
    · intro x
      dsimp only
      rw [hrefs]
      exact (if_neg not_mem_nil).symm
    · rw [hmru]
      refine ⟨hcap, 0, hlen, ⟨by omega, Nat.zero_le _, ?_⟩, rfl, ?_, fun _ => rfl⟩
      · intro k hk
        cases hk
      · have hpos : 0 < s.capacity := by omega
        exact (slot_zero hpos).symm

theorem resize_eq (h : Matches s t) (hmru : s.mru = some slots) {capacity : Nat}
    (hcapacity : 0 < capacity) :
    ∃ s', resize s slots capacity = .ok s' ∧ Matches s' (t.keep capacity) := by
  have hring := h.ring
  rw [hmru] at hring
  obtain ⟨hcap, head, hrings⟩ := hring
  have hlen := hrings.length
  obtain ⟨head', refs', hrelease, hstores, hrefs⟩ :=
    releaseEntries_eq (t.held.length - capacity) hrings.stores (Nat.sub_le _ _) s.refs
  have hkept : (t.held.drop (t.held.length - capacity)).length =
      if s.size < capacity then s.size else capacity := by
    rw [length_drop, hrings.size]
    split <;> omega
  have hcopy := copyEntries_eq _ hstores (Nat.le_refl _)
  rw [take_length] at hcopy
  rw [hlen] at hcopy hrelease
  unfold resize
  dsimp only
  rw [hrings.start_eq, hrings.size, hrelease, ok_bind]
  rw [← hrings.size, ← hkept, hcopy, ok_bind]
  have hkeep : (t.keep capacity).held = t.held.drop (t.held.length - capacity) := rfl
  have hfits : (t.held.drop (t.held.length - capacity)).length ≤ capacity := by
    rw [length_drop]
    omega
  generalize hnew : t.held.drop (t.held.length - capacity) = kept at *
  refine ⟨_, rfl, ?_, ?_, ?_, rfl, 0, ?_, ?_, congrArg List.length hkeep.symm, ?_, fun _ => rfl⟩
  · rw [hkeep, ← hnew]
    exact h.distinct.sublist ((drop_sublist _ _).map _)
  · rw [hkeep]
    exact hfits
  · intro x
    have hsplit : t.held.count x =
        (t.held.take (t.held.length - capacity)).count x + kept.count x := by
      rw [← hnew, ← count_append, take_append_drop]
    have hnodup : kept.Nodup := by
      rw [← hnew]
      exact h.distinct.of_map.sublist (drop_sublist _ _)
    dsimp only
    rw [hrefs, h.count, hsplit, hkeep, ← count_eq_ite hnodup]
    omega
  · rw [length_append, length_map, length_replicate]
    dsimp only
    omega
  · rw [hkeep]
    exact stores_replicate kept (by omega)
  · dsimp only
    rw [hkeep, slot_eq hcapacity hfits]
    split <;> split <;> omega

/-- The call does not meet what another one left behind: a cache that is off is not given the
capacity that it remembers, and a peer comes into an empty slot or that of the oldest one. -/
def Sound (s : Cache Pid) : Op Pid Route → Prop
  | .capacitySet capacity => s.mru = none → capacity = s.capacity → capacity = 0
  | .reset => True
  | .check (some _) _ => True
  | .check none peerid =>
    match s.mru with
    | none => True
    | some slots =>
      s.size < s.capacity → holdsPid peerid.pid (slots.take s.size) = .ok false →
        slots[s.pos]? = some none

theorem Matches.keep_self (h : Matches s t) : t.keep t.capacity = t := by
  unfold Newest.keep List.rtake
  rw [Nat.sub_eq_zero_of_le h.fits]
  rfl

theorem Matches.off (h : Matches s t) (hmru : s.mru = none) :
    t.capacity = 0 ∧ t.held = [] ∧ s.size = 0 ∧ s.pos = 0 := by
  have hring := h.ring
  rw [hmru] at hring
  obtain ⟨hcap, hsize, hpos⟩ := hring
  have hfits := h.fits
  exact ⟨hcap, eq_nil_of_length_eq_zero (by omega), hsize, hpos⟩

theorem Matches.on (h : Matches s t) (hmru : s.mru = some slots) :
    t.capacity = s.capacity ∧ ∃ head, Rings s slots head t.held := by
  have hring := h.ring
  rw [hmru] at hring
  exact hring

section CapacitySet
variable (heap : Heap) (localRoute : Option Route) {capacity : Nat}

theorem newest_served (h : capacity = t.capacity ∨ capacity * sizeofPidPointer ≤ heap.limit) :
    t.perform heap localRoute (.capacitySet capacity) = (t.keep capacity, .status .success) :=
  if_neg (by omega)

theorem newest_refused (hne : capacity ≠ t.capacity)
    (h : capacity * sizeofPidPointer > heap.limit) :
    t.perform heap localRoute (.capacitySet capacity) = (t, .status .nomem) :=
  if_pos ⟨hne, h⟩

/-- A cache that is off stays off with the capacity that it remembers. -/
theorem capacitySet_remembered (h : Matches s t) (hmru : s.mru = none)
    (hsame : capacity = s.capacity) :
    capacity = 0 ↔ ∃ s', perform heap localRoute s (.capacitySet capacity) =
        .ok (s', (t.perform heap localRoute (.capacitySet capacity)).2) ∧
      Matches s' (t.perform heap localRoute (.capacitySet capacity)).1 := by
  obtain ⟨hcap, -, -, -⟩ := h.off hmru
  have hcode : perform heap localRoute s (.capacitySet capacity) = .ok (s, .status .success) := by
    unfold perform mruCapacitySet
    dsimp only
    rw [if_pos hsame]
    rfl
  rw [hcode]
  constructor
  · intro hzero
    have hself : capacity = t.capacity := by omega
    rw [newest_served heap localRoute (Or.inl hself), hself, h.keep_self]
    exact ⟨s, rfl, h⟩
  · rintro ⟨s', hanswer, hmatches⟩
    obtain ⟨rfl, hstatus⟩ := Prod.mk.inj (Except.ok.inj hanswer)
    by_cases hserved : capacity * sizeofPidPointer ≤ heap.limit
    · rw [newest_served heap localRoute (Or.inr hserved)] at hmatches
      exact (hmatches.off hmru).1
    · by_contra hpos
      rw [newest_refused heap localRoute (by omega) (by omega)] at hstatus
      cases hstatus

/-- A new capacity. -/
theorem capacitySet_new (h : Matches s t) (hne : capacity ≠ s.capacity) :
    ∃ s', perform heap localRoute s (.capacitySet capacity) =
        .ok (s', (t.perform heap localRoute (.capacitySet capacity)).2) ∧
      Matches s' (t.perform heap localRoute (.capacitySet capacity)).1 := by
  have hcode : perform heap localRoute s (.capacitySet capacity) = (do
      let (s, status) ← mruCapacitySet heap s capacity
      return (s, Answer.status status)) := rfl
  rw [hcode]
  unfold mruCapacitySet
  rw [if_neg hne]
  by_cases hzero : capacity = 0
  · subst capacity
    have hspec : t.perform heap localRoute (.capacitySet 0) = (⟨0, []⟩, .status .success) := by
      rw [newest_served heap localRoute (Or.inr (by omega))]
      unfold Newest.keep List.rtake
      rw [Nat.sub_zero, drop_length]
    rw [if_pos rfl, hspec]
    cases hmru : s.mru with
    | none =>
      obtain ⟨hcap, hheld, -, -⟩ := h.off hmru
      have ht : t = ⟨0, []⟩ := by
        rw [← hcap, ← hheld]
      rw [ht] at h
      exact ⟨s, rfl, h⟩
    | some slots =>
      obtain ⟨s', hreset, -, -, -, hrefs⟩ := mruReset_eq h
      rw [hreset]
      refine ⟨_, rfl, nodup_nil, Nat.zero_le _, ?_, rfl, rfl, rfl⟩
      intro x
      rw [hrefs]
      exact (if_neg not_mem_nil).symm
  · rw [if_neg hzero]
    by_cases hserved : capacity * sizeofPidPointer ≤ heap.limit
    · rw [if_neg (by omega), newest_served heap localRoute (Or.inr hserved)]
      cases hmru : s.mru with
      | none =>
        obtain ⟨-, hheld, hsize, hpos⟩ := h.off hmru
        have hkeep : (t.keep capacity).held = [] := by
          unfold Newest.keep List.rtake
          rw [hheld]
          exact drop_nil
        rw [if_neg (by omega)]
        refine ⟨_, rfl, ?_, ?_, ?_, rfl, 0, length_replicate, ?_, ?_, ?_, fun _ => rfl⟩
        · rw [hkeep]
          exact nodup_nil
        · rw [hkeep]
          exact Nat.zero_le _
        · intro x
          rw [hkeep]
          have hrefs := h.refs x
          rw [hheld] at hrefs
          exact hrefs
        · rw [hkeep]
          exact stores_replicate (k := capacity) [] (by simp; omega)
        · rw [hkeep]
          exact hsize
        · rw [hkeep]
          have hpositive : 0 < capacity := Nat.pos_of_ne_zero hzero
          exact hpos.trans (slot_zero hpositive).symm
      | some slots =>
        obtain ⟨s', hresize, hmatches⟩ := resize_eq h hmru (Nat.pos_of_ne_zero hzero)
        dsimp only
        rw [hresize]
        exact ⟨s', rfl, hmatches⟩
    · have hcap : capacity ≠ t.capacity := by
        cases hmru : s.mru with
        | none =>
          have := (h.off hmru).1
          omega
        | some slots =>
          have := (h.on hmru).1
          omega
      rw [if_pos (by omega), newest_refused heap localRoute hcap (by omega)]
      exact ⟨s, rfl, h⟩

theorem capacitySet_iff (h : Matches s t) :
    Sound s (.capacitySet capacity : Op Pid Route) ↔
      ∃ s', perform heap localRoute s (.capacitySet capacity) =
          .ok (s', (t.perform heap localRoute (.capacitySet capacity)).2) ∧
        Matches s' (t.perform heap localRoute (.capacitySet capacity)).1 := by
  unfold Sound
  by_cases hsame : capacity = s.capacity
  · cases hmru : s.mru with
    | none =>
      rw [← capacitySet_remembered heap localRoute h hmru hsame]
      constructor
      · intro hzero
        exact hzero rfl hsame
      · intro hzero _ _
        exact hzero
    | some slots =>
      have hself : capacity = t.capacity := hsame.trans (h.on hmru).1.symm
      rw [newest_served heap localRoute (Or.inl hself), hself, h.keep_self, ← hself]
      refine iff_of_true (fun hnone => ?_) ⟨s, ?_, h⟩
      · cases hnone
      · unfold perform mruCapacitySet
        dsimp only
        rw [if_pos hsame]
        rfl
  · exact iff_of_true (fun _ hcap => absurd hcap hsame) (capacitySet_new heap localRoute h hsame)

end CapacitySet

/-- A peer comes into the cache: in an empty slot, or in that of the oldest one. -/
theorem insert_iff {p : PidObject Pid} (h : Matches s t) (hmru : s.mru = some slots)
    (hnew : ¬t.Has p.pid) :
    (s.size < s.capacity → slots[s.pos]? = some none) ↔
      ∃ s', insert s slots p = .ok s' ∧ Matches s' (Newest.keep ⟨t.capacity, t.held ++ [p]⟩ t.capacity) := by
  obtain ⟨hcap, head, hrings⟩ := h.on hmru
  have hlen := hrings.length
  have hsize := hrings.size
  have hhead := hrings.stores.head_lt
  have hle := hrings.stores.length_le
  have hnotMem : p ∉ t.held := fun hmem => hnew (mem_map_of_mem hmem)
  have hdistinct : ((t.held ++ [p]).map PidObject.pid).Nodup := by
    rw [map_append, nodup_append_comm, map_singleton, singleton_append,
      nodup_cons]
    exact ⟨hnew, h.distinct⟩
  have hpos : s.pos < slots.length := by
    rw [hrings.pos, ← hlen]
    exact slot_lt hhead _
  have hslot : slotAt slots s.pos = .ok slots[s.pos] := by
    unfold slotAt
    rw [getElem?_eq_getElem hpos]
  have hinsert : insert s slots p = .ok { s with
      refs := share (release s.refs slots[s.pos]) p
      mru := some (slots.set s.pos (some p))
      pos := next s.capacity s.pos
      size := if s.size < s.capacity then s.size + 1 else s.size } := by
    unfold insert
    rw [hslot]
    rfl
  -- the new reference, and the one that the slot gives up
  have hrefs (x : PidObject Pid) : share (release s.refs slots[s.pos]) p x =
      t.held.count x - (if slots[s.pos] = some x then 1 else 0) + if x = p then 1 else 0 := by
    rw [share_apply, release_apply, h.count]
  rw [hinsert, getElem?_eq_getElem hpos]
  by_cases hroom : s.size < s.capacity
  · have hfirst := hrings.first (by omega)
    subst hfirst
    have hkeep : (Newest.keep ⟨t.capacity, t.held ++ [p]⟩ t.capacity) =
        ⟨t.capacity, t.held ++ [p]⟩ := by
      unfold Newest.keep List.rtake
      rw [length_append, length_singleton, Nat.sub_eq_zero_of_le (by omega)]
      rfl
    have hnodup : (t.held ++ [p]).Nodup := hdistinct.of_map
    rw [hkeep]
    constructor
    · intro hempty
      have hnone : slots[s.pos] = none := Option.some.inj (hempty hroom)
      refine ⟨_, rfl, hdistinct, ?_, ?_, hcap, 0, ?_, ?_, ?_, ?_, fun _ => rfl⟩
      · dsimp only
        rw [length_append, length_singleton]
        omega
      · intro x
        dsimp only
        rw [hrefs, hnone, ← count_eq_ite hnodup, count_append, count_singleton]
        by_cases hx : p = x
        · simp [hx]
        · simp [hx, Ne.symm hx]
      · rw [length_set]
        exact hlen
      · have hpush := stores_push hrings.stores (by omega) p
        rw [hlen, ← hrings.pos] at hpush
        exact hpush
      · rw [if_pos hroom, length_append, length_singleton, hsize]
      · dsimp only
        rw [hrings.pos, ← hlen, next_slot hhead, length_append, length_singleton]
    · rintro ⟨s', hs', hmatches⟩ -
      have hs := Except.ok.inj hs'
      cases hold : slots[s.pos] with
      | none => rfl
      | some x =>
        -- the reference of `x` was given up before
        have hx := hmatches.refs x
        rw [← hs] at hx
        dsimp only at hx
        rw [hrefs, hold, if_pos rfl, ← count_eq_ite hnodup, count_append,
          count_singleton] at hx
        by_cases hxp : p = x
        · rw [if_pos hxp.symm, if_pos (beq_iff_eq.mpr hxp)] at hx
          omega
        · rw [if_neg (Ne.symm hxp), if_neg (mt beq_iff_eq.mp hxp)] at hx
          omega
  · refine iff_of_true (fun hlt => absurd hlt hroom) ?_
    have hfull : t.held.length = slots.length := by omega
    cases hheld : t.held with
    | nil =>
      rw [hheld, length_nil] at hfull
      omega
    | cons y rest =>
      have hstores := hrings.stores
      have hposition := hrings.pos
      rw [hfull, ← hlen, slot_self hhead] at hposition
      rw [hheld] at hstores hfull hdistinct
      rw [length_cons] at hfull
      have hkeep : (Newest.keep ⟨t.capacity, (y :: rest) ++ [p]⟩ t.capacity) =
          ⟨t.capacity, rest ++ [p]⟩ := by
        unfold Newest.keep List.rtake
        rw [length_append, length_cons, length_singleton,
          show rest.length + 1 + 1 - t.capacity = 1 by omega]
        rfl
      have hrest : ((rest ++ [p]).map PidObject.pid).Nodup := by
        rw [cons_append, map_cons, nodup_cons] at hdistinct
        exact hdistinct.2
      have hold : slots[s.pos] = some y := by
        have hfirst := hstores.first
        rw [← hposition, getElem?_eq_getElem hpos] at hfirst
        exact Option.some.inj hfirst
      rw [hkeep]
      refine ⟨_, rfl, hrest, ?_, ?_, hcap, next slots.length head, ?_, ?_, ?_, ?_, ?_⟩
      · dsimp only
        rw [length_append, length_singleton]
        omega
      · intro x
        dsimp only
        rw [hrefs, hold, hheld, ← count_eq_ite hrest.of_map, count_append,
          count_singleton, count_cons]
        by_cases hyx : y = x
        · by_cases hpx : p = x
          · simp [hyx, hpx]
          · simp [hyx, hpx, Ne.symm hpx]
        · by_cases hpx : p = x
          · simp [hyx, hpx]
          · simp [hyx, hpx, Ne.symm hpx]
      · rw [length_set]
        exact hlen
      · rw [hposition]
        exact stores_replace hstores hfull p
      · dsimp only
        rw [if_neg hroom, length_append, length_singleton]
        omega
      · dsimp only
        rw [length_append, length_singleton, hfull, hposition, ← hlen]
        exact (slot_self (stores_tail hstores).head_lt).symm
      · intro hlt
        dsimp only at hlt
        rw [length_append, length_singleton] at hlt
        omega

theorem check_iff (heap : Heap) (localRoute : Option Route) (route : Option Route)
    (p : PidObject Pid) (h : Matches s t) :
    Sound s (.check route p : Op Pid Route) ↔
      ∃ s', perform heap localRoute s (.check route p) =
          .ok (s', (t.perform heap localRoute (.check route p)).2) ∧
        Matches s' (t.perform heap localRoute (.check route p)).1 := by
  have hcode : perform heap localRoute s (.check route p) = (do
      let (s, route) ← mruCheck localRoute s route p
      return (s, Answer.query route)) := rfl
  rw [hcode]
  cases route with
  | some r => exact iff_of_true trivial ⟨s, rfl, h⟩
  | none =>
    rw [Newest.perform_check]
    unfold Sound mruCheck
    cases hmru : s.mru with
    | none =>
      obtain ⟨hcap, hheld, -, -⟩ := h.off hmru
      have hnot : ¬t.Has p.pid := by
        unfold Newest.Has
        rw [hheld]
        exact not_mem_nil
      have hkeep : (Newest.keep ⟨t.capacity, t.held ++ [p]⟩ t.capacity) = t := by
        unfold Newest.keep List.rtake
        rw [hcap, Nat.sub_zero, drop_length, ← hheld, ← hcap]
      rw [if_neg hnot, hkeep]
      exact iff_of_true trivial ⟨s, rfl, h⟩
    | some slots =>
      obtain ⟨-, head, hrings⟩ := h.on hmru
      have hlen := hrings.length
      have hle := hrings.stores.length_le
      have hsearch : holdsPid p.pid (slots.take s.size) = .ok (decide (t.Has p.pid)) := by
        rw [hrings.size]
        exact holdsPid_eq hrings.stores (fun hlt => hrings.first (by omega)) p.pid
      have hbound : ¬slots.length < s.size := by
        rw [hrings.size]
        omega
      dsimp only
      rw [hsearch, if_neg hbound, ok_bind]
      by_cases hhas : t.Has p.pid
      · rw [if_pos hhas]
        refine iff_of_true (fun _ hfalse => ?_) ⟨s, ?_, h⟩
        · rw [decide_eq_true hhas] at hfalse
          cases hfalse
        · rw [decide_eq_true hhas]
          rfl
      · rw [if_neg hhas, decide_eq_false hhas]
        constructor
        · intro hsound
          obtain ⟨s', hs', hmatches⟩ := (insert_iff h hmru hhas).mp (fun hroom => hsound hroom rfl)
          refine ⟨s', ?_, hmatches⟩
          rw [if_neg Bool.false_ne_true, hs']
          rfl
        · intro ⟨s', hs', hmatches⟩ hroom _
          apply (insert_iff h hmru hhas).mpr _ hroom
          rw [if_neg Bool.false_ne_true] at hs'
          cases hinsert : insert s slots p with
          | error f =>
            rw [hinsert] at hs'
            cases hs'
          | ok s'' =>
            rw [hinsert] at hs'
            cases hs'
            exact ⟨s'', rfl, hmatches⟩

/-- A call keeps the newest peers exactly where it is sound. -/
theorem perform_iff (heap : Heap) (localRoute : Option Route) (s : Cache Pid) (t : Newest Pid)
    (o : Op Pid Route) (h : Matches s t) :
    Sound s o ↔ ∃ s', perform heap localRoute s o = .ok (s', (t.perform heap localRoute o).2) ∧
      Matches s' (t.perform heap localRoute o).1 := by
  cases o with
  | capacitySet capacity => exact capacitySet_iff heap localRoute h
  | reset =>
    obtain ⟨s', hreset, hmatches, -⟩ := mruReset_eq h
    refine iff_of_true trivial ⟨s', ?_, hmatches⟩
    unfold perform
    rw [hreset]
    rfl
  | check route p => exact check_iff heap localRoute route p h

theorem start_matches : Matches (start : Cache Pid) Newest.start := by
  refine ⟨nodup_nil, Nat.zero_le _, fun x => (if_neg not_mem_nil).symm, rfl, 0, ?_⟩
  refine ⟨length_replicate, ?_, rfl, rfl, fun _ => rfl⟩
  exact stores_replicate (k := 20) [] (by simp)

/-- In every state of a run the cache has the newest peers, each with one reference, and every query
gets the route where its peer is not among them, if and only if every call is sound. -/
theorem mru_iff (heap : Heap) (localRoute : Option Route) (ops : List (Op Pid Route)) :
    Follows (perform heap localRoute) (Newest.perform heap localRoute) Matches start Newest.start ops ↔
      SafeRun (perform heap localRoute) Sound start ops :=
  follows_iff_safeRun (perform_iff heap localRoute) ops start_matches

end Refines

/-- Two peers are sent queries, with a change of the local route in between. -/
def routeChange : List (Op Nat Nat) := [.check none ⟨1, 0⟩, .reset, .check none ⟨2, 0⟩]

/-- Peer 1 is released by the reset, and again when peer 2 comes. -/
theorem not_mru : ¬∀ (heap : Heap) (ops : List (Op Nat Nat)),
    Follows (perform heap (some 0)) (Newest.perform heap (some 0)) Matches start Newest.start ops := by
  intro h
  obtain ⟨s, hrun, hmatches⟩ := (h ⟨1024, by decide⟩ routeChange).runOps
  have hreleased : Returns (runOps (perform ⟨1024, by decide⟩ (some 0)) start routeChange)
      fun r => r.1.refs ⟨1, 0⟩ = -1 := by
    decide +kernel
  have hrefs := returns_ok hreleased hrun
  have hexpected := hmatches.refs ⟨1, 0⟩
  rw [hrefs] at hexpected
  split at hexpected <;> omega

end JxtaC.Mru
