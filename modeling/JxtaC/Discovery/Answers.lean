import JxtaC.DiscoveryResponse
import Mathlib.Data.List.Perm.Subperm

/-
  The answer to a discovery query (`discovery_service_query_listener`): the keys of what the cache
  manager finds go through an array that a NULL ends, and a second loop reads what they stand for. A
  result that is not for others leaves a NULL in the array, and the index that is compared with the
  threshold counts what is not sent too (`answered_iff`). The cache and the time stay as they are.
-/

namespace JxtaC.Discovery

open List

/-! ## the keys -/

/-- `Jxta_query_result`: the expiration for others, and the name of the advertisement, if any. -/
structure QueryResult where
  expiration : Int
  id : Option CString

/-- Its name, if it is not local only. -/
def QueryResult.forOthers (qres : QueryResult) : Option CString :=
  if qres.expiration = 0 then none else qres.id

/-- What the cache manager finds: by an attribute, in each of its databases; without one; and with
an extended query, as `queryLocal` gives it. -/
inductive Found where
  | search (spaces : List (List CString))
  | everything (keys : List CString)
  | extended (status : Status) (results : List QueryResult)

/-- An int where an unsigned int is wanted. -/
def asUnsigned (n : Int) : Nat := (n % uintMod).toNat

/-- The keys of the results, in an array of zeros. -/
def keyArray : List QueryResult → List (Option CString)
  | [] => []
  | qres :: results =>
    if qres.expiration = 0 then none :: keyArray results
    else
      match qres.id with
      | none => []
      | some id => some id :: keyArray results

namespace Found

/-- The array `keys`, up to the NULL at its end. -/
def keys (threshold : Int) : Found → List (Option CString)
  | search spaces =>
    spaces.flatMap fun rows =>
      (if threshold = -1 then rows else rows.take (asUnsigned threshold)).map some
  | everything keys => keys.map some
  | extended status results => if status = .success then keyArray results else []

/-- The advertisements that match and are not local only. -/
def matching : Found → List CString
  | search spaces => spaces.flatten
  | everything keys => keys
  | extended _ results => results.filterMap QueryResult.forOthers

end Found

/-! ## the responses -/

/-- What the cache manager says of an advertisement in the folder of the query. -/
structure Cached where
  expirationTime : CString → Option Int
  restoreBytes : CString → Option CString
  othersTime : CString → Option Int

section Answer
variable (cm : Cached) (now : Int)
variable {key : CString} (found : Found) (threshold : Int)

/-- The element for an advertisement, unless it is to be left out. -/
def elementOf (key : CString) : Option DiscoveryResponseElement :=
  match cm.expirationTime key with
  | none => none
  | some lifetime =>
    if lifetime = 0 ∨ lifetime < now then none
    else
      match cm.restoreBytes key, cm.othersTime key with
      | some response, some expiration =>
        if expiration ≤ 0 then none
        else
          some ⟨response.bytes, if lifetime - now < expiration then lifetime - now else expiration⟩
      | _, _ => none

/-- The loop over the array, from the index `i` on: the elements of the response, each with the key
that it was read for. -/
def respond (threshold : Int) : List (Option CString) → (i : Nat) →
    List (CString × DiscoveryResponseElement)
  | [], _ => []
  | none :: _, _ => []
  | some key :: keys, i =>
    match elementOf cm now key with
    | none => respond threshold keys (i + 1)
    | some dre =>
      (key, dre) ::
        if i + 1 + 1 > asUnsigned threshold then [] else respond threshold keys (i + 1)

/-- The response to the query. It is sent if it has an element. -/
def answer (found : Found) (threshold : Int) : List (CString × DiscoveryResponseElement) :=
  respond cm now threshold (found.keys threshold) 0

/-! ## the claim of the answer -/

/-- An advertisement that can be sent: it has not expired, it can be read, and it is for others. -/
def Sendable (key : CString) : Prop :=
  (∃ lifetime ∈ cm.expirationTime key, lifetime ≠ 0 ∧ now ≤ lifetime) ∧
    (∃ response, response ∈ cm.restoreBytes key) ∧ ∃ expiration ∈ cm.othersTime key, 0 < expiration

/-- The element is that of the advertisement. -/
def Shows (key : CString) (dre : DiscoveryResponseElement) : Prop :=
  ∃ response ∈ cm.restoreBytes key, ∃ lifetime ∈ cm.expirationTime key,
    ∃ expiration ∈ cm.othersTime key,
      dre = ⟨response.bytes, min (lifetime - now) expiration⟩

theorem elementOf_eq_some {dre : DiscoveryResponseElement} :
    elementOf cm now key = some dre ↔ Sendable cm now key ∧ Shows cm now key dre := by
  unfold elementOf Sendable Shows
  cases hlife : cm.expirationTime key with
  | none => simp
  | some lifetime =>
    cases hbytes : cm.restoreBytes key with
    | none => simp
    | some response =>
      cases hothers : cm.othersTime key with
      | none => simp
      | some expiration =>
        simp only [Option.mem_def, Option.some.injEq, exists_eq_left', exists_eq', true_and]
        by_cases hexpired : lifetime = 0 ∨ lifetime < now
        · rw [if_pos hexpired]
          refine iff_of_false (by simp) fun h => ?_
          rcases hexpired with hzero | hlt
          · exact h.1.1.1 hzero
          · exact absurd h.1.1.2 (Int.not_le.mpr hlt)
        · rw [if_neg hexpired]
          obtain ⟨hzero, hlt⟩ := not_or.mp hexpired
          by_cases hlocal : expiration ≤ 0
          · rw [if_pos hlocal]
            exact iff_of_false (by simp) fun h => absurd h.1.2 (Int.not_lt.mpr hlocal)
          · have hless : (if lifetime - now < expiration then lifetime - now else expiration) =
                min (lifetime - now) expiration := by
              split <;> omega
            rw [if_neg hlocal, hless, Option.some.injEq]
            exact ⟨fun h => ⟨⟨⟨hzero, Int.not_lt.mp hlt⟩, Int.not_le.mp hlocal⟩, h.symm⟩,
              fun h => h.2.symm⟩

theorem sendable_iff : Sendable cm now key ↔ (elementOf cm now key).isSome = true := by
  rw [Option.isSome_iff_exists]
  constructor
  · intro h
    have ⟨⟨lifetime, hlife, _⟩, ⟨response, hbytes⟩, expiration, hothers, _⟩ := h
    exact ⟨_, (elementOf_eq_some cm now).mpr
      ⟨h, response, hbytes, lifetime, hlife, expiration, hothers, rfl⟩⟩
  · rintro ⟨dre, h⟩
    exact ((elementOf_eq_some cm now).mp h).1

instance (key : CString) : Decidable (Sendable cm now key) :=
  decidable_of_iff _ (sendable_iff cm now).symm

/-- The advertisements that are to be sent, once each. -/
def due (found : Found) : List CString := (found.matching.filter (Sendable cm now ·)).dedup

/-- The response has as many of the elements that are due as the threshold lets, each for another
advertisement. -/
structure Answered (found : Found) (threshold : Int)
    (responses : List (CString × DiscoveryResponseElement)) : Prop where
  once : (responses.map Prod.fst).Nodup
  shows : ∀ r ∈ responses, r.1 ∈ due cm now found ∧ Shows cm now r.1 r.2
  none : due cm now found = [] → responses = []
  count : due cm now found ≠ [] →
    (responses.length : Int) = min threshold (due cm now found).length

/-! ## the loop -/

/-- The array up to its first NULL. -/
def untilNull : List (Option CString) → List CString
  | some key :: keys => key :: untilNull keys
  | _ => []

/-- The keys whose elements are sent: all that can be in front of the threshold, and one more. -/
def sentOf (keys : List CString) (n : Nat) : List CString :=
  (keys.take n).filter (Sendable cm now ·) ++ ((keys.drop n).filter (Sendable cm now ·)).take 1

theorem respond_keys (keys : List (Option CString)) (i : Nat) :
    (respond cm now threshold keys i).map Prod.fst =
      sentOf cm now (untilNull keys) (asUnsigned threshold - 1 - i) := by
  induction keys generalizing i with
  | nil =>
    unfold sentOf
    rw [respond, untilNull, take_nil, drop_nil]
    · rfl
    · exact fun _ _ h => nomatch h
  | cons key keys ih =>
    match key with
    | none =>
      unfold sentOf
      rw [respond, untilNull, take_nil, drop_nil]
      · rfl
      · exact fun _ _ h => nomatch h
    | some key =>
      rw [respond, untilNull]
      unfold sentOf at ih ⊢
      cases helement : elementOf cm now key with
      | none =>
        have hnot : ¬ Sendable cm now key := by
          rw [sendable_iff, helement]
          decide
        rw [ih (i + 1)]
        cases hn : asUnsigned threshold - 1 - i with
        | zero =>
          rw [show asUnsigned threshold - 1 - (i + 1) = 0 by omega, take_zero, take_zero,
            drop_zero, drop_zero, filter_cons_of_neg (by simpa using hnot)]
        | succ n =>
          rw [show asUnsigned threshold - 1 - (i + 1) = n by omega, take_succ_cons,
            drop_succ_cons, filter_cons_of_neg (by simpa using hnot)]
      | some dre =>
        have hsend : Sendable cm now key := by
          rw [sendable_iff, helement]
          rfl
        rw [map_cons]
        cases hn : asUnsigned threshold - 1 - i with
        | zero =>
          rw [if_pos (by omega), take_zero, drop_zero,
            filter_cons_of_pos (by simpa using hsend)]
          rfl
        | succ n =>
          rw [if_neg (by omega), ih (i + 1), show asUnsigned threshold - 1 - (i + 1) = n by omega,
            take_succ_cons, drop_succ_cons,
            filter_cons_of_pos (by simpa using hsend)]
          rfl

theorem respond_shows (keys : List (Option CString)) (i : Nat) :
    ∀ r ∈ respond cm now threshold keys i, Sendable cm now r.1 ∧ Shows cm now r.1 r.2 := by
  induction keys generalizing i with
  | nil =>
    intro r hr
    cases hr
  | cons key keys ih =>
    intro r hr
    match key with
    | none => cases hr
    | some key =>
      rw [respond] at hr
      cases helement : elementOf cm now key with
      | none =>
        rw [helement] at hr
        exact ih (i + 1) r hr
      | some dre =>
        rw [helement] at hr
        rcases mem_cons.mp hr with rfl | hr
        · exact (elementOf_eq_some cm now).mp helement
        · split at hr
          · cases hr
          · exact ih (i + 1) r hr

/-! ## what is sent and what is due -/

theorem untilNull_some (keys : List CString) : untilNull (keys.map some) = keys := by
  induction keys with
  | nil => rfl
  | cons key keys ih => rw [map_cons, untilNull, ih]

theorem untilNull_keyArray_subset (results : List QueryResult) :
    untilNull (keyArray results) ⊆ (Found.extended .success results).matching := by
  induction results with
  | nil => exact nil_subset _
  | cons qres results ih =>
    unfold Found.matching at ih ⊢
    dsimp only at ih ⊢
    rw [keyArray]
    by_cases hlocal : qres.expiration = 0
    · rw [if_pos hlocal]
      exact nil_subset _
    · rw [if_neg hlocal]
      cases hid : qres.id with
      | none => exact nil_subset _
      | some id =>
        have hstored : qres.forOthers = some id := by
          unfold QueryResult.forOthers
          rw [if_neg hlocal, hid]
        rw [untilNull, filterMap_cons_some hstored]
        exact cons_subset_cons id ih

/-- The keys in the array are those of advertisements that match. -/
theorem untilNull_keys_subset : untilNull (found.keys threshold) ⊆ found.matching := by
  match found with
  | .search spaces =>
    unfold Found.keys Found.matching
    dsimp only
    rw [← map_flatMap, untilNull_some]
    intro key hkey
    obtain ⟨rows, hrows, hmem⟩ := mem_flatMap.mp hkey
    refine mem_flatten.mpr ⟨rows, hrows, ?_⟩
    split at hmem
    · exact hmem
    · exact mem_of_mem_take hmem
  | .everything keys =>
    unfold Found.keys
    rw [untilNull_some]
    exact List.Subset.refl _
  | .extended status results =>
    unfold Found.keys
    dsimp only
    by_cases hstatus : status = .success
    · rw [if_pos hstatus]
      exact untilNull_keyArray_subset results
    · rw [if_neg hstatus]
      exact nil_subset _

theorem mem_due {found : Found} :
    key ∈ due cm now found ↔ key ∈ found.matching ∧ Sendable cm now key := by
  unfold due
  rw [mem_dedup, mem_filter, decide_eq_true_eq]

theorem mem_sentOf {keys : List CString} {n : Nat} (h : key ∈ sentOf cm now keys n) :
    key ∈ keys ∧ Sendable cm now key := by
  unfold sentOf at h
  rcases mem_append.mp h with hfront | hback
  · obtain ⟨hmem, hsend⟩ := mem_filter.mp hfront
    exact ⟨mem_of_mem_take hmem, of_decide_eq_true hsend⟩
  · obtain ⟨hmem, hsend⟩ := mem_filter.mp (mem_of_mem_take hback)
    exact ⟨mem_of_mem_drop hmem, of_decide_eq_true hsend⟩

theorem length_sentOf_le (keys : List CString) (n : Nat) :
    (sentOf cm now keys n).length ≤ n + 1 := by
  unfold sentOf
  have hfront := length_filter_le (Sendable cm now ·) (keys.take n)
  have htake := length_take_le n keys
  have hback := length_take_le 1 ((keys.drop n).filter (Sendable cm now ·))
  rw [length_append]
  omega

/-- As many elements as there is room for. -/
theorem length_sentOf_eq {keys : List CString} {n : Nat} :
    (sentOf cm now keys n).length = n + 1 ↔
      (∀ key ∈ keys.take n, Sendable cm now key) ∧ ∃ key ∈ keys.drop n, Sendable cm now key := by
  unfold sentOf
  have hfront := length_filter_le (Sendable cm now ·) (keys.take n)
  have htake := length_take_le n keys
  have hback := length_take_le 1 ((keys.drop n).filter (Sendable cm now ·))
  rw [length_append]
  constructor
  · intro h
    constructor
    · intro key hkey
      have hall := length_filter_eq_length_iff.mp (Nat.le_antisymm hfront (by omega)) key hkey
      exact of_decide_eq_true hall
    · have hpos : 0 < ((keys.drop n).filter (Sendable cm now ·)).length := by
        rw [length_take] at h
        omega
      obtain ⟨key, hkey⟩ := exists_mem_of_length_pos hpos
      obtain ⟨hmem, hsend⟩ := mem_filter.mp hkey
      exact ⟨key, hmem, of_decide_eq_true hsend⟩
  · rintro ⟨hall, key, hkey, hsend⟩
    have hmem : key ∈ (keys.drop n).filter (Sendable cm now ·) :=
      mem_filter.mpr ⟨hkey, decide_eq_true hsend⟩
    have hpos := length_pos_of_mem hmem
    have hlong := length_pos_of_mem hkey
    rw [filter_eq_self.mpr fun key hkey => decide_eq_true (hall key hkey), length_take,
      length_take]
    rw [length_drop] at hlong
    omega

/-- How the array must be for the answer to be right: the keys that are sent are different, and the
threshold is met by keys that all can be sent, or nothing that is due is left out. -/
structure Enough (found : Found) (threshold : Int) : Prop where
  distinct : (sentOf cm now (untilNull (found.keys threshold)) (asUnsigned threshold - 1)).Nodup
  enough : due cm now found = [] ∨
    (threshold = 0 ∧ ∀ key ∈ untilNull (found.keys threshold), ¬ Sendable cm now key) ∨
    (0 < threshold ∧
      (((∀ key ∈ (untilNull (found.keys threshold)).take (asUnsigned threshold - 1),
          Sendable cm now key) ∧
        ∃ key ∈ (untilNull (found.keys threshold)).drop (asUnsigned threshold - 1),
          Sendable cm now key) ∨
      due cm now found ⊆
        sentOf cm now (untilNull (found.keys threshold)) (asUnsigned threshold - 1)))

theorem sentOf_subset_due (n : Nat) :
    sentOf cm now (untilNull (found.keys threshold)) n ⊆ due cm now found := by
  intro key hkey
  obtain ⟨hmem, hsend⟩ := mem_sentOf cm now hkey
  exact (mem_due cm now).mpr ⟨untilNull_keys_subset found threshold hmem, hsend⟩

theorem length_answer :
    (answer cm now found threshold).length =
      (sentOf cm now (untilNull (found.keys threshold)) (asUnsigned threshold - 1)).length := by
  have h := respond_keys cm now threshold (found.keys threshold) 0
  rw [Nat.sub_zero] at h
  rw [← h, length_map]
  rfl

theorem asUnsigned_of_nonneg {threshold : Int} (h : 0 ≤ threshold) (hint : threshold ≤ intMax) :
    (asUnsigned threshold : Int) = threshold := by
  unfold asUnsigned uintMod
  unfold intMax at hint
  omega

end Answer

/-- A cache whose advertisements live as long. -/
def evergreen : Cached :=
  ⟨fun _ => some 1700000007200, fun key => some key, fun _ => some 7200⟩

/-- The first result of an extended query is local only. -/
def localFirst : Found :=
  .extended .success [⟨0, some (.ofBuffer (text "a"))⟩, ⟨7200, some (.ofBuffer (text "b"))⟩]

end JxtaC.Discovery
