import JxtaC.Cm.Save
import JxtaC.Message
import Mathlib.Algebra.Order.Group.Int
import Mathlib.Logic.Function.Basic

/-
  The times that are stored for an advertisement and for its index rows (`cm_advertisement_save`,
  `cm_item_insert`, `cm_item_found` and `cm_item_update` in jxta_cm.c). A column keeps the text of a
  number; a row is told by the part of the advertisement that it is for. A stored time is read
  relative to the present one, and written relative to a later one: a save reads the clock three
  times. A statement that is refused changes nothing.
-/

namespace JxtaC.Cm

open Lib

/-- `Jxta_expiration_time`. -/
abbrev ExpirationTime := { i : Int // intervalTimeMin ≤ i ∧ i ≤ intervalTimeMax }

/-- What `jpr_time_now` may be: milliseconds since 1970. -/
abbrev Instant := { i : Int // 0 ≤ i ∧ i ≤ intervalTimeMax }

/-- The columns of a row that keep times. -/
structure TimedRow where
  timeOut : List Byte
  timeOutForOthers : List Byte
  deriving DecidableEq

/-- The row of the advertisement, or that of one of its index names. -/
inductive Part where
  | advertisement
  | index (name : CString)
  deriving DecidableEq

/-- The times at which a save asks whether the row is expired, what it has left, and what its new
    time-out is. -/
structure Clock where
  compared : Instant
  subtracted : Instant
  added : Instant
  ordered : compared.1 ≤ subtracted.1 ∧ subtracted.1 ≤ added.1

/-- A save, and whether the database takes its SELECT and what it writes. -/
structure TimedSave where
  part : Part
  timeOutForMe : ExpirationTime
  timeOutForOthers : ExpirationTime
  update : Bool
  clock : Clock
  selected : Bool
  written : Bool

/-- `cm_item_found`: the status, the time that is left, and the expiration for others. -/
def timedItemFound (selected : Bool) (row : Option TimedRow) (clock : Clock) :
    Status × Int × Int :=
  if !selected then (.failed, 0, 0)
  else
    match row with
    | none => (.itemNotfound, 0, 0)
    | some row =>
      let expTemp := Decimal.strtol row.timeOut
      (.success,
        if expTemp < clock.compared.1 then 0 else (expTemp - clock.subtracted.1).bmod (2 ^ 64),
        Decimal.strtol row.timeOutForOthers)

/-- `apr_dbd_query`. -/
def writeRow (written : Bool) (old : Option TimedRow) (new : TimedRow) :
    Option TimedRow × Status :=
  if written then (some new, .success) else (old, .failed)

/-- `cm_advertisement_save`. -/
def timedAdvertisementSave (row : Option TimedRow) (save : TimedSave) :
    Option TimedRow × Status :=
  let (status, lifetime, _) := timedItemFound save.selected row save.clock
  match status with
  | .success =>
    if save.update then
      let lifetime := if save.timeOutForMe.1 > lifetime then save.timeOutForMe.1 else lifetime
      let expTime := save.timeOutForOthers.1
      let expTime := if expTime > lifetime then lifetime else expTime
      writeRow save.written row
        ⟨Decimal.ofInt (lifetimeGet save.clock.added.1 lifetime), Decimal.ofInt expTime⟩
    else (row, .success)
  | .itemNotfound =>
    writeRow save.written row
      ⟨Decimal.ofInt (lifetimeGet save.clock.added.1 save.timeOutForMe.1),
        Decimal.ofInt save.timeOutForOthers.1⟩
  | status => (row, status)

/-- `cm_item_update`: of the times it sets the time-out. -/
def timedItemUpdate (save : TimedSave) (row : TimedRow) (timeOutForMe : Int) :
    Option TimedRow × Status :=
  writeRow save.written (some row)
    { row with timeOut := Decimal.ofInt (lifetimeGet save.clock.added.1 timeOutForMe) }

/-- `cm_item_insert`. -/
def timedItemInsert (row : Option TimedRow) (save : TimedSave) : Option TimedRow × Status :=
  let (status, expTime, _) := timedItemFound save.selected row save.clock
  match status, row with
  | .success, some row =>
    let expTime := if save.timeOutForMe.1 > expTime then save.timeOutForMe.1 else expTime
    timedItemUpdate save row expTime
  | .itemNotfound, _ =>
    writeRow save.written row
      ⟨Decimal.ofInt (lifetimeGet save.clock.added.1 save.timeOutForMe.1),
        Decimal.ofInt save.timeOutForOthers.1⟩
  | status, _ => (row, status)

/-- The rows of one advertisement. -/
abbrev TimedRows := Part → Option TimedRow

def TimedSave.step (rows : TimedRows) (save : TimedSave) : Exec (TimedRows × Status) :=
  let (row, status) :=
    match save.part with
    | .advertisement => timedAdvertisementSave (rows .advertisement) save
    | .index name => timedItemInsert (rows (.index name)) save
  .ok (Function.update rows save.part row, status)

/-! ## the claim of the lifetimes -/

/-- The time-out that is read of a row. -/
def TimedRow.time (row : TimedRow) : Int := Decimal.strtol row.timeOut

/-- The expiration for others that is read of a row. -/
def TimedRow.others (row : TimedRow) : Int := Decimal.strtol row.timeOutForOthers

/-- What is left of a time-out, and nothing of one that is over. -/
def Clock.left (clock : Clock) (time : Int) : Int :=
  if time < clock.compared.1 then 0 else time - clock.subtracted.1

/-- The lifetime from now on: the greater of what is asked for and what is left. -/
def TimedSave.span (save : TimedSave) (old : Option TimedRow) : Int :=
  old.elim save.timeOutForMe.1 fun row => max save.timeOutForMe.1 (save.clock.left row.time)

/-- The save writes the row: an advertisement that is there is only written by an update. -/
def TimedSave.Writes (save : TimedSave) (old : Option TimedRow) : Prop :=
  save.selected ∧ save.written ∧ (save.part = .advertisement → old ≠ none → save.update)

/-- One save: times only grow, a sum is not wrapped, and after an update the expiration for others
    is within the time that is left, unless this is unbounded. -/
structure Saturates (rows : TimedRows) (save : TimedSave) (_ : Status) (rows' : TimedRows) :
    Prop where
  grows : ∀ part row, rows part = some row → ∃ row', rows' part = some row' ∧ row.time ≤ row'.time
  maximum : ∀ part row, rows part = some row → row.time = intervalTimeMax →
    ∃ row', rows' part = some row' ∧ row'.time = intervalTimeMax
  sum : save.Writes (rows save.part) → save.span (rows save.part) ≠ intervalTimeMin →
    ∃ row', rows' save.part = some row' ∧
      row'.time = min intervalTimeMax (save.clock.added.1 + save.span (rows save.part))
  others : save.Writes (rows save.part) → rows save.part ≠ none →
    ∀ row', rows' save.part = some row' →
      row'.time = intervalTimeMax ∨ row'.others ≤ row'.time - save.clock.added.1

/-- An index row that is written again was stored with an expiration for others that is within its
    lifetime from now on, unless this is beyond the maximum. -/
def OthersWithin (rows : TimedRows) (save : TimedSave) : Prop :=
  save.Writes (rows save.part) → save.part ≠ .advertisement → ∀ row, rows save.part = some row →
    intervalTimeMax ≤ save.clock.added.1 + save.span (some row) ∨
      row.others ≤ save.span (some row)

/-! ## sums -/

theorem bmod_sum {base span : Int} (hbase : 0 ≤ base ∧ base ≤ intervalTimeMax)
    (hspan : intervalTimeMin < span ∧ span ≤ intervalTimeMax) :
    (base + span).bmod (2 ^ 64) =
      if base + span ≤ intervalTimeMax then base + span else base + span - 2 ^ 64 := by
  unfold intervalTimeMax intervalTimeMin at *
  rw [Int.bmod_def]
  split <;> split <;> omega

/-- `lifetime_get` is the sum, up to the maximum. -/
theorem lifetimeGet_eq {base span : Int} (hbase : 0 ≤ base ∧ base ≤ intervalTimeMax)
    (hspan : intervalTimeMin < span ∧ span ≤ intervalTimeMax) :
    lifetimeGet base span = min intervalTimeMax (base + span) := by
  have hmin : span ≠ intervalTimeMin := (ne_of_lt hspan.1).symm
  by_cases hmax : span = intervalTimeMax
  · rw [lifetimeGet, if_pos hmax, hmax]
    exact (min_eq_left (by omega)).symm
  rw [lifetimeGet, if_neg hmax, if_neg hmin, bmod_sum hbase hspan]
  by_cases hsum : base + span ≤ intervalTimeMax
  · rw [if_pos hsum, min_eq_right hsum]
    split
    next => exact if_neg (by omega)
    next => exact if_neg (by omega)
  · have hwrap : base + span - 2 ^ 64 < base := by
      unfold intervalTimeMax at hspan
      omega
    rw [if_neg hsum, if_pos (by omega), if_pos hwrap, min_eq_left (by omega)]

theorem lifetimeGet_min (base : Int) : lifetimeGet base intervalTimeMin = intervalTimeMin := by
  unfold lifetimeGet intervalTimeMax intervalTimeMin
  rfl

theorem strtol_mem (text : List Byte) :
    intervalTimeMin ≤ Decimal.strtol text ∧ Decimal.strtol text ≤ intervalTimeMax := by
  unfold Decimal.strtol intervalTimeMin intervalTimeMax
  omega

theorem strtol_ofInt_mem {i : Int} (h : intervalTimeMin ≤ i ∧ i ≤ intervalTimeMax) :
    Decimal.strtol (Decimal.ofInt i) = i := by
  unfold intervalTimeMin intervalTimeMax at h
  exact Decimal.strtol_ofInt h.1 (by omega)

/-! ## one row -/

variable {save : TimedSave} {row : TimedRow}

/-- What is left is a time, and not the least one. -/
theorem left_mem (clock : Clock) (row : TimedRow) :
    intervalTimeMin < clock.left row.time ∧ clock.left row.time ≤ intervalTimeMax := by
  have htime := strtol_mem row.timeOut
  have hcompared := clock.compared.2
  have hsubtracted := clock.subtracted.2
  unfold Clock.left TimedRow.time
  unfold intervalTimeMin intervalTimeMax at *
  split
  next => omega
  next => omega

/-- `cm_item_found` reads what is left of a row. -/
theorem timedItemFound_some (clock : Clock) (row : TimedRow) :
    timedItemFound true (some row) clock =
      (.success, clock.left row.time, row.others) := by
  have htime := strtol_mem row.timeOut
  have hcompared := clock.compared.2
  have hsubtracted := clock.subtracted.2
  unfold timedItemFound Clock.left TimedRow.time TimedRow.others
  have hleft : ¬ Decimal.strtol row.timeOut < clock.compared.1 →
      (Decimal.strtol row.timeOut - clock.subtracted.1).bmod (2 ^ 64) =
        Decimal.strtol row.timeOut - clock.subtracted.1 := by
    intro hunexpired
    unfold intervalTimeMin intervalTimeMax at *
    rw [Int.bmod_def]
    split
    next => omega
    next => omega
  by_cases hexpired : Decimal.strtol row.timeOut < clock.compared.1
  · simp only [if_pos hexpired]
    rfl
  · simp only [if_neg hexpired, hleft hexpired]
    rfl

theorem span_mem (save : TimedSave) (row : TimedRow) :
    intervalTimeMin < save.span (some row) ∧ save.span (some row) ≤ intervalTimeMax := by
  have hleft := left_mem save.clock row
  have hme := save.timeOutForMe.2
  exact ⟨lt_of_lt_of_le hleft.1 (le_max_right _ _), max_le hme.2 hleft.2⟩

/-- The time-out that a save gives to a row that is there. -/
theorem lifetimeGet_span (save : TimedSave) (row : TimedRow) :
    lifetimeGet save.clock.added.1 (save.span (some row)) =
      min intervalTimeMax (save.clock.added.1 + save.span (some row)) :=
  lifetimeGet_eq save.clock.added.2 (span_mem save row)

/-- It is not before the one that was there. -/
theorem time_le_sum (save : TimedSave) (row : TimedRow) :
    row.time ≤ min intervalTimeMax (save.clock.added.1 + save.span (some row)) := by
  have htime := strtol_mem row.timeOut
  have hordered := save.clock.ordered
  have hleft : save.clock.left row.time ≤ save.span (some row) := le_max_right _ _
  refine le_min htime.2 ?_
  unfold Clock.left at hleft
  split at hleft
  next hexpired => omega
  next => omega

/-- What a save does with the row of its part. -/
def TimedSave.saveRow (save : TimedSave) (old : Option TimedRow) : Option TimedRow × Status :=
  match save.part with
  | .advertisement => timedAdvertisementSave old save
  | .index _ => timedItemInsert old save

theorem step_eq (rows : TimedRows) (save : TimedSave) : save.step rows =
    .ok (Function.update rows save.part (save.saveRow (rows save.part)).1,
      (save.saveRow (rows save.part)).2) := by
  unfold TimedSave.step TimedSave.saveRow
  cases save.part with
  | advertisement => rfl
  | index name => rfl

/-- The expiration for others that a save stores. -/
def TimedSave.othersOf (save : TimedSave) : Option TimedRow → Int
  | none => save.timeOutForOthers.1
  | some row =>
    match save.part with
    | .advertisement => min save.timeOutForOthers.1 (save.span (some row))
    | .index _ => row.others

/-- A row with what was written for these times. -/
structure Holds (save : TimedSave) (old : Option TimedRow) (row : TimedRow) : Prop where
  time : row.time = lifetimeGet save.clock.added.1 (save.span old)
  others : row.others = save.othersOf old

theorem lifetimeGet_mem (clock : Clock) {span : Int}
    (hspan : intervalTimeMin ≤ span ∧ span ≤ intervalTimeMax) :
    intervalTimeMin ≤ lifetimeGet clock.added.1 span ∧
      lifetimeGet clock.added.1 span ≤ intervalTimeMax := by
  by_cases hmin : span = intervalTimeMin
  · rw [hmin, lifetimeGet_min]
    exact ⟨le_refl _, by decide⟩
  · have hadded := clock.added.2
    rw [lifetimeGet_eq hadded ⟨lt_of_le_of_ne hspan.1 (Ne.symm hmin), hspan.2⟩]
    unfold intervalTimeMin intervalTimeMax at *
    omega

theorem if_gt_eq_max (a b : Int) : (if a > b then a else b) = max a b := by
  split
  next h => exact (max_eq_left (le_of_lt h)).symm
  next h => exact (max_eq_right (not_lt.mp h)).symm

theorem if_gt_eq_min (a b : Int) : (if a > b then b else a) = min a b := by
  split
  next h => exact (min_eq_right (le_of_lt h)).symm
  next h => exact (min_eq_left (not_lt.mp h)).symm

theorem saveRow_advertisement (row : TimedRow) (hpart : save.part = .advertisement)
    (hselected : save.selected = true) : save.saveRow (some row) =
      if save.update then
        writeRow save.written (some row)
          ⟨Decimal.ofInt (lifetimeGet save.clock.added.1 (save.span (some row))),
            Decimal.ofInt (min save.timeOutForOthers.1 (save.span (some row)))⟩
      else (some row, .success) := by
  unfold TimedSave.saveRow timedAdvertisementSave
  rw [hpart, hselected, timedItemFound_some]
  dsimp only
  rw [if_gt_eq_min, if_gt_eq_max]
  rfl

theorem saveRow_index {name : CString} (row : TimedRow) (hpart : save.part = .index name)
    (hselected : save.selected = true) : save.saveRow (some row) =
      writeRow save.written (some row) { row with
        timeOut := Decimal.ofInt (lifetimeGet save.clock.added.1 (save.span (some row))) } := by
  unfold TimedSave.saveRow timedItemInsert
  rw [hpart, hselected, timedItemFound_some]
  dsimp only
  rw [if_gt_eq_max]
  rfl

theorem saveRow_none (hselected : save.selected = true) : save.saveRow none =
    writeRow save.written none
      ⟨Decimal.ofInt (lifetimeGet save.clock.added.1 save.timeOutForMe.1),
        Decimal.ofInt save.timeOutForOthers.1⟩ := by
  unfold TimedSave.saveRow timedAdvertisementSave timedItemInsert timedItemFound
  rw [hselected]
  cases save.part with
  | advertisement => rfl
  | index name => rfl

/-- Without an answer to the SELECT nothing is written. -/
theorem saveRow_failed (old : Option TimedRow) (hselected : save.selected = false) :
    save.saveRow old = (old, .failed) := by
  unfold TimedSave.saveRow timedAdvertisementSave timedItemInsert timedItemFound
  rw [hselected]
  cases save.part with
  | advertisement => rfl
  | index name => rfl

theorem holds_of_writes {old : Option TimedRow} (h : save.Writes old) :
    ∃ row, save.saveRow old = (some row, .success) ∧ Holds save old row := by
  obtain ⟨hselected, hwritten, hupdate⟩ := h
  have htime : ∀ span, intervalTimeMin ≤ span ∧ span ≤ intervalTimeMax →
      Decimal.strtol (Decimal.ofInt (lifetimeGet save.clock.added.1 span)) =
        lifetimeGet save.clock.added.1 span :=
    fun span hspan => strtol_ofInt_mem (lifetimeGet_mem save.clock hspan)
  cases old with
  | none =>
    refine ⟨⟨_, _⟩, ?_, htime _ save.timeOutForMe.2, strtol_ofInt_mem save.timeOutForOthers.2⟩
    rw [saveRow_none hselected, hwritten]
    rfl
  | some row =>
    have hspan := span_mem save row
    have hothers := save.timeOutForOthers.2
    cases hpart : save.part with
    | advertisement =>
      refine ⟨⟨Decimal.ofInt (lifetimeGet save.clock.added.1 (save.span (some row))),
        Decimal.ofInt (min save.timeOutForOthers.1 (save.span (some row)))⟩, ?_,
        htime _ ⟨le_of_lt hspan.1, hspan.2⟩, ?_⟩
      · rw [saveRow_advertisement row hpart hselected, hwritten,
          if_pos (hupdate hpart (by simp))]
        rfl
      · unfold TimedSave.othersOf
        rw [hpart]
        exact strtol_ofInt_mem ⟨le_min hothers.1 (le_of_lt hspan.1), min_le_of_left_le hothers.2⟩
    | index name =>
      refine ⟨⟨Decimal.ofInt (lifetimeGet save.clock.added.1 (save.span (some row))),
        row.timeOutForOthers⟩, ?_, htime _ ⟨le_of_lt hspan.1, hspan.2⟩, ?_⟩
      · rw [saveRow_index row hpart hselected, hwritten]
        rfl
      · unfold TimedSave.othersOf
        rw [hpart]
        rfl

theorem saveRow_of_not_writes {old : Option TimedRow} (h : ¬ save.Writes old) :
    (save.saveRow old).1 = old := by
  cases hselected : save.selected with
  | false => rw [saveRow_failed old hselected]
  | true =>
    cases hwritten : save.written with
    | false =>
      cases old with
      | none =>
        rw [saveRow_none hselected, hwritten]
        rfl
      | some row =>
        cases hpart : save.part with
        | advertisement =>
          rw [saveRow_advertisement row hpart hselected, hwritten]
          split
          next => rfl
          next => rfl
        | index name =>
          rw [saveRow_index row hpart hselected, hwritten]
          rfl
    | true =>
      have hkept : save.part = .advertisement ∧ old ≠ none ∧ ¬ save.update := by
        unfold TimedSave.Writes at h
        simpa [hselected, hwritten] using h
      obtain ⟨hpart, hne, hupdate⟩ := hkept
      obtain ⟨row, rfl⟩ := Option.ne_none_iff_exists'.mp hne
      rw [saveRow_advertisement row hpart hselected, if_neg hupdate]

theorem othersOf_advertisement (hpart : save.part = .advertisement) (old : TimedRow) :
    save.othersOf (some old) ≤ save.span (some old) := by
  unfold TimedSave.othersOf
  rw [hpart]
  exact min_le_right _ _

theorem othersOf_index {name : CString} (hpart : save.part = .index name) (old : TimedRow) :
    save.othersOf (some old) = old.others := by
  unfold TimedSave.othersOf
  rw [hpart]

theorem within_iff {time added span others : Int}
    (htime : time = min intervalTimeMax (added + span)) :
    (time = intervalTimeMax ∨ others ≤ time - added) ↔
      (intervalTimeMax ≤ added + span ∨ others ≤ span) := by
  omega

/-! ## runs -/

/-- A save does what is claimed just if an index row that it writes again is within its lifetime. -/
theorem saturates_iff (rows : TimedRows) (save : TimedSave) :
    OthersWithin rows save ↔
      ∃ rows' status, save.step rows = .ok (rows', status) ∧
        Saturates rows save status rows' := by
  have hstep := step_eq rows save
  by_cases hwrites : save.Writes (rows save.part)
  · obtain ⟨new, hnew, hholds⟩ := holds_of_writes hwrites
    rw [hnew] at hstep
    have hpart : Function.update rows save.part (some new) save.part = some new :=
      Function.update_self ..
    have hother : ∀ part, part ≠ save.part →
        Function.update rows save.part (some new) part = rows part :=
      fun part hne => Function.update_of_ne hne ..
    have hsum : ∀ old, rows save.part = some old →
        new.time = min intervalTimeMax (save.clock.added.1 + save.span (some old)) := by
      intro old hold
      rw [hholds.time, hold, lifetimeGet_span]
    have hgrows : ∀ part row, rows part = some row → ∃ row',
        Function.update rows save.part (some new) part = some row' ∧ row.time ≤ row'.time := by
      intro part row hrow
      by_cases hsame : part = save.part
      · subst hsame
        refine ⟨new, hpart, ?_⟩
        rw [hsum row hrow]
        exact time_le_sum save row
      · exact ⟨row, by rw [hother part hsame, hrow], le_refl _⟩
    have hmaximum : ∀ part row, rows part = some row → row.time = intervalTimeMax → ∃ row',
        Function.update rows save.part (some new) part = some row' ∧
          row'.time = intervalTimeMax := by
      intro part row hrow hmax
      obtain ⟨row', hrow', hle⟩ := hgrows part row hrow
      exact ⟨row', hrow', le_antisymm (strtol_mem row'.timeOut).2 (hmax ▸ hle)⟩
    have hsaved : save.span (rows save.part) ≠ intervalTimeMin →
        new.time = min intervalTimeMax (save.clock.added.1 + save.span (rows save.part)) := by
      intro hmin
      cases hold : rows save.part with
      | none =>
        rw [hold] at hmin
        have hme := save.timeOutForMe.2
        rw [hholds.time, hold]
        exact lifetimeGet_eq save.clock.added.2 ⟨lt_of_le_of_ne hme.1 (Ne.symm hmin), hme.2⟩
      | some old => exact hsum old hold
    constructor
    · intro hwithin
      refine ⟨_, _, hstep, hgrows, hmaximum, fun _ hmin => ⟨new, hpart, hsaved hmin⟩, ?_⟩
      intro _ hne row' hrow'
      obtain ⟨old, hold⟩ := Option.ne_none_iff_exists'.mp hne
      obtain rfl := Option.some.inj (hpart.symm.trans hrow')
      apply (within_iff (hsum old hold)).mpr
      rw [hholds.others, hold]
      cases hof : save.part with
      | advertisement => exact .inr (othersOf_advertisement hof old)
      | index name =>
        rw [othersOf_index hof]
        exact hwithin hwrites (by simp [hof]) old hold
    · rintro ⟨rows', status, hok, hsaturates⟩ _ hne old hold
      obtain ⟨rfl, -⟩ := Prod.mk.inj (Except.ok.inj (hstep.symm.trans hok))
      have hothers := hsaturates.others hwrites (by simp [hold]) new hpart
      have hiff := (within_iff (hsum old hold)).mp hothers
      rw [hholds.others, hold] at hiff
      cases hof : save.part with
      | advertisement => exact absurd hof hne
      | index name => rwa [othersOf_index hof] at hiff
  · have hkept : (Function.update rows save.part (save.saveRow (rows save.part)).1) = rows := by
      rw [saveRow_of_not_writes hwrites, Function.update_eq_self]
    rw [hkept] at hstep
    refine iff_of_true (fun h => absurd h hwrites) ⟨rows, _, hstep, ?_⟩
    exact ⟨fun part row hrow => ⟨row, hrow, le_refl _⟩, fun part row hrow hmax =>
      ⟨row, hrow, hmax⟩, fun h => absurd h hwrites, fun h => absurd h hwrites⟩

/-- In every run of saves the times grow and are not wrapped, and what is stored for others stays
    within what is left after each update, just if this is so of the index rows that are written
    again. -/
theorem lifetimes_saturate (rows : TimedRows) (saves : List TimedSave) :
    Along TimedSave.step (fun _ => True) Saturates rows saves ↔
      SafeRun TimedSave.step OthersWithin rows saves := by
  have hkeep : ∀ (rows : TimedRows) (save : TimedSave) (rows' : TimedRows) (status : Status),
      True → TimedSave.step rows save = .ok (rows', status) → True :=
    fun _ _ _ _ _ _ => trivial
  refine along_iff_safeRun hkeep (fun rows save _ _ => ?_) saves trivial trivial
  simpa using saturates_iff rows save

/-- An index row that is stored for 100 milliseconds, and for others for a second. -/
def shortSave : TimedSave where
  part := .index (.ofBuffer (text "Name"))
  timeOutForMe := ⟨100, by decide⟩
  timeOutForOthers := ⟨1000, by decide⟩
  update := true
  clock := ⟨⟨5, by decide⟩, ⟨5, by decide⟩, ⟨5, by decide⟩, by decide⟩
  selected := true
  written := true

/-- Saved again, the row keeps its expiration for others. -/
theorem not_lifetimes_saturate : ¬ ∀ saves : List TimedSave,
    Along TimedSave.step (fun _ => True) Saturates (fun _ => none) saves := by
  intro hall
  obtain ⟨-, rows, status, hfirst, -, -, rows', status', hsecond, hsaturates, -⟩ :=
    hall [shortSave, shortSave]
  rw [step_eq] at hfirst
  cases hfirst
  have hwithin := (saturates_iff _ shortSave).mpr ⟨rows', status', hsecond, hsaturates⟩
  unfold OthersWithin at hwithin
  rw [Function.update_self] at hwithin
  have hwrites : shortSave.Writes (shortSave.saveRow none).1 :=
    ⟨rfl, rfl, fun hpart => absurd hpart (by decide)⟩
  have hrow : (shortSave.saveRow none).1 = some ⟨Decimal.ofInt 105, Decimal.ofInt 1000⟩ := by
    decide +kernel
  exact absurd (hwithin hwrites (by decide) _ hrow) (by decide +kernel)

end JxtaC.Cm
