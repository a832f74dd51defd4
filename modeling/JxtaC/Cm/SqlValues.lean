import JxtaC.Cm.SrdiLiterals

/-
  The values that reach SQL. `cm_item_insert` writes its own strings once, and the group string
  twice where it finds the entry; `cm_srdi_index_save` and `cm_save_delta_entry` write the strings
  of the caller in place, and the second the same ones in its lookup and in its INSERT; `cm_search`
  escapes the value twice. `sql_values_iff` says of all calls when every value is read back.
-/

namespace JxtaC.Cm

open Lib Lib.Sql List
variable (dbSpace : DBSpace) (me : Jxtacm) (s : Option Nat) (table : Table) (ss : List Source)
variable (jPeerid : Option Nat) (nameSpace : List Byte) (jHandler : Option Nat) (advId : List Byte)
variable (entry : SRDIEntryElement) (elemAttr : List Byte) (m : Memory)

/-! ## entries of advertisements -/

theorem cmItemFoundSelect_writes :
    let ss := [.value (some (.own m.made)), .value (some (.own (m.made + 1))),
      .value (some (.own (m.made + 2))), .value (some (.caller dbSpace.jId))]
    let m₁ := ((m.add (.new nameSpace)).add (.new advId)).add (.new elemAttr)
    (cmItemFoundSelect dbSpace table nameSpace advId (some elemAttr) m).1.literals =
        (writeAll ss m₁).1 ∧
      (cmItemFoundSelect dbSpace table nameSpace advId (some elemAttr) m).2 = (writeAll ss m₁).2 :=
  cmSqlSelect_group dbSpace table [.timeOut] [(.nameSpace, .equal, .value (some (.own m.made))),
    (.advId, .equal, .value (some (.own (m.made + 1)))),
    (.name, .equal, .value (some (.own (m.made + 2))))]
    (((m.add (.new nameSpace)).add (.new advId)).add (.new elemAttr))

theorem cmItemUpdate_writes (jNameSpace jKey jElemAttr jVal : Ref) (jRange : Option Ref)
    (timeOutForMe now : Int) (m : Memory) :
    (cmItemUpdate dbSpace table jNameSpace jKey jElemAttr jVal jRange timeOutForMe now m).1.literals =
      (writeAll [.value (some jVal), .numeric (some jVal), .value jRange, .printed (lifetimeGet now timeOutForMe), .value (some jKey), .value (some jNameSpace), .value (some jElemAttr), .value (some (.caller dbSpace.jId))] m).1 :=
  (update_writes table [(.value, .equal, .value (some jVal)),
    (.numValue, .equal, .numeric (some jVal)), (.numRange, .equal, .value jRange),
    (.timeOut, .equal, .printed (lifetimeGet now timeOutForMe))] [(.advId, .equal, .value (some jKey)),
    (.nameSpace, .equal, .value (some jNameSpace)), (.name, .equal, .value (some jElemAttr)),
    groupEquals dbSpace.jId] m).1

/-- The lookup of an item writes its own strings once each. -/
theorem cmItemFoundSelect_faithful (h : (m.jstring (.caller dbSpace.jId)).Intact) :
    ∀ l ∈ (cmItemFoundSelect dbSpace table nameSpace advId (some elemAttr) m).1.literals,
      l.Faithful := by
  rw [(cmItemFoundSelect_writes dbSpace table nameSpace advId elemAttr m).1,
    writeAll_faithful_iff, writesWell_of_nodup (by simp [written])]
  simp [written, numerics, h, Nat.add_assoc]

theorem cmItemFoundSelect_own {k : Nat} (hk : k < m.made) :
    (cmItemFoundSelect dbSpace table nameSpace advId (some elemAttr) m).2.jstring (.own k) =
      m.jstring (.own k) := by
  rw [(cmItemFoundSelect_writes dbSpace table nameSpace advId elemAttr m).2, writeAll_of_not_mem]
  · have h0 : k ≠ m.made := by omega
    have h1 : k ≠ m.made + 1 := by omega
    have h2 : k ≠ m.made + 1 + 1 := by omega
    simp [h0, h1, h2]
  · have h0 : k ≠ m.made := by omega
    have h1 : k ≠ m.made + 1 := by omega
    have h2 : k ≠ m.made + 2 := by omega
    simp [written, h0, h1, h2]

theorem cmItemFoundSelect_group :
    (cmItemFoundSelect dbSpace table nameSpace advId (some elemAttr) m).2.jstring
      (.caller dbSpace.jId) = (m.jstring (.caller dbSpace.jId)).escaped := by
  rw [(cmItemFoundSelect_writes dbSpace table nameSpace advId elemAttr m).2, writeAll_jstring]
  have hcount : (written [.value (some (.own m.made)), .value (some (.own (m.made + 1))),
      .value (some (.own (m.made + 2))), .value (some (.caller dbSpace.jId))]).count
        (.caller dbSpace.jId) = 1 := by simp [written]
  rw [hcount]
  simp

theorem cmItemInsert_faithful_iff (rows : Option (List ResultRow)) (rv : Bool) (dbSpace : DBSpace)
    (table : Table) (nameSpace key elemAttr val : List Byte) (range : Option (List Byte))
    (timeOutForMe timeOutForOthers now : Int) (strings : Nat → List Byte) :
    AllFaithful (cmItemInsert (.answering rows rv) dbSpace table nameSpace key elemAttr val range
        timeOutForMe timeOutForOthers now (.start strings)).1.1 ↔
      match rows with
      | none => True
      | some [] => IsNumeric val
      | some (_ :: _) => IsNumeric val ∧ 39 ∉ strings dbSpace.jId := by
  let m₁ := ((((Memory.start strings).add (.new key)).add (.new nameSpace)).add
    (.new elemAttr)).add (.new val)
  let jRange := (jstringNew2OrNull range m₁).1
  let m₂ := (jstringNew2OrNull range m₁).2
  let m₃ := m₂.add (.new dbSpace.id)
  let q := cmItemFoundSelect dbSpace table nameSpace key (some elemAttr) m₃
  have hgroup : m₃.jstring (.caller dbSpace.jId) = .new (strings dbSpace.jId) := by
    cases range <;> rfl
  have hselect : ∀ l ∈ q.1.literals, l.Faithful := by
    apply cmItemFoundSelect_faithful
    rw [hgroup]
    rfl
  have hq {k : Nat} (hk : k < m₃.made) : q.2.jstring (.own k) = m₃.jstring (.own k) :=
    cmItemFoundSelect_own _ _ _ _ _ _ hk
  have hqg : q.2.jstring (.caller dbSpace.jId) = (JString.new (strings dbSpace.jId)).escaped := by
    rw [← hgroup]
    exact cmItemFoundSelect_group _ _ _ _ _ _
  cases rows with
  | none =>
    show AllFaithful [q.1] ↔ True
    exact iff_true_intro (allFaithful_one.mpr hselect)
  | some rows =>
    cases rows with
    | nil =>
      let ss : List Source := [.value (some (.own 1)), .value (some (.own 0)),
        .value (some (.own 2)), .value (some (.own 3)), .numeric (some (.own 3)), .value jRange,
        .printed (lifetimeGet now timeOutForMe), .printed timeOutForOthers,
        .value (some (.own m₂.made))]
      show AllFaithful [q.1, .insert table (writeAll ss q.2).1] ↔ _
      rw [allFaithful_cons, and_iff_right hselect, allFaithful_one]
      show (∀ l ∈ (writeAll ss q.2).1, l.Faithful) ↔ IsNumeric val
      rw [writeAll_faithful_iff]
      cases range <;>
        rw [writesWell_of_nodup (by simp [written, ss, jRange, m₂, m₁])] <;>
        simp [written, numerics, ss, jRange, m₂, m₁, m₃, hq]
    | cons row rows =>
      show AllFaithful [q.1, (cmItemUpdate dbSpace table (.own 1) (.own 0) (.own 2) (.own 3) jRange
        (if (timeLeft now (some (row :: rows))).2 < timeOutForMe then timeOutForMe
          else (timeLeft now (some (row :: rows))).2) now q.2).1] ↔ _
      rw [allFaithful_cons, and_iff_right hselect, allFaithful_one, cmItemUpdate_writes,
        writeAll_faithful_iff]
      have hold := JString.escaped_intact_iff (JString.new_intact (strings dbSpace.jId))
      cases range <;>
        rw [writesWell_of_nodup (by simp [written, jRange, m₁])] <;>
        simp [written, numerics, jRange, m₂, m₁, m₃, hq, hqg, hold, and_comm]

/-! ## strings of the caller -/

/-- No string that holds a quote mark stands twice in the list. -/
def WrittenOnce (strings : Nat → List Byte) (l : List (Option Nat)) : Prop :=
  ∀ n, 39 ∈ strings n → l.count (some n) ≤ 1

instance (strings : Nat → List Byte) (l : List (Option Nat)) :
    Decidable (WrittenOnce strings l) :=
  decidable_of_iff (∀ s ∈ l, ∀ n ∈ s, 39 ∈ strings n → l.count (some n) ≤ 1) (by
    constructor
    · intro h n hn
      by_cases hmem : some n ∈ l
      · exact h _ hmem n rfl hn
      · rw [count_eq_zero.mpr hmem]
        exact Nat.zero_le 1
    · intro h s _ n _ hn
      exact h n hn)

theorem written_ofCaller :
    written (.value (ofCaller s) :: ss) = (ofCaller s).toList ++ written ss := by
  cases s <;> rfl

theorem written_some (r : Ref) (ss : List Source) :
    written (.value (some r) :: ss) = r :: written ss := rfl

theorem written_printed (i : Int) (ss : List Source) : written (.printed i :: ss) = written ss :=
  rfl

theorem count_ofCaller (n : Nat) :
    (ofCaller s).toList.count (.caller n) = if s = some n then 1 else 0 := by
  cases s with
  | none => rfl
  | some k => simp [ofCaller, count_singleton]

theorem count_own_ofCaller (k : Nat) : (ofCaller s).toList.count (.own k) = 0 := by
  cases s with
  | none => rfl
  | some n => simp [ofCaller]

theorem mem_ofCaller {s : Option Nat} {r : Ref} (h : r ∈ (ofCaller s).toList) :
    ∃ n, r = .caller n := by
  cases s with
  | none => exact absurd h not_mem_nil
  | some n => exact ⟨n, mem_singleton.mp h⟩

/-- Values of which the callers' strings are new, and the function's own are new and written once. -/
theorem writesWell_callers {m : Memory} {strings : Nat → List Byte} (hm : m.Callers strings)
    {ss : List Source} {l : List (Option Nat)} (hnum : numerics ss = [])
    (hcount : ∀ n, (written ss).count (.caller n) = l.count (some n))
    (hown : ∀ r ∈ written ss, (∀ n, r ≠ .caller n) →
      (m.jstring r).Intact ∧ (written ss).count r ≤ 1) :
    WritesWell m ss ↔ WrittenOnce strings l := by
  unfold WritesWell WrittenOnce
  rw [hnum]
  constructor
  · intro h n hquote
    obtain ⟨-, htwice, -⟩ := h
    have := htwice (.caller n)
    rw [hm n, hcount n] at this
    exact Nat.le_of_not_lt fun hlt => this hlt hquote
  · intro h
    refine ⟨?_, ?_, fun r hr => absurd hr not_mem_nil⟩
    · intro r hr
      by_cases hr' : ∃ n, r = .caller n
      · obtain ⟨n, rfl⟩ := hr'
        rw [hm n]
        rfl
      · exact (hown r hr (not_exists.mp hr')).1
    · intro r hr
      by_cases hr' : ∃ n, r = .caller n
      · obtain ⟨n, rfl⟩ := hr'
        rw [hm n]
        intro hquote
        rw [hcount n] at hr
        exact absurd (h n hquote) (Nat.not_le_of_lt hr)
      · have hmem : r ∈ written ss := count_pos_iff.mp (Nat.lt_of_lt_of_le Nat.one_pos (Nat.le_of_succ_le hr))
        exact absurd (hown r hmem (not_exists.mp hr')).2 (Nat.not_le_of_lt hr)

/-- `cm_srdi_index_save` is faithful where no string with a quote mark serves it twice. -/
theorem cmSrdiIndexSave_faithful_iff (dbAlias : List Byte) (jPeerid : Option Nat)
    (entry : SRDIEntryElement) (bReplica : Bool) (now : Int) (strings : Nat → List Byte) :
    AllFaithful (cmSrdiIndexSave me dbAlias jPeerid entry bReplica now (.start strings)).1.1 ↔
      WrittenOnce strings [entry.nameSpace, jPeerid, some me.jGroupIDstring, entry.advId,
        entry.key] := by
  let ss : List Source := [.value (some (.own 0)), .value (ofCaller entry.nameSpace),
    .value (ofCaller jPeerid), .value (some (.caller me.jGroupIDstring)),
    .value (ofCaller entry.advId), .value (ofCaller entry.key), .printed entry.seqNumber,
    .printed (lifetimeGet now entry.expiration), .printed (lifetimeGet now entry.expiration),
    .printed (if bReplica then 1 else 0)]
  show AllFaithful [.insert .srdiIndex (writeAll ss ((Memory.start strings).add (.new dbAlias))).1]
    ↔ _
  have hwritten : written ss = .own 0 :: ((ofCaller entry.nameSpace).toList ++
      ((ofCaller jPeerid).toList ++ (.caller me.jGroupIDstring ::
        ((ofCaller entry.advId).toList ++ (ofCaller entry.key).toList)))) := by
    simp only [ss, written_some, written_ofCaller, written_printed]
    simp [written]
  rw [allFaithful_one]
  refine (writeAll_faithful_iff ss _).trans (writesWell_callers ?_ ?_ ?_ ?_)
  · exact Memory.Callers.add (fun n => rfl) _
  · rfl
  · intro n
    simp only [hwritten, count_cons, count_append, count_ofCaller]
    simp only [count_nil, beq_iff_eq, Option.some.injEq, Ref.caller.injEq, reduceCtorEq,
      if_false]
    ac_rfl
  · intro r hr hcaller
    have hr' : r = .own 0 := by
      by_contra hne
      rw [hwritten] at hr
      simp only [mem_cons, mem_append, hne, hcaller, false_or] at hr
      obtain hr | hr | hr | hr := hr <;> exact (mem_ofCaller hr).elim hcaller
    rw [hr', hwritten]
    simp [count_own_ofCaller]

/-- The strings of the WHERE of `cm_save_delta_entry`. -/
def deltaLookup (me : Jxtacm) (jPeerid jHandler : Option Nat) (entry : SRDIEntryElement) :
    List (Option Nat) :=
  [jHandler, jPeerid, entry.advId, entry.key, entry.value, some me.jGroupIDstring]

/-- The strings of the VALUES of `cm_save_delta_entry`. -/
def deltaRow (me : Jxtacm) (jPeerid jHandler : Option Nat) (entry : SRDIEntryElement) :
    List (Option Nat) :=
  [entry.nameSpace, jHandler, jPeerid, entry.advId, entry.key, entry.value, entry.range,
    some me.jGroupIDstring]

theorem writesWell_callersOnly {m : Memory} {strings : Nat → List Byte} (hm : m.Callers strings)
    {ss : List Source} {l : List (Option Nat)} (hnum : numerics ss = [])
    (hwritten : written ss = (l.map fun s => (ofCaller s).toList).flatten) :
    WritesWell m ss ↔ WrittenOnce strings l := by
  apply writesWell_callers hm hnum
  · intro n
    rw [hwritten]
    clear hwritten
    induction l with
    | nil => rfl
    | cons s l ih =>
      rw [map_cons, flatten_cons, count_append, ih, count_ofCaller, count_cons]
      simp only [beq_iff_eq]
      exact Nat.add_comm _ _
  · intro r hr hcaller
    rw [hwritten] at hr
    obtain ⟨rs, hrs, hr⟩ := mem_flatten.mp hr
    obtain ⟨s, -, rfl⟩ := mem_map.mp hrs
    exact absurd (mem_ofCaller hr) (not_exists.mpr hcaller)

/-- The comparisons of the WHERE. -/
def deltaComparisons (me : Jxtacm) (jPeerid jHandler : Option Nat) (entry : SRDIEntryElement) :
    List (Column × Relation × Source) :=
  [(.handler, .equal, .value (ofCaller jHandler)), (.peerid, .equal, .value (ofCaller jPeerid)),
    (.advId, .equal, .value (ofCaller entry.advId)), (.name, .equal, .value (ofCaller entry.key)),
    (.value, .equal, .value (ofCaller entry.value)), groupEquals me.jGroupIDstring]

/-- The VALUES. -/
def deltaSources (me : Jxtacm) (jPeerid jHandler : Option Nat) (entry : SRDIEntryElement)
    (seqNumber : Nat) (now : Int) : List Source :=
  [.value (ofCaller entry.nameSpace)] ++
    (jHandler.map fun h => Source.value (some (.caller h))).toList ++
    (jPeerid.map fun p => Source.value (some (.caller p))).toList ++
    [.value (ofCaller entry.advId), .value (ofCaller entry.key), .value (ofCaller entry.value),
      .value (ofCaller entry.range), .printed (lifetimeGet now entry.expiration),
      .printed entry.expiration, .value (some (.caller me.jGroupIDstring)), .printed seqNumber]

theorem written_deltaComparisons :
    written (sources (deltaComparisons me jPeerid jHandler entry)) =
      ((deltaLookup me jPeerid jHandler entry).map fun s => (ofCaller s).toList).flatten := by
  simp only [deltaComparisons, sources, map_cons, map_nil, groupEquals, written_ofCaller,
    written_some, deltaLookup]
  rfl

theorem written_append (ts : List Source) : written (ss ++ ts) = written ss ++ written ts := by
  induction ss with
  | nil => rfl
  | cons s ss ih =>
    cases s with
    | value v =>
      cases v with
      | none => exact ih
      | some r => exact congrArg (r :: ·) ih
    | numeric v => exact ih
    | printed i => exact ih

theorem numerics_append (ts : List Source) : numerics (ss ++ ts) = numerics ss ++ numerics ts := by
  induction ss with
  | nil => rfl
  | cons s ss ih =>
    cases s with
    | value v => exact ih
    | numeric v =>
      cases v with
      | none => exact ih
      | some r => exact congrArg (r :: ·) ih
    | printed i => exact ih

theorem numerics_deltaSources (seqNumber : Nat) (now : Int) :
    numerics (deltaSources me jPeerid jHandler entry seqNumber now) = [] := by
  cases jHandler <;> cases jPeerid <;> rfl

theorem written_deltaSources (seqNumber : Nat) (now : Int) :
    written (deltaSources me jPeerid jHandler entry seqNumber now) =
      ((deltaRow me jPeerid jHandler entry).map fun s => (ofCaller s).toList).flatten := by
  have hmap (s : Option Nat) : written (s.map fun h => Source.value (some (.caller h))).toList =
      (ofCaller s).toList := by cases s <;> rfl
  simp only [deltaSources, written_append, hmap, written_ofCaller, written_some, written_printed,
    deltaRow, map_cons, map_nil, flatten_cons, append_assoc]
  rfl

/-- What a found row of the delta table answers: its number, as it was stored, and its value. -/
def deltaRows (rows : Option (List (Nat × List Byte))) : Option (List ResultRow) :=
  rows.map fun rs => rs.map fun p => [Decimal.ofInt p.1, p.2]

/-- What an entry must be like: no string with a quote mark stands twice in the values written. -/
def DeltaSound (strings : Nat → List Byte) (rows : Option (List (Nat × List Byte)))
    (me : Jxtacm) (jPeerid jHandler : Option Nat) (entry : SRDIEntryElement) : Prop :=
  entry.nameSpace = none ∨
  match rows with
  | some [] => WrittenOnce strings (deltaLookup me jPeerid jHandler entry ++
      deltaRow me jPeerid jHandler entry)
  | _ => WrittenOnce strings (deltaLookup me jPeerid jHandler entry)

instance (strings : Nat → List Byte) (rows : Option (List (Nat × List Byte))) (me : Jxtacm)
    (jPeerid jHandler : Option Nat) (entry : SRDIEntryElement) :
    Decidable (DeltaSound strings rows me jPeerid jHandler entry) :=
  match rows with
  | none => inferInstanceAs (Decidable (_ ∨ WrittenOnce _ _))
  | some [] => inferInstanceAs (Decidable (_ ∨ WrittenOnce _ _))
  | some (_ :: _) => inferInstanceAs (Decidable (_ ∨ WrittenOnce _ _))

/-- The number of a delta that is not there. -/
def deltaNumber (me : Jxtacm) (entry : SRDIEntryElement) : Nat :=
  if entry.seqNumber = 0 then me.deltaSeqNumber + 1 else entry.seqNumber

/-- The UPDATE of a delta with this number: it sets the time-out. -/
def deltaUpdate (cs : List Comparison) (expiration now : Int) (seqNumber : List Byte) : Statement :=
  .update .srdiDelta [⟨.timeOut, .equal, Decimal.ofInt (lifetimeGet now expiration),
      .number (Decimal.ofInt (lifetimeGet now expiration))⟩]
    (joined .and (cs ++ [⟨.seqNumber, .equal, seqNumber, .number seqNumber⟩]))

/-- `cm_save_delta_entry`: the lookup, and what follows its answer. -/
theorem cmSaveDeltaEntryIn_run (E : Engine) (me : Jxtacm) (jPeerid jHandler : Option Nat)
    (entry : SRDIEntryElement) (now : Int) (m : Memory) :
    let c := compareAll (deltaComparisons me jPeerid jHandler entry) m
    let select := Statement.select .srdiDelta [.seqNumber, .value] (joined .and c.1) none
    (cmSaveDeltaEntryIn E me jPeerid jHandler entry now m).1 =
      match E.select select with
      | none => ([select], .ok ⟨.failed, none, none, entry.seqNumber, me.deltaSeqNumber⟩)
      | some [] => ([select, .insert .srdiDelta (writeAll (deltaSources me jPeerid jHandler entry
          (deltaNumber me entry) now) c.2).1], .ok ⟨.itemNotfound, none, none,
            deltaNumber me entry, if entry.seqNumber = 0 then me.deltaSeqNumber + 1 else
              me.deltaSeqNumber⟩)
      | some (row :: _) =>
        match entry.value with
        | none => ([select], .error .nullPointer)
        | some value => ([select, deltaUpdate c.1 entry.expiration now (row.getD 0 [])],
            .ok ⟨E.status (deltaUpdate c.1 entry.expiration now (row.getD 0 [])),
              if row.getD 1 [] = (c.2.jstring (.caller value)).chars then none else
                some (c.2.jstring (.caller value)).chars,
              some (Decimal.strtol (row.getD 0 [])).toNat, entry.seqNumber, me.deltaSeqNumber⟩) := by
  intro c select
  have hlookup : cmSqlCreateDeltaWhereClause me.jGroupIDstring jPeerid jHandler entry m = c := rfl
  have hselect : cmSqlSelect me.bestChoiceDB .srdiDelta [.seqNumber, .value] (joined .and c.1) false
      c.2 = (select, c.2) := rfl
  unfold cmSaveDeltaEntryIn
  rw [run_bind, hlookup, run_bind, hselect]
  cases E.select select with
  | none => rfl
  | some rows =>
    cases rows with
    | nil =>
      unfold deltaNumber
      by_cases hseq : entry.seqNumber = 0
      · simp only [hseq, if_true]
        rfl
      · simp only [hseq, if_false]
        rfl
    | cons row rows =>
      cases entry.value with
      | none => rfl
      | some value => rfl

theorem deltaSelect_faithful_iff (strings : Nat → List Byte) (me : Jxtacm)
    (jPeerid jHandler : Option Nat) (entry : SRDIEntryElement) :
    (∀ l ∈ (compareAll (deltaComparisons me jPeerid jHandler entry)
        (.start strings)).1.map Comparison.literal, l.Faithful) ↔
      WrittenOnce strings (deltaLookup me jPeerid jHandler entry) := by
  have hstart : (Memory.start strings).Callers strings := fun n => rfl
  rw [compareAll_literals, writeAll_faithful_iff]
  exact writesWell_callersOnly hstart rfl (written_deltaComparisons me jPeerid jHandler entry)

/-- The INSERT of a delta writes the strings of the lookup for the second time. -/
theorem deltaInsert_faithful_iff (strings : Nat → List Byte) (me : Jxtacm)
    (jPeerid jHandler : Option Nat) (entry : SRDIEntryElement) (seqNumber : Nat) (now : Int) :
    let c := compareAll (deltaComparisons me jPeerid jHandler entry) (.start strings)
    ((∀ l ∈ c.1.map Comparison.literal, l.Faithful) ∧
      ∀ l ∈ (writeAll (deltaSources me jPeerid jHandler entry seqNumber now) c.2).1,
        l.Faithful) ↔
      WrittenOnce strings (deltaLookup me jPeerid jHandler entry ++
        deltaRow me jPeerid jHandler entry) := by
  intro c
  have hstart : (Memory.start strings).Callers strings := fun n => rfl
  have hwell : WritesWell (.start strings) (sources (deltaComparisons me jPeerid jHandler entry) ++
      deltaSources me jPeerid jHandler entry seqNumber now) ↔
        WrittenOnce strings (deltaLookup me jPeerid jHandler entry ++
          deltaRow me jPeerid jHandler entry) := by
    apply writesWell_callersOnly hstart
    · rw [numerics_append, numerics_deltaSources]
      rfl
    · rw [written_append, written_deltaSources, written_deltaComparisons, map_append,
        flatten_append]
  rw [← hwell, ← writeAll_faithful_iff, writeAll_append, compareAll_literals, compareAll_snd]
  exact forall_mem_append.symm

/-- The UPDATE of a delta writes the text of the lookup. -/
theorem deltaUpdate_faithful {cs : List Comparison} (expiration now : Int) {seqNumber : List Byte}
    {n : Nat} (hseq : seqNumber = Decimal.ofInt n)
    (h : ∀ l ∈ cs.map Comparison.literal, l.Faithful) :
    ∀ l ∈ (deltaUpdate cs expiration now seqNumber).literals, l.Faithful := by
  have htime := denotes_ofInt (lifetimeGet now expiration)
  have hnumber := denotes_ofInt n
  rw [← hseq] at hnumber
  rw [deltaUpdate, update_literals]
  simp only [map_append, map_cons, map_nil, forall_mem_append,
    forall_mem_singleton]
  exact ⟨htime, h, hnumber⟩

theorem cmSaveDeltaEntry_faithful_iff (rows : Option (List (Nat × List Byte))) (rv : Bool)
    (me : Jxtacm) (jPeerid jHandler : Option Nat) (entry : SRDIEntryElement) (now : Int)
    (strings : Nat → List Byte) :
    AllFaithful (cmSaveDeltaEntry (.answering (deltaRows rows) rv) me jPeerid jHandler entry now
        (.start strings)).1.1 ↔ DeltaSound strings rows me jPeerid jHandler entry := by
  have hselect := deltaSelect_faithful_iff strings me jPeerid jHandler entry
  have hinsert := deltaInsert_faithful_iff strings me jPeerid jHandler entry
    (deltaNumber me entry) now
  unfold cmSaveDeltaEntry DeltaSound
  cases entry.nameSpace with
  | none => exact iff_of_true (fun s hs => absurd hs not_mem_nil) (.inl rfl)
  | some ns =>
    dsimp only at hinsert ⊢
    rw [cmSaveDeltaEntryIn_run, or_iff_right (by simp)]
    dsimp only [Engine.answering]
    cases rows with
    | none =>
      dsimp only [deltaRows, Option.map]
      rw [allFaithful_one, select_literals]
      exact hselect
    | some rows =>
      cases rows with
      | nil =>
        dsimp only [deltaRows, Option.map, List.map]
        rw [allFaithful_cons, allFaithful_one, select_literals]
        exact hinsert
      | cons p rows =>
        dsimp only [deltaRows, Option.map, List.map]
        cases entry.value with
        | none =>
          rw [allFaithful_one, select_literals]
          exact hselect
        | some value =>
          rw [allFaithful_cons, allFaithful_one, select_literals, hselect]
          exact and_iff_left_of_imp fun h =>
            deltaUpdate_faithful entry.expiration now rfl (hselect.mpr h)

/-! ## searches -/

/-- The databases of a search are all sent the one SELECT. -/
theorem primaryKeysOf_statements (select : Statement) (n : Int) (E : Engine) (Es : List Engine) :
    AllFaithful (primaryKeysOf select n (E :: Es)).1 ↔ ∀ l ∈ select.literals, l.Faithful := by
  induction Es generalizing E with
  | nil =>
    unfold primaryKeysOf
    split
    next => exact allFaithful_one
    next => exact allFaithful_one
  | cons E' Es ih =>
    unfold primaryKeysOf
    split
    next => exact allFaithful_one
    next =>
      refine allFaithful_cons.trans ?_
      rw [ih E']
      exact and_self_iff

theorem Memory.set_self (r : Ref) (j : JString) : (m.set r j).jstring r = j :=
  if_pos rfl

theorem compareAll_faithful_iff (cs : List (Column × Relation × Source)) (m : Memory) :
    (∀ l ∈ (compareAll cs m).1.map Comparison.literal, l.Faithful) ↔ WritesWell m (sources cs) := by
  rw [compareAll_literals, writeAll_faithful_iff]

/-- The pattern of a query holds what it stands for where the query has no quote mark. -/
theorem pattern_intact_iff (value : List Byte) :
    (cmSqlEscapeAndWcValue (.new value) true).1.Intact ↔ 39 ∉ value := by
  show (escapeAndWc value true).1 = value.map wildcard ↔ _
  rw [escapeAndWc_fst, if_pos rfl, doubled_eq_self_iff, mem_map]
  apply not_congr
  constructor
  · intro h
    obtain ⟨c, hc, heq⟩ := h
    rwa [(wildcard_eq_quote_iff c).mp heq] at hc
  · intro h
    exact ⟨39, h, rfl⟩

/-- The condition of a folder names global strings, each once. -/
theorem cmSqlCorrectSpace_writesWell (folderName : List Byte) {m : Memory}
    (hpeer : (m.jstring .jPeerNs).Intact) (hgroup : (m.jstring .jGroupNs).Intact) :
    WritesWell m (sources (cmSqlCorrectSpace folderName)) := by
  have hwritten : (written (sources (cmSqlCorrectSpace folderName))).Nodup ∧
      ∀ r ∈ written (sources (cmSqlCorrectSpace folderName)), r = .jPeerNs ∨ r = .jGroupNs := by
    unfold cmSqlCorrectSpace
    split
    next => simp [sources, written]
    next => split <;> simp [sources, written]
  have hnumerics : numerics (sources (cmSqlCorrectSpace folderName)) = [] := by
    unfold cmSqlCorrectSpace
    split
    next => rfl
    next => split <;> rfl
  rw [writesWell_of_nodup hwritten.1, hnumerics]
  refine ⟨fun r hr => ?_, fun r hr => absurd hr not_mem_nil⟩
  obtain rfl | rfl := hwritten.2 r hr
  · exact hpeer
  · exact hgroup

theorem cmSqlCorrectSpace_caller (folderName : List Byte) (n : Nat) :
    Ref.caller n ∉ written (sources (cmSqlCorrectSpace folderName)) := by
  unfold cmSqlCorrectSpace
  split
  next => simp [sources, written]
  next => split <;> simp [sources, written]

/-- `cm_search` is faithful where the value has no quote mark. -/
theorem cmSearch_faithful_iff (first : Engine) (others : List Engine) (self : Jxtacm)
    (folderName attr value : List Byte) (noLocals : Bool) (nAdv now : Int)
    (strings : Nat → List Byte) :
    AllFaithful (cmSearch first others self folderName attr value noLocals nAdv now
        (.start strings)).1.1 ↔ 39 ∉ value := by
  let m := ((Memory.start strings).add (.new attr)).add (.new value)
  let locals : List (Column × Relation × Source) :=
    if noLocals then [(.timeOutForOthers, .greaterThan, .printed 0)] else []
  let name := compareAll ((.name, .equal, .value (some (.own 0))) :: locals) m
  let m₁ := name.2.set (.own 1) (cmSqlEscapeAndWcValue (name.2.jstring (.own 1)) true).1
  let wc := (cmSqlEscapeAndWcValue (name.2.jstring (.own 1)) true).2
  let pattern := compareAll [(.value, if wc then .like else .equal, .value (some (.own 1)))] m₁
  let space := compareAll (cmSqlCorrectSpace folderName) pattern.2
  let rest := compareAll [timeoutCheckGreater now, groupEquals self.jGroupIDstring] space.2
  let condition := joined .and space.1 ++ .and :: joined .and (name.1 ++ pattern.1) ++
    .and :: joined .and rest.1
  have hsearch : (cmSearch first others self folderName attr value noLocals nAdv now
      (.start strings)).1 = primaryKeysOf (.select .elemAttributes [.advId] condition (some .advId))
        nAdv (first :: others) := rfl
  rw [hsearch, primaryKeysOf_statements]
  have hliterals : (Statement.select .elemAttributes [.advId] condition (some .advId)).literals =
      space.1.map Comparison.literal ++ (name.1.map Comparison.literal ++
        (pattern.1.map Comparison.literal ++ rest.1.map Comparison.literal)) := by
    show (atoms condition).map _ = _
    simp only [condition, atoms_append, atoms, atoms_joined, map_append, append_assoc]
  have hnamed : written (sources ((.name, .equal, .value (some (.own 0))) :: locals)) = [.own 0] ∧
      numerics (sources ((.name, .equal, .value (some (.own 0))) :: locals)) = [] := by
    simp only [locals]
    cases noLocals <;> exact ⟨rfl, rfl⟩
  have hother {r : Ref} (hr : r ≠ .own 0) : name.2.jstring r = m.jstring r := by
    refine (congrArg (Memory.jstring · r) (compareAll_snd _ m)).trans (writeAll_of_not_mem ?_ m)
    rw [hnamed.1]
    simpa using hr
  have hname : ∀ l ∈ name.1.map Comparison.literal, l.Faithful := by
    rw [compareAll_faithful_iff, writesWell_of_nodup (by rw [hnamed.1]; simp), hnamed.1, hnamed.2]
    simp [m]
  have hvalue : name.2.jstring (.own 1) = .new value := by
    rw [hother (by simp)]
    simp [m]
  have hpattern : (∀ l ∈ pattern.1.map Comparison.literal, l.Faithful) ↔ 39 ∉ value := by
    rw [compareAll_faithful_iff, writesWell_of_nodup (by simp [sources, written])]
    have hself : m₁.jstring (.own 1) = (cmSqlEscapeAndWcValue (.new value) true).1 := by
      rw [← hvalue]
      exact Memory.set_self name.2 (.own 1) _
    rw [← pattern_intact_iff, ← hself]
    simp [written, numerics, sources]
  have hlater {r : Ref} (h0 : r ≠ .own 0) (h1 : r ≠ .own 1) :
      pattern.2.jstring r = m.jstring r := by
    have hset : m₁.jstring r = name.2.jstring r := if_neg h1
    rw [← hother h0, ← hset]
    refine (congrArg (Memory.jstring · r) (compareAll_snd _ m₁)).trans (writeAll_of_not_mem ?_ m₁)
    simpa [written, sources] using h1
  have hspace : ∀ l ∈ space.1.map Comparison.literal, l.Faithful := by
    rw [compareAll_faithful_iff]
    apply cmSqlCorrectSpace_writesWell <;> rw [hlater (by simp) (by simp)] <;> exact rfl
  have hrest : ∀ l ∈ rest.1.map Comparison.literal, l.Faithful := by
    have hgroup : space.2.jstring (.caller self.jGroupIDstring) =
        .new (strings self.jGroupIDstring) := by
      refine (congrArg (Memory.jstring · _) (compareAll_snd _ pattern.2)).trans ?_
      rw [writeAll_of_not_mem (cmSqlCorrectSpace_caller folderName _), hlater (by simp) (by simp)]
      simp [m]
    rw [compareAll_faithful_iff, writesWell_of_nodup
      (by simp [sources, written, timeoutCheckGreater, groupEquals])]
    simp [written, numerics, sources, timeoutCheckGreater, groupEquals, hgroup]
  rw [hliterals]
  simp only [forall_mem_append]
  exact ⟨fun h => hpattern.mp h.2.2.1, fun h => ⟨hspace, hname, hpattern.mpr h, hrest⟩⟩

/-! ## the calls -/

/-- A call of a function that saves or searches entries, and what the database answers to it: the
rows of the lookup, and whether a change succeeds. -/
inductive Call where
  | itemInsert (rows : Option (List ResultRow)) (rv : Bool) (dbSpace : DBSpace) (table : Table)
      (nameSpace key elemAttr val : List Byte) (range : Option (List Byte))
      (timeOutForMe timeOutForOthers now : Int)
  | srdiElementSave (rows : Option (List ResultRow)) (rv : Bool) (dbSpace : DBSpace)
      (handler peerid : Option Nat) (entry : SRDIEntryElement) (replica : Bool) (now : Int)
  | srdiIndexSave (me : Jxtacm) (dbAlias : List Byte) (jPeerid : Option Nat)
      (entry : SRDIEntryElement) (bReplica : Bool) (now : Int)
  | saveDeltaEntry (rows : Option (List (Nat × List Byte))) (rv : Bool) (me : Jxtacm)
      (jPeerid jHandler : Option Nat) (entry : SRDIEntryElement) (now : Int)
  | search (first : Engine) (others : List Engine) (self : Jxtacm)
      (folderName attr value : List Byte) (noLocals : Bool) (nAdv now : Int)

/-- The statements that the call sends. -/
def Call.statements (strings : Nat → List Byte) : Call → List Statement
  | itemInsert rows rv dbSpace table nameSpace key elemAttr val range timeOutForMe timeOutForOthers
      now => (cmItemInsert (.answering rows rv) dbSpace table nameSpace key elemAttr val range
        timeOutForMe timeOutForOthers now (.start strings)).1.1
  | srdiElementSave rows rv dbSpace handler peerid entry replica now =>
      (cmSrdiElementSave (.answering rows rv) dbSpace handler peerid entry replica now
        (.start strings)).1.1
  | srdiIndexSave me dbAlias jPeerid entry bReplica now =>
      (cmSrdiIndexSave me dbAlias jPeerid entry bReplica now (.start strings)).1.1
  | saveDeltaEntry rows rv me jPeerid jHandler entry now =>
      (cmSaveDeltaEntry (.answering (deltaRows rows) rv) me jPeerid jHandler entry now
        (.start strings)).1.1
  | search first others self folderName attr value noLocals nAdv now =>
      (cmSearch first others self folderName attr value noLocals nAdv now (.start strings)).1.1

/-- What the strings of the call must be like: those that are written more than once have no quote
marks, and a value with a `#` in front that gets into a numeric column is a number. -/
def Call.Sound (strings : Nat → List Byte) : Call → Prop
  | itemInsert rows _ dbSpace _ _ _ _ val _ _ _ _ =>
      match rows with
      | none => True
      | some [] => IsNumeric val
      | some (_ :: _) => IsNumeric val ∧ 39 ∉ strings dbSpace.jId
  | srdiElementSave rows _ dbSpace handler peerid entry _ _ =>
      ∀ key ∈ entry.key, SrdiElementSound strings rows dbSpace handler peerid entry key
  | srdiIndexSave me _ jPeerid entry _ _ =>
      WrittenOnce strings [entry.nameSpace, jPeerid, some me.jGroupIDstring, entry.advId, entry.key]
  | saveDeltaEntry rows _ me jPeerid jHandler entry _ =>
      DeltaSound strings rows me jPeerid jHandler entry
  | search _ _ _ _ _ value _ _ _ => 39 ∉ value

/-- SQL reads every value of every statement back as what the strings were given, exactly where the
call is sound. -/
theorem sql_values_iff (strings : Nat → List Byte) (call : Call) :
    AllFaithful (call.statements strings) ↔ call.Sound strings := by
  cases call with
  | itemInsert rows rv dbSpace table nameSpace key elemAttr val range me others now =>
    exact cmItemInsert_faithful_iff rows rv dbSpace table nameSpace key elemAttr val range me others
      now strings
  | srdiElementSave rows rv dbSpace handler peerid entry replica now =>
    unfold Call.statements Call.Sound
    cases hkey : entry.key with
    | none =>
      have hnone : (cmSrdiElementSave (.answering rows rv) dbSpace handler peerid entry replica now
          (.start strings)).1.1 = [] := by
        unfold cmSrdiElementSave
        rw [hkey]
        rfl
      dsimp only
      rw [hnone]
      exact iff_of_true (fun s hs => absurd hs not_mem_nil) (by simp [hkey])
    | some key =>
      simp only [Option.mem_def, hkey, Option.some.injEq, forall_eq']
      exact cmSrdiElementSave_faithful_iff rows rv dbSpace handler peerid entry hkey replica now
        strings
  | srdiIndexSave me dbAlias jPeerid entry bReplica now =>
    exact cmSrdiIndexSave_faithful_iff me dbAlias jPeerid entry bReplica now strings
  | saveDeltaEntry rows rv me jPeerid jHandler entry now =>
    exact cmSaveDeltaEntry_faithful_iff rows rv me jPeerid jHandler entry now strings
  | search first others self folderName attr value noLocals nAdv now =>
    exact cmSearch_faithful_iff first others self folderName attr value noLocals nAdv now strings

/-- A search for `O'Brien` looks for `O''Brien`. -/
theorem not_sql_values : ¬ ∀ (strings : Nat → List Byte) (call : Call),
    AllFaithful (call.statements strings) := by
  intro h
  have hsearch := h (fun _ => text "group") (.search ⟨fun _ => some [], fun _ => true⟩ []
    ⟨0, ⟨text "group", text "alias", 0⟩, 0⟩ (text "Advertisements") (text "Name") (text "O'Brien")
    false (-1) 0)
  exact absurd ((cmSearch_faithful_iff _ _ _ _ _ _ _ _ _ _).mp hsearch) (by decide)

end JxtaC.Cm
