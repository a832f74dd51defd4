import JxtaC.Cm.Literals

/-
  The values of `cm_srdi_element_save`. It writes its own copies of the strings into the VALUES of
  an INSERT before it looks for the entry, so the lookup, and where it finds a row the update,
  write the same strings again: `cmSrdiElementSave_faithful_iff`.
-/

namespace JxtaC.Cm

open Lib Lib.Sql List
variable {m : Memory} {strings : Nat → List Byte} {key : Nat} (dbSpace : DBSpace) (v : SrdiStrings)
variable (table : Table) (nameSpace : Ref)

/-- The text of a string of the caller, or another one where there is none. -/
def textOr (strings : Nat → List Byte) (s : Option Nat) (otherwise : List Byte) : List Byte :=
  (s.map strings).getD otherwise

/-- The name space under which an entry is saved, as a text. -/
def savedNameSpaceText (strings : Nat → List Byte) (nameSpace : Option Nat) : List Byte :=
  match nameSpace with
  | none => text "jxta:ADV"
  | some n =>
    if strings n = text "Peers" then text "jxta:PA"
    else if strings n = text "Groups" then text "jxta:PGA"
    else strings n

/-- The strings of the caller are new. -/
def Memory.Callers (m : Memory) (strings : Nat → List Byte) : Prop :=
  ∀ n, m.jstring (.caller n) = .new (strings n)

section
variable (h : m.Callers strings)
include h

theorem Memory.Callers.add (j : JString) : (m.add j).Callers strings := by
  intro n
  rw [Memory.add_jstring, if_neg (by simp)]
  exact h n

theorem cloneOr_run (s : Option Nat) (otherwise : List Byte) :
    cloneOr s otherwise m = (.own m.made, m.add (.new (textOr strings s otherwise))) := by
  cases s with
  | none => rfl
  | some n =>
    show (Ref.own m.made, m.add (m.jstring (.caller n))) = _
    rw [h n]
    rfl

theorem savedNameSpace_run (nameSpace : Option Nat) :
    savedNameSpace nameSpace m =
      (.own m.made, m.add (.new (savedNameSpaceText strings nameSpace))) := by
  cases nameSpace with
  | none => rfl
  | some n =>
    have hclone : jstringClone (.caller n) m = (.own m.made, m.add (.new (strings n))) := by
      rw [← h n]
      rfl
    have hchars : (m.jstring (.caller n)).chars = strings n := by rw [h n]; rfl
    unfold savedNameSpace savedNameSpaceText
    dsimp only
    rw [hchars, hclone]
    by_cases hpeers : strings n = text "Peers"
    · rw [if_pos hpeers, if_pos hpeers]
      rfl
    · rw [if_neg hpeers, if_neg hpeers]
      by_cases hgroups : strings n = text "Groups"
      · rw [if_pos hgroups, if_pos hgroups]
        rfl
      · rw [if_neg hgroups, if_neg hgroups]

theorem savedAdvId_run {jValue : Ref} {v : List Byte} (hv : m.jstring jValue = .new v)
    (advId : Option Nat) :
    savedAdvId advId jValue m = (.own m.made, m.add (.new (textOr strings advId v))) := by
  cases advId with
  | none =>
    show (Ref.own m.made, m.add (m.jstring jValue)) = _
    rw [hv]
    rfl
  | some n =>
    show (Ref.own m.made, m.add (m.jstring (.caller n))) = _
    rw [h n]
    rfl

end

/-- The memory behind `srdiNames`. -/
def Memory.named (m : Memory) (strings : Nat → List Byte) (dbSpace : DBSpace)
    (handler peerid : Option Nat) (entry : SRDIEntryElement) : Memory :=
  ((((m.add (.new (textOr strings handler (text "NoHandler")))).add
    (.new (textOr strings peerid (text "NoPeerid")))).add
    (.new (savedNameSpaceText strings entry.nameSpace))).add
    (.new (textOr strings entry.advId (textOr strings entry.value [])))).add (.new dbSpace.id)

theorem srdiNames_run (h : m.Callers strings) (dbSpace : DBSpace) (handler peerid : Option Nat)
    (entry : SRDIEntryElement) (jAttribute : Ref) {j : Nat} (hj : j < m.made)
    (hv : m.jstring (.own j) = .new (textOr strings entry.value [])) (jRange : Option Ref) :
    srdiNames dbSpace handler peerid entry jAttribute (.own j) jRange m =
      (⟨.own (m.made + 2), .own m.made, .own (m.made + 1), .own (m.made + 3), jAttribute, .own j,
        jRange, .own (m.made + 4)⟩, m.named strings dbSpace handler peerid entry) := by
  have hhandler := h.add (.new (textOr strings handler (text "NoHandler")))
  have hpeerid := hhandler.add (.new (textOr strings peerid (text "NoPeerid")))
  have hnameSpace := hpeerid.add (.new (savedNameSpaceText strings entry.nameSpace))
  simp only [srdiNames, bind, StateT.bind]
  rw [cloneOr_run h]
  dsimp only
  rw [cloneOr_run hhandler]
  dsimp only
  rw [savedNameSpace_run hpeerid]
  dsimp only
  rw [savedAdvId_run hnameSpace (v := textOr strings entry.value [])]
  · rfl
  · have h0 : j ≠ m.made := by omega
    have h1 : j ≠ m.made + 1 := by omega
    have h2 : j ≠ m.made + 1 + 1 := by omega
    simp [h0, h1, h2, hv]

/-- The strings of `cm_srdi_element_save` are new. -/
theorem srdiStrings_run (strings : Nat → List Byte) (dbSpace : DBSpace)
    (handler peerid : Option Nat) (entry : SRDIEntryElement) (key : Nat) :
    let m := ((Memory.start strings).add (.new (strings key))).add
      (.new (textOr strings entry.value []))
    srdiStrings dbSpace handler peerid entry key (.start strings) =
      match entry.range with
      | none => (⟨.own 4, .own 2, .own 3, .own 5, .own 0, .own 1, none, .own 6⟩,
          m.named strings dbSpace handler peerid entry)
      | some range => (⟨.own 5, .own 3, .own 4, .own 6, .own 0, .own 1, some (.own 2), .own 7⟩,
          (m.add (.new (strings range))).named strings dbSpace handler peerid entry) := by
  intro m
  have hkey : ((Memory.start strings).add (.new (strings key))).Callers strings :=
    Memory.Callers.add (fun n => rfl) _
  have hvalue : m.Callers strings := hkey.add _
  have hself : m.jstring (.own 1) = .new (textOr strings entry.value []) := by simp [m]
  simp only [srdiStrings, bind, StateT.bind, jstringClone, make, Memory.start_caller]
  rw [cloneOr_run hkey]
  show (match cloneOrNull entry.range m with
    | (jRange, m) => srdiNames dbSpace handler peerid entry (.own 0) (.own 1) jRange m) = _
  cases hrange : entry.range with
  | none => exact srdiNames_run hvalue dbSpace handler peerid entry _ (by simp [m]) hself _
  | some range =>
    have hadd : cloneOrNull (some range) m = (some (.own 2), m.add (.new (strings range))) := by
      rw [← hvalue range]
      rfl
    rw [hadd]
    exact srdiNames_run (hvalue.add _) dbSpace handler peerid entry _ (by simp [m])
      (by simp [m]) _

/-- The memory with a clone of one of its strings. -/
def Memory.clone (m : Memory) (r : Ref) : Memory := m.add (m.jstring r)

@[simp] theorem Memory.clone_made (m : Memory) (r : Ref) : (m.clone r).made = m.made + 1 := rfl

@[simp] theorem Memory.clone_jstring (m : Memory) (r r' : Ref) :
    (m.clone r).jstring r' = if r' = .own m.made then m.jstring r else m.jstring r' := rfl

/-- The clones of `cm_srdi_item_found`. -/
def Memory.clones (m : Memory) (nameSpace handler peerid key attr : Ref) : Memory :=
  ((((m.clone nameSpace).clone handler).clone peerid).clone key).clone attr

/-- The values of `cm_srdi_item_found`, where `k` strings were made before. -/
def lookupSources (k jId : Nat) (now : Int) : List Source :=
  [.value (some (.own k)), .value (some (.own (k + 1))), .value (some (.own (k + 2))),
    .value (some (.own (k + 3))), .value (some (.own (k + 4))), .printed now,
    .value (some (.caller jId))]

theorem cmSrdiItemFoundSelect_writes (handler peerid key attr : Ref) (now : Int) (m : Memory) :
    let p := cmSrdiItemFoundSelect dbSpace table nameSpace handler peerid key attr now m
    let w := writeAll (lookupSources m.made dbSpace.jId now)
      (m.clones nameSpace handler peerid key attr)
    p.1.literals = w.1 ∧ p.2 = w.2 :=
  cmSqlSelect_group dbSpace table [.advId] [(.nameSpace, .equal, .value (some (.own m.made))),
    (.handler, .equal, .value (some (.own (m.made + 1)))),
    (.peerid, .equal, .value (some (.own (m.made + 2)))),
    (.advId, .equal, .value (some (.own (m.made + 3)))),
    (.name, .equal, .value (some (.own (m.made + 4)))), timeoutCheckGreater now]
    (m.clones nameSpace handler peerid key attr)

/-- The lookup is faithful where the strings hold what they were given. -/
theorem cmSrdiItemFoundSelect_faithful_iff {nameSpace handler peerid attr : Nat} (now : Int)
    (hh : handler < m.made) (hp : peerid < m.made) (hk : key < m.made) (ha : attr < m.made)
    (hgroup : (m.jstring (.caller dbSpace.jId)).Intact) :
    (∀ l ∈ (cmSrdiItemFoundSelect dbSpace table (.own nameSpace) (.own handler) (.own peerid)
        (.own key) (.own attr) now m).1.literals, l.Faithful) ↔
      ∀ k ∈ [nameSpace, handler, peerid, key, attr], (m.jstring (.own k)).Intact := by
  rw [(cmSrdiItemFoundSelect_writes dbSpace table _ _ _ _ _ now m).1, writeAll_faithful_iff,
    writesWell_of_nodup (by simp [written, lookupSources])]
  have hlt {k : Nat} (hk : k < m.made) (i : Nat) : k ≠ m.made + i := by omega
  have hlt0 {k : Nat} (hk : k < m.made) : k ≠ m.made := by omega
  simp [written, numerics, lookupSources, Memory.clones, hgroup, Nat.add_assoc, hlt hp, hlt hk,
    hlt ha, hlt0 hh, hlt0 hp, hlt0 hk, hlt0 ha]

theorem cmSrdiItemFoundSelect_own (handler peerid key attr : Ref) (now : Int) {k : Nat}
    (hk : k < m.made) :
    (cmSrdiItemFoundSelect dbSpace table nameSpace handler peerid key attr now m).2.jstring (.own k) =
      m.jstring (.own k) := by
  have hlt (i : Nat) : k ≠ m.made + i := by omega
  have hlt0 : k ≠ m.made := by omega
  rw [(cmSrdiItemFoundSelect_writes dbSpace table nameSpace handler peerid key attr now m).2,
    writeAll_of_not_mem]
  · simp [Memory.clones, Nat.add_assoc, hlt, hlt0]
  · simp [written, lookupSources, hlt, hlt0]

theorem cmSrdiItemFoundSelect_group (handler peerid key attr : Ref) (now : Int) (m : Memory) :
    (cmSrdiItemFoundSelect dbSpace table nameSpace handler peerid key attr now m).2.jstring
      (.caller dbSpace.jId) = (m.jstring (.caller dbSpace.jId)).escaped := by
  rw [(cmSrdiItemFoundSelect_writes dbSpace table nameSpace handler peerid key attr now m).2,
    writeAll_jstring]
  have hcount : (written (lookupSources m.made dbSpace.jId now)).count (.caller dbSpace.jId) = 1 := by
    simp [written, lookupSources]
  rw [hcount]
  simp [Memory.clones]

theorem cmSrdiItemUpdate_literals (jHandler jPeerid jKey jAttribute jValue : Ref)
    (jRange : Option Ref) (timeOutForMe now : Int) (m : Memory) :
    (cmSrdiItemUpdate dbSpace table jHandler jPeerid jKey jAttribute jValue jRange timeOutForMe now
      m).1.literals =
      (writeAll [.printed (lifetimeGet now timeOutForMe), .value (some jValue),
        .numeric (some jValue), .value jRange, .value (some jKey), .value (some jHandler),
        .value (some jAttribute), .value (some jPeerid), .value (some (.caller dbSpace.jId))] m).1 :=
  (update_writes table [(.timeOut, .equal, .printed (lifetimeGet now timeOutForMe)),
    (.value, .equal, .value (some jValue)), (.numValue, .equal, .numeric (some jValue)),
    (.numRange, .equal, .value jRange)] [(.advId, .equal, .value (some jKey)),
    (.handler, .equal, .value (some jHandler)), (.name, .equal, .value (some jAttribute)),
    (.peerid, .equal, .value (some jPeerid)), groupEquals dbSpace.jId] m).1

/-- The string is there without a quote mark, or not there. -/
def QuoteFree (strings : Nat → List Byte) (s : Option Nat) : Prop := ∀ n ∈ s, 39 ∉ strings n

theorem quoteFree_textOr {s : Option Nat} {otherwise : List Byte} (h : 39 ∉ otherwise) :
    39 ∉ textOr strings s otherwise ↔ QuoteFree strings s := by
  cases s with
  | none => simp [textOr, QuoteFree, h]
  | some n => simp [textOr, QuoteFree]

theorem quoteFree_savedNameSpaceText {s : Option Nat} :
    39 ∉ savedNameSpaceText strings s ↔ QuoteFree strings s := by
  cases s with
  | none => exact iff_of_true (show 39 ∉ text "jxta:ADV" by decide) (by simp [QuoteFree])
  | some n =>
    unfold savedNameSpaceText QuoteFree
    simp only [Option.mem_def, Option.some.injEq, forall_eq']
    split
    next h => rw [h]; decide
    next =>
      split
      next h => rw [h]; decide
      next => exact Iff.rfl

theorem quoteFree_advId {advId value : Option Nat} :
    39 ∉ textOr strings advId (textOr strings value []) ↔
      QuoteFree strings (advId.or value) := by
  cases advId with
  | none => exact quoteFree_textOr not_mem_nil
  | some n => simp [textOr, QuoteFree]

@[simp] theorem quoteFree_some {n : Nat} : QuoteFree strings (some n) ↔ 39 ∉ strings n := by
  simp [QuoteFree]

@[simp] theorem quoteFree_none : QuoteFree strings none := by
  simp [QuoteFree]

instance (strings : Nat → List Byte) : ∀ s : Option Nat, Decidable (QuoteFree strings s)
  | none => isTrue quoteFree_none
  | some n => decidable_of_iff (39 ∉ strings n) quoteFree_some.symm

/-- What an entry must be like: the strings that the lookup writes again have no quote marks; where
a row is found, neither have those that the update writes again; and behind the `#` of a value that
is written there is a number. -/
def SrdiElementSound (strings : Nat → List Byte) (rows : Option (List ResultRow))
    (dbSpace : DBSpace) (handler peerid : Option Nat) (entry : SRDIEntryElement) (key : Nat) :
    Prop :=
  (∀ s ∈ [entry.nameSpace, handler, peerid, entry.advId.or entry.value, some key],
    QuoteFree strings s) ∧
  match rows with
  | none => True
  | some [] => IsNumeric (textOr strings entry.value [])
  | some (_ :: _) => IsNumeric (textOr strings entry.value []) ∧
      ∀ s ∈ [entry.value, entry.range, some dbSpace.jId], QuoteFree strings s

instance (strings : Nat → List Byte) (rows : Option (List ResultRow)) (dbSpace : DBSpace)
    (handler peerid : Option Nat) (entry : SRDIEntryElement) (key : Nat) :
    Decidable (SrdiElementSound strings rows dbSpace handler peerid entry key) :=
  match rows with
  | none => inferInstanceAs (Decidable (_ ∧ True))
  | some [] => inferInstanceAs (Decidable (_ ∧ IsNumeric _))
  | some (_ :: _) => inferInstanceAs (Decidable (_ ∧ IsNumeric _ ∧ _))

/-- `cm_srdi_element_save` behind its strings: the lookup, and what follows its answer. -/
theorem cmSrdiElementSaveStrings_run (E : Engine) (dbSpace : DBSpace) (v : SrdiStrings)
    (expiration : Int) (replica : Bool) (now : Int) (m : Memory) :
    let w := writeAll (srdiValues v expiration now) m
    let table := if replica then Table.replica else .srdi
    let q := cmSrdiItemFoundSelect dbSpace table v.jNameSpace v.jHandler v.jPeerid v.jAdvid
      v.jAttribute now w.2
    let update := (cmSrdiItemUpdate dbSpace table v.jHandler v.jPeerid v.jAdvid v.jAttribute
      v.jValue v.jRange expiration now q.2).1
    (cmSrdiElementSaveStrings E dbSpace v expiration replica now m).1 =
      match E.select q.1 with
      | none => ([q.1], .failed)
      | some [] => ([q.1, .insert table w.1],
          if E.query (.insert table w.1) then .itemNotfound else .failed)
      | some (_ :: _) => ([q.1, update], E.status update) := by
  intro w table q update
  have hfound : cmSrdiItemFound E dbSpace table v.jNameSpace v.jHandler v.jPeerid v.jAdvid
      v.jAttribute now w.2 = ((q.1, lookupStatus (E.select q.1)), q.2) := rfl
  unfold cmSrdiElementSaveStrings
  rw [run_bind]
  dsimp only
  rw [run_bind, hfound]
  dsimp only
  cases E.select q.1 with
  | none => rfl
  | some rows => cases rows with
    | nil => rfl
    | cons row rows => rfl

theorem written_srdiValues (expiration now : Int) :
    written (srdiValues v expiration now) = v.jNameSpace :: v.jHandler :: v.jPeerid :: v.jAdvid ::
      v.jAttribute :: v.jValue :: (v.jRange.toList ++ [v.jGroupID]) := by
  obtain ⟨jNameSpace, jHandler, jPeerid, jAdvid, jAttribute, jValue, jRange, jGroupID⟩ := v
  cases jRange <;> rfl

theorem numerics_srdiValues (expiration now : Int) :
    numerics (srdiValues v expiration now) = [v.jValue] := by
  obtain ⟨jNameSpace, jHandler, jPeerid, jAdvid, jAttribute, jValue, jRange, jGroupID⟩ := v
  cases jRange <;> rfl

/-- The values of an update, in which every string is written for the second time. -/
def srdiUpdateSources (v : SrdiStrings) (jId : Nat) (expiration now : Int) : List Source :=
  [.printed (lifetimeGet now expiration), .value (some v.jValue), .numeric (some v.jValue),
    .value v.jRange, .value (some v.jAdvid), .value (some v.jHandler), .value (some v.jAttribute),
    .value (some v.jPeerid), .value (some (.caller jId))]

theorem written_srdiUpdateSources (jId : Nat) (expiration now : Int) :
    written (srdiUpdateSources v jId expiration now) = v.jValue :: (v.jRange.toList ++
      [v.jAdvid, v.jHandler, v.jAttribute, v.jPeerid, .caller jId]) := by
  obtain ⟨jNameSpace, jHandler, jPeerid, jAdvid, jAttribute, jValue, jRange, jGroupID⟩ := v
  cases jRange <;> rfl

theorem numerics_srdiUpdateSources (jId : Nat) (expiration now : Int) :
    numerics (srdiUpdateSources v jId expiration now) = [v.jValue] := by
  obtain ⟨jNameSpace, jHandler, jPeerid, jAdvid, jAttribute, jValue, jRange, jGroupID⟩ := v
  cases jRange <;> rfl

/-- The strings of an entry: distinct, the function's own, and new. -/
structure SrdiStrings.Fresh (v : SrdiStrings) (m : Memory) : Prop where
  nodup : (v.jNameSpace :: v.jHandler :: v.jPeerid :: v.jAdvid :: v.jAttribute :: v.jValue ::
    (v.jRange.toList ++ [v.jGroupID])).Nodup
  own : ∀ r ∈ v.jNameSpace :: v.jHandler :: v.jPeerid :: v.jAdvid :: v.jAttribute :: v.jValue ::
    (v.jRange.toList ++ [v.jGroupID]), ∃ k < m.made, r = .own k
  intact : ∀ r ∈ v.jNameSpace :: v.jHandler :: v.jPeerid :: v.jAdvid :: v.jAttribute ::
    v.jValue :: (v.jRange.toList ++ [v.jGroupID]), (m.jstring r).Intact

/-- The lookup of `cm_srdi_element_save` writes the strings of the entry for the second time. -/
theorem srdiLookup_faithful_iff {v : SrdiStrings} (hv : v.Fresh m) (dbSpace : DBSpace)
    (hgroup : (m.jstring (.caller dbSpace.jId)).Intact) (table : Table) (expiration now : Int) :
    let w := writeAll (srdiValues v expiration now) m
    (∀ l ∈ (cmSrdiItemFoundSelect dbSpace table v.jNameSpace v.jHandler v.jPeerid v.jAdvid
        v.jAttribute now w.2).1.literals, l.Faithful) ↔
      ∀ r ∈ [v.jNameSpace, v.jHandler, v.jPeerid, v.jAdvid, v.jAttribute],
        39 ∉ (m.jstring r).given := by
  intro w
  obtain ⟨hnodup, hown, hintact⟩ := hv
  rw [← written_srdiValues v expiration now] at hnodup hown hintact
  have hmade : w.2.made = m.made := writeAll_made _ m
  have hcaller : Ref.caller dbSpace.jId ∉ written (srdiValues v expiration now) := by
    intro h
    obtain ⟨k, -, hk⟩ := hown _ h
    exact absurd hk (by simp)
  have hw {r : Ref} (hr : r ∈ written (srdiValues v expiration now)) :
      (w.2.jstring r).Intact ↔ 39 ∉ (m.jstring r).given := by
    rw [writeAll_of_mem hnodup hr m]
    exact JString.escaped_intact_iff (hintact r hr)
  have hg : (w.2.jstring (.caller dbSpace.jId)).Intact := by
    rw [writeAll_of_not_mem hcaller m]
    exact hgroup
  rw [written_srdiValues] at hown hw
  obtain ⟨ns, -, hns⟩ := hown v.jNameSpace (by simp)
  obtain ⟨h, hh, hhandler⟩ := hown v.jHandler (by simp)
  obtain ⟨p, hp, hpeerid⟩ := hown v.jPeerid (by simp)
  obtain ⟨a, ha, hadvid⟩ := hown v.jAdvid (by simp)
  obtain ⟨n, hn, hname⟩ := hown v.jAttribute (by simp)
  have hsound : (∀ l ∈ (cmSrdiItemFoundSelect dbSpace table (.own ns) (.own h) (.own p) (.own a)
      (.own n) now w.2).1.literals, l.Faithful) ↔
        ∀ k ∈ [ns, h, p, a, n], (w.2.jstring (.own k)).Intact :=
    cmSrdiItemFoundSelect_faithful_iff dbSpace table now (hmade ▸ hh) (hmade ▸ hp) (hmade ▸ ha)
      (hmade ▸ hn) hg
  rw [hns, hhandler, hpeerid, hadvid, hname, hsound]
  simp only [forall_mem_cons]
  rw [← hns, ← hhandler, ← hpeerid, ← hadvid, ← hname, hw (by simp), hw (by simp), hw (by simp),
    hw (by simp), hw (by simp)]
  simp

/-- The update of `cm_srdi_element_save` writes the value, the range and the names of the entry for
the second time, and so it does the group. -/
theorem srdiUpdate_faithful_iff {v : SrdiStrings} (hv : v.Fresh m) (dbSpace : DBSpace)
    (hgroup : (m.jstring (.caller dbSpace.jId)).Intact) (table : Table) (expiration now : Int) :
    let w := writeAll (srdiValues v expiration now) m
    let q := cmSrdiItemFoundSelect dbSpace table v.jNameSpace v.jHandler v.jPeerid v.jAdvid
        v.jAttribute now w.2
    (∀ l ∈ (cmSrdiItemUpdate dbSpace table v.jHandler v.jPeerid v.jAdvid v.jAttribute v.jValue
        v.jRange expiration now q.2).1.literals, l.Faithful) ↔
      (∀ r ∈ v.jValue :: (v.jRange.toList ++ [v.jAdvid, v.jHandler, v.jAttribute, v.jPeerid,
        .caller dbSpace.jId]), 39 ∉ (m.jstring r).given) ∧ IsNumeric (m.jstring v.jValue).given := by
  intro w q
  obtain ⟨hnodup, hown, hintact⟩ := hv
  rw [← written_srdiValues v expiration now] at hnodup hown hintact
  have hmade : w.2.made = m.made := writeAll_made _ m
  have hcaller : Ref.caller dbSpace.jId ∉ written (srdiValues v expiration now) := by
    intro h
    obtain ⟨k, -, hk⟩ := hown _ h
    exact absurd hk (by simp)
  have hq {r : Ref} (hr : r ∈ written (srdiValues v expiration now)) :
      q.2.jstring r = (m.jstring r).escaped := by
    obtain ⟨k, hk, rfl⟩ := hown r hr
    rw [← writeAll_of_mem hnodup hr m]
    exact cmSrdiItemFoundSelect_own dbSpace table _ _ _ _ _ now (hmade ▸ hk)
  have hqg : q.2.jstring (.caller dbSpace.jId) = (m.jstring (.caller dbSpace.jId)).escaped := by
    rw [← writeAll_of_not_mem hcaller m]
    exact cmSrdiItemFoundSelect_group dbSpace table _ _ _ _ _ now w.2
  have hsecond {r : Ref} (hr : r ∈ written (srdiUpdateSources v dbSpace.jId expiration now)) :
      q.2.jstring r = (m.jstring r).escaped ∧ (m.jstring r).Intact := by
    by_cases hr' : r = .caller dbSpace.jId
    · rw [hr']
      exact ⟨hqg, hgroup⟩
    · have hmem : r ∈ written (srdiValues v expiration now) := by
        rw [written_srdiUpdateSources] at hr
        rw [written_srdiValues]
        simp only [mem_cons, mem_append, not_mem_nil, or_false] at hr ⊢
        tauto
      exact ⟨hq hmem, hintact r hmem⟩
  have hnodup' : (written (srdiUpdateSources v dbSpace.jId expiration now)).Nodup := by
    rw [written_srdiUpdateSources]
    rw [written_srdiValues] at hnodup hcaller
    simp only [nodup_cons, nodup_append, mem_cons, mem_append,
      not_mem_nil, not_or, or_false] at hnodup hcaller ⊢
    grind
  rw [cmSrdiItemUpdate_literals]
  refine (writeAll_faithful_iff (srdiUpdateSources v dbSpace.jId expiration now) q.2).trans ?_
  rw [writesWell_of_nodup hnodup', numerics_srdiUpdateSources, forall_mem_singleton,
    (hsecond (by rw [written_srdiUpdateSources]; simp)).1, JString.escaped_given]
  apply and_congr_left'
  rw [← written_srdiUpdateSources v dbSpace.jId expiration now]
  apply forall₂_congr
  intro r hr
  rw [(hsecond hr).1]
  exact JString.escaped_intact_iff (hsecond hr).2

/-- The values of `cm_srdi_element_save` behind its strings. -/
theorem cmSrdiElementSaveStrings_faithful_iff (rows : Option (List ResultRow)) (rv : Bool)
    (dbSpace : DBSpace) {v : SrdiStrings} (expiration : Int) (replica : Bool) (now : Int)
    (hv : v.Fresh m) (hgroup : (m.jstring (.caller dbSpace.jId)).Intact) :
    AllFaithful (cmSrdiElementSaveStrings (.answering rows rv) dbSpace v expiration replica now
        m).1.1 ↔
      (∀ r ∈ [v.jNameSpace, v.jHandler, v.jPeerid, v.jAdvid, v.jAttribute],
        39 ∉ (m.jstring r).given) ∧
      match rows with
      | none => True
      | some [] => IsNumeric (m.jstring v.jValue).given
      | some (_ :: _) => IsNumeric (m.jstring v.jValue).given ∧
          ∀ r ∈ v.jValue :: (v.jRange.toList ++ [.caller dbSpace.jId]),
            39 ∉ (m.jstring r).given := by
  have hlookup := srdiLookup_faithful_iff hv dbSpace hgroup
    (if replica then Table.replica else .srdi) expiration now
  have hupdate := srdiUpdate_faithful_iff hv dbSpace hgroup
    (if replica then Table.replica else .srdi) expiration now
  have hvalues := writeAll_faithful_iff (srdiValues v expiration now) m
  obtain ⟨hnodup, -, hintact⟩ := hv
  rw [← written_srdiValues v expiration now] at hnodup hintact
  rw [writesWell_of_nodup hnodup, and_iff_right hintact, numerics_srdiValues,
    forall_mem_singleton] at hvalues
  rw [cmSrdiElementSaveStrings_run]
  dsimp only [Engine.answering] at hlookup hupdate hvalues ⊢
  cases rows with
  | none =>
    dsimp only
    rw [allFaithful_one, and_true]
    exact hlookup
  | some rows =>
    cases rows with
    | nil =>
      dsimp only
      rw [allFaithful_cons, allFaithful_one]
      exact and_congr hlookup hvalues
    | cons row rows =>
      dsimp only at hupdate ⊢
      rw [allFaithful_cons, allFaithful_one, hupdate]
      refine (and_congr_left' hlookup).trans ?_
      simp only [forall_mem_cons, forall_mem_append]
      tauto

theorem cmSrdiElementSave_run (E : Engine) (dbSpace : DBSpace) (handler peerid : Option Nat)
    {entry : SRDIEntryElement} (hkey : entry.key = some key) (replica : Bool) (now : Int)
    (m : Memory) : let v := srdiStrings dbSpace handler peerid entry key m
    let saved := cmSrdiElementSaveStrings E dbSpace v.1 entry.expiration replica now v.2
    (cmSrdiElementSave E dbSpace handler peerid entry replica now m).1 =
      (saved.1.1, .ok saved.1.2) := by
  intro v saved
  unfold cmSrdiElementSave
  rw [hkey]
  dsimp only
  rw [run_bind, run_bind]
  show _ = (saved.1.1, _)
  have hsaved : saved = cmSrdiElementSaveStrings E dbSpace v.1 entry.expiration replica now v.2 :=
    rfl
  rw [← hsaved]
  rfl

/-- `cm_srdi_element_save` is faithful where its entry is sound. -/
theorem cmSrdiElementSave_faithful_iff (rows : Option (List ResultRow)) (rv : Bool)
    (dbSpace : DBSpace) (handler peerid : Option Nat) (entry : SRDIEntryElement)
    (hkey : entry.key = some key) (replica : Bool) (now : Int) (strings : Nat → List Byte) :
    AllFaithful (cmSrdiElementSave (.answering rows rv) dbSpace handler peerid entry replica now
        (.start strings)).1.1 ↔ SrdiElementSound strings rows dbSpace handler peerid entry key := by
  have hhandler : 39 ∉ textOr strings handler (text "NoHandler") ↔ QuoteFree strings handler :=
    quoteFree_textOr (by decide)
  have hpeerid : 39 ∉ textOr strings peerid (text "NoPeerid") ↔ QuoteFree strings peerid :=
    quoteFree_textOr (by decide)
  have hvalue : 39 ∉ textOr strings entry.value [] ↔ QuoteFree strings entry.value :=
    quoteFree_textOr not_mem_nil
  rw [cmSrdiElementSave_run _ dbSpace handler peerid hkey, srdiStrings_run]
  unfold SrdiElementSound
  cases hrange : entry.range with
  | none =>
    dsimp only
    rw [cmSrdiElementSaveStrings_faithful_iff]
    · simp [Memory.named, quoteFree_savedNameSpaceText, hhandler, hpeerid, hvalue, quoteFree_advId]
    · constructor <;> simp [Memory.named]
    · simp [Memory.named]
  | some range =>
    dsimp only
    rw [cmSrdiElementSaveStrings_faithful_iff]
    · simp [Memory.named, quoteFree_savedNameSpaceText, hhandler, hpeerid, hvalue, quoteFree_advId]
    · constructor <;> simp [Memory.named]
    · simp [Memory.named]

end JxtaC.Cm
