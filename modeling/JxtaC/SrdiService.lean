import JxtaC.Message

/-
  The SRDI service (jxta_srdi_service_ref.c): the entries of an SRDI message, and
  `record_delta_entry`. The cache manager is a parameter, since the function looks at its answer only:
  a status, a number, and whether the value has changed; the new value is a copy of the entry's.
-/

namespace JxtaC.SrdiService

/-- `Jxta_SRDIEntryElement`. -/
structure SRDIEntryElement where
  expiration : Int
  key : Option CString
  value : Option CString
  nameSpace : Option CString
  advId : Option CString
  range : Option CString
  seqNumber : Nat
  resend : Bool
  deriving DecidableEq

/-! ## the deltas -/

/-- What `cm_save_delta_entry` answers. It may have given the entry a number. -/
structure DeltaSaved where
  status : Status
  entry : SRDIEntryElement
  newValue : Bool
  newSeqNumber : Nat

namespace DeltaSaved
variable (saved : DeltaSaved)

/-- The number that the entry goes by. -/
def number : Nat := if saved.newSeqNumber > 0 then saved.newSeqNumber else saved.entry.seqNumber

/-- The entry that stays in the message. -/
def recorded : SRDIEntryElement :=
  let entry := { saved.entry with seqNumber := saved.number }
  if saved.status = .success then
    { entry with
      value := if saved.newValue then entry.value else none
      key := none
      advId := none
      nameSpace := none }
  else entry

end DeltaSaved

/-- `record_delta_entry` in its loop: `calls` are those of `cm_save_delta_entry`. -/
structure Recording (Cm : Type) where
  cm : Cm
  entries : List SRDIEntryElement
  seqHash : List Nat
  calls : List (SRDIEntryElement × DeltaSaved)
  res : Status

section Record
variable {Cm : Type} (save : Cm → SRDIEntryElement → Cm × DeltaSaved)

/-- The loop's turn for the entry with index `i`. -/
def Recording.turn (r : Recording Cm) (i : Nat) (entry : SRDIEntryElement) : Recording Cm :=
  let (cm, saved) := save r.cm entry
  let r := { r with cm := cm, calls := r.calls ++ [(entry, saved)], res := saved.status }
  if saved.number ∈ r.seqHash then { r with entries := r.entries.eraseIdx i }
  else { r with entries := r.entries.set i saved.recorded, seqHash := saved.number :: r.seqHash }

theorem Recording.length_turn_le (r : Recording Cm) (i : Nat) (entry : SRDIEntryElement) :
    (r.turn save i entry).entries.length ≤ r.entries.length := by
  unfold turn
  dsimp only
  split
  · exact List.length_eraseIdx_le _ _
  · exact Nat.le_of_eq List.length_set

/-- The loop, from the index `i` on. -/
def recordLoop (r : Recording Cm) (i : Nat) : Recording Cm :=
  if h : i < r.entries.length then recordLoop (r.turn save i r.entries[i]) (i + 1) else r
termination_by r.entries.length - i
decreasing_by
  have hle := r.length_turn_le save i r.entries[i]
  omega

end Record

/-- `record_delta_entry`. -/
def recordDeltaEntry {Cm : Type} (isRendezvous : Bool)
    (save : CString → Cm → SRDIEntryElement → Cm × DeltaSaved) (peer : Option CString) (cm : Cm)
    (entries : List SRDIEntryElement) : Recording Cm :=
  match peer with
  | none =>
    if isRendezvous then ⟨cm, entries, [], [], .success⟩
    else recordLoop (save (.ofBuffer (text "NoPeer"))) ⟨cm, entries, [], [], .success⟩ 0
  | some jPeer => recordLoop (save jPeer) ⟨cm, entries, [], [], .success⟩ 0

end JxtaC.SrdiService
