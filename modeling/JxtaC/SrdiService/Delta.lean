import JxtaC.SrdiService

/-
  The deltas of an SRDI message (`record_delta_entry`). A repeated number is taken out of the vector
  that the loop goes over, and the loop goes on behind the entry that has taken its place: that entry
  is neither saved nor compared. So only the last entry may repeat a number (`deltas_iff`).
-/

namespace JxtaC.SrdiService

open List

/-! ## the claim of the function -/

def sameNumber (a b : DeltaSaved) : Bool := a.number == b.number

/-- What becomes of a kept entry. -/
structure Kept (saved : DeltaSaved) (entry : SRDIEntryElement) : Prop where
  number : entry.seqNumber = saved.number
  known : saved.status = .success →
    entry.key = none ∧ entry.advId = none ∧ entry.nameSpace = none
  unknown : saved.status ≠ .success → entry.key = saved.entry.key ∧
    entry.advId = saved.entry.advId ∧ entry.nameSpace = saved.entry.nameSpace

/-- Every entry is saved once, and the first one of every number is kept. -/
structure Recorded {Cm : Type} (entries : List SRDIEntryElement) (r : Recording Cm) : Prop where
  calls : r.calls.map Prod.fst = entries
  kept : List.Forall₂ Kept ((r.calls.map Prod.snd).eraseDupsBy sameNumber) r.entries

theorem DeltaSaved.kept (saved : DeltaSaved) : Kept saved saved.recorded := by
  unfold DeltaSaved.recorded
  by_cases h : saved.status = .success
  · rw [if_pos h]
    exact ⟨rfl, fun _ => ⟨rfl, rfl, rfl⟩, fun hne => absurd h hne⟩
  · rw [if_neg h]
    exact ⟨rfl, fun hs => absurd hs h, fun _ => ⟨rfl, rfl, rfl⟩⟩

theorem forall₂_kept (answers : List DeltaSaved) :
    List.Forall₂ Kept answers (answers.map DeltaSaved.recorded) := by
  induction answers with
  | nil => exact .nil
  | cons saved answers ih => exact .cons saved.kept ih

section Loop
variable {Cm : Type} (save : Cm → SRDIEntryElement → Cm × DeltaSaved)
variable {seqHash : List Nat} (cm : Cm)

/-- What the cache manager answers to all the entries in order. -/
def answers : Cm → List SRDIEntryElement → List DeltaSaved
  | _, [] => []
  | cm, entry :: rest => (save cm entry).2 :: answers (save cm entry).1 rest

/-- What the loop makes of the entries that are ahead of it: the calls, and the entries that stay. -/
def ahead : Cm → List Nat → List SRDIEntryElement →
    List (SRDIEntryElement × DeltaSaved) × List SRDIEntryElement
  | _, _, [] => ([], [])
  | cm, seqHash, entry :: rest =>
    let (cm, saved) := save cm entry
    if saved.number ∈ seqHash then
      -- the next entry moves to the index that is done
      match rest with
      | [] => ([(entry, saved)], [])
      | skipped :: rest =>
        let (calls, entries) := ahead cm seqHash rest
        ((entry, saved) :: calls, skipped :: entries)
    else
      let (calls, entries) := ahead cm (saved.number :: seqHash) rest
      ((entry, saved) :: calls, saved.recorded :: entries)

theorem recordLoop_ahead (rest done : List SRDIEntryElement) (r : Recording Cm)
    (hentries : r.entries = done ++ rest) :
    (recordLoop save r done.length).calls = r.calls ++ (ahead save r.cm r.seqHash rest).1 ∧
      (recordLoop save r done.length).entries = done ++ (ahead save r.cm r.seqHash rest).2 := by
  match rest with
  | [] =>
    have hend : recordLoop save r done.length = r := by
      unfold recordLoop
      exact dif_neg (by rw [hentries, append_nil]; exact Nat.lt_irrefl _)
    rw [hend]
    exact ⟨(append_nil _).symm, hentries⟩
  | entry :: rest =>
    have hlt : done.length < r.entries.length := by
      rw [hentries, length_append, length_cons]
      omega
    have hget : r.entries[done.length] = entry := by
      rw [getElem_of_eq hentries, getElem_append_right (Nat.le_refl _)]
      simp
    have hturn : recordLoop save r done.length =
        recordLoop save (r.turn save done.length entry) (done.length + 1) := by
      rw [recordLoop, dif_pos hlt, hget]
    rw [hturn]
    unfold Recording.turn ahead
    generalize save r.cm entry = answer
    obtain ⟨cm, saved⟩ := answer
    dsimp only
    by_cases hmem : saved.number ∈ r.seqHash
    · rw [if_pos hmem, if_pos hmem]
      have herase : r.entries.eraseIdx done.length = done ++ rest := by
        rw [hentries, eraseIdx_append_of_length_le (Nat.le_refl _), Nat.sub_self]
        rfl
      match rest with
      | [] =>
        rw [herase, recordLoop, dif_neg (by simp)]
        exact ⟨rfl, rfl⟩
      | skipped :: rest =>
        have hrec := recordLoop_ahead rest (done ++ [skipped])
          { r with cm := cm, entries := r.entries.eraseIdx done.length,
                   calls := r.calls ++ [(entry, saved)], res := saved.status }
          (by dsimp only; rw [herase, append_assoc, singleton_append])
        rw [length_append, length_singleton] at hrec
        dsimp only at hrec ⊢
        rw [hrec.1, hrec.2]
        simp
    · rw [if_neg hmem, if_neg hmem]
      have hset : r.entries.set done.length saved.recorded = done ++ saved.recorded :: rest := by
        rw [hentries, set_append_right _ _ (Nat.le_refl _), Nat.sub_self, set_cons_zero]
      have hrec := recordLoop_ahead rest (done ++ [saved.recorded])
        { r with cm := cm, entries := r.entries.set done.length saved.recorded,
                 seqHash := saved.number :: r.seqHash,
                 calls := r.calls ++ [(entry, saved)], res := saved.status }
        (by dsimp only; rw [hset, append_assoc, singleton_append])
      rw [length_append, length_singleton] at hrec
      dsimp only at hrec ⊢
      rw [hrec.1, hrec.2]
      simp
termination_by rest.length

/-- Only the last of the numbers is one of those before it or of these. -/
def Fresh (seqHash numbers : List Nat) : Prop :=
  numbers.dropLast.Nodup ∧ ∀ n ∈ numbers.dropLast, n ∉ seqHash

theorem fresh_cons {numbers : List Nat} {n m : Nat} :
    Fresh seqHash (n :: m :: numbers) ↔ n ∉ seqHash ∧ Fresh (n :: seqHash) (m :: numbers) := by
  unfold Fresh
  rw [List.dropLast_cons₂]
  constructor
  · rintro ⟨hnodup, hnot⟩
    obtain ⟨hn, hnodup⟩ := nodup_cons.mp hnodup
    refine ⟨hnot n mem_cons_self, hnodup, fun k hk hmem => ?_⟩
    rcases mem_cons.mp hmem with rfl | hmem
    · exact hn hk
    · exact hnot k (mem_cons_of_mem _ hk) hmem
  · rintro ⟨hn, hnodup, hnot⟩
    refine ⟨nodup_cons.mpr ⟨fun hk => hnot n hk mem_cons_self, hnodup⟩, fun k hk => ?_⟩
    rcases mem_cons.mp hk with rfl | hk
    · exact hn
    · exact fun hmem => hnot k hk (mem_cons_of_mem _ hmem)

theorem fresh_of_length_le_one {numbers : List Nat} (h : numbers.length ≤ 1) :
    Fresh seqHash numbers := by
  have hnil : numbers.dropLast = [] := eq_nil_of_length_eq_zero (by
    rw [length_dropLast]
    omega)
  unfold Fresh
  rw [hnil]
  exact ⟨nodup_nil, fun _ h => absurd h not_mem_nil⟩

/-- An entry is saved at most once. -/
theorem length_ahead_le (seqHash : List Nat) (rest : List SRDIEntryElement) :
    (ahead save cm seqHash rest).1.length ≤ rest.length := by
  fun_induction ahead save cm seqHash rest with
  | case1 => exact Nat.le_refl 0
  | case2 => exact Nat.le_refl 1
  | case3 _ _ _ _ _ _ _ _ _ _ _ hahead ih =>
    rw [hahead] at ih
    exact Nat.succ_le_succ (Nat.le_succ_of_le ih)
  | case4 _ _ _ _ _ _ _ _ _ _ hahead ih =>
    rw [hahead] at ih
    exact Nat.succ_le_succ ih

/-- The answers to entries with new numbers. -/
def newest (seqHash : List Nat) (saved : List DeltaSaved) : List DeltaSaved :=
  (saved.filter fun s => s.number ∉ seqHash).eraseDupsBy sameNumber

theorem newest_cons_old {s : DeltaSaved} (h : s.number ∈ seqHash) (saved : List DeltaSaved) :
    newest seqHash (s :: saved) = newest seqHash saved := by
  unfold newest
  rw [filter_cons_of_neg (by simpa using h)]

theorem newest_cons_new {s : DeltaSaved} (h : s.number ∉ seqHash) (saved : List DeltaSaved) :
    newest seqHash (s :: saved) = s :: newest (s.number :: seqHash) saved := by
  unfold newest
  rw [filter_cons_of_pos (by simpa using h), eraseDupsBy_cons, filter_filter]
  congr 2
  apply filter_congr
  intro a _
  simp [sameNumber]

/-- If only the last number is an old one, every entry is saved and the first of every number stays. -/
theorem ahead_fresh (seqHash : List Nat) (rest : List SRDIEntryElement)
    (h : Fresh seqHash ((answers save cm rest).map DeltaSaved.number)) :
    (ahead save cm seqHash rest).1 = rest.zip (answers save cm rest) ∧
      (ahead save cm seqHash rest).2 =
        (newest seqHash (answers save cm rest)).map DeltaSaved.recorded := by
  induction rest generalizing cm seqHash with
  | nil => exact ⟨rfl, rfl⟩
  | cons entry rest ih =>
    unfold answers ahead
    generalize hsave : save cm entry = answer
    obtain ⟨cm', saved⟩ := answer
    dsimp only
    have hanswers : answers save cm (entry :: rest) = saved :: answers save cm' rest := by
      rw [answers, hsave]
    rw [hanswers] at h
    by_cases hmem : saved.number ∈ seqHash
    · rw [if_pos hmem, newest_cons_old hmem]
      match rest with
      | [] => exact ⟨rfl, rfl⟩
      | next :: rest =>
        rw [answers, map_cons, map_cons] at h
        exact absurd hmem (fresh_cons.mp h).1
    · have hfresh : Fresh (saved.number :: seqHash) ((answers save cm' rest).map DeltaSaved.number) := by
        match rest with
        | [] => exact fresh_of_length_le_one (Nat.zero_le 1)
        | next :: rest =>
          rw [answers, map_cons, map_cons] at h
          exact (fresh_cons.mp h).2
      obtain ⟨hcalls, hentries⟩ := ih cm' (saved.number :: seqHash) hfresh
      rw [if_neg hmem, newest_cons_new hmem, hcalls, hentries]
      exact ⟨rfl, rfl⟩

/-- Otherwise an entry is left out. -/
theorem ahead_not_fresh (seqHash : List Nat) (rest : List SRDIEntryElement)
    (h : ¬ Fresh seqHash ((answers save cm rest).map DeltaSaved.number)) :
    (ahead save cm seqHash rest).1.length < rest.length := by
  induction rest generalizing cm seqHash with
  | nil => exact absurd (@fresh_of_length_le_one seqHash [] (Nat.zero_le 1)) h
  | cons entry rest ih =>
    unfold ahead
    generalize hsave : save cm entry = answer
    obtain ⟨cm', saved⟩ := answer
    dsimp only
    have hanswers : answers save cm (entry :: rest) = saved :: answers save cm' rest := by
      rw [answers, hsave]
    rw [hanswers] at h
    match rest with
    | [] => exact absurd (@fresh_of_length_le_one seqHash [saved.number] (Nat.le_refl 1)) h
    | next :: rest =>
      by_cases hmem : saved.number ∈ seqHash
      · rw [if_pos hmem]
        exact Nat.succ_lt_succ (Nat.lt_succ_of_le (length_ahead_le save cm' seqHash rest))
      · rw [if_neg hmem]
        refine Nat.succ_lt_succ (ih cm' (saved.number :: seqHash) fun hfresh => h ?_)
        rw [answers, map_cons] at hfresh
        rw [answers, map_cons, map_cons]
        exact fresh_cons.mpr ⟨hmem, hfresh⟩

theorem length_answers (entries : List SRDIEntryElement) :
    (answers save cm entries).length = entries.length := by
  induction entries generalizing cm with
  | nil => rfl
  | cons entry entries ih => rw [answers, length_cons, length_cons, ih]

theorem recordLoop_recorded (entries : List SRDIEntryElement) :
    Recorded entries (recordLoop save ⟨cm, entries, [], [], .success⟩ 0) ↔
      ((answers save cm entries).map DeltaSaved.number).dropLast.Nodup := by
  obtain ⟨hcalls, hentries⟩ := recordLoop_ahead save entries [] ⟨cm, entries, [], [], .success⟩ rfl
  rw [nil_append] at hcalls hentries
  dsimp only [length_nil] at hcalls hentries
  have hlen := length_answers save cm entries
  constructor
  · intro h
    by_contra hnot
    have hless := ahead_not_fresh save cm [] entries fun hfresh => hnot hfresh.1
    have hall := congrArg List.length h.calls
    rw [length_map] at hall
    refine absurd hall (Nat.ne_of_lt ?_)
    rwa [hcalls]
  · intro hnodup
    obtain ⟨hzip, hkept⟩ := ahead_fresh save cm [] entries
      ⟨hnodup, fun _ _ => not_mem_nil⟩
    rw [hzip] at hcalls
    rw [hkept] at hentries
    constructor
    · rw [hcalls, map_fst_zip (Nat.le_of_eq hlen.symm)]
    · rw [hcalls, map_snd_zip (Nat.le_of_eq hlen), hentries]
      have hnewest : newest [] (answers save cm entries) =
          (answers save cm entries).eraseDupsBy sameNumber := by
        unfold newest
        rw [filter_eq_self.mpr fun _ _ => decide_eq_true not_mem_nil]
      rw [hnewest]
      exact forall₂_kept _

end Loop

/-- The name of the peer that the deltas are for; a rendezvous has none for all peers. -/
def deltaPeer (isRendezvous : Bool) (peer : Option CString) : Option CString :=
  match peer with
  | none => if isRendezvous then none else some (.ofBuffer (text "NoPeer"))
  | some jPeer => some jPeer

/-- Every entry is saved once, and the first of every number is kept, if and only if the deltas are
for a peer and no entry but the last has a number that one before it has. -/
theorem deltas_iff {Cm : Type} (isRendezvous : Bool)
    (save : CString → Cm → SRDIEntryElement → Cm × DeltaSaved) (peer : Option CString) (cm : Cm)
    (entries : List SRDIEntryElement) :
    Recorded entries (recordDeltaEntry isRendezvous save peer cm entries) ↔
      entries = [] ∨ ∃ jPeer, deltaPeer isRendezvous peer = some jPeer ∧
        ((answers (save jPeer) cm entries).map DeltaSaved.number).dropLast.Nodup := by
  by_cases hnil : entries = []
  · refine iff_of_true ?_ (.inl hnil)
    subst hnil
    unfold recordDeltaEntry
    have hloop : ∀ jPeer, Recorded [] (recordLoop (save jPeer) ⟨cm, [], [], [], .success⟩ 0) :=
      fun jPeer => (recordLoop_recorded (save jPeer) cm []).mpr nodup_nil
    match peer with
    | some jPeer => exact hloop jPeer
    | none =>
      match isRendezvous with
      | true => exact ⟨rfl, .nil⟩
      | false => exact hloop _
  · rw [or_iff_right hnil]
    unfold recordDeltaEntry deltaPeer
    match peer, isRendezvous with
    | some jPeer, _ => simpa using recordLoop_recorded (save jPeer) cm entries
    | none, false => simpa using recordLoop_recorded (save (.ofBuffer (text "NoPeer"))) cm entries
    | none, true =>
      refine iff_of_false (fun h => hnil ?_) (by simp)
      exact h.calls.symm

/-- A cache manager that numbers the keys it has seen. -/
def numberKeys (known : List (Option CString × Nat)) (entry : SRDIEntryElement) :
    List (Option CString × Nat) × DeltaSaved :=
  match known.lookup entry.key with
  | some seqNumber => (known, ⟨.success, entry, false, seqNumber⟩)
  | none =>
    let seqNumber := known.length + 1
    ((entry.key, seqNumber) :: known,
      ⟨.itemNotfound, { entry with seqNumber := seqNumber }, false, 0⟩)

/-- An entry with this key and no number. -/
def entryOf (key : List Byte) : SRDIEntryElement :=
  ⟨0, some (.ofBuffer key), some (.ofBuffer (text "printer")), none, none, none, 0, false⟩

/-- With the keys `Name`, `Name`, `Desc` the last entry is not saved. -/
theorem not_recorded :
    ¬ Recorded [entryOf (text "Name"), entryOf (text "Name"), entryOf (text "Desc")]
      (recordDeltaEntry false (fun _ => numberKeys) none []
        [entryOf (text "Name"), entryOf (text "Name"), entryOf (text "Desc")]) := by
  intro h
  exact absurd ((recordLoop_recorded numberKeys [] _).mp h) (by decide)

end JxtaC.SrdiService
