import JxtaC.Cm.Entries
import JxtaC.Cm.Rows

/-
  Which peers have replicas that match a query (`cm_query_replica` in jxta_cm.c). The rows of a
  SELECT are what the database answers to its text, so a peer matches a sub-query where a row of the
  answer names it. The statements of all sub-queries are sent first here; what is made of the
  answers sends none. A hash table lists its values in some order. Failing allocations are left out.
-/

namespace JxtaC.Cm

open Lib List

/-- A row of the replicas: the INSERT gives each column a text. -/
structure ReplicaRow where
  peerid : CString
  advId : CString
  name : CString
  value : CString
  nameSpace : CString
  timeOut : CString
  timeOutForOthers : CString
  deriving DecidableEq

/-- The columns of `cm_proffer_advertisements_columns_build`. -/
def ReplicaRow.columns (row : ReplicaRow) : DbdRow where
  profid := some row.peerid
  advid := some row.advId
  name := some row.name
  value := some row.value
  nameSpace := some row.nameSpace
  lifetime := some row.timeOut
  expiration := some row.timeOutForOthers
  adv := none

/-- `Jxta_query_element`: the condition, and the operator in front of it. -/
structure QueryElement where
  jSQL : CString
  jBoolean : CString

/-- `SQL_OR`. -/
def sqlOr : CString := .ofBuffer (text " OR ")

/-- The passes of the loop: without any sub-queries there is one, for the name space. -/
def subQueries (queries : List QueryElement) : List (Option QueryElement) :=
  if queries = [] then [none] else queries.map some

/-- What `bool` is in a pass. -/
def isOr (elem : Option QueryElement) : Bool :=
  match elem with
  | none => true
  | some elem => elem.jBoolean = sqlOr

theorem isOr_some (elem : QueryElement) : isOr (some elem) ↔ elem.jBoolean = sqlOr :=
  decide_eq_true_iff

/-! ## the statements -/

section Statements
variable (select : DBSpace → List Byte → Option (List ReplicaRow))

/-- `jNsWhere`. -/
def nameSpaceWhere (jNs : Ref) : Build (List Byte) := do
  let wc ← escapeAt (some jNs) true
  let value ← write (.value (some jNs))
  return text " src.NameSpace" ++ text (if wc then " LIKE " else "=") ++ value.emitted

/-- `jWhere` of a pass. -/
def passWhere (jNsWhere : List Byte) (elem : Option QueryElement) (now : Int) : List Byte :=
  jNsWhere ++ (elem.toList.map fun elem => text " AND " ++ elem.jSQL.bytes).flatten ++
    text " AND  src.TimeOut>" ++ Decimal.ofInt now

/-- The text of `cm_sql_select` on the replicas. -/
def replicaSelect (dbSpace : DBSpace) (jWhere : List Byte) : Build (List Byte) := do
  let group ← write (.value (some (.caller dbSpace.jId)))
  return text " SELECT PeerID,AdvId,Name,Value,NameSpace,TimeOut,TimeOutOthers" ++
    text " FROM tblReplica as src  WHERE " ++ jWhere ++ text " AND GroupID=" ++ group.emitted ++
    text " ORDER BY AdvId,PeerID"

/-- The answers of the databases to one pass; there are none if a SELECT fails. -/
def passAnswers (jWhere : List Byte) : List DBSpace → Build (Option (List (List ReplicaRow)))
  | [] => pure (some [])
  | dbSpace :: dbSpaces => do
    let statement ← replicaSelect dbSpace jWhere
    match select dbSpace statement with
    | none => return none
    | some rows =>
      let answers ← passAnswers jWhere dbSpaces
      return answers.map (rows :: ·)

/-- The answers to the passes; `now i` is the time of the pass `i`. -/
def answersFrom (dbSpaces : List DBSpace) (jNsWhere : List Byte) (now : Nat → Int) (i : Nat) :
    List (Option QueryElement) → Build (Option (List (List (List ReplicaRow))))
  | [] => pure (some [])
  | elem :: elems => do
    match ← passAnswers select (passWhere jNsWhere elem (now i)) dbSpaces with
    | none => return none
    | some answer =>
      let answers ← answersFrom dbSpaces jNsWhere now (i + 1) elems
      return answers.map (answer :: ·)

/-- What the databases answer to a query. -/
def replicaAnswers (dbSpaces : List DBSpace) (nameSpace : Nat) (queries : List QueryElement)
    (now : Nat → Int) : Build (Option (List (List (List ReplicaRow)))) := do
  let jNs ← jstringClone (.caller nameSpace)
  let jNsWhere ← nameSpaceWhere jNs
  answersFrom select dbSpaces jNsWhere now 0 (subQueries queries)

end Statements

/-! ## the peers -/

/-- `cm_arrays_concatenate`. -/
def arraysConcatenate {α : Type} (destination : Option (List α)) (source : List α) :
    Option (List α) :=
  if source = [] then destination else some (destination.getD [] ++ source)

/-- The loop over the databases, on their answers. -/
def passAdds (scan : CString → Option Int) (answer : List (List ReplicaRow)) :
    Exec (Option (List (CacheEntry Unit))) :=
  answer.foldlM (fun adds rows => do
    let tempAdds ← profferAdvertisementsBuild scan (fun _ => (none : Option Unit)) false
      (rows.map ReplicaRow.columns)
    return tempAdds.elim adds (arraysConcatenate adds)) none

/-- The hash tables of the OR and the AND sub-queries. -/
structure Hashes where
  peersHash : Option (List CString)
  andHash : Option (AList fun _ : CString => List CString)

/-- `cache_entry->profid`. -/
def entryPeer (entry : CacheEntry Unit) : Exec CString :=
  match entry.profid with
  | none => .error .nullPointer
  | some peerId => .ok peerId

def putPeer (peersHash : List CString) (peerId : CString) : List CString :=
  if peerId ∈ peersHash then peersHash else peersHash ++ [peerId]

/-- What a pass does with its peers; the value of a SQL text that is there is replaced. -/
def collect (hashes : Hashes) (elem : Option QueryElement) (peers : List CString) : Hashes :=
  let peersHash := hashes.peersHash.getD []
  match elem with
  | none => { hashes with peersHash := some (peers.foldl putPeer peersHash) }
  | some elem =>
    if elem.jBoolean = sqlOr then
      { hashes with peersHash := some (peers.foldl putPeer peersHash) }
    else ⟨some peersHash, some ((hashes.andHash.getD ∅).insert elem.jSQL peers.reverse)⟩

/-- A pass behind its SELECTs: a sub-query without entries is skipped. -/
def pass (scan : CString → Option Int) (hashes : Hashes)
    (asked : Option QueryElement × List (List ReplicaRow)) : Exec Hashes := do
  let adds ← passAdds scan asked.2
  if adds.isNone && asked.1.isSome then return hashes
  let peers ← (adds.getD []).mapM entryPeer
  return collect hashes asked.1 peers

/-- The loop body that picks the least popular results: `leastPopular` is that of the first one. -/
def pickResult (state : Nat × List (List CString)) (result : List CString) :
    Nat × List (List CString) :=
  let (leastPopular, finalResult) := state
  let size := result.length
  if leastPopular = 0 then (size, result :: finalResult)
  else if size = leastPopular then (leastPopular, result :: finalResult)
  else if size < leastPopular then (leastPopular, [result])
  else (leastPopular, finalResult)

/-- The peers of the final results go into the hash table of the peers. -/
def combine (andValues : Listing (List CString)) (hashes : Hashes) : Option (List CString) :=
  match hashes.andHash with
  | none => hashes.peersHash
  | some andHash =>
    let results := andValues.list (andHash.entries.map Sigma.snd)
    let finalResult := (results.foldl pickResult (0, [])).2
    if finalResult.flatten = [] then hashes.peersHash
    else some (finalResult.flatten.foldl putPeer (hashes.peersHash.getD []))

/-- `cm_query_replica`: the peers, or NULL. -/
def cmQueryReplica (select : DBSpace → List Byte → Option (List ReplicaRow))
    (scan : CString → Option Int) (andValues : Listing (List CString))
    (peerValues : Listing CString) (dbSpaces : List DBSpace) (nameSpace : Nat)
    (queries : List QueryElement) (now : Nat → Int) : Build (Exec (Option (List CString))) := do
  match ← replicaAnswers select dbSpaces nameSpace queries now with
  | none => return .ok none
  | some answers =>
    return do
      let hashes ← ((subQueries queries).zip answers).foldlM (pass scan) ⟨none, none⟩
      return (combine andValues hashes).map peerValues.list

/-! ## the claim of the peers -/

/-- A row of the answer names the peer. -/
def Selected (answer : List (List ReplicaRow)) (peer : CString) : Prop :=
  ∃ rows ∈ answer, ∃ row ∈ rows, row.peerid = peer

/-- A pass with the answers to its statements. -/
abbrev Pass := Option QueryElement × List (List ReplicaRow)

/-- The peer matches some OR sub-query. -/
def OrMatch (asked : List Pass) (peer : CString) : Prop :=
  ∃ q ∈ asked, isOr q.1 ∧ Selected q.2 peer

/-- There are AND sub-queries, and the peer matches all of them. -/
def AndMatch (asked : List Pass) (peer : CString) : Prop :=
  (∃ q ∈ asked, ¬ isOr q.1) ∧ ∀ q ∈ asked, ¬ isOr q.1 → Selected q.2 peer

/-- The peers are those that the boolean query asks for. -/
def Intersects (asked : List Pass) (peers : List CString) : Prop :=
  peers.Nodup ∧ ∀ peer, peer ∈ peers ↔ OrMatch asked peer ∨ AndMatch asked peer

/-- Of the AND sub-queries that match any peers some are chosen, one at least; the peers are those
    of an OR sub-query or of a chosen one. -/
structure Chooses (queries : List QueryElement) (asked : List Pass) (peers : List CString) :
    Prop where
  nodup : peers.Nodup
  all : queries = [] → ∀ peer, peer ∈ peers ↔ ∃ q ∈ asked, Selected q.2 peer
  chosen : ∃ chosen ⊆ asked, (∀ q ∈ chosen, ¬ isOr q.1 ∧ ∃ peer, Selected q.2 peer) ∧
    ((∃ q ∈ asked, ¬ isOr q.1 ∧ ∃ peer, Selected q.2 peer) → chosen ≠ []) ∧
    ∀ peer, peer ∈ peers ↔ OrMatch asked peer ∨ ∃ q ∈ chosen, Selected q.2 peer
  matching : ∀ peer, OrMatch asked peer ∨ AndMatch asked peer → peer ∈ peers
  agreeing : (∀ q ∈ asked, ∀ q' ∈ asked, ¬ isOr q.1 → ¬ isOr q'.1 →
    ∀ peer, Selected q.2 peer → Selected q'.2 peer) → Intersects asked peers

/-- Without the answer of a database nothing is returned. -/
def ReplicaMeets (meets : List Pass → List CString → Prop) (queries : List QueryElement)
    (answers : Option (List (List (List ReplicaRow)))) (ret : Option (List CString)) : Prop :=
  match answers with
  | none => ret = none
  | some answers => meets ((subQueries queries).zip answers) (ret.getD [])

/-! ## one pass -/

section Proofs
variable (scan : CString → Option Int)
variable {peers : List CString} {asked : List Pass} {hashes : Hashes} {q : Pass}

theorem full_columns (rows : List ReplicaRow) :
    (rows.map ReplicaRow.columns).filterMap (DbdRow.full false) =
      rows.map fun row => (⟨row.peerid, row.advId, row.name, row.value, row.nameSpace,
        row.timeOut, row.timeOutForOthers, none⟩ : FullRow) := by
  rw [filterMap_map]
  exact congrFun filterMap_eq_map' rows

theorem profid_of_entriesOf {Adv : Type} {parseAdv : CString → Option Adv} {advPresent : Bool}
    {runs : List (Lib.Run DbdRow FullRow (CString × CString))} {entries : List (CacheEntry Adv)}
    (h : entriesOf scan parseAdv advPresent runs = some entries) :
    entries.map CacheEntry.profid = (runs.map fun run => run.key.1).map some := by
  have hall := entriesOf_eq_some.mp h
  clear h
  induction hall with
  | nil => rfl
  | cons hentry _ ih =>
    obtain ⟨first, adv, -, -, rfl⟩ := entryOf_eq_some.mp hentry
    rw [map_cons, ih]
    rfl

/-- The entries of the rows of one database are for their peers. -/
theorem build_replica (rows : List ReplicaRow) :
    ∃ tempAdds : Option (List (CacheEntry Unit)),
      profferAdvertisementsBuild scan (fun _ => none) false (rows.map ReplicaRow.columns) =
        .ok tempAdds ∧
      (rows = [] → tempAdds = none) ∧
      (rows ≠ [] → ∃ entries peers, tempAdds = some entries ∧
        entries.map CacheEntry.profid = peers.map some ∧ peers ≠ [] ∧
        ∀ peer, peer ∈ peers ↔ ∃ row ∈ rows, row.peerid = peer) := by
  by_cases hne : rows = []
  · rw [hne]
    exact ⟨none, rfl, fun _ => rfl, fun h => absurd rfl h⟩
  have hfull : (rows.map ReplicaRow.columns).filterMap (DbdRow.full false) ≠ [] := by
    rw [full_columns]
    exact fun h => hne (map_eq_nil_iff.mp h)
  obtain ⟨entries, hentries⟩ : ∃ entries, entriesOf scan (fun _ => (none : Option Unit)) false
      (Lib.Run.runs (DbdRow.full false) FullRow.key [] (rows.map ReplicaRow.columns)) =
        some entries :=
    entriesOf_ne_none fun run hmem =>
      ⟨Lib.Run.own_ne_nil_runs (rows.map ReplicaRow.columns) [] run hmem, fun h => nomatch h⟩
  refine ⟨some entries, ?_, fun h => absurd h hne, fun _ => ?_⟩
  · rw [build_full hfull, hentries]
  · have hkeys (k : CString × CString) :
        k ∈ (Lib.Run.runs (DbdRow.full false) FullRow.key []
          (rows.map ReplicaRow.columns)).map Lib.Run.key ↔
            ∃ b ∈ (rows.map ReplicaRow.columns).filterMap (DbdRow.full false), b.key = k :=
      Lib.Run.mem_keys_runs _ [] k
    rw [full_columns] at hkeys
    have hmem (peer : CString) :
        peer ∈ (Lib.Run.runs (DbdRow.full false) FullRow.key []
          (rows.map ReplicaRow.columns)).map (fun run => run.key.1) ↔
            ∃ row ∈ rows, row.peerid = peer := by
      constructor
      · intro h
        obtain ⟨run, hrun, rfl⟩ := mem_map.mp h
        obtain ⟨full, hfull, hkey⟩ := (hkeys run.key).mp (mem_map_of_mem hrun)
        obtain ⟨row, hrow, rfl⟩ := mem_map.mp hfull
        exact ⟨row, hrow, congrArg Prod.fst hkey⟩
      · rintro ⟨row, hrow, rfl⟩
        obtain ⟨run, hrun, hkey⟩ :=
          mem_map.mp ((hkeys _).mpr ⟨_, mem_map_of_mem hrow, rfl⟩)
        exact mem_map.mpr ⟨run, hrun, congrArg Prod.fst hkey⟩
    refine ⟨entries, _, rfl, profid_of_entriesOf scan hentries, ?_, hmem⟩
    obtain ⟨row, hrow⟩ := exists_mem_of_ne_nil rows hne
    exact ne_nil_of_mem ((hmem row.peerid).mpr ⟨row, hrow, rfl⟩)

/-- The entries are for these peers; there is no array where there is no peer. -/
structure AddsOf (adds : Option (List (CacheEntry Unit))) (peers : List CString) : Prop where
  profid : (adds.getD []).map CacheEntry.profid = peers.map some
  isNone : adds.isNone = true ↔ peers = []

theorem addsOf_concatenate {adds : Option (List (CacheEntry Unit))} {more : List CString}
    (h : AddsOf adds peers) {entries : List (CacheEntry Unit)}
    (hentries : entries.map CacheEntry.profid = more.map some) (hmore : more ≠ []) :
    AddsOf (arraysConcatenate adds entries) (peers ++ more) := by
  have hne : entries ≠ [] := by
    rintro rfl
    exact hmore (map_eq_nil_iff.mp hentries.symm)
  unfold arraysConcatenate
  rw [if_neg hne]
  refine ⟨?_, iff_of_false (by simp) (by simp [hmore])⟩
  rw [Option.getD_some, map_append, h.profid, hentries, map_append]

/-- The induction is on the databases that are left; `seen` are the peers so far. -/
theorem passAdds_from (answer : List (List ReplicaRow))
    {adds : Option (List (CacheEntry Unit))} {seen : List CString} (h : AddsOf adds seen) :
    ∃ adds' peers, answer.foldlM (fun adds rows => do
        let tempAdds ← profferAdvertisementsBuild scan (fun _ => (none : Option Unit)) false
          (rows.map ReplicaRow.columns)
        return tempAdds.elim adds (arraysConcatenate adds)) adds = .ok adds' ∧
      AddsOf adds' peers ∧ ∀ peer, peer ∈ peers ↔ peer ∈ seen ∨ Selected answer peer := by
  induction answer generalizing adds seen with
  | nil =>
    refine ⟨adds, seen, rfl, h, fun peer => (or_iff_left ?_).symm⟩
    rintro ⟨rows, hrows, -⟩
    exact not_mem_nil hrows
  | cons rows answer ih =>
    obtain ⟨tempAdds, hbuild, hnil, hcons⟩ := build_replica scan rows
    have hsplit (peer : CString) : Selected (rows :: answer) peer ↔
        (∃ row ∈ rows, row.peerid = peer) ∨ Selected answer peer := exists_mem_cons_iff ..
    rw [foldlM_cons, hbuild]
    by_cases hne : rows = []
    · rw [hnil hne]
      obtain ⟨adds', peers, hfold, hadds, hmem⟩ := ih h
      refine ⟨adds', peers, hfold, hadds, fun peer => ?_⟩
      rw [hmem, hsplit, hne]
      simp
    · obtain ⟨entries, more, rfl, hentries, hmore, hrows⟩ := hcons hne
      obtain ⟨adds', peers, hfold, hadds, hmem⟩ := ih (addsOf_concatenate h hentries hmore)
      refine ⟨adds', peers, hfold, hadds, fun peer => ?_⟩
      rw [hmem, hsplit, mem_append, hrows, or_assoc]

theorem passAdds_spec (answer : List (List ReplicaRow)) :
    ∃ adds peers, passAdds scan answer = .ok adds ∧ AddsOf adds peers ∧
      ∀ peer, peer ∈ peers ↔ Selected answer peer := by
  have hempty : AddsOf none [] := ⟨rfl, iff_of_true rfl rfl⟩
  obtain ⟨adds, peers, hfold, hadds, hmem⟩ := passAdds_from scan answer hempty
  refine ⟨adds, peers, hfold, hadds, fun peer => ?_⟩
  rw [hmem]
  exact or_iff_right not_mem_nil

theorem mapM_entryPeer {entries : List (CacheEntry Unit)}
    (h : entries.map CacheEntry.profid = peers.map some) : entries.mapM entryPeer = .ok peers := by
  induction entries generalizing peers with
  | nil =>
    rw [map_eq_nil_iff.mp h.symm]
    rfl
  | cons entry entries ih =>
    cases peers with
    | nil => cases h
    | cons peer peers =>
      obtain ⟨hentry, hrest⟩ := List.cons.inj h
      have hone : entryPeer entry = .ok peer := by
        unfold entryPeer
        rw [hentry]
      rw [mapM_cons, hone, ih hrest]
      rfl

/-- A pass collects the peers that the answer names, unless it skips a sub-query without any. -/
theorem pass_spec (hashes : Hashes) (q : Pass) :
    ∃ peers, (∀ peer, peer ∈ peers ↔ Selected q.2 peer) ∧
      pass scan hashes q =
        .ok (if peers = [] ∧ q.1.isSome then hashes else collect hashes q.1 peers) := by
  obtain ⟨adds, peers, hadds, hof, hmem⟩ := passAdds_spec scan q.2
  refine ⟨peers, hmem, ?_⟩
  unfold pass
  rw [hadds, ok_bind, mapM_entryPeer hof.profid]
  by_cases hskip : peers = [] ∧ q.1.isSome
  · rw [if_pos hskip, if_pos (by simp [hof.isNone.mpr hskip.1, hskip.2])]
    rfl
  · have hgo : ¬ (adds.isNone && q.1.isSome) = true := by
      rw [Bool.and_eq_true, hof.isNone]
      exact hskip
    rw [if_neg hskip, if_neg hgo]
    rfl

/-! ## the loop over the passes -/

theorem mem_putPeer (peersHash : List CString) (p peer : CString) :
    peer ∈ putPeer peersHash p ↔ peer ∈ peersHash ∨ peer = p := by
  unfold putPeer
  split
  next h =>
    refine ⟨.inl, ?_⟩
    rintro (hmem | rfl)
    · exact hmem
    · exact h
  next => rw [mem_append, mem_singleton]

theorem mem_foldl_putPeer (peers peersHash : List CString) (peer : CString) :
    peer ∈ peers.foldl putPeer peersHash ↔ peer ∈ peersHash ∨ peer ∈ peers := by
  induction peers generalizing peersHash with
  | nil => simp
  | cons p peers ih => rw [foldl_cons, ih, mem_putPeer, or_assoc, mem_cons]

theorem nodup_foldl_putPeer (peers : List CString) {peersHash : List CString}
    (h : peersHash.Nodup) : (peers.foldl putPeer peersHash).Nodup := by
  induction peers generalizing peersHash with
  | nil => exact h
  | cons p peers ih =>
    apply ih
    unfold putPeer
    split
    next => exact h
    next hnot =>
      exact nodup_append.mpr ⟨h, nodup_singleton p, fun a ha b hb heq =>
        hnot (by rwa [← mem_singleton.mp hb, ← heq])⟩

/-- The result is kept under some SQL text. -/
def Hashes.Keeps (hashes : Hashes) (result : List CString) : Prop :=
  ∃ sql, result ∈ (hashes.andHash.getD ∅).lookup sql

/-- The hash tables hold what the passes so far asked for: the kept results are those of AND
    sub-queries, and there is one as soon as one of these matched a peer. -/
structure Collected (asked : List Pass) (hashes : Hashes) : Prop where
  nodup : (hashes.peersHash.getD []).Nodup
  peers : ∀ peer, peer ∈ hashes.peersHash.getD [] ↔ OrMatch asked peer
  kept : ∀ result, hashes.Keeps result → ∃ q ∈ asked, ¬ isOr q.1 ∧
    (∃ peer, Selected q.2 peer) ∧ ∀ peer, peer ∈ result ↔ Selected q.2 peer
  keeps : (∃ q ∈ asked, ¬ isOr q.1 ∧ ∃ peer, Selected q.2 peer) → ∃ result, hashes.Keeps result

theorem orMatch_append (asked : List Pass) (q : Pass) (peer : CString) :
    OrMatch (asked ++ [q]) peer ↔ OrMatch asked peer ∨ (isOr q.1 ∧ Selected q.2 peer) := by
  unfold OrMatch
  simp only [mem_append, mem_singleton, or_and_right, exists_or, exists_eq_left]

section
variable (h : Collected asked hashes)
include h

/-- A pass that nobody matches asks for nothing. -/
theorem Collected.skip (hnone : ∀ peer, ¬ Selected q.2 peer) :
    Collected (asked ++ [q]) hashes where
  nodup := h.nodup
  peers := by
    intro peer
    rw [h.peers, orMatch_append]
    exact (or_iff_left fun hq => hnone peer hq.2).symm
  kept := by
    intro result hresult
    obtain ⟨q', hq', hspec⟩ := h.kept result hresult
    exact ⟨q', mem_append_left _ hq', hspec⟩
  keeps := by
    rintro ⟨q', hq', hand, peer, hsel⟩
    rcases mem_append.mp hq' with hq' | hq'
    · exact h.keeps ⟨q', hq', hand, peer, hsel⟩
    · rw [mem_singleton.mp hq'] at hsel
      exact absurd hsel (hnone peer)

theorem Collected.or (hor : isOr q.1) (hpeers : ∀ peer, peer ∈ peers ↔ Selected q.2 peer) :
    Collected (asked ++ [q])
      { hashes with peersHash := some (peers.foldl putPeer (hashes.peersHash.getD [])) } where
  nodup := nodup_foldl_putPeer peers h.nodup
  peers := by
    intro peer
    rw [Option.getD_some, mem_foldl_putPeer, h.peers, hpeers, orMatch_append]
    simp [hor]
  kept := by
    intro result hresult
    obtain ⟨q', hq', hspec⟩ := h.kept result hresult
    exact ⟨q', mem_append_left _ hq', hspec⟩
  keeps := by
    rintro ⟨q', hq', hand, hsel⟩
    rcases mem_append.mp hq' with hq' | hq'
    · exact h.keeps ⟨q', hq', hand, hsel⟩
    · rw [mem_singleton.mp hq'] at hand
      exact absurd hor hand

theorem Collected.and (hand : ¬ isOr q.1) (hpeers : ∀ peer, peer ∈ peers ↔ Selected q.2 peer)
    (hne : peers ≠ []) (sql : CString) :
    Collected (asked ++ [q]) ⟨some (hashes.peersHash.getD []),
      some ((hashes.andHash.getD ∅).insert sql peers.reverse)⟩ where
  nodup := h.nodup
  peers := by
    intro peer
    rw [Option.getD_some, h.peers, orMatch_append]
    simp [hand]
  kept := by
    rintro result ⟨sql', hlookup⟩
    rw [Option.getD_some] at hlookup
    by_cases hsql : sql' = sql
    · rw [hsql, AList.lookup_insert] at hlookup
      cases hlookup
      obtain ⟨peer, hpeer⟩ := exists_mem_of_ne_nil peers hne
      refine ⟨q, by simp, hand, ⟨peer, (hpeers peer).mp hpeer⟩, fun peer => ?_⟩
      rw [mem_reverse, hpeers]
    · rw [AList.lookup_insert_ne hsql] at hlookup
      obtain ⟨q', hq', hspec⟩ := h.kept result ⟨sql', hlookup⟩
      exact ⟨q', mem_append_left _ hq', hspec⟩
  keeps := fun _ => ⟨peers.reverse, sql, AList.lookup_insert ..⟩

theorem collected_pass (q : Pass) :
    ∃ hashes', pass scan hashes q = .ok hashes' ∧
      Collected (asked ++ [q]) hashes' := by
  obtain ⟨peers, hpeers, hpass⟩ := pass_spec scan hashes q
  refine ⟨_, hpass, ?_⟩
  obtain ⟨elem, answer⟩ := q
  by_cases hskip : peers = [] ∧ elem.isSome
  · rw [if_pos hskip]
    refine h.skip fun peer hsel => ?_
    rw [← hpeers, hskip.1] at hsel
    exact not_mem_nil hsel
  rw [if_neg hskip]
  cases elem with
  | none => exact h.or rfl hpeers
  | some elem =>
    have hne : peers ≠ [] := fun hnil => hskip ⟨hnil, rfl⟩
    by_cases hor : elem.jBoolean = sqlOr
    · rw [collect, if_pos hor]
      exact h.or ((isOr_some elem).mpr hor) hpeers
    · rw [collect, if_neg hor]
      exact h.and (fun hq => hor ((isOr_some elem).mp hq)) hpeers hne elem.jSQL

end

/-- The induction is on the passes that are left. -/
theorem collected_foldlM (rest : List Pass) (h : Collected asked hashes) :
    ∃ hashes', rest.foldlM (pass scan) hashes = .ok hashes' ∧
      Collected (asked ++ rest) hashes' := by
  induction rest generalizing asked hashes with
  | nil => exact ⟨hashes, rfl, by rwa [append_nil]⟩
  | cons q rest ih =>
    obtain ⟨hashes', hpass, hcollected⟩ := collected_pass scan h q
    rw [foldlM_cons, hpass]
    obtain ⟨last, hlast, hall⟩ := ih hcollected
    refine ⟨last, hlast, ?_⟩
    rwa [append_assoc] at hall

theorem collected_start : Collected [] ⟨none, none⟩ where
  nodup := nodup_nil
  peers := by simp [OrMatch]
  kept := by
    rintro result ⟨sql, hlookup⟩
    cases hlookup
  keeps := by
    rintro ⟨q, hq, -⟩
    exact absurd hq not_mem_nil

/-! ## the choice of results -/

/-- Whatever the sizes are, some results are picked, if there are any. -/
theorem pickResult_spec (results : List (List CString)) {state : Nat × List (List CString)}
    (hstart : state.2 = [] → state.1 = 0) :
    (results.foldl pickResult state).2 ⊆ state.2 ++ results ∧
      (state.2 ++ results ≠ [] → (results.foldl pickResult state).2 ≠ []) := by
  induction results generalizing state with
  | nil =>
    rw [append_nil, foldl_nil]
    exact ⟨List.Subset.refl _, id⟩
  | cons result results ih =>
    have hpick : (pickResult state result).2 ≠ [] ∧
        (pickResult state result).2 ⊆ state.2 ++ [result] := by
      obtain ⟨leastPopular, finalResult⟩ := state
      have hcons : result :: finalResult ⊆ finalResult ++ [result] :=
        cons_subset.mpr ⟨by simp, subset_append_left _ _⟩
      unfold pickResult
      dsimp only
      split
      next => exact ⟨cons_ne_nil _ _, hcons⟩
      next hleast =>
        split
        next => exact ⟨cons_ne_nil _ _, hcons⟩
        next =>
          split
          next => exact ⟨cons_ne_nil _ _, subset_append_right _ _⟩
          next => exact ⟨fun hnil => hleast (hstart hnil), subset_append_left _ _⟩
    obtain ⟨hsub, hne⟩ := ih fun hnil => absurd hnil hpick.1
    rw [foldl_cons]
    constructor
    · intro r hr
      have hmem := hsub hr
      rcases mem_append.mp hmem with hmem | hmem
      · have := hpick.2 hmem
        grind
      · exact mem_append_right _ (mem_cons_of_mem _ hmem)
    · exact fun _ => hne (by simp [hpick.1])

theorem mem_results (andHash : AList fun _ : CString => List CString) (result : List CString) :
    result ∈ andHash.entries.map Sigma.snd ↔ ∃ sql, result ∈ andHash.lookup sql := by
  rw [mem_map]
  constructor
  · rintro ⟨⟨sql, r⟩, hmem, rfl⟩
    exact ⟨sql, AList.mem_lookup_iff.mpr hmem⟩
  · rintro ⟨sql, hlookup⟩
    exact ⟨⟨sql, result⟩, AList.mem_lookup_iff.mp hlookup, rfl⟩

/-- Some of the kept results are combined with the peers of the OR sub-queries, one at least. -/
theorem combine_spec (andValues : Listing (List CString)) (hashes : Hashes)
    (hnodup : (hashes.peersHash.getD []).Nodup) :
    ((combine andValues hashes).getD []).Nodup ∧
    ∃ final : List (List CString), (∀ result ∈ final, hashes.Keeps result) ∧
      ((∃ result, hashes.Keeps result) → final ≠ []) ∧
      ∀ peer, peer ∈ (combine andValues hashes).getD [] ↔
        peer ∈ hashes.peersHash.getD [] ∨ ∃ result ∈ final, peer ∈ result := by
  unfold combine Hashes.Keeps
  cases hand : hashes.andHash with
  | none =>
    refine ⟨hnodup, [], fun result h => absurd h not_mem_nil, ?_, fun peer => by simp⟩
    rintro ⟨result, sql, hlookup⟩
    cases hlookup
  | some andHash =>
    have hperm := andValues.perm (andHash.entries.map Sigma.snd)
    have hstart : ((0, []) : Nat × List (List CString)).2 = [] →
        ((0, []) : Nat × List (List CString)).1 = 0 := fun _ => rfl
    obtain ⟨hsub, hne⟩ :=
      pickResult_spec (andValues.list (andHash.entries.map Sigma.snd)) hstart
    rw [nil_append] at hsub hne
    dsimp only
    have hpeers : ∀ final : List (List CString), ((if final.flatten = [] then hashes.peersHash
        else some (final.flatten.foldl putPeer (hashes.peersHash.getD []))).getD []) =
          final.flatten.foldl putPeer (hashes.peersHash.getD []) := by
      intro final
      split
      next hnil => rw [hnil]; rfl
      next => rfl
    obtain ⟨final, hfinal⟩ : ∃ final, final =
        ((andValues.list (andHash.entries.map Sigma.snd)).foldl pickResult (0, [])).2 := ⟨_, rfl⟩
    rw [← hfinal] at hsub hne ⊢
    rw [hpeers]
    refine ⟨nodup_foldl_putPeer _ hnodup, final, ?_, ?_, ?_⟩
    · exact fun result hresult =>
        (mem_results andHash result).mp (hperm.subset (hsub hresult))
    · rintro ⟨result, hkeeps⟩
      exact hne (ne_nil_of_mem (hperm.symm.subset ((mem_results andHash result).mpr hkeeps)))
    · intro peer
      rw [mem_foldl_putPeer, mem_flatten]

/-- What is combined of the collected results is a choice. -/
theorem chooses_combine {queries : List QueryElement} (hor : queries = [] → ∀ q ∈ asked, isOr q.1)
    (h : Collected asked hashes) (andValues : Listing (List CString)) :
    Chooses queries asked ((combine andValues hashes).getD []) := by
  obtain ⟨hnodup, final, hkept, hsome, hmem⟩ := combine_spec andValues hashes h.nodup
  have hchosen : ∃ chosen ⊆ asked, (∀ q ∈ chosen, ¬ isOr q.1 ∧ ∃ peer, Selected q.2 peer) ∧
      ((∃ q ∈ asked, ¬ isOr q.1 ∧ ∃ peer, Selected q.2 peer) → chosen ≠ []) ∧
      ∀ peer, peer ∈ (combine andValues hashes).getD [] ↔
        OrMatch asked peer ∨ ∃ q ∈ chosen, Selected q.2 peer := by
    classical
    have hfinal : ∀ result ∈ final, ∃ q ∈ asked, ¬ isOr q.1 ∧ (∃ peer, Selected q.2 peer) ∧
        ∀ peer, peer ∈ result ↔ Selected q.2 peer :=
      fun result hresult => h.kept result (hkept result hresult)
    let own (q : Pass) : Prop := ¬ isOr q.1 ∧ (∃ peer, Selected q.2 peer) ∧
      ∃ result ∈ final, ∀ peer, peer ∈ result ↔ Selected q.2 peer
    refine ⟨asked.filter own, filter_sublist.subset, ?_, ?_, ?_⟩
    · intro q hq
      have hown : own q := of_decide_eq_true (mem_filter.mp hq).2
      exact ⟨hown.1, hown.2.1⟩
    · intro hsel
      obtain ⟨result, hresult⟩ := exists_mem_of_ne_nil final (hsome (h.keeps hsel))
      obtain ⟨q, hq, hand, hpeer, hiff⟩ := hfinal result hresult
      exact ne_nil_of_mem (mem_filter.mpr
        ⟨hq, decide_eq_true ⟨hand, hpeer, result, hresult, hiff⟩⟩)
    · intro peer
      rw [hmem, h.peers]
      refine or_congr_right ⟨?_, ?_⟩
      · rintro ⟨result, hresult, hpeer⟩
        obtain ⟨q, hq, hand, hsel, hiff⟩ := hfinal result hresult
        exact ⟨q, mem_filter.mpr ⟨hq, decide_eq_true ⟨hand, hsel, result, hresult, hiff⟩⟩,
          (hiff peer).mp hpeer⟩
      · rintro ⟨q, hq, hsel⟩
        have hown : own q := of_decide_eq_true (mem_filter.mp hq).2
        obtain ⟨-, -, result, hresult, hiff⟩ := hown
        exact ⟨result, hresult, (hiff peer).mpr hsel⟩
  obtain ⟨chosen, hsub, hchosen, hne, hiff⟩ := hchosen
  have hmatching : ∀ peer, OrMatch asked peer ∨ AndMatch asked peer →
      peer ∈ (combine andValues hashes).getD [] := by
    rintro peer (hor | ⟨⟨q, hq, hand⟩, hall⟩)
    · exact (hiff peer).mpr (.inl hor)
    · obtain ⟨q', hq'⟩ := exists_mem_of_ne_nil chosen
        (hne ⟨q, hq, hand, peer, hall q hq hand⟩)
      exact (hiff peer).mpr (.inr ⟨q', hq', hall q' (hsub hq') (hchosen q' hq').1⟩)
  refine ⟨hnodup, ?_, ⟨chosen, hsub, hchosen, hne, hiff⟩, hmatching, ?_⟩
  · intro hnil peer
    rw [hiff]
    constructor
    · rintro (⟨q, hq, -, hsel⟩ | ⟨q, hq, hsel⟩)
      · exact ⟨q, hq, hsel⟩
      · exact ⟨q, hsub hq, hsel⟩
    · rintro ⟨q, hq, hsel⟩
      exact .inl ⟨q, hq, hor hnil q hq, hsel⟩
  · intro hagree
    refine ⟨hnodup, fun peer => ⟨fun hpeer => ?_, hmatching peer⟩⟩
    rcases (hiff peer).mp hpeer with hor | ⟨q, hq, hsel⟩
    · exact .inl hor
    · refine .inr ⟨⟨q, hsub hq, (hchosen q hq).1⟩, fun q' hq' hand => ?_⟩
      exact hagree q (hsub hq) q' hq' (hchosen q hq).1 hand peer hsel

/-- A choice does not depend on the order of the peers. -/
theorem Chooses.perm {queries : List QueryElement} {peers' : List CString}
    (h : Chooses queries asked peers) (hperm : peers'.Perm peers) :
    Chooses queries asked peers' where
  nodup := hperm.nodup_iff.mpr h.nodup
  all hnil peer := hperm.mem_iff.trans (h.all hnil peer)
  chosen := by
    obtain ⟨chosen, hsub, hchosen, hne, hiff⟩ := h.chosen
    exact ⟨chosen, hsub, hchosen, hne, fun peer => hperm.mem_iff.trans (hiff peer)⟩
  matching peer hmatch := hperm.mem_iff.mpr (h.matching peer hmatch)
  agreeing hagree :=
    ⟨hperm.nodup_iff.mpr h.nodup, fun peer => hperm.mem_iff.trans ((h.agreeing hagree).2 peer)⟩

end Proofs

/-- The peers of the two conditions. -/
def peerOf (s : String) : ReplicaRow :=
  ⟨.ofBuffer (text s), .ofBuffer (text "a"), .ofBuffer (text "Name"), .ofBuffer (text "v"),
    .ofBuffer (text "jxta:PA"), .ofBuffer (text "9"), .ofBuffer (text "7")⟩

/-- A database in which one row has the name `p`, and another one the value `q`. -/
def twoPeers (_ : DBSpace) (statement : List Byte) : Option (List ReplicaRow) :=
  some (if text "(Name='p')" <:+: statement then [peerOf "p"]
    else if text "(Value='q')" <:+: statement then [peerOf "q"]
    else [peerOf "p", peerOf "q"])

def andElement (s : String) : QueryElement := ⟨.ofBuffer (text s), .ofBuffer (text " AND ")⟩

def twoConditions : List QueryElement := [andElement "(Name='p')", andElement "(Value='q')"]

def listed {α : Type} : Listing α := ⟨id, fun _ => .refl _⟩

end JxtaC.Cm
