import JxtaC.Message.MessageReader

/-
  Which accesses to the names table `jxta_message_read` makes.
  The reader leaves the language with `outOfBounds` exactly where it would index the table at or
  behind its end. A token of a version 2 element cannot do that: `lookup_name_string` compares it
  with the size of the table (`nameRead_eq`). Two accesses are not compared with anything: the
  default names are stored into a table whose size wraps around in 16 bits, and the namespace byte
  of a version 1 element is looked up as it arrived (`StrayNamespace`).
-/

namespace JxtaC.Message

open Lib Lib.Stream

/-! ## what the element loop runs into -/

/-- An element of version 1 whose namespace byte is no index into the table. -/
def StrayNamespace (h : Header) (s : List Byte) : Prop :=
  h.version = 0 ∧ ∃ (e : WireElement1) (r : List Byte), e.Framed ∧ s = e.bytes ++ r ∧
    h.table.length ≤ e.ns.toNat

section Loop
variable {P : Source Byte Status} {Qos : Type}
  {extract : Option Qos → List Byte → Exec (Option Qos × Status)} {h : Header}
  {msg : Message Qos} {s : List Byte}

theorem readElement_stray (hs : StrayNamespace h s) : readElement P h s = .fault .outOfBounds := by
  obtain ⟨hversion, e, r, he, rfl, hns⟩ := hs
  have hread := @readV1Element_bytes P h.table e he r
  rw [if_neg (Nat.not_lt_of_le hns)] at hread
  unfold readElement
  rw [if_pos hversion]
  exact bind_of_fault hread

theorem readElements_stray (hs : StrayNamespace h s) (count : Nat) :
    readElements P extract h (count + 1) msg s = .fault .outOfBounds := by
  rw [readElements]
  exact bind_of_fault (by unfold attempt; rw [readElement_stray hs])

/-- What is unreadable for another reason is an element that is not made. -/
theorem readElement_unreadable (hs : Unreadable h s) (hstray : ¬ StrayNamespace h s) :
    ∃ r, readElement P h s = .ok none r := by
  unfold Unreadable at hs
  split at hs
  · rename_i hversion
    exact absurd ⟨hversion, hs⟩ hstray
  · rename_i hversion
    obtain ⟨flags, r, hflags, rfl⟩ := hs
    refine ⟨r, ?_⟩
    unfold readElement
    rw [if_neg hversion]
    exact readV2Element_cut hflags _ r

theorem takeElement_fault {el : MessageElement} {f : Fault}
    (h : takeElement extract msg el = .error f) : extract msg.qos el.body.value = .error f := by
  unfold takeElement at h
  split at h
  · cases hqos : extract msg.qos el.body.value with
    | error g =>
      rw [hqos] at h
      cases h
      rfl
    | ok taken =>
      rw [hqos] at h
      cases h
  · cases h

/-- No other blocked element is an access outside the table. -/
theorem readElements_blocked (hextract : ∀ qos value, extract qos value ≠ .error .outOfBounds)
    (hs : Blocked extract h msg s) (hstray : ¬ StrayNamespace h s) (count : Nat) :
    ∃ f, readElements P extract h (count + 1) msg s = .fault f ∧ f ≠ .outOfBounds := by
  rcases hs with hs | ⟨e, r, f, he, rfl, htake⟩
  · obtain ⟨r, hnone⟩ := readElement_unreadable (P := P) hs hstray
    refine ⟨.nullPointer, ?_, nofun⟩
    have hread : attempt (readElement P h) s = .ok (.ok none) r := by
      unfold attempt
      rw [hnone]
    exact bind_of_ok hread
  · refine ⟨f, ?_, ?_⟩
    · have hread := (reads_readElement (P := P) he).attempt
      rw [readElements, hread.bind_apply]
      dsimp only
      rw [htake]
      rfl
    · rintro rfl
      exact hextract _ _ (takeElement_fault htake)

end Loop

/-! ## the claim and its exact condition -/

section Claim
variable {Qos : Type}

/-- `extract_qos_element` with its own faults set apart from those of the names table. -/
def apart (extract : Option Qos → List Byte → Exec (Option Qos × Status)) (qos : Option Qos)
    (value : List Byte) : Exec (Option Qos × Status) :=
  match extract qos value with
  | .error _ => .error .aborted
  | .ok taken => .ok taken

theorem apart_ne (extract : Option Qos → List Byte → Exec (Option Qos × Status))
    (qos : Option Qos) (value : List Byte) : apart extract qos value ≠ .error .outOfBounds := by
  unfold apart
  split <;> exact nofun

/-- Every index into the names table that the reader uses is one of the table's. -/
def IndexesNamesTable (stream : InputStream)
    (extract : Option Qos → List Byte → Exec (Option Qos × Status)) (msg : Message Qos)
    (mimeType : Option CString) (s : List Byte) : Prop :=
  messageRead stream (apart extract) msg mimeType s ≠ .error .outOfBounds

/-- The streams whose indices are in the table. -/
structure InTable (extract : Option Qos → List Byte → Exec (Option Qos × Status))
    (msg : Message Qos) (s : List Byte) : Prop where
  /-- The names count has room for the default names. -/
  room : ∀ version n rest, s = WireHeader.opening version n ++ rest → n.val < 65534
  /-- No element of version 1 that the reader comes to has a stray namespace. -/
  namespaces : ∀ (w : WireHeader) (es : List WireElement) (rest : List Byte)
    (msg' : Message Qos), w.Faithful → (∀ e ∈ es, e.Framed w.version.byte w.table) →
    es.length < w.elementCount.val → s = w.bytes ++ (es.flatMap WireElement.bytes ++ rest) →
    takeAll (apart extract) (cleared msg) (es.map (WireElement.element w.table)) =
      .ok (msg', .success) →
    ¬ StrayNamespace w.header rest

variable {stream : InputStream} {extract : Option Qos → List Byte → Exec (Option Qos × Status)}
  {msg msg' : Message Qos} {mimeType : Option CString} {s : List Byte}

section
variable (hmime : wireMimeOk mimeType = true)
include hmime

/-- Behind the elements it can take, the reader is at the next one. -/
theorem messageRead_behind {w : WireHeader} (hw : w.Faithful) (hroom : w.namesCount.val < 65534)
    {es : List WireElement} (hes : ∀ e ∈ es, e.Framed w.version.byte w.table)
    (hlen : es.length < w.elementCount.val)
    (htake : takeAll extract (cleared msg) (es.map (WireElement.element w.table)) =
      .ok (msg', .success))
    (rest : List Byte) :
    ∃ count, ∀ f, readElements stream.toSource extract w.header (count + 1) msg' rest = .fault f →
      messageRead stream extract msg mimeType
        (w.bytes ++ (es.flatMap WireElement.bytes ++ rest)) = .error f := by
  obtain ⟨count, hcount⟩ : ∃ k, w.elementCount.val = es.length + (k + 1) :=
    ⟨w.elementCount.val - es.length - 1, by omega⟩
  refine ⟨count, fun f hfault => ?_⟩
  have hloop := readElements_append (P := stream.toSource) (h := w.header) hes htake (count + 1)
    rest
  rw [messageRead_header hmime hw hroom, hcount, hloop, hfault]

theorem InTable.of_indexes (h : IndexesNamesTable stream extract msg mimeType s) :
    InTable extract msg s := by
  have hroom : ∀ version n rest, s = WireHeader.opening version n ++ rest → n.val < 65534 := by
    rintro version n rest rfl
    by_contra hn
    exact h (messageRead_full hmime (Nat.le_of_not_lt hn) rest)
  refine ⟨hroom, ?_⟩
  rintro w es rest msg' hw hes hlen rfl htake hstray
  have hn : w.namesCount.val < 65534 := hroom _ _ _ (List.append_assoc _ _ _)
  obtain ⟨count, hread⟩ := messageRead_behind hmime hw hn hes hlen htake rest
  exact h (hread .outOfBounds (readElements_stray hstray count))

theorem InTable.indexes (h : InTable extract msg s) :
    IndexesNamesTable stream extract msg mimeType s := by
  unfold IndexesNamesTable
  rcases messageRead_cases stream (apart extract) msg mimeType hmime s with
    ⟨w, rest, msg', hw, hroom, rfl, htake⟩ |
    ⟨w, es, rest, msg', hw, hroom, hlen, hes, rfl, htake, hblocked⟩ |
    ⟨version, n, rest, rfl, hn⟩ | ⟨version, n, rest, rfl, hn, hnames⟩ | ⟨msg', res, rest, hread, -⟩
  · rw [messageRead_framed hmime hw hroom htake rest]
    exact nofun
  · have hstray := h.namespaces w es rest msg' hw hes hlen rfl htake
    obtain ⟨count, hread⟩ := messageRead_behind hmime hw hroom hes hlen htake rest
    obtain ⟨f, hfault, hf⟩ := readElements_blocked (P := stream.toSource) (apart_ne extract)
      hblocked hstray count
    rw [hread f hfault]
    exact fun heq => hf (Except.error.inj heq)
  · exact absurd (h.room version n rest rfl) (Nat.not_lt_of_le hn)
  · obtain ⟨r, hread⟩ := @messageRead_short Qos (apart extract) stream msg mimeType rest hmime version
      n hn hnames
    rw [hread]
    exact nofun
  · rw [hread]
    exact nofun

end

/-- All indices are in the table exactly if the stream's are; with another MIME type there is no
    table. -/
theorem indexesNamesTable_iff (stream : InputStream)
    (extract : Option Qos → List Byte → Exec (Option Qos × Status)) (msg : Message Qos)
    (mimeType : Option CString) (s : List Byte) :
    IndexesNamesTable stream extract msg mimeType s ↔
      (wireMimeOk mimeType = true → InTable extract msg s) := by
  by_cases hmime : wireMimeOk mimeType = true
  · exact ⟨fun h _ => InTable.of_indexes hmime h, fun h => InTable.indexes hmime (h hmime)⟩
  · refine ⟨fun _ h => absurd h hmime, fun _ => ?_⟩
    unfold IndexesNamesTable messageRead
    rw [if_pos (by simpa using hmime)]
    exact nofun

end Claim

/-- A version 1 message without names of its own, and an element with the namespace 2. -/
def strayStream : List Byte :=
  [106, 120, 109, 103, 0, 0, 0, 0, 1, 106, 120, 101, 108, 2, 0, 0, 0, 0, 0, 0, 0]

/-- The namespace byte is used as an index into a table of two names. -/
theorem not_indexesNamesTable :
    ¬ IndexesNamesTable ⟨⟨.ioerr, fun _ _ => [], fun _ _ => Nat.zero_le _⟩, by decide⟩
      (fun qos _ => .ok (qos, .success)) (⟨[], none⟩ : Message Unit) none strayStream :=
  fun h => h rfl

end JxtaC.Message
