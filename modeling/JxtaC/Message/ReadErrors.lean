import JxtaC.Message.MessageReader

/-
  What `jxta_message_read` accepts.
  A success should mean a complete message, and no stream should make the reader leave the
  language. Both fail: on a names count without room for the default names, on a names table that
  is cut short, in front of an element that cannot be read (`Blocked`), and with a signature that
  is cut off after its flags. `Clean` excludes exactly these.
-/

namespace JxtaC.Message

open Lib Lib.Stream List

/-! ## one stream, one message -/

section Unique
variable {table : List CString} {r r' : List Byte}

theorem WirePart.unique (P : Source Byte Status) {p p' : WirePart} (hp : p.Framed table)
    (hp' : p'.Framed table) (heq : p.bytes ++ r = p'.bytes ++ r') :
    p.flags = p'.flags ∧ r = r' := by
  simp only [WirePart.bytes, append_assoc, append_cancel_left_eq, cons_append,
    List.cons.injEq] at heq
  obtain ⟨hflags, hfields⟩ := heq
  have hread := reads_readV2Fields (P := P) hp
  rw [hflags] at hread
  exact ⟨hflags, (Reads.unique hread (reads_readV2Fields hp') hfields).2⟩

/-- No part can be read where a signature is cut off. -/
theorem cutBytes_ne {flags : Byte} (hflags : flags &&& elmFlagUnsupported ≠ 0) {p : WirePart}
    (hp : p.Framed table) : WireElement2.cutBytes (some flags) ++ r ≠ p.bytes ++ r' := by
  intro heq
  simp only [WireElement2.cutBytes, Option.elim_some, WirePart.bytes, append_assoc,
    append_cancel_left_eq, cons_append, List.cons.injEq] at heq
  rw [heq.1] at hflags
  exact hflags hp.supported

theorem WireElement2.Signed.head {cut : Option Byte} {p : WirePart} {sigs : List WirePart}
    (h : Signed table cut p sigs) : p.Framed table := by
  cases sigs with
  | nil => exact h.1
  | cons sig sigs => exact h.1

/-- Whether a signature is cut off can be seen from the bytes. -/
theorem WireElement2.cut_unique (P : Source Byte Status) {cut cut' : Option Byte} {p p' : WirePart}
    {sigs sigs' : List WirePart} (h : Signed table cut p sigs) (h' : Signed table cut' p' sigs')
    (heq : WireElement2.bytes ⟨p, sigs, cut⟩ ++ r = WireElement2.bytes ⟨p', sigs', cut'⟩ ++ r') :
    cut.isSome = cut'.isSome := by
  simp only [WireElement2.bytes, flatMap_cons, append_assoc] at heq
  obtain ⟨hflags, hrest⟩ := WirePart.unique P h.head h'.head heq
  induction sigs generalizing p p' sigs' with
  | nil =>
    obtain ⟨-, hcut, hunsupported⟩ := h
    cases sigs' with
    | nil =>
      rw [hflags] at hcut
      exact Bool.eq_iff_iff.mpr (hcut.symm.trans h'.2.1)
    | cons sig sigs' =>
      obtain ⟨flags, rfl⟩ := Option.isSome_iff_exists.mp (hcut.mp (hflags ▸ h'.2.1))
      rw [flatMap_cons, append_assoc] at hrest
      exact absurd hrest (cutBytes_ne (hunsupported flags rfl) h'.2.2.head)
  | cons sig sigs ih =>
    obtain ⟨-, hsig, hsigned⟩ := h
    cases sigs' with
    | nil =>
      obtain ⟨-, hcut, hunsupported⟩ := h'
      obtain ⟨flags, rfl⟩ := Option.isSome_iff_exists.mp (hcut.mp (hflags ▸ hsig))
      rw [flatMap_cons, append_assoc] at hrest
      exact absurd hrest.symm (cutBytes_ne (hunsupported flags rfl) hsigned.head)
    | cons sig' sigs' =>
      simp only [flatMap_cons, append_assoc] at hrest
      obtain ⟨hflags', hrest'⟩ := WirePart.unique P hsigned.head h'.2.2.head hrest
      exact ih hsigned h'.2.2 hrest hflags' hrest'

theorem WireElement.complete_unique (P : Source Byte Status) {h : Header} {e e' : WireElement}
    (he : e.Framed h.version h.table) (he' : e'.Framed h.version h.table)
    (heq : e.bytes ++ r = e'.bytes ++ r') (hc : e'.Complete) : e.Complete := by
  cases e with
  | v1 e => trivial
  | v2 e =>
    cases e' with
    | v1 e' => exact absurd he'.1 he.1
    | v2 e' =>
      have hcut := WireElement2.cut_unique P he.2 he'.2 heq
      rw [show e'.cut = none from hc] at hcut
      exact Option.not_isSome_iff_eq_none.mp (by rw [hcut]; simp)

theorem complete_of_flatMap (P : Source Byte Status) {h : Header} {es es' : List WireElement}
    (hes : ∀ e ∈ es, e.Framed h.version h.table) (hes' : ∀ e ∈ es', e.Framed h.version h.table)
    (hlen : es.length = es'.length) (hc : ∀ e ∈ es', e.Complete)
    (heq : es.flatMap WireElement.bytes ++ r = es'.flatMap WireElement.bytes ++ r') :
    ∀ e ∈ es, e.Complete := by
  induction es generalizing es' with
  | nil => simp
  | cons e es ih =>
    cases es' with
    | nil => cases hlen
    | cons e' es' =>
      simp only [flatMap_cons, append_assoc] at heq
      have he := hes e mem_cons_self
      have he' := hes' e' mem_cons_self
      have hrest := (Reads.unique (reads_readElement (P := P) he) (reads_readElement he') heq).2
      have htail := ih (fun e h => hes e (mem_cons_of_mem _ h))
        (fun e h => hes' e (mem_cons_of_mem _ h)) (Nat.succ.inj hlen)
        (fun e h => hc e (mem_cons_of_mem _ h)) hrest
      intro e₁ hmem
      rcases mem_cons.mp hmem with rfl | hmem
      · exact WireElement.complete_unique P he he' heq (hc e' mem_cons_self)
      · exact htail e₁ hmem

/-- A stream that begins with a complete message begins with no other. -/
theorem WireMessage.wellFormed_unique (P : Source Byte Status) {w w' : WireMessage}
    (hw : w.Framed) (hroom : w.header.namesCount.val < 65534) (hw' : w'.WellFormed)
    (hroom' : w'.header.namesCount.val < 65534) (heq : w.bytes ++ r = w'.bytes ++ r') :
    w.WellFormed := by
  refine ⟨hw, ?_⟩
  simp only [WireMessage.bytes, append_assoc] at heq
  obtain ⟨hheader, hrest⟩ := Reads.unique (reads_readHeader (P := P) hw.header hroom)
    (reads_readHeader hw'.header hroom') heq
  have hversion : w.header.version.byte = w'.header.version.byte := congrArg Header.version hheader
  have htable : w.header.table = w'.header.table := congrArg Header.table hheader
  have hcount : w.header.elementCount.val = w'.header.elementCount.val :=
    congrArg Header.elementCount hheader
  have hes' := hw'.elements
  rw [← hversion, ← htable] at hes'
  refine complete_of_flatMap P (h := w.header.header) hw.elements hes' ?_ hw'.complete hrest
  rw [← hw.count, hcount, hw'.count]

end Unique

/-! ## the claim and its exact condition -/

section Claim
variable {Qos : Type} (stream : InputStream)
  (extract : Option Qos → List Byte → Exec (Option Qos × Status)) (msg : Message Qos)

/-- The reader stays in the language, and succeeds only on a complete message, all of whose
    elements it has taken: the QoS by `extract_qos_element`, the others into the message. -/
def ReadsOnlyMessages (mimeType : Option CString) (s : List Byte) : Prop :=
  (∀ f, messageRead stream extract msg mimeType s ≠ .error f) ∧
    ∀ msg' rest, messageRead stream extract msg mimeType s = .ok (msg', .success, rest) →
      ∃ w : WireMessage, w.WellFormed ∧ s = w.bytes ++ rest ∧
        takeAll extract (cleared msg) w.contents = .ok (msg', .success) ∧
        msg'.elements = w.contents.filter fun el => !el.isQos

/-- The streams that the reader is right about. -/
structure Clean (s : List Byte) : Prop where
  /-- The names count has room for the default names. -/
  room : ∀ version n rest, s = WireHeader.opening version n ++ rest → n.val < 65534
  /-- The names table is there. -/
  names : ∀ version n rest, s = WireHeader.opening version n ++ rest → NamesComplete n.val rest
  /-- No element that the reader comes to blocks it. -/
  elements : ∀ (w : WireHeader) (es : List WireElement) (rest : List Byte) (msg' : Message Qos),
    w.Faithful → (∀ e ∈ es, e.Framed w.version.byte w.table) → es.length < w.elementCount.val →
    s = w.bytes ++ (es.flatMap WireElement.bytes ++ rest) →
    takeAll extract (cleared msg) (es.map (WireElement.element w.table)) =
      .ok (msg', .success) →
    ¬ Blocked extract w.header msg' rest
  /-- No signature is cut off in a message that is accepted. -/
  signatures : ∀ (w : WireMessage) (rest : List Byte) (msg' : Message Qos), w.Framed →
    s = w.bytes ++ rest → takeAll extract (cleared msg) w.contents = .ok (msg', .success) →
    w.WellFormed

theorem WireHeader.exists_opening (w : WireHeader) (s : List Byte) :
    ∃ rest, w.bytes ++ s = WireHeader.opening w.version w.namesCount ++ rest :=
  ⟨_, append_assoc _ _ _⟩

variable {stream extract msg} {mimeType : Option CString} {s : List Byte}

theorem Clean.of_reads (hmime : wireMimeOk mimeType = true)
    (h : ReadsOnlyMessages stream extract msg mimeType s) : Clean extract msg s := by
  obtain ⟨hfault, hsuccess⟩ := h
  have hroom : ∀ version n rest, s = WireHeader.opening version n ++ rest → n.val < 65534 := by
    rintro version n rest rfl
    by_contra hn
    exact hfault _ (messageRead_full hmime (Nat.le_of_not_lt hn) rest)
  have hheader : ∀ (w : WireHeader) (t : List Byte), s = w.bytes ++ t →
      w.namesCount.val < 65534 := by
    rintro w t rfl
    obtain ⟨rest, heq⟩ := w.exists_opening t
    exact hroom _ _ _ heq
  refine ⟨hroom, ?_, ?_, ?_⟩
  · rintro version n rest rfl
    by_contra hnames
    have hn := hroom version n rest rfl
    obtain ⟨r, hread⟩ := @messageRead_short Qos extract stream msg mimeType rest hmime version n
      hn hnames
    obtain ⟨w, hw, heq, -⟩ := hsuccess _ _ hread
    rw [WireMessage.bytes, append_assoc] at heq
    obtain ⟨r', hexit⟩ := @readHeader_short stream.toSource version n hn rest hnames
    rw [heq, reads_readHeader hw.header (hheader w.header _ heq)] at hexit
    cases hexit
  · rintro w es rest msg' hw hes hlen rfl htake hblocked
    obtain ⟨f, hread⟩ := @messageRead_blocked Qos extract stream msg msg' mimeType rest hmime w hw
      (hheader w _ rfl) es hes hlen htake hblocked
    exact hfault f hread
  · rintro w rest msg' hw rfl htake
    have hr : w.header.namesCount.val < 65534 :=
      hheader w.header _ (append_assoc _ _ _)
    have hread := @messageRead_framed Qos extract stream msg msg' mimeType w hmime hw hr htake rest
    obtain ⟨w', hw', heq, -⟩ := hsuccess _ _ hread
    have hr' : w'.header.namesCount.val < 65534 :=
      hheader w'.header _ (heq.trans (append_assoc _ _ _))
    exact WireMessage.wellFormed_unique stream.toSource hw hr hw' hr' heq

theorem readsOnlyMessages_of_error {msg' : Message Qos} {res : Status} {rest : List Byte}
    (hread : messageRead stream extract msg mimeType s = .ok (msg', res, rest))
    (hres : IsError res) : ReadsOnlyMessages stream extract msg mimeType s := by
  constructor
  · intro f hf
    rw [hread] at hf
    cases hf
  · intro msg₁ rest₁ h₁
    rw [hread] at h₁
    cases h₁
    exact absurd rfl hres

theorem Clean.reads (hmime : wireMimeOk mimeType = true) (h : Clean extract msg s) :
    ReadsOnlyMessages stream extract msg mimeType s := by
  rcases messageRead_cases stream extract msg mimeType hmime s with
    ⟨w, rest, msg', hw, hroom, rfl, htake⟩ |
    ⟨w, es, rest, msg', hw, hroom, hlen, hes, hs, htake, hblocked⟩ |
    ⟨version, n, rest, hs, hn⟩ | ⟨version, n, rest, hs, -, hnames⟩ | ⟨msg', res, rest, hread, hres⟩
  · have hread := @messageRead_framed Qos extract stream msg msg' mimeType w hmime hw hroom htake rest
    refine ⟨fun f hf => (by rw [hread] at hf; cases hf), fun msg₁ rest₁ h₁ => ?_⟩
    rw [hread] at h₁
    cases h₁
    exact ⟨w, h.signatures w rest msg' hw rfl htake, rfl, htake, takeAll_elements htake⟩
  · exact absurd hblocked (h.elements w es rest msg' hw hes hlen hs htake)
  · exact absurd (h.room version n rest hs) (Nat.not_lt_of_le hn)
  · exact absurd (h.names version n rest hs) hnames
  · exact readsOnlyMessages_of_error hread hres

/-- `jxta_message_read` is right about a stream exactly if the stream is clean; with another MIME
    type it does not read. -/
theorem readsOnlyMessages_iff (stream : InputStream)
    (extract : Option Qos → List Byte → Exec (Option Qos × Status)) (msg : Message Qos)
    (mimeType : Option CString) (s : List Byte) :
    ReadsOnlyMessages stream extract msg mimeType s ↔
      (wireMimeOk mimeType = true → Clean extract msg s) := by
  by_cases hmime : wireMimeOk mimeType = true
  · exact ⟨fun h _ => Clean.of_reads hmime h, fun h => Clean.reads hmime (h hmime)⟩
  · refine ⟨fun _ h => absurd h hmime, fun _ => ?_⟩
    have hread : messageRead stream extract msg mimeType s = .ok (msg, .invalidArgument, s) := by
      unfold messageRead
      rw [if_pos (by simpa using hmime)]
    exact readsOnlyMessages_of_error hread (fun h => by cases h)

end Claim

/-- A version 2 message of one element, that ends with the unsupported flags of this element. -/
def unsupportedStream : List Byte :=
  [106, 120, 109, 103, 1, 0, 0, 0, 0, 1, 106, 120, 101, 108, 16]

/-- `jxta_message_read` goes on with an element that was not made. -/
theorem not_readsOnlyMessages :
    ¬ ReadsOnlyMessages ⟨⟨.ioerr, fun _ _ => [], fun _ _ => Nat.zero_le _⟩, by decide⟩
      (fun qos _ => .ok (qos, .success)) (⟨[], none⟩ : Message Unit) none unsupportedStream :=
  fun h => h.1 .nullPointer rfl

end JxtaC.Message
