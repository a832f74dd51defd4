import JxtaC.WelcomeMessage

/-
  What `welcome_message_new_2` makes of the string that `welcome_message_new_1` builds. Every field
  is found where it was put (`new2_new1`), but the propagate flag comes back the other way round: the
  writer has "0" for TRUE, the reader FALSE for '0'.
-/

namespace JxtaC.WelcomeMessage

open Lib List
variable {t : List Byte} {v : Int} (rest : List Byte)

/-! ## tokens -/

theorem takeWhile_token {rest : List Byte} (h : space ∉ t) :
    (t ++ space :: rest).takeWhile (· ≠ space) = t := by
  rw [takeWhile_append_of_pos]
  · simp
  · intro b hb
    exact decide_eq_true fun heq => h (heq ▸ hb)

theorem dropWhile_token {rest : List Byte} (h : space ∉ t) :
    (t ++ space :: rest).dropWhile (· ≠ space) = space :: rest := by
  rw [dropWhile_append_of_pos]
  · simp
  · intro b hb
    exact decide_eq_true fun heq => h (heq ▸ hb)

/-- A field is read up to the space behind it. -/
theorem token_append (h : space ∉ t) : token (t ++ space :: rest) = some (t, rest) := by
  unfold token
  rw [if_pos (mem_append_right _ mem_cons_self), takeWhile_token h, dropWhile_token h]
  rfl

theorem field_append (h : space ∉ t) (hne : t ≠ []) :
    field (t ++ space :: rest) = some (t, rest) := by
  unfold field
  rw [token_append rest h]
  exact if_neg hne

theorem lastToken_append (front : List Byte) (h : space ∉ t) :
    lastToken (front ++ space :: t) = some t := by
  have hrev : (front ++ space :: t).reverse = t.reverse ++ space :: front.reverse := by simp
  have hnot : space ∉ t.reverse := fun hmem => h (mem_reverse.mp hmem)
  unfold lastToken
  rw [if_pos (mem_append_right _ mem_cons_self), hrev, takeWhile_token hnot,
    reverse_reverse]

/-! ## the fields of a welcome message -/

theorem toCString_ne_nil (a : EndpointAddress) : a.toCString ≠ [] := by
  unfold EndpointAddress.toCString
  simp [text]

theorem zero_not_mem_toCString (a : EndpointAddress) : (0 : Byte) ∉ a.toCString := by
  have hcolon : (0 : Byte) ∉ text "://" := by decide
  have hname := a.protocolName.property
  have haddress := a.protocolAddress.property
  unfold EndpointAddress.toCString
  simp only [mem_append, not_or]
  refine ⟨⟨⟨hname, hcolon⟩, haddress⟩, ?_⟩
  cases hservice : a.serviceName with
  | none => exact not_mem_nil
  | some name =>
    have hservice' := name.property
    cases hparams : a.serviceParams with
    | none => simpa [CString.bytes] using hservice'
    | some params =>
      have hparams' := params.property
      simp only [cons_append, mem_cons, mem_append, Option.map_some,
        Option.getD_some, not_or]
      exact ⟨by decide, hservice', by decide, hparams'⟩

theorem digit_of_mem_version (h : 0 ≤ v) {b : Byte} (hb : b ∈ Decimal.ofInt v) :
    Decimal.isDigit b = true := by
  obtain ⟨n, rfl⟩ := Int.eq_ofNat_of_zero_le h
  exact Decimal.isDigit_of_mem hb

theorem not_mem_version (h : 0 ≤ v) {b : Byte} (hb : Decimal.isDigit b = false) :
    b ∉ Decimal.ofInt v := by
  intro hmem
  rw [digit_of_mem_version h hmem] at hb
  exact Bool.false_ne_true hb.symm

theorem version_ne_nil (h : 0 ≤ v) : Decimal.ofInt v ≠ [] := by
  obtain ⟨n, rfl⟩ := Int.eq_ofNat_of_zero_le h
  exact Decimal.ofNat_ne_nil n

theorem length_version (h : 0 ≤ v) (hv : v ≤ 255) : (Decimal.ofInt v).length ≤ 3 := by
  obtain ⟨n, rfl⟩ := Int.eq_ofNat_of_zero_le h
  exact Decimal.length_ofNat_le (by decide) (by omega)

/-- The flag as the writer puts it. -/
def flagText (noprop : Bool) : List Byte := text (if noprop then "0" else "1")

theorem nopropField_flagText (noprop : Bool) (rest : List Byte) :
    nopropField (flagText noprop ++ space :: rest) = some (some !noprop, rest) := by
  have hspace : space ∉ flagText noprop := by
    cases noprop with
    | true => decide
    | false => decide
  unfold nopropField
  rw [token_append rest hspace]
  cases noprop with
  | true => rfl
  | false => rfl

/-- The fields behind the peer id. -/
theorem parseVersion_fields (myself : WelcomeMessage) (noprop : Bool) (hlow : 0 ≤ v)
    (hhigh : v ≤ 255) :
    parseVersion myself (flagText noprop ++ space :: (Decimal.ofInt v ++ space ::
      (currentVersion ++ crlf))) =
        some { myself with noprop := !noprop, useMessageVersion := v, version := .v3_0 } := by
  have hlast : lastToken (flagText noprop ++ space :: (Decimal.ofInt v ++ space ::
      (currentVersion ++ crlf))) = some (currentVersion ++ crlf) := by
    have hassoc : flagText noprop ++ space :: (Decimal.ofInt v ++ space :: (currentVersion ++ crlf))
        = (flagText noprop ++ space :: Decimal.ofInt v) ++ space :: (currentVersion ++ crlf) := by
      simp
    rw [hassoc]
    exact lastToken_append _ (by decide)
  have hfield := field_append (currentVersion ++ crlf)
    (not_mem_version hlow (b := space) (by decide)) (version_ne_nil hlow)
  have hlen := length_version hlow hhigh
  have hatoi : Decimal.atoi (Decimal.ofInt v) = v := Decimal.atoi_ofInt (by omega) (by omega)
  have h0 : ¬(currentVersion ++ crlf).head? = some 48 := by decide
  have h1 : ¬isVersion (text "1.1") (currentVersion ++ crlf) = true := by decide
  have h3 : isVersion (text "3.0") (currentVersion ++ crlf) = true := by decide
  unfold parseVersion
  rw [hlast]
  dsimp only
  rw [if_neg h0, if_neg h1, if_pos h3, nopropField_flagText]
  dsimp only
  rw [hfield]
  dsimp only
  rw [if_neg (Nat.not_lt.mpr hlen), if_neg (fun hne => hne rfl), hatoi]

/-- The string of a welcome message. -/
def welcomeStr (destAddr publicAddr : EndpointAddress) (peerid : CString) (noprop : Bool) (v : Int) :
    List Byte :=
  greeting ++ space :: (destAddr.toCString ++ space :: (publicAddr.toCString ++ space ::
    (peerid.bytes ++ space :: (flagText noprop ++ space :: (Decimal.ofInt v ++ space ::
      (currentVersion ++ crlf))))))

theorem new1_eq (destAddr publicAddr : EndpointAddress) (peerid : CString) (noprop : Bool)
    (hlow : 0 ≤ v) (hhigh : v ≤ 255) :
    new1 destAddr publicAddr peerid noprop v
      = some (welcomeStr destAddr publicAddr peerid noprop v) := by
  unfold new1 welcomeStr flagText
  rw [if_neg (by omega)]
  simp only [append_assoc, cons_append]

theorem zero_not_mem_welcomeStr (destAddr publicAddr : EndpointAddress) (peerid : CString)
    (noprop : Bool) (hlow : 0 ≤ v) :
    (0 : Byte) ∉ welcomeStr destAddr publicAddr peerid noprop v := by
  have hflag : (0 : Byte) ∉ flagText noprop := by
    cases noprop with
    | true => decide
    | false => decide
  unfold welcomeStr
  simp only [mem_append, mem_cons, not_or]
  exact ⟨by decide, by decide, zero_not_mem_toCString destAddr, by decide,
    zero_not_mem_toCString publicAddr, by decide, peerid.property, by decide, hflag, by decide,
    not_mem_version hlow (by decide), by decide, by decide, by decide⟩

theorem sameText_greeting : sameText greeting.length (greeting ++ rest) greeting = true := by
  have hself : ∀ t : List Byte, sameText t.length (t ++ rest) t = true := by
    intro t
    induction t with
    | nil => rfl
    | cons b t ih => simpa [sameText] using ih
  exact hself greeting

/-- A welcome message is read back with the addresses of its strings, its peer id and its message
    version, and with the other propagate flag. -/
theorem new2_new1 (uriParse : CString → Uri) {destAddr publicAddr : EndpointAddress}
    {peerid : CString} (noprop : Bool) (hdest : space ∉ destAddr.toCString)
    (hpublic : space ∉ publicAddr.toCString) (hpeer : space ∉ peerid.bytes)
    (hne : peerid.bytes ≠ []) (hlow : 0 ≤ v) (hhigh : v ≤ 255) :
    new2 uriParse (.ofBuffer (welcomeStr destAddr publicAddr peerid noprop v)) = some
      ⟨EndpointAddress.new uriParse (.ofBuffer destAddr.toCString),
        EndpointAddress.new uriParse (.ofBuffer publicAddr.toCString), peerid.bytes, !noprop, v,
        .v3_0⟩ := by
  have hbytes : (CString.ofBuffer (welcomeStr destAddr publicAddr peerid noprop v)).bytes
      = welcomeStr destAddr publicAddr peerid noprop v := by
    have hzero := zero_not_mem_welcomeStr destAddr publicAddr peerid noprop hlow
    exact congrArg CString.bytes (CString.ofBuffer_bytes ⟨_, hzero⟩)
  unfold new2
  rw [hbytes]
  unfold welcomeStr
  rw [token_append _ (by decide)]
  dsimp only
  rw [if_neg (by rw [sameText_greeting]; decide), field_append _ hdest (toCString_ne_nil destAddr)]
  dsimp only
  rw [field_append _ hpublic (toCString_ne_nil publicAddr)]
  dsimp only
  rw [field_append _ hpeer hne]
  dsimp only
  rw [parseVersion_fields _ noprop hlow hhigh]

/-! ## the round trip -/

/-- The reader gets the fields of the message that the string was built for. -/
def RoundTrips (uriParse : CString → Uri) (destAddr publicAddr : EndpointAddress) (peerid : CString)
    (noprop : Bool) (v : Int) : Prop :=
  ∃ str m, new1 destAddr publicAddr peerid noprop v = some str ∧
    new2 uriParse (.ofBuffer str) = some m ∧ m.destAddr = some destAddr ∧
    m.publicAddr = some publicAddr ∧ m.peerId = peerid.bytes ∧ m.noprop = noprop ∧
    m.useMessageVersion = v

theorem not_roundTrips_of_fields (uriParse : CString → Uri)
    {destAddr publicAddr : EndpointAddress} {peerid : CString} (noprop : Bool)
    (hdest : space ∉ destAddr.toCString) (hpublic : space ∉ publicAddr.toCString)
    (hpeer : space ∉ peerid.bytes) (hne : peerid.bytes ≠ []) (hlow : 0 ≤ v) (hhigh : v ≤ 255) :
    ¬RoundTrips uriParse destAddr publicAddr peerid noprop v := by
  rintro ⟨str, m, hstr, hread, -, -, -, hflag, -⟩
  rw [new1_eq destAddr publicAddr peerid noprop hlow hhigh] at hstr
  cases hstr
  rw [new2_new1 uriParse noprop hdest hpublic hpeer hne hlow hhigh] at hread
  cases hread
  cases noprop with
  | true => exact Bool.false_ne_true hflag
  | false => exact Bool.false_ne_true hflag.symm

/-- No welcome message is read back: its propagate flag is not. The other fields are, as far as the
    addresses can be read back from their strings. -/
theorem never_roundTrips (uriParse : CString → Uri) (destAddr publicAddr : EndpointAddress)
    (peerid : CString) (noprop : Bool) (v : Int) (hdest : space ∉ destAddr.toCString)
    (hpublic : space ∉ publicAddr.toCString) (hpeer : space ∉ peerid.bytes)
    (hne : peerid.bytes ≠ []) (hlow : 0 ≤ v) (hhigh : v ≤ 255) :
    ¬RoundTrips uriParse destAddr publicAddr peerid noprop v ∧
      ∃ str, new1 destAddr publicAddr peerid noprop v = some str ∧
        new2 uriParse (.ofBuffer str) = some
          ⟨EndpointAddress.new uriParse (.ofBuffer destAddr.toCString),
            EndpointAddress.new uriParse (.ofBuffer publicAddr.toCString), peerid.bytes, !noprop, v,
            .v3_0⟩ :=
  ⟨not_roundTrips_of_fields uriParse noprop hdest hpublic hpeer hne hlow hhigh,
    _, new1_eq destAddr publicAddr peerid noprop hlow hhigh,
    new2_new1 uriParse noprop hdest hpublic hpeer hne hlow hhigh⟩

/-- The address of a peer, and what `apr_uri_parse` finds of its string. -/
def tcpAddress : EndpointAddress :=
  ⟨.ofBuffer (text "tcp"), .ofBuffer (text "10.0.0.1:9701"), none, none⟩

def tcpUri (_ : CString) : Uri :=
  ⟨some (.ofBuffer (text "tcp")), some (.ofBuffer (text "10.0.0.1")), some (.ofBuffer (text "9701")),
    none, none, none⟩

theorem never_roundTrips_tcp :
    ¬RoundTrips tcpUri tcpAddress tcpAddress (.ofBuffer (text "urn:jxta:uuid-1")) true 1 ∧
      ∃ str, new1 tcpAddress tcpAddress (.ofBuffer (text "urn:jxta:uuid-1")) true 1 = some str ∧
        new2 tcpUri (.ofBuffer str) = some
          ⟨EndpointAddress.new tcpUri (.ofBuffer tcpAddress.toCString),
            EndpointAddress.new tcpUri (.ofBuffer tcpAddress.toCString),
            (CString.ofBuffer (text "urn:jxta:uuid-1")).bytes, !true, 1, .v3_0⟩ :=
  never_roundTrips tcpUri tcpAddress tcpAddress (.ofBuffer (text "urn:jxta:uuid-1")) true 1
    (by decide) (by decide) (by decide) (by decide) (by decide) (by decide)

/-- The message that a connection sends, with the flag set: the reader finds it not set. -/
theorem not_roundTrips :
    ¬∀ (uriParse : CString → Uri) (destAddr publicAddr : EndpointAddress) (peerid : CString)
      (noprop : Bool) (v : Int), space ∉ destAddr.toCString → space ∉ publicAddr.toCString →
      space ∉ peerid.bytes → peerid.bytes ≠ [] → 0 ≤ v → v ≤ 255 →
        RoundTrips uriParse destAddr publicAddr peerid noprop v := by
  intro h
  have hround := h tcpUri tcpAddress tcpAddress (.ofBuffer (text "urn:jxta:uuid-1")) true 1
    (by decide) (by decide) (by decide) (by decide) (by decide) (by decide)
  exact not_roundTrips_of_fields tcpUri true (by decide) (by decide) (by decide) (by decide)
    (by decide) (by decide) hround

end JxtaC.WelcomeMessage
