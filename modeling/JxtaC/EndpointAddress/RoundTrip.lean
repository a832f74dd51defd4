import JxtaC.Lib.Block
import JxtaC.Lib.CStrings
import JxtaC.Qos.Setting
import JxtaC.RouterMessage

/-
  Endpoint addresses and their strings, with what is documented of the URI parser.
  `uriParts` splits a URI with an authority, and `Documented` says that the parser does the same:
  the brackets around an IPv6 address are left out of the host, and a port that is no number ends
  the parse behind it. What is printed of such an address has lost its brackets (`reads_literal`); any
  other comes back (`reads_name`).
-/

namespace JxtaC.EndpointAddress

open Lib Lib.Block List

/-! ## the printing functions -/

/-- `jxta_endpoint_address_size`. -/
def jxtaEndpointAddressSize (a : EndpointAddress) : Nat :=
  a.protocolName.bytes.length + 3 + a.protocolAddress.bytes.length +
    (match a.serviceName with
      | none => 0
      | some name => 1 + name.bytes.length +
        match a.serviceParams with
        | none => 0
        | some params => 1 + params.bytes.length) + 1

/-- `memcpy` to the cursor, which moves behind the bytes. -/
def put (buf : List Byte × Nat) (bytes : List Byte) : Exec (List Byte × Nat) := do
  return (← writeAt buf.1 buf.2 bytes, buf.2 + bytes.length)

/-- `to_cstr`: the buffer, and the place of the NUL. -/
def toCstr (me : EndpointAddress) (buf : List Byte) : Exec (List Byte × Nat) := do
  let buf ← put (buf, 0) me.protocolName.bytes
  let buf ← put buf (text "://")
  let buf ← put buf me.protocolAddress.bytes
  let buf ←
    match me.serviceName with
    | none => pure buf
    | some name => do
      let buf ← put buf [47]
      let buf ← put buf name.bytes
      match me.serviceParams with
      | none => pure buf
      | some params => do
        let buf ← put buf [47]
        put buf params.bytes
  return (← writeAt buf.1 buf.2 [0], buf.2)

/-! ## URIs -/

def isLetter (b : Byte) : Bool := (65 ≤ b ∧ b ≤ 90) ∨ (97 ≤ b ∧ b ≤ 122)

def isDigit (b : Byte) : Bool := 48 ≤ b ∧ b ≤ 57

/-- A byte of a scheme: a letter, a digit, or one of `+-.`. -/
def schemeByte (b : Byte) : Bool := isLetter b ∨ isDigit b ∨ b = 43 ∨ b = 45 ∨ b = 46

/-- A byte of an IPv6 address: a hexadecimal digit, a colon or a dot. -/
def literalByte (b : Byte) : Bool :=
  isDigit b ∨ (65 ≤ b ∧ b ≤ 70) ∨ (97 ≤ b ∧ b ≤ 102) ∨ b = 58 ∨ b = 46

/-- A byte that ends the authority: a slash, a question mark or a number sign. -/
def delimiter (b : Byte) : Bool := b = 47 ∨ b = 63 ∨ b = 35

def splitScheme (s : List Byte) : Option (List Byte × List Byte) :=
  let scheme := s.takeWhile schemeByte
  match s.dropWhile schemeByte with
  | [] => none
  | colon :: rest => if colon = 58 ∧ scheme.head?.any isLetter then some (scheme, rest) else none

def splitAuthority (s : List Byte) : Option (List Byte × List Byte) :=
  if s.take 2 = [47, 47] then
    some ((s.drop 2).takeWhile (!delimiter ·), (s.drop 2).dropWhile (!delimiter ·))
  else none

/-- The part of the authority behind the user information. -/
def hostinfo (authority : List Byte) : List Byte := (authority.reverse.takeWhile (· ≠ 64)).reverse

/-- The text behind a colon, if there is one. -/
def portOf (s : List Byte) : Option (Option (List Byte)) :=
  match s with
  | [] => some none
  | colon :: port => if colon = 58 then some (some port) else none

/-- The host and the port. -/
def hostPort (hostinfo : List Byte) : Option (List Byte × Option (List Byte)) :=
  if hostinfo.head? = some 91 then
    let literal := hostinfo.tail.takeWhile (· ≠ 93)
    if literal.all literalByte ∧ 2 ≤ literal.count 58 ∧ 93 ∈ hostinfo then
      (portOf ((hostinfo.tail.dropWhile (· ≠ 93)).drop 1)).map fun port => (literal, port)
    else none
  else
    (portOf (hostinfo.dropWhile (· ≠ 58))).map fun port => (hostinfo.takeWhile (· ≠ 58), port)

/-- The path, the query and the fragment. -/
def splitTail (tail : List Byte) :
    Option (List Byte) × Option (List Byte) × Option (List Byte) :=
  let path := tail.takeWhile fun b => b ≠ 63 ∧ b ≠ 35
  let rest := tail.dropWhile fun b => b ≠ 63 ∧ b ≠ 35
  (if path = [] then none else some path,
    if rest.head? = some 63 then some (rest.tail.takeWhile (· ≠ 35)) else none,
    if 35 ∈ rest then some ((rest.dropWhile (· ≠ 35)).drop 1) else none)

/-- These parts as the parser hands them out. -/
def uriOf (scheme host : List Byte) (port : Option (List Byte))
    (tail : Option (List Byte) × Option (List Byte) × Option (List Byte)) : Uri where
  scheme := some (.ofBuffer scheme)
  hostname := some (.ofBuffer host)
  portStr := port.map .ofBuffer
  path := tail.1.map .ofBuffer
  query := tail.2.1.map .ofBuffer
  fragment := tail.2.2.map .ofBuffer

/-- The parts of a URI with a scheme and an authority. -/
def uriParts (isPort : List Byte → Bool) (s : List Byte) : Option Uri := do
  let (scheme, rest) ← splitScheme s
  let (authority, tail) ← splitAuthority rest
  let (host, port) ← hostPort (hostinfo authority)
  return uriOf scheme host port
    (if port.all fun p => p = [] ∨ isPort p then splitTail tail else (none, none, none))

/-- What is documented of `apr_uri_parse`: the parts of a URI, and a scheme with a host of no other
    text. No text with a colon in it is a port number. -/
structure Documented (isPort : List Byte → Bool) (uriParse : CString → Uri) : Prop where
  parts : ∀ s uri, uriParts isPort s.bytes = some uri → uriParse s = uri
  only : ∀ s, (uriParse s).scheme ≠ none → (uriParse s).hostname ≠ none →
    uriParts isPort s.bytes ≠ none
  colon : ∀ p, 58 ∈ p → isPort p = false

/-! ## the claim of address strings -/

/-- The string of an address is read as the address. -/
def RoundTrips (uriParse : CString → Uri) (a : EndpointAddress) : Prop :=
  new uriParse (.ofBuffer a.toCString) = some a

/-- The host of a URI is an IPv6 address, and it names a service. -/
def LiteralWithService (isPort : List Byte → Bool) (s : CString) : Prop :=
  ∃ uri host, uriParts isPort s.bytes = some uri ∧ uri.hostname = some host ∧ 58 ∈ host.bytes ∧
    pathText uri ≠ []

/-! ## the size -/

section Size
variable {front back bytes : List Byte}
variable (a : EndpointAddress)

theorem put_eq (h : bytes.length ≤ back.length) :
    put (front ++ back, front.length) bytes =
      .ok ((front ++ bytes) ++ back.drop bytes.length, (front ++ bytes).length) := by
  have hfits : front.length + bytes.length ≤ (front ++ back).length := by
    rw [length_append]
    omega
  unfold put
  rw [writeAt_of_le hfits, take_left, drop_append, length_append]
  simp

theorem puts_eq (pieces : List (List Byte)) (h : pieces.flatten.length ≤ back.length) :
    pieces.foldlM put (front ++ back, front.length) =
      .ok ((front ++ pieces.flatten) ++ back.drop pieces.flatten.length,
        (front ++ pieces.flatten).length) := by
  induction pieces generalizing front back with
  | nil =>
    rw [flatten_nil, append_nil, length_nil, drop_zero]
    rfl
  | cons piece pieces ih =>
    rw [flatten_cons, length_append] at h
    have hrest : pieces.flatten.length ≤ (back.drop piece.length).length := by
      rw [length_drop]
      omega
    have hlen : (piece ++ pieces.flatten).length = piece.length + pieces.flatten.length :=
      length_append
    rw [foldlM_cons, put_eq (by omega), ok_bind, ih hrest, flatten_cons,
      append_assoc front, drop_drop, hlen]

/-- What `to_cstr` copies, one after the other. -/
def pieces (a : EndpointAddress) : List (List Byte) :=
  [a.protocolName.bytes, text "://", a.protocolAddress.bytes] ++
    match a.serviceName with
    | none => []
    | some name => [[47], name.bytes] ++ match a.serviceParams with
      | none => []
      | some params => [[47], params.bytes]

theorem flatten_pieces : a.pieces.flatten = a.toCString := by
  unfold pieces toCString
  cases a.serviceName with
  | none => simp
  | some name =>
    cases a.serviceParams with
    | none => simp
    | some params => simp

theorem toCstr_eq_puts (buf : List Byte) :
    toCstr a buf = (do
      let buf ← a.pieces.foldlM put (buf, 0)
      return (← writeAt buf.1 buf.2 [0], buf.2)) := by
  unfold toCstr pieces
  cases a.serviceName with
  | none => simp [bind_assoc]
  | some name =>
    cases a.serviceParams with
    | none => simp [bind_assoc]
    | some params => simp [bind_assoc]

/-- The string is as long as `jxta_endpoint_address_size` says, less the NUL. -/
theorem size_eq : jxtaEndpointAddressSize a = a.toCString.length + 1 := by
  have hsep : (text "://").length = 3 := by decide
  unfold jxtaEndpointAddressSize toCString
  cases a.serviceName with
  | none =>
    simp only [length_append, hsep, length_nil]
  | some name =>
    cases a.serviceParams with
    | none =>
      simp only [length_append, length_cons, hsep, Option.map_none, Option.getD_none,
        length_nil]
      omega
    | some params =>
      simp only [length_append, length_cons, hsep, Option.map_some, Option.getD_some]
      omega

/-- A buffer of this size is filled up to its last byte, which is the NUL. -/
theorem toCstr_eq (buf : List Byte) (h : buf.length = jxtaEndpointAddressSize a) :
    toCstr a buf = .ok (a.toCString ++ [0], a.toCString.length) := by
  rw [size_eq] at h
  have hputs : a.pieces.foldlM put ([] ++ buf, ([] : List Byte).length) = _ :=
    puts_eq a.pieces (by rw [flatten_pieces]; omega)
  rw [flatten_pieces, nil_append, nil_append, length_nil] at hputs
  have hlast : a.toCString.length + [(0 : Byte)].length ≤
      (a.toCString ++ buf.drop a.toCString.length).length := by
    rw [length_append, length_drop, length_singleton]
    omega
  rw [toCstr_eq_puts, hputs, ok_bind, writeAt_of_le hlast, take_left, ok_bind,
    drop_eq_nil_of_le, append_nil]
  · rfl
  · rw [length_append, length_drop, length_singleton]
    omega

end Size

/-! ## the parts of a URI -/

section Parts
variable {s scheme rest address tail host : List Byte} {port : Option (List Byte)}

/-- A scheme as it stands in front of its colon. -/
def IsScheme (scheme : List Byte) : Prop :=
  (∀ b ∈ scheme, schemeByte b = true) ∧ scheme.head?.any isLetter = true

theorem splitScheme_text (h : IsScheme scheme) :
    splitScheme (scheme ++ 58 :: rest) = some (scheme, rest) := by
  have hcolon : schemeByte 58 = false := by decide
  unfold splitScheme
  rw [takeWhile_append_of_pos h.1, dropWhile_append_of_pos h.1,
    takeWhile_cons_of_neg (by rw [hcolon]; decide), dropWhile_cons_of_neg
    (by rw [hcolon]; decide), append_nil]
  exact if_pos ⟨rfl, h.2⟩

theorem isScheme_of_split (h : splitScheme s = some (scheme, rest)) :
    IsScheme scheme ∧ s = scheme ++ 58 :: rest := by
  have hsplit := takeWhile_append_dropWhile (p := schemeByte) (l := s)
  unfold splitScheme at h
  cases hdrop : s.dropWhile schemeByte with
  | nil =>
    rw [hdrop] at h
    cases h
  | cons colon rest' =>
    rw [hdrop] at h hsplit
    dsimp only at h
    split at h
    next hcond =>
      obtain ⟨rfl, rfl⟩ := Prod.mk.inj (Option.some.inj h)
      obtain ⟨rfl, hletter⟩ := hcond
      exact ⟨⟨fun b hb => mem_takeWhile_imp hb, hletter⟩, hsplit.symm⟩
    next => cases h

/-- No byte of the authority ends it, and none marks user information. -/
def IsPlain (s : List Byte) : Prop := ∀ b ∈ s, delimiter b = false ∧ b ≠ 64

theorem hostinfo_plain (h : IsPlain address) : hostinfo address = address := by
  unfold hostinfo
  have hall : ∀ b ∈ address.reverse, decide (b ≠ 64) = true := fun b hb =>
    decide_eq_true (h b (mem_reverse.mp hb)).2
  rw [takeWhile_eq_self_iff.mpr hall, reverse_reverse]

theorem isPlain_hostinfo {authority : List Byte} (h : ∀ b ∈ authority, delimiter b = false) :
    IsPlain (hostinfo authority) := by
  intro b hb
  unfold hostinfo at hb
  have hmem := mem_reverse.mp hb
  have hin := mem_reverse.mp ((List.takeWhile_prefix _).subset hmem)
  have hat := mem_takeWhile_imp hmem
  exact ⟨h b hin, of_decide_eq_true hat⟩

theorem hostinfo_subset (authority : List Byte) : hostinfo authority ⊆ authority := by
  intro b hb
  exact mem_reverse.mp ((List.takeWhile_prefix _).subset (mem_reverse.mp hb))

theorem splitAuthority_text (h : IsPlain address) (htail : tail = [] ∨ ∃ t, tail = 47 :: t) :
    splitAuthority (47 :: 47 :: (address ++ tail)) = some (address, tail) := by
  have hall : ∀ b ∈ address, (!delimiter b) = true := fun b hb => by rw [(h b hb).1]; rfl
  have hslash : ¬ (!delimiter 47) = true := by decide
  have hend : tail.takeWhile (!delimiter ·) = [] ∧ tail.dropWhile (!delimiter ·) = tail := by
    rcases htail with rfl | ⟨t, rfl⟩
    · exact ⟨rfl, rfl⟩
    · exact ⟨takeWhile_cons_of_neg hslash, dropWhile_cons_of_neg hslash⟩
  have htwo : (47 :: 47 :: (address ++ tail)).take 2 = [47, 47] := rfl
  unfold splitAuthority
  rw [if_pos htwo]
  show some ((address ++ tail).takeWhile _, (address ++ tail).dropWhile _) = _
  rw [takeWhile_append_of_pos hall, dropWhile_append_of_pos hall, hend.1, hend.2,
    append_nil]

theorem plain_of_split {authority : List Byte} (h : splitAuthority s = some (authority, tail)) :
    ∀ b ∈ authority, delimiter b = false := by
  unfold splitAuthority at h
  split at h
  next =>
    cases h
    intro b hb
    have hnot := mem_takeWhile_imp hb
    simpa using hnot
  next => cases h

/-- A host is a name, or the address of a literal. -/
structure IsHost (host : List Byte) (port : Option (List Byte)) : Prop where
  form : (58 ∉ host ∧ host.head? ≠ some 91) ∨ (host.all literalByte ∧ 2 ≤ host.count 58)
  plain : IsPlain host
  plain_port : ∀ p, port = some p → IsPlain p

theorem portOf_eq_some (h : portOf s = some port) : s = (port.map fun p => 58 :: p).getD [] := by
  unfold portOf at h
  cases s with
  | nil =>
    cases h
    rfl
  | cons colon rest =>
    dsimp only at h
    split at h
    next hcolon =>
      obtain rfl := Option.some.inj h
      rw [hcolon]
      rfl
    next => exact absurd h (by simp)

theorem isHost_of_hostPort (hs : IsPlain s) (h : hostPort s = some (host, port)) :
    IsHost host port ∧ host ⊆ s ∧ ∀ p, port = some p → p ⊆ s := by
  have hport : ∀ {t : List Byte}, t ⊆ s → portOf t = some port → ∀ p, port = some p → p ⊆ s := by
    intro t ht hof p hp
    have ht' := portOf_eq_some hof
    rw [hp, Option.map_some, Option.getD_some] at ht'
    intro b hb
    exact ht (ht' ▸ mem_cons_of_mem _ hb)
  unfold hostPort at h
  split at h
  next hbracket =>
    dsimp only at h
    split at h
    next hliteral =>
      obtain ⟨port', hof, heq⟩ := Option.map_eq_some_iff.mp h
      cases heq
      have hhost : s.tail.takeWhile (· ≠ 93) ⊆ s :=
        fun b hb => mem_of_mem_tail ((List.takeWhile_prefix _).subset hb)
      have hrest : (s.tail.dropWhile (· ≠ 93)).drop 1 ⊆ s := fun b hb =>
        mem_of_mem_tail ((dropWhile_suffix _).subset (mem_of_mem_drop hb))
      have hp := hport hrest hof
      exact ⟨⟨.inr ⟨hliteral.1, hliteral.2.1⟩, fun b hb => hs b (hhost hb),
        fun p heq b hb => hs b (hp p heq hb)⟩, hhost, hp⟩
    next => cases h
  next hbracket =>
    obtain ⟨port', hof, heq⟩ := Option.map_eq_some_iff.mp h
    cases heq
    have hhost : s.takeWhile (· ≠ 58) ⊆ s := (List.takeWhile_prefix _).subset
    have hrest : s.dropWhile (· ≠ 58) ⊆ s := (dropWhile_suffix _).subset
    have hp := hport hrest hof
    have hcolon : 58 ∉ s.takeWhile (· ≠ 58) := by
      intro hmem
      have hne := mem_takeWhile_imp hmem
      exact of_decide_eq_true hne rfl
    have hhead : (s.takeWhile (· ≠ 58)).head? ≠ some 91 := by
      intro hhead
      obtain ⟨t, ht⟩ := head?_eq_some_iff.mp hhead
      have hprefix := List.takeWhile_prefix (l := s) (· ≠ 58)
      rw [ht] at hprefix
      obtain ⟨t', rfl⟩ := hprefix
      exact hbracket rfl
    exact ⟨⟨.inl ⟨hcolon, hhead⟩, fun b hb => hs b (hhost hb),
      fun p heq b hb => hs b (hp p heq hb)⟩, hhost, hp⟩

/-- The address that a host and a port make. -/
def addressOf (host : List Byte) (port : Option (List Byte)) : List Byte :=
  match port with
  | none => host
  | some p => if p = [] then host else host ++ 58 :: p

theorem isPlain_addressOf (h : IsHost host port) : IsPlain (addressOf host port) := by
  unfold addressOf
  cases port with
  | none => exact h.plain
  | some p =>
    dsimp only
    split
    next => exact h.plain
    next =>
      intro b hb
      rcases mem_append.mp hb with hb | hb
      · exact h.plain b hb
      · rcases mem_cons.mp hb with rfl | hb
        · decide
        · exact h.plain_port p rfl b hb

theorem head_addressOf (h : host.head? ≠ some 91) : (addressOf host port).head? ≠ some 91 := by
  unfold addressOf
  cases port with
  | none => exact h
  | some p =>
    dsimp only
    split
    next => exact h
    next =>
      cases host with
      | nil => exact fun heq => absurd (Option.some.inj heq) (by decide)
      | cons b host => exact h

/-- A name is found again, with its port if that is not empty. -/
theorem hostPort_name (hcolon : 58 ∉ host) (hhead : host.head? ≠ some 91) :
    hostPort (addressOf host port) = some (host, port.filter (· ≠ [])) := by
  have hname : hostPort host = some (host, none) := by
    have hall : ∀ b ∈ host, decide (b ≠ 58) = true := fun b hb =>
      decide_eq_true fun heq => hcolon (heq ▸ hb)
    unfold hostPort
    rw [if_neg hhead, takeWhile_eq_self_iff.mpr hall, dropWhile_eq_nil_iff.mpr hall]
    rfl
  have hhead' : (addressOf host port).head? ≠ some 91 := head_addressOf hhead
  unfold addressOf at hhead' ⊢
  cases port with
  | none => exact hname
  | some p =>
    dsimp only at hhead' ⊢
    by_cases hp : p = []
    · rw [if_pos hp, hname, hp]
      rfl
    · rw [if_neg hp] at hhead' ⊢
      unfold hostPort
      rw [if_neg hhead', (takeWhile_append_stop hcolon).1, (takeWhile_append_stop hcolon).2,
        Option.filter_some, if_pos (by simp [hp])]
      rfl

/-- Of a literal without its brackets the first colon is taken to be that of the port. -/
theorem hostPort_literal (hall : host.all literalByte) (hcount : 2 ≤ host.count 58) :
    ∃ host' port', hostPort (addressOf host port) = some (host', some port') ∧ 58 ∈ port' ∧
      addressOf host port = host' ++ 58 :: port' := by
  have hmem : 58 ∈ host := count_pos_iff.mp (by omega)
  obtain ⟨host', rest, rfl, hnot⟩ := eq_append_cons_of_mem hmem
  have hrest : 58 ∈ rest := by
    rw [count_append, count_eq_zero_of_not_mem hnot, count_cons_self] at hcount
    exact count_pos_iff.mp (by omega)
  have hhead : (host' ++ 58 :: rest).head? ≠ some 91 := by
    intro hhead
    obtain ⟨t, ht⟩ := head?_eq_some_iff.mp hhead
    rw [ht] at hall
    have hbyte := all_eq_true.mp hall 91 mem_cons_self
    cases hbyte
  obtain ⟨port', haddress, hcolon⟩ : ∃ port', addressOf (host' ++ 58 :: rest) port =
      host' ++ 58 :: port' ∧ 58 ∈ port' := by
    unfold addressOf
    cases port with
    | none => exact ⟨rest, rfl, hrest⟩
    | some p =>
      dsimp only
      split
      next => exact ⟨rest, rfl, hrest⟩
      next =>
        refine ⟨rest ++ 58 :: p, ?_, mem_append_left _ hrest⟩
        rw [append_assoc, cons_append]
  refine ⟨host', port', ?_, hcolon, haddress⟩
  have hhead' : (addressOf (host' ++ 58 :: rest) port).head? ≠ some 91 := head_addressOf hhead
  rw [haddress] at hhead' ⊢
  unfold hostPort
  rw [if_neg hhead', (takeWhile_append_stop hnot).1, (takeWhile_append_stop hnot).2]
  rfl

theorem uriParts_text {isPort : List Byte → Bool} {host' : List Byte} {port' : Option (List Byte)}
    (hscheme : IsScheme scheme) (haddress : IsPlain address)
    (htail : tail = [] ∨ ∃ t, tail = 47 :: t) (hhost : hostPort address = some (host', port')) :
    uriParts isPort (scheme ++ text "://" ++ address ++ tail) = some (uriOf scheme host' port'
      (if port'.all fun p => p = [] ∨ isPort p then splitTail tail else (none, none, none))) := by
  have hs : scheme ++ text "://" ++ address ++ tail =
      scheme ++ 58 :: (47 :: 47 :: (address ++ tail)) := by
    have hsep : text "://" = [58, 47, 47] := by decide
    rw [hsep]
    simp
  unfold uriParts
  rw [hs, splitScheme_text hscheme]
  simp only [Option.bind_eq_bind, Option.bind_some, splitAuthority_text haddress htail,
    hostinfo_plain haddress, hhost]
  rfl

/-- What the parts of a URI are. -/
theorem uriParts_elim {isPort : List Byte → Bool} {uri : Uri} (h : uriParts isPort s = some uri) :
    ∃ scheme host port tail, IsScheme scheme ∧ IsHost host port ∧ scheme ⊆ s ∧ host ⊆ s ∧
      (∀ p, port = some p → p ⊆ s) ∧ uri = uriOf scheme host port
        (if port.all fun p => p = [] ∨ isPort p then splitTail tail else (none, none, none)) := by
  unfold uriParts at h
  simp only [Option.bind_eq_bind, Option.bind_eq_some_iff] at h
  obtain ⟨⟨scheme, rest⟩, hscheme, ⟨authority, tail⟩, hauthority, ⟨host, port⟩, hhost, heq⟩ := h
  obtain ⟨hisScheme, hs⟩ := isScheme_of_split hscheme
  have hplain := isPlain_hostinfo (plain_of_split hauthority)
  obtain ⟨hisHost, hin, hport⟩ := isHost_of_hostPort hplain hhost
  have hauth : hostinfo authority ⊆ s := by
    intro b hb
    have hmem := hostinfo_subset authority hb
    unfold splitAuthority at hauthority
    split at hauthority
    next =>
      cases hauthority
      rw [hs]
      exact mem_append_right _ (mem_cons_of_mem _ (mem_of_mem_drop
        ((List.takeWhile_prefix _).subset hmem)))
    next => cases hauthority
  refine ⟨scheme, host, port, tail, hisScheme, hisHost, ?_, fun b hb => hauth (hin hb),
    fun p hp b hb => hauth (hport p hp hb), (Option.some.inj heq).symm⟩
  rw [hs]
  exact subset_append_left _ _

end Parts

/-! ## the service -/

section Service
variable {tmp : List Byte}

/-- The text of a service does not begin with a slash or a colon. -/
def IsService (tmp : List Byte) : Prop := ∀ b ∈ tmp.head?, b ≠ 58 ∧ b ≠ 47

theorem isService_append {rest : List Byte} (h : IsService tmp) (hrest : IsService rest) :
    IsService (tmp ++ rest) := by
  cases tmp with
  | nil => exact hrest
  | cons b tmp => exact h

theorem isService_pathText (uri : Uri) : IsService (pathText uri) := by
  unfold pathText
  apply isService_append (isService_append ?_ ?_)
  · cases uri.fragment with
    | none => exact fun b hb => absurd hb (by simp)
    | some f =>
      intro b hb
      cases hb
      decide
  · cases uri.path with
    | none => exact fun b hb => absurd hb (by simp)
    | some p =>
      intro b hb
      have hnot := head?_dropWhile_not (fun b => decide (b = 58 ∨ b = 47)) p.bytes
      have hhead : (p.bytes.dropWhile fun b => decide (b = 58 ∨ b = 47)).head? = some b := hb
      rw [hhead] at hnot
      simpa using hnot
  · cases uri.query with
    | none => exact fun b hb => absurd hb (by simp)
    | some q =>
      intro b hb
      cases hb
      decide

/-- The service of an address, as it is printed. -/
def tailOf (tmp : List Byte) : List Byte := if tmp = [] then [] else 47 :: tmp

/-- The name and the parameters stand on the two sides of the first slash. -/
theorem service_cases (h : IsService tmp) (hne : tmp ≠ []) :
    (47 ∉ tmp ∧ service tmp = (some (.ofBuffer tmp), none)) ∨
      ∃ name params, tmp = name ++ 47 :: params ∧
        service tmp = (some (.ofBuffer name), some (.ofBuffer params)) := by
  by_cases hslash : 47 ∈ tmp
  · obtain ⟨name, params, rfl, hnot⟩ := eq_append_cons_of_mem hslash
    have hname : name ≠ [] := by
      rintro rfl
      exact (h 47 rfl).2 rfl
    refine .inr ⟨name, params, rfl, ?_⟩
    unfold service
    dsimp only
    rw [(takeWhile_append_stop hnot).1, (takeWhile_append_stop hnot).2, if_pos hslash,
      if_neg hname]
    rfl
  · have hall : ∀ b ∈ tmp, decide (b ≠ 47) = true := fun b hb =>
      decide_eq_true fun heq => hslash (heq ▸ hb)
    refine .inl ⟨hslash, ?_⟩
    unfold service
    dsimp only
    rw [takeWhile_eq_self_iff.mpr hall, if_neg hslash, if_neg hne]

theorem serviceText_service {scheme address : CString} (hnul : 0 ∉ tmp) (h : IsService tmp) :
    serviceText ⟨scheme, address, (service tmp).1, (service tmp).2⟩ = tailOf tmp := by
  unfold tailOf
  by_cases hne : tmp = []
  · rw [if_pos hne, hne]
    rfl
  · rw [if_neg hne]
    unfold serviceText
    rcases service_cases h hne with ⟨-, heq⟩ | ⟨name, params, rfl, heq⟩
    · rw [heq]
      dsimp only
      rw [Qos.bytes_ofBuffer hnul]
      exact append_nil _
    · have hname : 0 ∉ name := fun hmem => hnul (mem_append_left _ hmem)
      have hparams : 0 ∉ params := fun hmem =>
        hnul (mem_append_right _ (mem_cons_of_mem _ hmem))
      rw [heq]
      dsimp only
      rw [Qos.bytes_ofBuffer hname, Option.map_some, Qos.bytes_ofBuffer hparams]
      rfl

theorem service_eq_none (h : IsService tmp) : service tmp = (none, none) ↔ tmp = [] := by
  constructor
  · intro hnone
    by_contra hne
    rcases service_cases h hne with ⟨-, heq⟩ | ⟨name, params, -, heq⟩
    · exact absurd (hnone.symm.trans heq) (by simp)
    · exact absurd (hnone.symm.trans heq) (by simp)
  · rintro rfl
    rfl

/-- A question mark with the query, and a number sign with the fragment. -/
theorem query_fragment {rest : List Byte} (h : ∀ b ∈ rest.head?, b = 63 ∨ b = 35) :
    ((if rest.head? = some 63 then some (rest.tail.takeWhile (· ≠ 35)) else none).map
        fun q => 63 :: q).getD [] ++
      ((if 35 ∈ rest then some ((rest.dropWhile (· ≠ 35)).drop 1) else none).map
        fun f => 35 :: f).getD [] = rest := by
  cases rest with
  | nil => rfl
  | cons b rest =>
    rcases h b rfl with rfl | rfl
    · have hdrop : (63 :: rest).dropWhile (· ≠ 35) = rest.dropWhile (· ≠ 35) :=
        dropWhile_cons_of_pos (by decide)
      have hhead : (63 :: rest).head? = some (63 : Byte) := rfl
      have hmem : 35 ∈ 63 :: rest ↔ 35 ∈ rest := by simp
      rw [if_pos hhead, tail_cons, hdrop]
      by_cases hin : 35 ∈ rest
      · obtain ⟨query, fragment, rfl, hnot⟩ := eq_append_cons_of_mem hin
        rw [if_pos (hmem.mpr hin), (takeWhile_append_stop hnot).1, (takeWhile_append_stop hnot).2]
        rfl
      · have hall : ∀ b ∈ rest, decide (b ≠ 35) = true := fun b hb =>
          decide_eq_true fun heq => hin (heq ▸ hb)
        rw [if_neg (mt hmem.mp hin), takeWhile_eq_self_iff.mpr hall]
        exact append_nil _
    · have hhead : ¬ (35 :: rest).head? = some (63 : Byte) := by simp
      have hdrop : (35 :: rest).dropWhile (· ≠ 35) = 35 :: rest :=
        dropWhile_cons_of_neg (by decide)
      rw [if_neg hhead, if_pos mem_cons_self, hdrop]
      rfl

theorem pathText_uriOf {scheme host : List Byte} {port path query fragment : Option (List Byte)}
    (hpath : ∀ p, path = some p → 0 ∉ p) (hquery : ∀ q, query = some q → 0 ∉ q)
    (hfragment : ∀ f, fragment = some f → 0 ∉ f) :
    pathText (uriOf scheme host port (path, query, fragment)) =
      (path.map trimUri).getD [] ++ (query.map fun q => 63 :: q).getD [] ++
        (fragment.map fun f => 35 :: f).getD [] := by
  have hmap : ∀ {part : Option (List Byte)} (f : List Byte → List Byte),
      (∀ p, part = some p → 0 ∉ p) →
      (part.map CString.ofBuffer).map (fun p => f p.bytes) = part.map f := by
    intro part f hpart
    cases part with
    | none => rfl
    | some p =>
      show some (f (CString.ofBuffer p).bytes) = some (f p)
      rw [Qos.bytes_ofBuffer (hpart p rfl)]
  unfold pathText uriOf
  rw [hmap trimUri hpath, hmap (fun q => 63 :: q) hquery, hmap (fun f => 35 :: f) hfragment]

/-- The path, the query and the fragment put the text together again. -/
theorem pathText_split {scheme host : List Byte} {port : Option (List Byte)} (hnul : 0 ∉ tmp)
    (h : IsService tmp) : pathText (uriOf scheme host port (splitTail (tailOf tmp))) = tmp := by
  unfold tailOf
  by_cases hne : tmp = []
  · rw [if_pos hne, hne]
    rfl
  · rw [if_neg hne]
    obtain ⟨path, hpath⟩ : ∃ path, tmp.takeWhile (fun b => b ≠ 63 ∧ b ≠ 35) = path := ⟨_, rfl⟩
    obtain ⟨rest, hrest⟩ : ∃ rest, tmp.dropWhile (fun b => b ≠ 63 ∧ b ≠ 35) = rest := ⟨_, rfl⟩
    have hsplit : path ++ rest = tmp := by
      rw [← hpath, ← hrest, takeWhile_append_dropWhile]
    have htail : splitTail (47 :: tmp) = (some (47 :: path),
        if rest.head? = some 63 then some (rest.tail.takeWhile (· ≠ 35)) else none,
        if 35 ∈ rest then some ((rest.dropWhile (· ≠ 35)).drop 1) else none) := by
      unfold splitTail
      dsimp only
      rw [takeWhile_cons_of_pos (by decide), dropWhile_cons_of_pos (by decide), hpath,
        hrest, if_neg (by simp)]
    have hnulrest : 0 ∉ rest := fun hmem => hnul (hsplit ▸ mem_append_right _ hmem)
    have hhead : ∀ b ∈ rest.head?, b = 63 ∨ b = 35 := by
      intro b hb
      have hnot := head?_dropWhile_not (fun b => decide (b ≠ 63 ∧ b ≠ 35)) tmp
      rw [hrest, hb] at hnot
      have hor : ¬ (b ≠ 63 ∧ b ≠ 35) := of_decide_eq_false hnot
      by_cases hquestion : b = 63
      · exact .inl hquestion
      · exact .inr (by_contra fun hsharp => hor ⟨hquestion, hsharp⟩)
    have hservice : trimUri (47 :: path) = path := by
      apply trimUri_slash
      intro b hb
      apply h b
      rw [← hsplit]
      cases path with
      | nil => cases hb
      | cons c path => exact hb
    rw [htail, pathText_uriOf]
    · rw [append_assoc, query_fragment hhead]
      show trimUri (47 :: path) ++ rest = tmp
      rw [hservice, hsplit]
    · intro p hp
      cases hp
      intro hmem
      rcases mem_cons.mp hmem with hzero | hmem
      · cases hzero
      · exact hnul (hsplit ▸ mem_append_left _ hmem)
    · intro q hq hmem
      split at hq
      next =>
        cases hq
        exact hnulrest (mem_of_mem_tail ((List.takeWhile_prefix _).subset hmem))
      next => cases hq
    · intro f hf hmem
      split at hf
      next =>
        cases hf
        exact hnulrest ((dropWhile_suffix _).subset (mem_of_mem_drop hmem))
      next => cases hf

end Service

/-! ## reading what was printed -/

section Reading
variable {isPort : List Byte → Bool} {uriParse : CString → Uri} {scheme host : List Byte}
variable {port : Option (List Byte)}
variable {s : CString} {a : EndpointAddress}

theorem new_of_uri {tail : Option (List Byte) × Option (List Byte) × Option (List Byte)}
    {tmp : List Byte} (h : uriParse s = uriOf scheme host port tail) (hhost : 0 ∉ host)
    (hport : ∀ p, port = some p → 0 ∉ p) (htmp : pathText (uriOf scheme host port tail) = tmp) :
    new uriParse s = some ⟨.ofBuffer scheme, .ofBuffer (addressOf host port), (service tmp).1,
      (service tmp).2⟩ := by
  unfold new
  rw [h]
  dsimp only
  rw [htmp]
  cases port with
  | none => rfl
  | some p =>
    have hp := Qos.bytes_ofBuffer (hport p rfl)
    show some (EndpointAddress.mk _ (if (CString.ofBuffer p).bytes = [] then CString.ofBuffer host
      else .ofBuffer ((CString.ofBuffer host).bytes ++ 58 :: (CString.ofBuffer p).bytes)) _ _) = _
    rw [hp, Qos.bytes_ofBuffer hhost]
    unfold addressOf
    dsimp only
    split
    next => rfl
    next => rfl

/-- The texts of which an address was made. -/
structure Made (scheme host : List Byte) (port : Option (List Byte)) (tmp : List Byte) : Prop where
  isScheme : IsScheme scheme
  isHost : IsHost host port
  isService : IsService tmp
  nul_scheme : 0 ∉ scheme
  nul_host : 0 ∉ host
  nul_port : ∀ p, port = some p → 0 ∉ p
  nul_tmp : 0 ∉ tmp

variable {tmp : List Byte}

/-- The address that these texts make. -/
def made (scheme host : List Byte) (port : Option (List Byte)) (tmp : List Byte) :
    EndpointAddress :=
  ⟨.ofBuffer scheme, .ofBuffer (addressOf host port), (service tmp).1, (service tmp).2⟩

section
variable (h : Made scheme host port tmp)
include h

theorem nul_addressOf : 0 ∉ addressOf host port := by
  unfold addressOf
  cases port with
  | none => exact h.nul_host
  | some p =>
    dsimp only
    split
    next => exact h.nul_host
    next =>
      intro hmem
      rcases mem_append.mp hmem with hmem | hmem
      · exact h.nul_host hmem
      · rcases mem_cons.mp hmem with hzero | hmem
        · cases hzero
        · exact h.nul_port p rfl hmem

theorem toCString_made :
    (made scheme host port tmp).toCString =
      scheme ++ text "://" ++ addressOf host port ++ tailOf tmp := by
  have hservice : serviceText (made scheme host port tmp) = tailOf tmp :=
    serviceText_service h.nul_tmp h.isService
  have hparts : (made scheme host port tmp).toCString = (CString.ofBuffer scheme).bytes ++
      text "://" ++ (CString.ofBuffer (addressOf host port)).bytes ++
        serviceText (made scheme host port tmp) := rfl
  rw [hparts, hservice, Qos.bytes_ofBuffer h.nul_scheme, Qos.bytes_ofBuffer (nul_addressOf h)]

theorem bytes_toCString_made :
    (CString.ofBuffer (made scheme host port tmp).toCString).bytes =
      scheme ++ text "://" ++ addressOf host port ++ tailOf tmp := by
  have hnul : 0 ∉ scheme ++ text "://" ++ addressOf host port ++ tailOf tmp := by
    unfold tailOf
    rw [mem_append, mem_append, mem_append, not_or, not_or, not_or]
    refine ⟨⟨⟨h.nul_scheme, by decide⟩, nul_addressOf h⟩, ?_⟩
    split
    next => exact not_mem_nil
    next =>
      intro hmem
      rcases mem_cons.mp hmem with hzero | hmem
      · cases hzero
      · exact h.nul_tmp hmem
  rw [toCString_made h, Qos.bytes_ofBuffer hnul]

end

section
variable (hdoc : Documented isPort uriParse)
include hdoc

section
variable (h : Made scheme host port tmp)
include h

/-- What the parser finds of the string. -/
theorem parse_made {host' : List Byte} {port' : Option (List Byte)}
    (hhost : hostPort (addressOf host port) = some (host', port')) :
    uriParse (.ofBuffer (made scheme host port tmp).toCString) = uriOf scheme host' port'
      (if port'.all fun p => p = [] ∨ isPort p then splitTail (tailOf tmp)
        else (none, none, none)) := by
  apply hdoc.parts
  rw [bytes_toCString_made h]
  apply uriParts_text h.isScheme (isPlain_addressOf h.isHost) _ hhost
  unfold tailOf
  split
  next => exact .inl rfl
  next => exact .inr ⟨tmp, rfl⟩

/-- An address with a name, and with no service where the port is no number, is read again. -/
theorem reads_name (hcolon : 58 ∉ host) (hhead : host.head? ≠ some 91)
    (hport : (port.all fun p => p = [] ∨ isPort p) = false → tmp = []) :
    RoundTrips uriParse (made scheme host port tmp) := by
  have hparse := parse_made hdoc h (hostPort_name hcolon hhead)
  have hnul : ∀ p, port.filter (· ≠ []) = some p → 0 ∉ p := fun p hp =>
    h.nul_port p (Option.filter_eq_some_iff.mp hp).1
  have hfilter : port.filter (· ≠ []) = port ∨ port = some [] := by
    cases port with
    | none => exact .inl rfl
    | some p =>
      by_cases hp : p = []
      · exact .inr (congrArg some hp)
      · exact .inl (by simp [hp])
  have haddress : addressOf host (port.filter (· ≠ [])) = addressOf host port := by
    rcases hfilter with heq | rfl
    · rw [heq]
    · rfl
  have hall : ((port.filter (· ≠ [])).all fun p => p = [] ∨ isPort p) =
      (port.all fun p => p = [] ∨ isPort p) := by
    rcases hfilter with heq | rfl
    · rw [heq]
    · rfl
  have htmp : pathText (uriOf scheme host (port.filter (· ≠ []))
      (if port.all fun p => p = [] ∨ isPort p then splitTail (tailOf tmp)
        else (none, none, none))) = tmp := by
    split
    next => exact pathText_split h.nul_tmp h.isService
    next hnot =>
      rw [hport (Bool.eq_false_iff.mpr hnot)]
      rfl
  rw [hall] at hparse
  unfold RoundTrips
  rw [new_of_uri hparse h.nul_host hnul htmp, haddress]
  rfl

/-- Without its brackets a literal is read with a port that is no number, and with no service. -/
theorem reads_literal (hall : host.all literalByte) (hcount : 2 ≤ host.count 58) :
    RoundTrips uriParse (made scheme host port tmp) ↔ tmp = [] := by
  have hex : ∃ host' port', hostPort (addressOf host port) = some (host', some port') ∧ _ :=
    hostPort_literal hall hcount
  obtain ⟨host', port', hhost, hcolon, haddress⟩ := hex
  have hne : port' ≠ [] := ne_nil_of_mem hcolon
  have hno : ((some port').all fun p => p = [] ∨ isPort p) = false := by
    simp [hne, hdoc.colon port' hcolon]
  have hparse := parse_made hdoc h hhost
  rw [hno, if_neg (by decide)] at hparse
  have hnul := nul_addressOf h
  rw [haddress] at hnul
  have hnone : pathText (uriOf scheme host' (some port') (none, none, none)) = [] := rfl
  have hread := new_of_uri hparse (fun hmem => hnul (mem_append_left _ hmem))
    (fun p hp hmem => hnul (mem_append_right _ (mem_cons_of_mem _
      (Option.some.inj hp ▸ hmem)))) hnone
  have haddress' : addressOf host' (some port') = addressOf host port := by
    rw [haddress]
    exact if_neg hne
  rw [haddress'] at hread
  unfold RoundTrips
  rw [hread, ← service_eq_none h.isService]
  constructor
  · intro heq
    have hsame := Option.some.inj heq
    unfold made at hsame
    injection hsame with _ _ hname hparams
    exact Prod.ext hname.symm hparams.symm
  · intro heq
    unfold made
    rw [heq]
    rfl

end

end

theorem nul_pathText (uri : Uri) : 0 ∉ pathText uri := by
  have hpart : ∀ (part : Option CString) (f : List Byte → List Byte),
      (∀ p : CString, 0 ∉ f p.bytes) → 0 ∉ (part.map fun p => f p.bytes).getD [] := by
    intro part f hf
    cases part with
    | none => exact not_mem_nil
    | some p => exact hf p
  have hmark : ∀ (mark : Byte), mark ≠ 0 → ∀ p : CString, 0 ∉ mark :: p.bytes := by
    intro mark hmark p hmem
    rcases mem_cons.mp hmem with hzero | hmem
    · exact hmark hzero.symm
    · exact p.property hmem
  unfold pathText
  rw [mem_append, mem_append, not_or, not_or]
  refine ⟨⟨hpart uri.path trimUri ?_, hpart uri.query (63 :: ·) (hmark 63 (by decide))⟩,
    hpart uri.fragment (35 :: ·) (hmark 35 (by decide))⟩
  exact fun p hmem => p.property ((dropWhile_suffix _).subset hmem)

theorem parts_of_new (h : new uriParse s = some a) :
    (uriParse s).scheme ≠ none ∧ (uriParse s).hostname ≠ none := by
  unfold new at h
  dsimp only at h
  split at h
  next hscheme hhost => exact ⟨by rw [hscheme]; simp, by rw [hhost]; simp⟩
  next => cases h

/-- An address that was read is made of the parts of its URI. -/
theorem made_of_new (hdoc : Documented isPort uriParse) (h : new uriParse s = some a) :
    ∃ scheme host port tail, uriParts isPort s.bytes = some (uriOf scheme host port
        (if port.all fun p => p = [] ∨ isPort p then splitTail tail else (none, none, none))) ∧
      Made scheme host port (pathText (uriParse s)) ∧
      a = made scheme host port (pathText (uriParse s)) := by
  obtain ⟨hscheme, hhost⟩ := parts_of_new h
  obtain ⟨uri, huri⟩ := Option.ne_none_iff_exists'.mp (hdoc.only s hscheme hhost)
  have hparse := hdoc.parts s uri huri
  obtain ⟨scheme, host, port, tail, hisScheme, hisHost, hin, hhostin, hportin, rfl⟩ :=
    uriParts_elim huri
  have hmade : Made scheme host port (pathText (uriParse s)) :=
    ⟨hisScheme, hisHost, isService_pathText _, fun hmem => s.property (hin hmem),
      fun hmem => s.property (hhostin hmem), fun p hp hmem => s.property (hportin p hp hmem),
      nul_pathText _⟩
  have hnew := new_of_uri hparse hmade.nul_host hmade.nul_port (congrArg pathText hparse).symm
  exact ⟨scheme, host, port, tail, huri, hmade, Option.some.inj (h.symm.trans hnew)⟩

/-- An address that was read from a string is read again from its own, unless its host is an IPv6
    address and it names a service. -/
theorem readsBack_iff (hdoc : Documented isPort uriParse) (h : new uriParse s = some a) :
    RoundTrips uriParse a ↔ ¬ LiteralWithService isPort s := by
  obtain ⟨scheme, host, port, tail, huri, hmade, rfl⟩ := made_of_new hdoc h
  have hparse := hdoc.parts s _ huri
  have hliteral : LiteralWithService isPort s ↔ 58 ∈ host ∧ pathText (uriParse s) ≠ [] := by
    unfold LiteralWithService
    rw [huri, hparse]
    constructor
    · rintro ⟨uri, host', heq, hhost', hcolon, hne⟩
      cases heq
      cases hhost'
      rw [Qos.bytes_ofBuffer hmade.nul_host] at hcolon
      exact ⟨hcolon, hne⟩
    · rintro ⟨hcolon, hne⟩
      refine ⟨_, _, rfl, rfl, ?_, hne⟩
      rw [Qos.bytes_ofBuffer hmade.nul_host]
      exact hcolon
  rw [hliteral]
  rcases hmade.isHost.form with ⟨hcolon, hhead⟩ | ⟨hall, hcount⟩
  · refine iff_of_true (reads_name hdoc hmade hcolon hhead ?_) fun hand => hcolon hand.1
    intro hno
    rw [hparse, hno]
    rfl
  · rw [reads_literal hdoc hmade hall hcount]
    have hcolon : 58 ∈ host := count_pos_iff.mp (by omega)
    constructor
    · exact fun hnil hand => hand.2 hnil
    · exact fun hnot => by_contra fun hne => hnot ⟨hcolon, hne⟩

end Reading

/-- A parser that hands out the parts of a URI, and of any other text nothing. -/
def partsParse (s : CString) : Uri :=
  (uriParts (·.all isDigit) s.bytes).getD ⟨none, none, none, none, none, none⟩

theorem documented_partsParse : Documented (·.all isDigit) partsParse where
  parts := by
    intro s uri h
    unfold partsParse
    rw [h]
    rfl
  only := by
    intro s hscheme _ hnone
    unfold partsParse at hscheme
    rw [hnone] at hscheme
    exact hscheme rfl
  colon := by
    intro p hcolon
    have hdigit : isDigit 58 = false := by decide
    rw [all_eq_false]
    exact ⟨58, hcolon, by rw [hdigit]; decide⟩

/-- The loopback address of IPv6, with a service. -/
def loopbackText : CString := .ofBuffer (text "tcp://[::1]:9701/svc/par")

end JxtaC.EndpointAddress
