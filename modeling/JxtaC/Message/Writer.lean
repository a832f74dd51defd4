import JxtaC.Message.Wire
import Mathlib.Data.List.Nodup

/-
  The writers against the wire formats.
  `layoutV1` and `layoutV2` lay a message out with every count and length narrowed to its field;
  the writers emit these bytes (`emits_*`). Version 2 looks names up as it goes: `Looks` says what
  comes of an action by the first name that is not registered.
-/

namespace JxtaC.Message

open Lib Lib.Stream List
variable {table : List CString} {name : CString}

/-! ## the names table -/

theorem addName_eq (table : List CString) (name : CString) :
    addName table name = if name ∈ table then table else table ++ [name] := by
  induction table with
  | nil => rfl
  | cons entry table ih =>
    rw [addName, ih]
    by_cases h : name = entry
    · simp [h]
    · by_cases hmem : name ∈ table <;> simp [h, hmem]

theorem mem_addName {n : CString} : n ∈ addName table name ↔ n ∈ table ∨ n = name := by
  rw [addName_eq]
  split
  · rename_i h
    exact ⟨.inl, fun hn => hn.elim id fun heq => heq ▸ h⟩
  · simp

theorem nodup_addName (h : table.Nodup) (name : CString) : (addName table name).Nodup := by
  rw [addName_eq]
  split
  · exact h
  · rename_i hname
    exact nodup_append.mpr ⟨h, nodup_singleton name, fun a ha b hb heq => hname
      (mem_singleton.mp hb ▸ heq ▸ ha)⟩

/-- The table of these names. -/
def tableOf (names : List CString) : List CString :=
  names.foldl addName [messageEmptyNs, messageJxtaNs]

theorem mem_tableOf {names : List CString} {n : CString} :
    n ∈ tableOf names ↔ n = messageEmptyNs ∨ n = messageJxtaNs ∨ n ∈ names := by
  have hfold : ∀ table : List CString, n ∈ names.foldl addName table ↔ n ∈ table ∨ n ∈ names := by
    induction names with
    | nil => simp
    | cons name names ih =>
      intro table
      rw [foldl_cons, ih, mem_addName, mem_cons, or_assoc]
  rw [tableOf, hfold]
  simp [or_assoc]

theorem nodup_tableOf (names : List CString) : (tableOf names).Nodup := by
  have hfold : ∀ table : List CString, table.Nodup → (names.foldl addName table).Nodup := by
    induction names with
    | nil => exact fun _ h => h
    | cons name names ih => exact fun table h => ih _ (nodup_addName h name)
  exact hfold _ (by decide)

theorem tableOf_eq (names : List CString) :
    tableOf names = messageEmptyNs :: messageJxtaNs :: (tableOf names).drop 2 := by
  have hfold : ∀ table : List CString, ∃ more, names.foldl addName table = table ++ more := by
    induction names with
    | nil => exact fun table => ⟨[], (append_nil table).symm⟩
    | cons name names ih =>
      intro table
      obtain ⟨more, hmore⟩ := ih (addName table name)
      rw [foldl_cons, hmore, addName_eq]
      split
      · exact ⟨more, rfl⟩
      · exact ⟨[name] ++ more, append_assoc _ _ _⟩
  obtain ⟨more, hmore⟩ := hfold [messageEmptyNs, messageJxtaNs]
  rw [tableOf, hmore]
  rfl

theorem v1NamesTable_eq (elements : List MessageElement) :
    v1NamesTable elements = tableOf (elements.reverse.map fun el => el.body.ns) := by
  rw [tableOf, foldl_map]
  rfl

theorem buildV2NamesTable_eq (elements : List MessageElement) :
    buildV2NamesTable elements = tableOf (elements.reverse.flatMap namesOf) := by
  rw [tableOf, foldl_flatMap]
  rfl

/-- A name that has a token. -/
def Registered (table : List CString) (name : CString) : Prop :=
  table.idxOf name < table.length ∧ table.idxOf name < 65535

instance (table : List CString) (name : CString) : Decidable (Registered table name) :=
  inferInstanceAs (Decidable (_ ∧ _))

theorem lookupNameToken_registered (h : Registered table name) :
    lookupNameToken name table = .ok (table.idxOf name) := by
  rw [lookupNameToken, if_pos ⟨h.1, Nat.lt_succ_of_lt h.2⟩]

/-- A name without a token is rejected or makes the loop run for ever. -/
theorem lookupNameToken_not_registered (h : ¬ Registered table name) :
    lookupNameToken name table = .ok namesLiteralIdx ∨
      lookupNameToken name table = .error .neverReturns := by
  unfold lookupNameToken
  dsimp only
  split
  · rename_i hfound
    have hidx : table.idxOf name = 65535 := by
      by_contra hne
      exact h ⟨hfound.1, by omega⟩
    rw [hidx]
    exact .inl rfl
  · split
    · exact .inl rfl
    · exact .inr rfl

/-! ## the layouts -/

def wireString (s : CString) : WireString := .of 2 s.bytes

def wireElement1 (nsid : Nat) (p : Part) : WireElement1 where
  ns := UInt8.ofNat nsid
  flags := if p.mimeType.isSome then elmFlag1Type else 0
  name := wireString p.name
  mimeType := p.mimeType.map wireString
  value := .of 4 p.value

/-- The elements of a version 1 message, by namespace. -/
def layoutV1Elements (elements : List MessageElement) (table : List CString) :
    List WireElement :=
  table.zipIdx.flatMap fun p =>
    (elementsOfNamespace elements p.1).reverse.map fun el => .v1 (wireElement1 p.2 el.body)

def layoutHeader (version : WireVersion) (table : List CString) (count : Nat) : WireHeader where
  version := version
  namesCount := .narrow 2 (table.length - 2)
  names := (table.drop 2).map wireString
  elementCount := .narrow 2 count

/-- A message as `message_write_v1` writes it. -/
def layoutV1 (elements : List MessageElement) : WireMessage where
  header := layoutHeader .v1 (v1NamesTable elements) elements.length
  elements := layoutV1Elements elements (v1NamesTable elements)

def wireName (table : List CString) (name : CString) : WireName :=
  if h : table.idxOf name < 65535 then .token ⟨table.idxOf name, h⟩ else .literal (wireString name)

def wirePart (table : List CString) (p : Part) (sigs : List Part) : WirePart where
  flags := v2Flags p sigs
  ns := wireName table p.ns
  name := .inl (wireString p.name)
  mimeType := p.mimeType.map (wireName table)
  value := .of _ p.value

/-- The signatures of a chain, each with those behind it. -/
def wireSigs (table : List CString) : List Part → List WirePart
  | [] => []
  | sig :: sigs => wirePart table sig sigs :: wireSigs table sigs

def wireElement2 (table : List CString) (el : MessageElement) : WireElement2 where
  head := wirePart table el.body el.sigs
  sigs := wireSigs table el.sigs
  cut := none

/-- A message as `message_write_v2` writes it. -/
def layoutV2 (elements : List MessageElement) : WireMessage where
  header := layoutHeader .v2 (buildV2NamesTable elements) elements.length
  elements := elements.map fun el => .v2 (wireElement2 (buildV2NamesTable elements) el)

/-! ## what is emitted -/

section Emission
variable (W : Sink Byte Status)

theorem emits_stringWrite (s : CString) : Emits W (stringWrite W s) (wireString s).bytes := by
  rw [wireString, Counted.bytes_of]
  exact (emits_write W _).bind (emits_write W _)

theorem emits_writeMimeType (o : Option CString) :
    Emits W (writeMimeType W o) ((o.map wireString).elim [] Counted.bytes) := by
  cases o with
  | none => exact emits_pure W
  | some m => exact emits_stringWrite W m

theorem emits_writeValue (value : List Byte) :
    Emits W (writeValue W value) (Counted.of 4 value).bytes := by
  rw [Counted.bytes_of]
  refine (emits_write W _).bind ?_
  by_cases h : value.length = 0
  · rw [if_pos h, eq_nil_of_length_eq_zero h]
    exact emits_pure W
  · rw [if_neg h]
    exact emits_write W value

theorem emits_writeV1Element (eachName : Nat) (el : MessageElement) :
    Emits W (writeV1Element W eachName el) (wireElement1 eachName el.body).bytes :=
  (emits_write W _).bind <| (emits_write W _).bind <| (emits_write W _).bind <|
    (emits_stringWrite W _).bind <| (emits_writeMimeType W _).bind (emits_writeValue W _)

theorem emits_names (table : List CString) :
    Emits W (writeEach (stringWrite W) (table.drop 2))
      (((table.drop 2).map wireString).flatMap Counted.bytes) := by
  rw [flatMap_map]
  exact emits_writeEach _ fun name _ => emits_stringWrite W name

theorem emits_messageWriteV1 {mimeType : Option CString} (hmime : wireMimeOk mimeType = true)
    (elements : List MessageElement) :
    Emits W (messageWriteV1 W mimeType elements) (layoutV1 elements).bytes := by
  have hbody : Emits W
      (writeEach (fun p => writeEach (writeV1Element W p.2)
        (elementsOfNamespace elements p.1).reverse) (v1NamesTable elements).zipIdx)
      ((layoutV1Elements elements (v1NamesTable elements)).flatMap WireElement.bytes) := by
    rw [layoutV1Elements, flatMap_assoc]
    refine emits_writeEach _ fun p _ => ?_
    rw [flatMap_map]
    exact emits_writeEach _ fun el _ => emits_writeV1Element W p.2 el
  have hbytes : (layoutV1 elements).bytes = msgMagicSig ++ ([0] ++
      (bigEndian 2 ((v1NamesTable elements).length - 2) ++
      ((((v1NamesTable elements).drop 2).map wireString).flatMap Counted.bytes ++
      (bigEndian 2 elements.length ++
      (layoutV1Elements elements (v1NamesTable elements)).flatMap WireElement.bytes)))) := by
    simp [WireMessage.bytes, layoutV1, layoutHeader, WireHeader.bytes, WireHeader.opening,
      WireVersion.bytes, append_assoc]
  rw [messageWriteV1, hmime, hbytes]
  exact (emits_write W _).bind <| (emits_write W _).bind <| (emits_write W _).bind <|
    (emits_names W _).bind <| (emits_write W _).bind hbody

end Emission

/-! ## names that are looked up -/

/-- The first name that has no token. -/
def firstUnregistered (table names : List CString) : Option CString :=
  names.find? fun name => !decide (Registered table name)

theorem firstUnregistered_append (table names names' : List CString) :
    firstUnregistered table (names ++ names') =
      (firstUnregistered table names).or (firstUnregistered table names') :=
  find?_append

/-- Not success. -/
def Refuses (x : Action Byte Status Unit) : Prop :=
  ∀ out, ∃ res o, x out = .exit res o ∧ res ≠ .success

/-- What an action does that looks up these names: it emits the bytes if all are registered;
    otherwise the first that is not decides. -/
structure Looks (stream : OutputStream) (table : List CString) (x : Action Byte Status Unit)
    (names : List CString) (bs : List Byte) : Prop where
  emits : firstUnregistered table names = none → Emits stream.sink x bs
  refuses : ∀ name, firstUnregistered table names = some name →
    lookupNameToken name table = .ok namesLiteralIdx → Refuses x
  hangs : ∀ name, firstUnregistered table names = some name →
    lookupNameToken name table = .error .neverReturns → stream.sink.Open →
    ∀ out, x out = .fault .neverReturns

theorem OutputStream.refused {stream : OutputStream} {out chunk : List Byte} {res : Status}
    (h : stream.sink out chunk = some res) : res ≠ .success := by
  unfold OutputStream.sink at h
  split at h
  · cases h
  · rename_i hres
    cases h
    exact hres

section Lookups
variable {stream : OutputStream} {table : List CString}
variable {x : Action Byte Status Unit} {bs : List Byte} (p : Part) (sigs : List Part)

theorem Looks.of_emits (h : Emits stream.sink x bs) : Looks stream table x [] bs where
  emits _ := h
  refuses name hname := by cases hname
  hangs name hname := by cases hname

theorem Looks.bind {f : Unit → Action Byte Status Unit} {names names' : List CString}
    {bs' : List Byte} (hx : Looks stream table x names bs)
    (hf : Looks stream table (f ()) names' bs') :
    Looks stream table (x >>= f) (names ++ names') (bs ++ bs') := by
  cases hfirst : firstUnregistered table names with
  | none =>
    have hemits := hx.emits hfirst
    constructor <;> rw [firstUnregistered_append, hfirst, Option.none_or]
    · exact fun h => hemits.bind (hf.emits h)
    · intro name hname hlookup out
      rcases hemits out with hok | ⟨e, o, h, c, hexit, hW⟩
      · obtain ⟨res, o, hres, herr⟩ := hf.refuses name hname hlookup (out ++ bs)
        exact ⟨res, o, (bind_of_ok hok).trans hres, herr⟩
      · exact ⟨e, o, bind_of_exit hexit, OutputStream.refused hW⟩
    · intro name hname hlookup hopen out
      exact (bind_of_ok (hemits.of_open hopen out)).trans
        (hf.hangs name hname hlookup hopen (out ++ bs))
  | some name =>
    constructor <;> rw [firstUnregistered_append, hfirst, Option.some_or]
    · exact fun h => by cases h
    · intro name' hname hlookup out
      obtain ⟨res, o, hres, herr⟩ := hx.refuses name' (hfirst.trans hname) hlookup out
      exact ⟨res, o, bind_of_exit hres, herr⟩
    · intro name' hname hlookup hopen out
      exact bind_of_fault (hx.hangs name' (hfirst.trans hname) hlookup hopen out)

theorem wireName_of_registered {name : CString} (h : Registered table name) :
    wireName table name = .token ⟨table.idxOf name, h.2⟩ := dif_pos h.2

theorem looks_writeName (name : CString) :
    Looks stream table (writeName stream.sink table name) [name] (wireName table name).bytes := by
  unfold writeName
  by_cases hreg : Registered table name
  · have hfirst : firstUnregistered table [name] = none := by simp [firstUnregistered, hreg]
    have hne : table.idxOf name ≠ namesLiteralIdx := fun h => by
      have hlt := hreg.2
      rw [h] at hlt
      exact absurd hlt (by decide)
    rw [lookupNameToken_registered hreg, wireName_of_registered hreg]
    dsimp only
    rw [if_neg hne]
    constructor <;> rw [hfirst]
    · exact fun _ => emits_write _ _
    · exact fun _ h => by cases h
    · exact fun _ h => by cases h
  · have hfirst : firstUnregistered table [name] = some name := by
      simp [firstUnregistered, hreg]
    constructor <;> rw [hfirst]
    · exact fun h => by cases h
    · intro name' hname hlookup out
      cases hname
      rw [hlookup]
      exact ⟨.ioerr, out, rfl, by decide⟩
    · intro name' hname hlookup _ out
      cases hname
      rw [hlookup]
      rfl

theorem looks_writeV2MimeType (o : Option CString) :
    Looks stream table (writeV2MimeType stream.sink table o) o.toList
      ((o.map (wireName table)).elim [] WireName.bytes) := by
  cases o with
  | none => exact .of_emits (emits_pure _)
  | some m => exact looks_writeName m

/-- The names that `write_v2_element` looks up for one level. -/
def lookups (p : Part) : List CString := p.ns :: p.mimeType.toList

theorem v2Flags_cases :
    v2Flags p sigs &&& elmFlagUnsupported = 0 ∧ v2Flags p sigs &&& elmFlagNameLiteral ≠ 0 ∧
      (v2Flags p sigs &&& elmFlagType ≠ 0 ↔ p.mimeType.isSome) ∧
      (v2Flags p sigs &&& elmFlagSignature ≠ 0 ↔ sigs ≠ []) ∧
      lengthWidth (v2Flags p sigs) = 4 := by
  unfold v2Flags
  by_cases hm : p.mimeType.isSome
  · by_cases hs : sigs = []
    · simp only [hm, hs, ne_eq]
      decide
    · simp only [hm, hs, ne_eq]
      decide
  · by_cases hs : sigs = []
    · simp only [hm, hs, ne_eq]
      decide
    · simp only [hm, hs, ne_eq]
      decide

/-- One level of `write_v2_element`, and what is written behind it. -/
theorem looks_level {names : List CString} (hx : Looks stream table x names bs) :
    Looks stream table (do
        write stream.sink elmMagicSig
        write stream.sink [v2Flags p sigs]
        writeName stream.sink table p.ns
        stringWrite stream.sink p.name
        writeV2MimeType stream.sink table p.mimeType
        writeValue stream.sink p.value
        x) (lookups p ++ names) ((wirePart table p sigs).bytes ++ bs) := by
  have hvalue : (wirePart table p sigs).value.bytes = (Counted.of 4 p.value).bytes := by
    rw [wirePart, Counted.bytes_of, Counted.bytes_of, (v2Flags_cases p sigs).2.2.2.2]
  have hbytes : (wirePart table p sigs).bytes ++ bs = elmMagicSig ++ ([v2Flags p sigs] ++
      ((wireName table p.ns).bytes ++ ((wireString p.name).bytes ++
      ((p.mimeType.map (wireName table)).elim [] WireName.bytes ++
      ((Counted.of 4 p.value).bytes ++ bs))))) := by
    rw [← hvalue]
    simp [WirePart.bytes, WirePart.fields, wirePart, append_assoc]
  have hnames : lookups p ++ names = [] ++ ([] ++ ([p.ns] ++ ([] ++ (p.mimeType.toList ++
      ([] ++ names))))) := by
    simp [lookups]
  rw [hbytes, hnames]
  exact (Looks.of_emits (emits_write _ _)).bind <| (Looks.of_emits (emits_write _ _)).bind <|
    (looks_writeName p.ns).bind <| (Looks.of_emits (emits_stringWrite _ p.name)).bind <|
    (looks_writeV2MimeType p.mimeType).bind <|
    (Looks.of_emits (emits_writeValue _ p.value)).bind hx

theorem looks_writeV2Element :
    Looks stream table (writeV2Element stream.sink table p sigs)
      ((p :: sigs).flatMap lookups)
      ((wirePart table p sigs :: wireSigs table sigs).flatMap WirePart.bytes) := by
  induction sigs generalizing p with
  | nil => exact looks_level p [] (.of_emits (emits_pure _))
  | cons sig sigs ih => exact looks_level p (sig :: sigs) (ih sig)

/-- What `message_write_v2` looks up. -/
def lookupsOf (elements : List MessageElement) : List CString :=
  elements.flatMap fun el => (el.body :: el.sigs).flatMap lookups

theorem looks_elements (elements : List MessageElement) :
    Looks stream table
      (writeEach (fun el => writeV2Element stream.sink table el.body el.sigs) elements)
      (lookupsOf elements)
      ((elements.map fun el => WireElement.v2 (wireElement2 table el)).flatMap
        WireElement.bytes) := by
  induction elements with
  | nil => exact .of_emits (emits_pure _)
  | cons el elements ih =>
    have hel : (WireElement.v2 (wireElement2 table el)).bytes =
        (wirePart table el.body el.sigs :: wireSigs table el.sigs).flatMap WirePart.bytes := by
      simp [WireElement.bytes, WireElement2.bytes, wireElement2, WireElement2.cutBytes]
    rw [map_cons, flatMap_cons, hel]
    exact (looks_writeV2Element el.body el.sigs).bind ih

theorem looks_messageWriteV2 {mimeType : Option CString} (hmime : wireMimeOk mimeType = true)
    (elements : List MessageElement) :
    Looks stream (buildV2NamesTable elements) (messageWriteV2 stream.sink mimeType elements)
      (lookupsOf elements) (layoutV2 elements).bytes := by
  have hbytes : (layoutV2 elements).bytes = msgMagicSig ++ ([1] ++ ([0] ++
      (bigEndian 2 ((buildV2NamesTable elements).length - 2) ++
      ((((buildV2NamesTable elements).drop 2).map wireString).flatMap Counted.bytes ++
      (bigEndian 2 elements.length ++
      (elements.map fun el => WireElement.v2 (wireElement2 (buildV2NamesTable elements) el)).flatMap
        WireElement.bytes))))) := by
    simp [WireMessage.bytes, layoutV2, layoutHeader, WireHeader.bytes, WireHeader.opening,
      WireVersion.bytes, append_assoc]
  rw [messageWriteV2, hmime, hbytes]
  exact (Looks.of_emits (emits_write _ _)).bind <| (Looks.of_emits (emits_write _ _)).bind <|
    (Looks.of_emits (emits_write _ _)).bind <| (Looks.of_emits (emits_write _ _)).bind <|
    (Looks.of_emits (emits_names _ _)).bind <| (Looks.of_emits (emits_write _ _)).bind <|
    looks_elements elements

end Lookups

end JxtaC.Message
