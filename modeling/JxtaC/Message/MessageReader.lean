import JxtaC.Message.ElementReader

/-
  `jxta_message_read` against the wire formats.
  The header, then the loop over the elements: it goes on behind every element that it can take
  (`readElements_append`), and where it stops the stream is `Blocked` or the status is an error.
-/

namespace JxtaC.Message

open Lib Lib.Stream List

variable {P : Source Byte Status} {s r : List Byte} {table : List CString}
variable {version : WireVersion} {n : CountField 2}

/-! ## the header -/

theorem reads_readNamesCount (b : Byte) (n : CountField 2) :
    Reads (readNamesCount P b) n.bytes (b, (n.val + 2) % 65536) := by
  intro rest
  rw [readNamesCount, (n.reads P).bind_apply, CountField.ofBigEndian_bytes]
  rfl

theorem readNamesCount_ok {b : Byte} {o : Byte × Nat} (h : readNamesCount P b s = .ok o r) :
    ∃ n : CountField 2, s = n.bytes ++ r := by
  obtain ⟨bs, s₁, hbs, hpure⟩ := bind_ok_iff.mp h
  obtain ⟨n, rfl, -⟩ := CountField.of_readAll hbs
  cases hpure
  exact ⟨n, rfl⟩

theorem leaves_readNamesCount (hP : IsError P.err) (b : Byte) (s : List Byte) :
    Leaves IsError (readNamesCount P b) s :=
  (leaves_readAll hP 2 s).bind fun _ r _ => leaves_pure _ r

theorem reads_readOpening (version : WireVersion) (n : CountField 2) :
    Reads (readOpening P) (WireHeader.opening version n) (version.byte, (n.val + 2) % 65536) := by
  refine reads_afterMagic msgMagicSig ?_
  cases version with
  | v1 => exact (reads_byteRead P 0).bind (reads_readNamesCount 0 n)
  | v2 => exact (reads_byteRead P 1).bind ((reads_byteRead P 0).bind (reads_readNamesCount 1 n))

theorem readOpening_ok {o : Byte × Nat} (h : readOpening P s = .ok o r) :
    ∃ version n, s = WireHeader.opening version n ++ r := by
  obtain ⟨s₁, rfl, h₁⟩ := afterMagic_ok h
  obtain ⟨version, s₂, hversion, h₂⟩ := bind_ok_iff.mp h₁
  obtain rfl := byteRead_ok hversion
  by_cases h0 : version = 0
  · rw [if_pos h0] at h₂
    obtain ⟨n, rfl⟩ := readNamesCount_ok h₂
    exact ⟨.v1, n, by simp [WireHeader.opening, WireVersion.bytes, h0, append_assoc]⟩
  rw [if_neg h0] at h₂
  by_cases h1 : version = 1
  · rw [if_pos h1] at h₂
    obtain ⟨flags, s₃, hflags, h₃⟩ := bind_ok_iff.mp h₂
    obtain rfl := byteRead_ok hflags
    by_cases hf : flags = 0
    · rw [if_neg (not_not_intro hf)] at h₃
      obtain ⟨n, rfl⟩ := readNamesCount_ok h₃
      exact ⟨.v2, n, by simp [WireHeader.opening, WireVersion.bytes, h1, hf, append_assoc]⟩
    · rw [if_pos hf] at h₃
      cases h₃
  · rw [if_neg h1] at h₂
    cases h₂

theorem leaves_readOpening (hP : IsError P.err) (s : List Byte) :
    Leaves IsError (readOpening P) s := by
  refine leaves_afterMagic hP msgMagicSig s fun s₁ _ => ?_
  refine (leaves_byteRead hP s₁).bind fun version s₂ _ => ?_
  split
  · exact leaves_readNamesCount hP version s₂
  split
  · refine (leaves_byteRead hP s₂).bind fun flags s₃ _ => ?_
    split
    · exact leaves_leave (fun h => by cases h) s₃
    · exact leaves_readNamesCount hP version s₃
  · exact leaves_leave (fun h => by cases h) s₂

theorem readHeader_opening (version : WireVersion) (n : CountField 2) (rest : List Byte) :
    readHeader P (WireHeader.opening version n ++ rest) =
      readTable P version.byte ((n.val + 2) % 65536) rest :=
  (reads_readOpening version n).bind_apply rest

/-- The reader gets to the names table, or leaves with an error. -/
theorem readHeader_cases (hP : IsError P.err) (s : List Byte) :
    (∃ version n rest, s = WireHeader.opening version n ++ rest) ∨
      ∃ res r, readHeader P s = .exit res r ∧ IsError res := by
  rcases (leaves_readOpening hP s).cases with ⟨o, r, hok⟩ | ⟨res, r, hexit, hres⟩
  · obtain ⟨version, n, hs⟩ := readOpening_ok hok
    exact .inl ⟨version, n, r, hs⟩
  · exact .inr ⟨res, r, bind_of_exit hexit, hres⟩

/-- The names table ends before the stream does. -/
def NamesComplete (n : Nat) (s : List Byte) : Prop :=
  ∃ (names : List WireString) (r : List Byte), names.length = n ∧ (∀ w ∈ names, w.Faithful) ∧
    s = names.flatMap Counted.bytes ++ r

theorem reads_names {names : List WireString} (h : ∀ w ∈ names, w.Faithful) :
    Reads (collect (orElse .success (stringRead P)) names.length) (names.flatMap Counted.bytes)
      (names.map WireString.string) :=
  Reads.collect fun w hw => reads_orElse .success (reads_stringRead (h w hw))

theorem reads_readHeader {h : WireHeader} (hh : h.Faithful) (hroom : h.namesCount.val < 65534) :
    Reads (readHeader P) h.bytes h.header := by
  intro rest
  have hcount : (h.namesCount.val + 2) % 65536 = h.names.length + 2 := by
    rw [← hh.count]
    exact Nat.mod_eq_of_lt (by omega)
  rw [WireHeader.bytes, append_assoc, readHeader_opening, hcount, readTable,
    if_neg (by omega), Nat.add_sub_cancel, append_assoc, (reads_names hh.names).bind_apply,
    (h.elementCount.reads P).bind_apply, CountField.ofBigEndian_bytes]
  rfl

/-- A table without room for the default names. -/
theorem readHeader_full (hn : 65534 ≤ n.val) (rest : List Byte) :
    readHeader P (WireHeader.opening version n ++ rest) = .fault .outOfBounds := by
  have hlt : n.val < 65536 := n.isLt
  rw [readHeader_opening, readTable, if_pos (by omega)]
  rfl

/-- A names table that is cut short is no error. -/
theorem readHeader_short (hn : n.val < 65534) {rest : List Byte} (h : ¬ NamesComplete n.val rest) :
    ∃ r, readHeader P (WireHeader.opening version n ++ rest) = .exit .success r := by
  have hleaves : Leaves (· = .success)
      (collect (orElse .success (stringRead P)) n.val) rest :=
    leaves_collect (fun s => leaves_orElse (E := (· = .success)) rfl (leaves_stringRead s))
      n.val rest
  rw [readHeader_opening, Nat.mod_eq_of_lt (by omega), readTable, if_neg (by omega),
    Nat.add_sub_cancel]
  rcases hleaves.cases with ⟨names, r, hok⟩ | ⟨res, r, hexit, rfl⟩
  · obtain ⟨ws, rfl, hlen, hws, -⟩ :=
      collect_ok (fun s a r h => stringRead_ok (orElse_ok h)) n.val rest names r hok
    exact absurd ⟨ws, r, hlen, hws, rfl⟩ h
  · exact ⟨r, bind_of_exit hexit⟩

theorem readHeader_names (hn : n.val < 65534) (hP : IsError P.err) {rest : List Byte}
    (h : NamesComplete n.val rest) :
    (∃ (w : WireHeader) (r : List Byte), w.Faithful ∧ w.namesCount.val < 65534 ∧
        WireHeader.opening version n ++ rest = w.bytes ++ r) ∨
      ∃ res r, readHeader P (WireHeader.opening version n ++ rest) = .exit res r ∧
        IsError res := by
  obtain ⟨names, r, hlen, hnames, rfl⟩ := h
  rw [readHeader_opening, Nat.mod_eq_of_lt (by omega), readTable, if_neg (by omega),
    Nat.add_sub_cancel, ← hlen, (reads_names hnames).bind_apply]
  rcases readAll_cases P 2 r with ⟨bs, r', rfl, hbs, -⟩ | ⟨-, r', hexit⟩
  · obtain ⟨count, rfl⟩ := CountField.exists_bytes hbs
    refine .inl ⟨⟨version, n, names, count⟩, r', ⟨hlen.symm, hnames⟩, hn, ?_⟩
    simp [WireHeader.bytes, append_assoc]
  · exact .inr ⟨P.err, r', bind_of_exit hexit, hP⟩

/-! ## one element -/

/-- What no reader of elements gets over: a namespace that the table does not have, or flags that
    are not supported. -/
def Unreadable (h : Header) (s : List Byte) : Prop :=
  if h.version = 0 then
    ∃ (e : WireElement1) (r : List Byte), e.Framed ∧ s = e.bytes ++ r ∧
      h.table.length ≤ e.ns.toNat
  else ∃ (flags : Byte) (r : List Byte), flags &&& elmFlagUnsupported ≠ 0 ∧
    s = elmMagicSig ++ [flags] ++ r

theorem length_le_flatMap {ι β : Type} (f : ι → List β) (l : List ι)
    (h : ∀ i, 0 < (f i).length) : l.length ≤ (l.flatMap f).length := by
  induction l with
  | nil => exact Nat.le_refl _
  | cons i l ih =>
    have hi := h i
    rw [flatMap_cons, length_append, length_cons]
    omega

theorem WirePart.length_bytes_pos (p : WirePart) : 0 < p.bytes.length := by
  simp [WirePart.bytes, elmMagicSig]

theorem reads_readElement {h : Header} {e : WireElement} (he : e.Framed h.version h.table) :
    Reads (readElement P h) e.bytes (some (e.element h.table)) := by
  intro rest
  unfold readElement
  cases e with
  | v1 e =>
    obtain ⟨hversion, hframed, hns⟩ := he
    have hread := @readV1Element_bytes P h.table e hframed rest
    rw [if_pos hns] at hread
    rw [if_pos hversion]
    exact bind_of_ok hread
  | v2 e =>
    obtain ⟨hversion, hsigned⟩ := he
    have hlen := length_le_flatMap WirePart.bytes (e.head :: e.sigs) WirePart.length_bytes_pos
    rw [if_neg hversion]
    refine reads_readV2Element hsigned ?_ rest
    rw [WireElement.bytes, WireElement2.bytes, length_append, length_append]
    rw [length_cons] at hlen
    omega

theorem readElement_of_unreadable {h : Header} (hs : Unreadable h s) :
    readElement P h s = .fault .outOfBounds ∨ ∃ r, readElement P h s = .ok none r := by
  unfold Unreadable at hs
  unfold readElement
  split at hs
  · rename_i hversion
    obtain ⟨e, r, he, rfl, hns⟩ := hs
    have hread := @readV1Element_bytes P h.table e he r
    rw [if_neg (Nat.not_lt_of_le hns)] at hread
    rw [if_pos hversion]
    exact .inl (bind_of_fault hread)
  · rename_i hversion
    obtain ⟨flags, r, hflags, rfl⟩ := hs
    rw [if_neg hversion]
    exact .inr ⟨r, readV2Element_cut hflags _ r⟩

/-- The reader has an element before it, cannot get over what is there, or leaves with an
    error. -/
theorem readElement_cases (hP : IsError P.err) (h : Header) (s : List Byte) :
    (∃ (e : WireElement) (r : List Byte), e.Framed h.version h.table ∧ s = e.bytes ++ r) ∨
      Unreadable h s ∨ ∃ res r, readElement P h s = .exit res r ∧ IsError res := by
  unfold Unreadable readElement
  by_cases hversion : h.version = 0
  · rw [if_pos hversion, if_pos hversion]
    rcases readV1Element_cases hP h.table s with ⟨e, r, he, hs⟩ | ⟨res, r, hexit, hres⟩
    · by_cases hns : e.ns.toNat < h.table.length
      · exact .inl ⟨.v1 e, r, ⟨hversion, he, hns⟩, hs⟩
      · exact .inr (.inl ⟨e, r, he, hs, Nat.le_of_not_lt hns⟩)
    · exact .inr (.inr ⟨res, r, bind_of_exit hexit, hres⟩)
  · rw [if_neg hversion, if_neg hversion]
    rcases (leaves_readV2Element hP h.table (s.length + 1) s (by omega)).cases with
      ⟨o, r, hok⟩ | ⟨res, r, hexit, hres⟩
    · cases o with
      | none => exact .inr (.inl (readV2Element_none hok |>.imp fun flags hf => ⟨r, hf⟩))
      | some el =>
        obtain ⟨e, he, hs, -⟩ := readV2Element_some hok
        exact .inl ⟨.v2 e, r, ⟨hversion, he⟩, hs⟩
    · exact .inr (.inr ⟨res, r, hexit, hres⟩)

/-! ## the loop -/

section Loop
variable {Qos : Type} (extract : Option Qos → List Byte → Exec (Option Qos × Status))
variable {els : List MessageElement}

/-- The elements are taken in turn, up to one that is refused. -/
def takeAll : Message Qos → List MessageElement → Exec (Message Qos × Status)
  | msg, [] => .ok (msg, .success)
  | msg, el :: els =>
    match takeElement extract msg el with
    | .error f => .error f
    | .ok (msg, res) => if res = .success then takeAll msg els else .ok (msg, res)

/-- An element that the reader does not get over, or whose QoS makes it leave the language. -/
def Blocked (h : Header) (msg : Message Qos) (s : List Byte) : Prop :=
  Unreadable h s ∨ ∃ (e : WireElement) (r : List Byte) (f : Fault),
    e.Framed h.version h.table ∧ s = e.bytes ++ r ∧
      takeElement extract msg (e.element h.table) = .error f

variable {extract} {h : Header} {msg msg' : Message Qos}

theorem takeAll_cons_iff {el : MessageElement} :
    takeAll extract msg (el :: els) = .ok (msg', .success) ↔
      ∃ next, takeElement extract msg el = .ok (next, .success) ∧
        takeAll extract next els = .ok (msg', .success) := by
  rw [takeAll]
  cases htake : takeElement extract msg el with
  | error f => simp
  | ok taken =>
    obtain ⟨next, res⟩ := taken
    by_cases hres : res = .success
    · subst hres
      simp
    · simp [hres]

theorem readElements_taken {e : WireElement} {next : Message Qos} (he : e.Framed h.version h.table)
    (htake : takeElement extract msg (e.element h.table) = .ok (next, .success)) (count : Nat)
    (rest : List Byte) :
    readElements P extract h (count + 1) msg (e.bytes ++ rest) =
      readElements P extract h count next rest := by
  have hread := (reads_readElement (P := P) he).attempt
  rw [readElements, hread.bind_apply]
  dsimp only
  rw [htake]
  rfl

theorem readElements_refused {e : WireElement} {next : Message Qos} {res : Status}
    (he : e.Framed h.version h.table)
    (htake : takeElement extract msg (e.element h.table) = .ok (next, res)) (hres : IsError res)
    (count : Nat) (rest : List Byte) :
    readElements P extract h (count + 1) msg (e.bytes ++ rest) = .ok (next, res) rest := by
  have hread := (reads_readElement (P := P) he).attempt
  rw [readElements, hread.bind_apply]
  dsimp only
  rw [htake]
  dsimp only
  rw [if_neg hres]
  rfl

theorem readElements_append {es : List WireElement} (hes : ∀ e ∈ es, e.Framed h.version h.table)
    (htake : takeAll extract msg (es.map (WireElement.element h.table)) = .ok (msg', .success))
    (count : Nat) (rest : List Byte) :
    readElements P extract h (es.length + count) msg (es.flatMap WireElement.bytes ++ rest) =
      readElements P extract h count msg' rest := by
  induction es generalizing msg with
  | nil =>
    cases htake
    rw [length_nil, Nat.zero_add]
    rfl
  | cons e es ih =>
    obtain ⟨next, hnext, hrest⟩ := takeAll_cons_iff.mp htake
    rw [flatMap_cons, append_assoc, length_cons, Nat.add_right_comm,
      readElements_taken (hes e mem_cons_self) hnext]
    exact ih (fun e' he' => hes e' (mem_cons_of_mem e he')) hrest

theorem readElements_of_blocked (hs : Blocked extract h msg s) (count : Nat) :
    ∃ f, readElements P extract h (count + 1) msg s = .fault f := by
  rcases hs with hs | ⟨e, r, f, he, rfl, htake⟩
  · rcases readElement_of_unreadable (P := P) hs with hfault | ⟨r, hnone⟩
    · exact ⟨.outOfBounds, bind_of_fault (by unfold attempt; rw [hfault])⟩
    · refine ⟨.nullPointer, ?_⟩
      have hread : attempt (readElement P h) s = .ok (.ok none) r := by
        unfold attempt
        rw [hnone]
      exact bind_of_ok hread
  · refine ⟨f, ?_⟩
    have hread := (reads_readElement (P := P) he).attempt
    rw [readElements, hread.bind_apply]
    dsimp only
    rw [htake]
    rfl

/-- How the loop ends: with all elements taken, in front of one that blocks it, or with an
    error. -/
theorem readElements_cases (hP : IsError P.err) (h : Header) (count : Nat) (msg : Message Qos)
    (s : List Byte) :
    (∃ (es : List WireElement) (r : List Byte) (msg' : Message Qos), es.length ≤ count ∧
        (∀ e ∈ es, e.Framed h.version h.table) ∧ s = es.flatMap WireElement.bytes ++ r ∧
        takeAll extract msg (es.map (WireElement.element h.table)) = .ok (msg', .success) ∧
        (es.length = count ∨ Blocked extract h msg' r)) ∨
      ∃ msg' res r, readElements P extract h count msg s = .ok (msg', res) r ∧ IsError res := by
  induction count generalizing msg s with
  | zero => exact .inl ⟨[], s, msg, Nat.le_refl 0, by simp, rfl, rfl, .inl rfl⟩
  | succ count ih =>
    rcases readElement_cases hP h s with ⟨e, r, he, rfl⟩ | hs | ⟨res, r, hexit, hres⟩
    · cases htake : takeElement extract msg (e.element h.table) with
      | error f =>
        exact .inl ⟨[], e.bytes ++ r, msg, Nat.zero_le _, by simp, rfl, rfl,
          .inr (.inr ⟨e, r, f, he, rfl, htake⟩)⟩
      | ok taken =>
        obtain ⟨next, res⟩ := taken
        by_cases hres : res = .success
        swap
        · exact .inr ⟨next, res, r, readElements_refused he htake hres count r, hres⟩
        subst hres
        have hstep := readElements_taken (P := P) he htake count r
        rcases ih next r with ⟨es, r', msg', hlen, hes, rfl, htail, hend⟩ | ⟨msg', res', r', hread, herr⟩
        · refine .inl ⟨e :: es, r', msg', Nat.succ_le_succ hlen, ?_, ?_, ?_, ?_⟩
          · intro e' he'
            rcases mem_cons.mp he' with rfl | he'
            · exact he
            · exact hes e' he'
          · rw [flatMap_cons, append_assoc]
          · exact takeAll_cons_iff.mpr ⟨next, htake, htail⟩
          · exact hend.imp_left fun h => congrArg (· + 1) h
        · exact .inr ⟨msg', res', r', hstep.trans hread, herr⟩
    · exact .inl ⟨[], s, msg, Nat.zero_le _, by simp, rfl, rfl, .inr (.inl hs)⟩
    · refine .inr ⟨msg, res, r, ?_, hres⟩
      have hread : attempt (readElement P h) s = .ok (.error res) r := by
        unfold attempt
        rw [hexit]
      exact bind_of_ok hread

/-- The loop itself always comes to its end, since the codes of the elements' reader are kept. -/
theorem readElements_ne_exit (count : Nat) (msg : Message Qos) (s : List Byte) (res : Status)
    (r : List Byte) : readElements P extract h count msg s ≠ .exit res r := by
  induction count generalizing msg s with
  | zero => exact fun hexit => by cases hexit
  | succ count ih =>
    intro hexit
    rw [readElements] at hexit
    cases hread : readElement P h s with
    | exit e s' =>
      rw [bind_of_ok (show attempt (readElement P h) s = .ok (.error e) s' by rw [attempt, hread])]
        at hexit
      cases hexit
    | fault g =>
      rw [bind_of_fault (show attempt (readElement P h) s = .fault g by rw [attempt, hread])] at hexit
      cases hexit
    | ok el s' =>
      rw [bind_of_ok (show attempt (readElement P h) s = .ok (.ok el) s' by rw [attempt, hread])]
        at hexit
      cases el with
      | none => cases hexit
      | some el =>
        dsimp only at hexit
        cases htake : takeElement extract msg el with
        | error f =>
          rw [htake] at hexit
          cases hexit
        | ok taken =>
          obtain ⟨next, res'⟩ := taken
          rw [htake] at hexit
          dsimp only at hexit
          split at hexit
          · exact ih _ _ hexit
          · cases hexit

/-- The loop succeeds on framed elements only if all are taken. -/
theorem takeAll_of_readElements {es : List WireElement}
    (hes : ∀ e ∈ es, e.Framed h.version h.table) {rest r : List Byte}
    (hread : readElements P extract h es.length msg (es.flatMap WireElement.bytes ++ rest) =
      .ok (msg', .success) r) :
    takeAll extract msg (es.map (WireElement.element h.table)) = .ok (msg', .success) := by
  induction es generalizing msg with
  | nil =>
    cases hread
    rfl
  | cons e es ih =>
    have he := hes e mem_cons_self
    rw [flatMap_cons, append_assoc, length_cons] at hread
    cases htake : takeElement extract msg (e.element h.table) with
    | error f =>
      have hblocked : Blocked extract h msg (e.bytes ++ (es.flatMap WireElement.bytes ++ rest)) :=
        .inr ⟨e, _, f, he, rfl, htake⟩
      obtain ⟨f', hfault⟩ := readElements_of_blocked (P := P) hblocked es.length
      rw [hfault] at hread
      cases hread
    | ok taken =>
      obtain ⟨next, res⟩ := taken
      by_cases hres : res = .success
      · subst hres
        rw [readElements_taken he htake] at hread
        exact takeAll_cons_iff.mpr
          ⟨next, htake, ih (fun e' he' => hes e' (mem_cons_of_mem e he')) hread⟩
      · rw [readElements_refused he htake hres] at hread
        injection hread with hpair
        exact absurd (congrArg Prod.snd hpair) hres

/-- What was taken: the elements in their order, but for the QoS. -/
theorem takeAll_elements (h : takeAll extract msg els = .ok (msg', .success)) :
    msg'.elements = msg.elements ++ els.filter (fun el => !el.isQos) := by
  induction els generalizing msg with
  | nil =>
    cases h
    rw [filter_nil, append_nil]
  | cons el els ih =>
    obtain ⟨next, hnext, hrest⟩ := takeAll_cons_iff.mp h
    rw [ih hrest]
    unfold takeElement at hnext
    split at hnext
    · rename_i hqos
      cases hext : extract msg.qos el.body.value with
      | error f =>
        rw [hext] at hnext
        cases hnext
      | ok o =>
        obtain ⟨qos, res⟩ := o
        rw [hext] at hnext
        cases hnext
        rw [filter_cons_of_neg (by simp [hqos])]
    · rename_i hqos
      cases hnext
      rw [filter_cons_of_pos (by simp [hqos]), append_assoc]
      rfl

/-- Without a QoS among them, all elements are taken. -/
theorem takeAll_plain (h : ∀ el ∈ els, el.isQos = false) :
    takeAll extract msg els = .ok ({ msg with elements := msg.elements ++ els }, .success) := by
  induction els generalizing msg with
  | nil => rw [takeAll, append_nil]
  | cons el els ih =>
    have htake : takeElement extract msg el =
        .ok ({ msg with elements := msg.elements ++ [el] }, .success) := by
      rw [takeElement, h el mem_cons_self]
      rfl
    refine takeAll_cons_iff.mpr ⟨_, htake, ?_⟩
    rw [ih fun e he => h e (mem_cons_of_mem el he), append_assoc]
    rfl

end Loop

/-! ## the message -/

section Whole
variable {Qos : Type} {extract : Option Qos → List Byte → Exec (Option Qos × Status)}
  {stream : InputStream} {msg msg' : Message Qos} {mimeType : Option CString} {rest : List Byte}

/-- The message that the reader fills: its elements are cleared. -/
def cleared (msg : Message Qos) : Message Qos := { msg with elements := [] }

theorem messageRead_header {w : WireHeader} (hmime : wireMimeOk mimeType = true)
    (hw : w.Faithful) (hroom : w.namesCount.val < 65534) (s : List Byte) :
    messageRead stream extract msg mimeType (w.bytes ++ s) =
      match readElements stream.toSource extract w.header w.elementCount.val (cleared msg) s with
      | .ok (msg, res) rest => .ok (msg, res, rest)
      | .exit res rest => .ok (cleared msg, res, rest)
      | .fault f => .error f := by
  unfold messageRead
  rw [hmime, reads_readHeader hw hroom s]
  rfl

/-- A message as the reader takes it is read, if its QoS elements are accepted. -/
theorem messageRead_framed {w : WireMessage} (hmime : wireMimeOk mimeType = true)
    (hw : w.Framed) (hroom : w.header.namesCount.val < 65534)
    (htake : takeAll extract (cleared msg) w.contents = .ok (msg', .success)) (rest : List Byte) :
    messageRead stream extract msg mimeType (w.bytes ++ rest) = .ok (msg', .success, rest) := by
  have hloop := readElements_append (P := stream.toSource) (h := w.header.header) hw.elements
    htake 0 rest
  rw [WireMessage.bytes, append_assoc, messageRead_header hmime hw.header hroom, hw.count,
    ← Nat.add_zero w.elements.length, hloop]
  rfl

/-- Conversely what is read of such a message was taken. -/
theorem takeAll_of_messageRead {w : WireMessage} (hw : w.Framed)
    (hroom : w.header.namesCount.val < 65534) {r : List Byte}
    (h : messageRead stream extract msg mimeType (w.bytes ++ rest) = .ok (msg', .success, r)) :
    takeAll extract (cleared msg) w.contents = .ok (msg', .success) := by
  have hmime : wireMimeOk mimeType = true := by
    by_contra hmime
    unfold messageRead at h
    rw [Bool.eq_false_iff.mpr hmime] at h
    cases h
  rw [WireMessage.bytes, append_assoc, messageRead_header hmime hw.header hroom, hw.count] at h
  split at h
  · rename_i hread
    cases h
    exact takeAll_of_readElements (h := w.header.header) hw.elements hread
  · exact absurd ‹_› (readElements_ne_exit _ _ _ _ _)
  · cases h

section
variable (hmime : wireMimeOk mimeType = true)
include hmime

theorem messageRead_full {version : WireVersion} {n : CountField 2} (hn : 65534 ≤ n.val)
    (rest : List Byte) :
    messageRead stream extract msg mimeType (WireHeader.opening version n ++ rest) =
      .error .outOfBounds := by
  unfold messageRead
  rw [hmime, readHeader_full hn]
  rfl

theorem messageRead_short {version : WireVersion} {n : CountField 2} (hn : n.val < 65534)
    (h : ¬ NamesComplete n.val rest) :
    ∃ r, messageRead stream extract msg mimeType (WireHeader.opening version n ++ rest) =
      .ok (cleared msg, .success, r) := by
  obtain ⟨r, hexit⟩ : ∃ r, readHeader stream.toSource (WireHeader.opening version n ++ rest) =
      .exit .success r := readHeader_short hn h
  unfold messageRead
  rw [hmime, hexit]
  exact ⟨r, rfl⟩

theorem messageRead_blocked {w : WireHeader} (hw : w.Faithful) (hroom : w.namesCount.val < 65534)
    {es : List WireElement} (hes : ∀ e ∈ es, e.Framed w.version.byte w.table)
    (hlen : es.length < w.elementCount.val)
    (htake : takeAll extract (cleared msg) (es.map (WireElement.element w.table)) =
      .ok (msg', .success))
    (hs : Blocked extract w.header msg' rest) :
    ∃ f, messageRead stream extract msg mimeType
      (w.bytes ++ (es.flatMap WireElement.bytes ++ rest)) = .error f := by
  obtain ⟨count, hcount⟩ : ∃ k, w.elementCount.val = es.length + (k + 1) :=
    ⟨w.elementCount.val - es.length - 1, by omega⟩
  obtain ⟨f, hfault⟩ := readElements_of_blocked (P := stream.toSource) hs count
  have hloop := readElements_append (P := stream.toSource) (h := w.header) hes htake (count + 1)
    rest
  refine ⟨f, ?_⟩
  rw [messageRead_header hmime hw hroom, hcount, hloop, hfault]

end

/-- The five ways `jxta_message_read` ends. -/
theorem messageRead_cases (stream : InputStream)
    (extract : Option Qos → List Byte → Exec (Option Qos × Status)) (msg : Message Qos)
    (mimeType : Option CString) (hmime : wireMimeOk mimeType = true) (s : List Byte) :
    (∃ (w : WireMessage) (rest : List Byte) (msg' : Message Qos), w.Framed ∧
        w.header.namesCount.val < 65534 ∧ s = w.bytes ++ rest ∧
        takeAll extract (cleared msg) w.contents = .ok (msg', .success)) ∨
      (∃ (w : WireHeader) (es : List WireElement) (rest : List Byte) (msg' : Message Qos),
        w.Faithful ∧ w.namesCount.val < 65534 ∧ es.length < w.elementCount.val ∧
        (∀ e ∈ es, e.Framed w.version.byte w.table) ∧
        s = w.bytes ++ (es.flatMap WireElement.bytes ++ rest) ∧
        takeAll extract (cleared msg) (es.map (WireElement.element w.table)) =
          .ok (msg', .success) ∧
        Blocked extract w.header msg' rest) ∨
      (∃ (version : WireVersion) (n : CountField 2) (rest : List Byte),
        s = WireHeader.opening version n ++ rest ∧ 65534 ≤ n.val) ∨
      (∃ (version : WireVersion) (n : CountField 2) (rest : List Byte),
        s = WireHeader.opening version n ++ rest ∧ n.val < 65534 ∧ ¬ NamesComplete n.val rest) ∨
      ∃ msg' res rest, messageRead stream extract msg mimeType s = .ok (msg', res, rest) ∧
        IsError res := by
  have herror : ∀ {res : Status} {r : List Byte}, readHeader stream.toSource s = .exit res r →
      messageRead stream extract msg mimeType s = .ok (cleared msg, res, r) := by
    intro res r hexit
    unfold messageRead
    rw [hmime, hexit]
    rfl
  rcases readHeader_cases stream.fails s with ⟨version, n, rest, rfl⟩ | ⟨res, r, hexit, hres⟩
  swap
  · exact .inr (.inr (.inr (.inr ⟨_, res, r, herror hexit, hres⟩)))
  by_cases hn : 65534 ≤ n.val
  · exact .inr (.inr (.inl ⟨version, n, rest, rfl, hn⟩))
  by_cases hnames : NamesComplete n.val rest
  swap
  · exact .inr (.inr (.inr (.inl ⟨version, n, rest, rfl, by omega, hnames⟩)))
  rcases @readHeader_names _ version n (by omega) stream.fails rest hnames with
    ⟨w, r, hw, hroom, heq⟩ | ⟨res, r, hexit, hres⟩
  swap
  · exact .inr (.inr (.inr (.inr ⟨_, res, r, herror hexit, hres⟩)))
  rcases @readElements_cases _ Qos extract stream.fails w.header w.elementCount.val
    (cleared msg) r with ⟨es, r', msg', hlen, hes, rfl, htake, hend⟩ | ⟨msg', res, r', hread, hres⟩
  · by_cases hall : es.length = w.elementCount.val
    · refine .inl ⟨⟨w, es⟩, r', msg', ⟨hw, hall.symm, hes⟩, hroom, ?_, htake⟩
      rw [heq, WireMessage.bytes, append_assoc]
    · refine .inr (.inl ⟨w, es, r', msg', hw, hroom, ?_, hes, heq, htake, ?_⟩)
      · exact Nat.lt_of_le_of_ne hlen hall
      · exact hend.resolve_left hall
  · refine .inr (.inr (.inr (.inr ⟨msg', res, r', ?_, hres⟩)))
    rw [heq, messageRead_header hmime hw hroom, hread]

end Whole

end JxtaC.Message
