import JxtaC.Lib.XmlScanner
import JxtaC.Propagate.Header

/-
  Chains of peers that update the header of a message (`updateProphdr`). A careful call either has
  arguments that are refused, or finds one header at most, which says nothing that its document cannot
  hold and may be propagated once more. `updateProphdr_careful` is about one call, `chains_lawful`
  about chains of them. A message whose TTL has expired has lost its header (`not_lawful`).
-/

namespace JxtaC.Propagate

open Lib Lib.XmlDocument Dispatch RendezVousPropagateMessage List

/-! ## the claim of the chains -/

/-- The header of a message that is propagated on. -/
structure Updates (c : UpdateProphdr) (received h : RendezVousPropagateMessage) : Prop where
  destSName : h.destSName = received.destSName
  destSParam : h.destSParam = received.destSParam
  messageId : h.messageId = received.messageId
  path : h.path = c.localPeerId.bytes :: received.path
  ttl : h.ttl < received.ttl

/-- The header that a message gets; a parameter that is NULL is printed as an empty text. -/
structure Starts (c : UpdateProphdr) (h : RendezVousPropagateMessage) : Prop where
  destSName : h.destSName = c.serviceName.map CString.bytes
  destSParam : h.destSParam = some ((c.serviceParam.map CString.bytes).getD [])
  messageId : h.messageId = some c.newId.chars.bytes
  path : h.path = [c.localPeerId.bytes]

section Claim
variable {Kind : Type} (d : Dialect Kind) (parser : Parser) (header : Kind)
variable (messageElementName : CString)

def isHeader (el : MessageElement) : Bool :=
  el.body.ns = (parseqname messageElementName).1 ∧ el.body.name = (parseqname messageElementName).2

/-- What a call does to a message, and returns. -/
def Meets (msg : List MessageElement) (c : UpdateProphdr) (r : Status)
    (msg' : List MessageElement) : Prop :=
  if r = .success then
    ∃ el h, msg'.filter (isHeader messageElementName) = [el] ∧
      (msg'.filter fun el => !isHeader messageElementName el) =
        msg.filter (fun el => !isHeader messageElementName el) ∧
      recover d parser header el = .ok h ∧ 1 ≤ h.ttl ∧ h.ttl ≤ c.ttl ∧
      match getElement1 msg messageElementName with
      | none => Starts c h
      | some old => ∃ received, recover d parser header old = .ok received ∧ Updates c received h
  else msg' = msg

/-- The TTL of a message: that of its header, or of the first call that gives it one. -/
def firstTTL (msg : List MessageElement) (cs : List UpdateProphdr) : Int :=
  match getElement1 msg messageElementName with
  | some el =>
    match recover d parser header el with
    | .ok h => h.ttl
    | .error _ => 0
  | none =>
    match cs.find? fun c => c.serviceName.isSome ∧ 0 < c.ttl with
    | some c => c.ttl
    | none => 0

/-- The law of a chain: every call does what it should, and there are not more hops than that. -/
def Lawful (msg : List MessageElement) (cs : List UpdateProphdr) : Prop :=
  Along (updateProphdr d parser header messageElementName) (fun _ => True)
    (Meets d parser header messageElementName) msg cs ∧
  ∃ msg' rs, runOps (updateProphdr d parser header messageElementName) msg cs = .ok (msg', rs) ∧
    rs.count .success ≤ (firstTTL d parser header messageElementName msg cs).toNat

/-- A call that is refused, or that finds at most one header; what is printed stands for itself in
    a document, and a message that came with a header may be propagated once more. -/
def Careful (msg : List MessageElement) (c : UpdateProphdr) : Prop :=
  c.ttl ≤ 0 ∨ c.serviceName = none ∨
  Word c.localPeerId.bytes ∧
    ((msg.filter (isHeader messageElementName) = [] ∧
      (∀ s, c.serviceName = some s → Verbatim s.bytes) ∧
      ∀ s, c.serviceParam = some s → Verbatim s.bytes) ∨
    ∃ el h, msg.filter (isHeader messageElementName) = [el] ∧
      recover d parser header el = .ok h ∧ h.Faithful ∧ 2 ≤ h.ttl)

end Claim

/-! ## elements -/

section Elements
variable {messageElementName : CString} {msg : List MessageElement} {el : MessageElement}

theorem getElement1_eq (msg : List MessageElement) :
    getElement1 msg messageElementName = (msg.filter (isHeader messageElementName)).getLast? := by
  rw [← head?_reverse, ← filter_reverse, head?_filter]
  rfl

/-- The header is taken out, and nothing else. -/
theorem filter_removeElement (h : msg.filter (isHeader messageElementName) = [el]) :
    (removeElement msg el).filter (isHeader messageElementName) = [] ∧
      ((removeElement msg el).filter fun el => !isHeader messageElementName el) =
        msg.filter fun el => !isHeader messageElementName el := by
  have hmem : el ∈ msg.filter (isHeader messageElementName) := h ▸ mem_singleton_self el
  obtain ⟨hin, hheader⟩ := mem_filter.mp hmem
  obtain ⟨l, l', -, hsplit, herase⟩ := exists_erase_eq (mem_reverse.mpr hin)
  have hmsg : msg = l'.reverse ++ el :: l.reverse := by
    have hreverse := congrArg List.reverse hsplit
    rw [reverse_reverse] at hreverse
    rw [hreverse]
    simp
  have hremoved : removeElement msg el = l'.reverse ++ l.reverse := by
    unfold removeElement
    rw [herase, reverse_append]
  rw [hremoved]
  subst hmsg
  rw [filter_append, filter_cons_of_pos hheader, append_eq_singleton_iff] at h
  constructor
  · rw [filter_append]
    rcases h with ⟨hnil, hcons⟩ | ⟨-, hcons⟩
    · rw [hnil, cons_injective.eq_iff.mp hcons]
      rfl
    · exact absurd hcons (cons_ne_nil _ _)
  · rw [filter_append, filter_append, filter_cons_of_neg (by simp [hheader])]

theorem isHeader_headerElement (pmsg : RendezVousPropagateMessage) :
    isHeader messageElementName (headerElement messageElementName pmsg) = true :=
  decide_eq_true ⟨rfl, rfl⟩

end Elements

/-! ## one call -/

section Call
variable {Kind : Type} {d : Dialect Kind} {parser : Parser} {header : Kind}
variable {messageElementName : CString} {msg : List MessageElement} {c : UpdateProphdr}

/-- What is put into a message without a header is read from it. -/
theorem putHeader_careful (htables : Tables d header) (hparser : Conforms parser)
    (hnone : msg.filter (isHeader messageElementName) = []) {l : CString}
    {p h : RendezVousPropagateMessage}
    (hxml : { p with path := l.bytes :: p.path }.getXml = h.getXml)
    (hfaithful : h.Faithful) (httl : 0 < p.ttl) :
    ∃ msg' el, putHeader messageElementName l msg p = (msg', .success) ∧
      msg'.filter (isHeader messageElementName) = [el] ∧
      (msg'.filter fun el => !isHeader messageElementName el) =
        msg.filter (fun el => !isHeader messageElementName el) ∧
      recover d parser header el = .ok h := by
  refine ⟨_, headerElement messageElementName
    { p with path := l.bytes :: p.path }, if_neg (Int.not_le.mpr httl), ?_, ?_, ?_⟩
  · rw [filter_append, hnone, nil_append,
      filter_cons_of_pos (isHeader_headerElement _), filter_nil]
  · rw [filter_append, filter_cons_of_neg (by simp [isHeader_headerElement]),
      filter_nil, append_nil]
  · unfold recover
    dsimp only [headerElement]
    rw [hxml, parse_getXml htables hparser hfaithful]
    rfl

/-- A message without a header gets one. -/
theorem updateProphdr_first (htables : Tables d header) (hparser : Conforms parser)
    (hnone : msg.filter (isHeader messageElementName) = []) {name : CString}
    (hname : c.serviceName = some name) (httl : 0 < c.ttl) (hpeer : Word c.localPeerId.bytes)
    (hverbatim : Verbatim name.bytes) (hparam : ∀ s, c.serviceParam = some s → Verbatim s.bytes) :
    ∃ msg' el h, updateProphdr d parser header messageElementName msg c = .ok (msg', .success) ∧
      msg'.filter (isHeader messageElementName) = [el] ∧
      (msg'.filter fun el => !isHeader messageElementName el) =
        msg.filter (fun el => !isHeader messageElementName el) ∧
      recover d parser header el = .ok h ∧ h.Faithful ∧ h.ttl = c.ttl ∧ Starts c h := by
  have hget : getElement1 msg messageElementName = none := by
    rw [getElement1_eq, hnone]
    rfl
  have hparam' : Verbatim ((c.serviceParam.map CString.bytes).getD []) := by
    cases hs : c.serviceParam with
    | none => exact verbatim_nil
    | some s => exact hparam s hs
  have hfaithful : Faithful ⟨some name.bytes, some ((c.serviceParam.map CString.bytes).getD []),
      some c.newId.chars.bytes, [c.localPeerId.bytes], c.ttl⟩ :=
    ⟨⟨_, rfl, hverbatim⟩, ⟨_, rfl, hparam'⟩, ⟨_, rfl, verbatim_plain c.newId.plain⟩,
      fun peer h => mem_singleton.mp h ▸ hpeer, c.isInt⟩
  have hxml : getXml ⟨some name.bytes, c.serviceParam.map CString.bytes,
        some c.newId.chars.bytes, [c.localPeerId.bytes], c.ttl⟩ =
      getXml ⟨some name.bytes, some ((c.serviceParam.map CString.bytes).getD []),
        some c.newId.chars.bytes, [c.localPeerId.bytes], c.ttl⟩ := rfl
  obtain ⟨msg', el, hput, hone, hothers, hread⟩ := putHeader_careful htables hparser hnone
    (l := c.localPeerId) (p := ⟨some name.bytes, c.serviceParam.map CString.bytes,
      some c.newId.chars.bytes, [], c.ttl⟩) hxml hfaithful httl
  refine ⟨msg', el, _, ?_, hone, hothers, hread, hfaithful, rfl, ?_⟩
  · unfold updateProphdr
    rw [hname]
    dsimp only
    rw [if_neg (Int.not_le.mpr httl), hget]
    exact congrArg Except.ok hput
  · exact ⟨congrArg (Option.map CString.bytes) hname.symm, rfl, rfl, rfl⟩

/-- A message with a header that may be propagated once more keeps it. -/
theorem updateProphdr_again (htables : Tables d header) (hparser : Conforms parser)
    {el : MessageElement} {received : RendezVousPropagateMessage}
    (hone : msg.filter (isHeader messageElementName) = [el])
    (hread : recover d parser header el = .ok received) (hfaithful : received.Faithful)
    (htwo : 2 ≤ received.ttl) {name : CString} (hname : c.serviceName = some name)
    (httl : 0 < c.ttl) (hpeer : Word c.localPeerId.bytes) :
    ∃ msg' el' h, updateProphdr d parser header messageElementName msg c = .ok (msg', .success) ∧
      msg'.filter (isHeader messageElementName) = [el'] ∧
      (msg'.filter fun el => !isHeader messageElementName el) =
        msg.filter (fun el => !isHeader messageElementName el) ∧
      recover d parser header el' = .ok h ∧ h.Faithful ∧
      h.ttl = min (received.ttl - 1) c.ttl ∧ Updates c received h := by
  have hget : getElement1 msg messageElementName = some el := by
    rw [getElement1_eq, hone]
    rfl
  obtain ⟨hnone, hothers⟩ := filter_removeElement hone
  have hint := c.isInt
  have hreceived := hfaithful.ttl
  have hleft : hdrTTL received.ttl c.ttl = .ok (min (received.ttl - 1) c.ttl) :=
    if_neg (by omega)
  have hfaithful' : Faithful { received with
      ttl := min (received.ttl - 1) c.ttl, path := c.localPeerId.bytes :: received.path } := by
    refine ⟨hfaithful.destSName, hfaithful.destSParam, hfaithful.messageId, ?_, ?_⟩
    · intro peer hmem
      rcases mem_cons.mp hmem with rfl | hmem
      · exact hpeer
      · exact hfaithful.path peer hmem
    · dsimp only
      omega
  obtain ⟨msg', el', hput, hone', hothers', hread'⟩ := putHeader_careful htables hparser hnone
    (l := c.localPeerId)
    (p := { received with ttl := min (received.ttl - 1) c.ttl }) rfl hfaithful'
    (show 0 < min (received.ttl - 1) c.ttl by omega)
  refine ⟨msg', el', _, ?_, hone', hothers'.trans hothers, hread', hfaithful', rfl, ?_⟩
  · unfold updateProphdr
    rw [hname]
    dsimp only
    rw [if_neg (Int.not_le.mpr httl), hget]
    dsimp only
    rw [hread, ok_bind, hleft, ok_bind]
    exact congrArg Except.ok hput
  · exact ⟨rfl, rfl, rfl, rfl, show min (received.ttl - 1) c.ttl < received.ttl by omega⟩

theorem updateProphdr_refused (h : c.ttl ≤ 0 ∨ c.serviceName = none) :
    updateProphdr d parser header messageElementName msg c = .ok (msg, .invalidArgument) := by
  unfold updateProphdr
  cases hname : c.serviceName with
  | none => rfl
  | some name =>
    rcases h with httl | hnone
    · exact if_pos httl
    · exact absurd (hname.symm.trans hnone) (by simp)

/-- A careful call does what it should. -/
theorem updateProphdr_careful (htables : Tables d header) (hparser : Conforms parser)
    (h : Careful d parser header messageElementName msg c) :
    ∃ msg' r, updateProphdr d parser header messageElementName msg c = .ok (msg', r) ∧
      Meets d parser header messageElementName msg c r msg' := by
  by_cases hrefused : c.ttl ≤ 0 ∨ c.serviceName = none
  · refine ⟨msg, .invalidArgument, updateProphdr_refused hrefused, ?_⟩
    exact (if_neg (by decide)).mpr rfl
  have hcall : Word c.localPeerId.bytes ∧ _ := (or_assoc.mpr h).resolve_left hrefused
  rw [not_or, Int.not_le, ← ne_eq, Option.ne_none_iff_exists'] at hrefused
  obtain ⟨httl, name, hname⟩ := hrefused
  obtain ⟨hpeer, ⟨hnone, hverbatim, hparam⟩ | ⟨old, received, hone, hread, hfaithful, htwo⟩⟩ := hcall
  · obtain ⟨msg', el, h, hstep, hone, hothers, hread, -, heq, hstarts⟩ :=
      updateProphdr_first htables hparser hnone hname httl hpeer (hverbatim name hname) hparam
    refine ⟨msg', .success, hstep, (if_pos rfl).mpr ⟨el, h, hone, hothers, hread, ?_, ?_, ?_⟩⟩
    · omega
    · omega
    · rw [getElement1_eq, hnone]
      exact hstarts
  · obtain ⟨msg', el, h, hstep, hone', hothers, hread', -, heq, hupdates⟩ :=
      updateProphdr_again htables hparser hone hread hfaithful htwo hname httl hpeer
    refine ⟨msg', .success, hstep, (if_pos rfl).mpr ⟨el, h, hone', hothers, hread', ?_, ?_, ?_⟩⟩
    · omega
    · omega
    · rw [getElement1_eq, hone]
      exact ⟨received, hread, hupdates⟩

end Call

/-! ## chains -/

section Chain
variable {Kind : Type} {d : Dialect Kind} {parser : Parser} {header : Kind}
variable {messageElementName : CString}

/-- The calls of a careful chain that leave a message with a header are fewer than its TTL says. -/
theorem hops_lt (htables : Tables d header) (hparser : Conforms parser) (cs : List UpdateProphdr)
    {msg : List MessageElement} {el : MessageElement} {h : RendezVousPropagateMessage}
    (hone : msg.filter (isHeader messageElementName) = [el])
    (hread : recover d parser header el = .ok h)
    (hsafe : SafeRun (updateProphdr d parser header messageElementName)
      (Careful d parser header messageElementName) msg cs) :
    ∃ msg' rs, runOps (updateProphdr d parser header messageElementName) msg cs = .ok (msg', rs) ∧
      rs.count .success ≤ (h.ttl - 1).toNat := by
  induction cs generalizing msg el h with
  | nil => exact ⟨msg, [], rfl, Nat.zero_le _⟩
  | cons c cs ih =>
    obtain ⟨hcareful, hrest⟩ := hsafe
    by_cases hrefused : c.ttl ≤ 0 ∨ c.serviceName = none
    · have hstep : updateProphdr d parser header messageElementName msg c =
          .ok (msg, .invalidArgument) := updateProphdr_refused hrefused
      have hnext := returns_ok hrest hstep
      obtain ⟨msg', rs, hrun, hcount⟩ := ih hone hread hnext
      refine ⟨msg', .invalidArgument :: rs, ?_, ?_⟩
      · rw [runOps_cons_ok hstep, hrun]
        rfl
      · rwa [count_cons_of_ne (by decide)]
    · have hcall : Word c.localPeerId.bytes ∧ _ := (or_assoc.mpr hcareful).resolve_left hrefused
      rw [not_or, Int.not_le, ← ne_eq, Option.ne_none_iff_exists'] at hrefused
      obtain ⟨httl, name, hname⟩ := hrefused
      obtain ⟨hpeer, ⟨hnone, -⟩ | ⟨old, received, hold, hrecover, hfaithful, htwo⟩⟩ := hcall
      · exact absurd (hone.symm.trans hnone) (cons_ne_nil _ _)
      · obtain rfl : el = old := singleton_inj.mp (hone.symm.trans hold)
        obtain rfl : h = received := Except.ok.inj (hread.symm.trans hrecover)
        obtain ⟨msg₁, el₁, h₁, hstep, hone₁, -, hread₁, -, heq, -⟩ :=
          updateProphdr_again htables hparser hone hread hfaithful htwo hname httl hpeer
        have hnext := returns_ok hrest hstep
        obtain ⟨msg', rs, hrun, hcount⟩ := ih hone₁ hread₁ hnext
        refine ⟨msg', .success :: rs, ?_, ?_⟩
        · rw [runOps_cons_ok hstep, hrun]
          rfl
        · rw [count_cons_self]
          omega

theorem hops_le (htables : Tables d header) (hparser : Conforms parser) (cs : List UpdateProphdr)
    {msg : List MessageElement}
    (hsafe : SafeRun (updateProphdr d parser header messageElementName)
      (Careful d parser header messageElementName) msg cs) :
    ∃ msg' rs, runOps (updateProphdr d parser header messageElementName) msg cs = .ok (msg', rs) ∧
      rs.count .success ≤ (firstTTL d parser header messageElementName msg cs).toNat := by
  induction cs generalizing msg with
  | nil => exact ⟨msg, [], rfl, Nat.zero_le _⟩
  | cons c cs ih =>
    obtain ⟨hcareful, hrest⟩ := hsafe
    by_cases hrefused : c.ttl ≤ 0 ∨ c.serviceName = none
    · have hstep : updateProphdr d parser header messageElementName msg c =
          .ok (msg, .invalidArgument) := updateProphdr_refused hrefused
      have hnext := returns_ok hrest hstep
      obtain ⟨msg', rs, hrun, hcount⟩ := ih hnext
      refine ⟨msg', .invalidArgument :: rs, ?_, ?_⟩
      · rw [runOps_cons_ok hstep, hrun]
        rfl
      · have hinvalid : ¬ (c.serviceName.isSome ∧ 0 < c.ttl) := by
          rintro ⟨hsome, httl⟩
          rcases hrefused with hle | hnone
          · exact absurd hle (Int.not_le.mpr httl)
          · rw [hnone] at hsome
            cases hsome
        have hfirst : firstTTL d parser header messageElementName msg (c :: cs) =
            firstTTL d parser header messageElementName msg cs := by
          unfold firstTTL
          rw [find?_cons_of_neg (by simpa using hinvalid)]
        rwa [hfirst, count_cons_of_ne (by decide)]
    · have hcall : Word c.localPeerId.bytes ∧ _ := (or_assoc.mpr hcareful).resolve_left hrefused
      have hvalid := hrefused
      rw [not_or, Int.not_le, ← ne_eq, Option.ne_none_iff_exists'] at hrefused
      obtain ⟨httl, name, hname⟩ := hrefused
      obtain ⟨hpeer, ⟨hnone, hverbatim, hparam⟩ | ⟨el, h, hone, hread, -⟩⟩ := hcall
      · obtain ⟨msg₁, el₁, h₁, hstep, hone₁, -, hread₁, -, heq, -⟩ :=
          updateProphdr_first htables hparser hnone hname httl hpeer (hverbatim name hname) hparam
        have hnext := returns_ok hrest hstep
        obtain ⟨msg', rs, hrun, hcount⟩ := hops_lt htables hparser cs hone₁ hread₁ hnext
        have hfirst : firstTTL d parser header messageElementName msg (c :: cs) = c.ttl := by
          unfold firstTTL
          rw [getElement1_eq, hnone, find?_cons_of_pos (by simp [hname, httl])]
          rfl
        refine ⟨msg', .success :: rs, ?_, ?_⟩
        · rw [runOps_cons_ok hstep, hrun]
          rfl
        · rw [hfirst, count_cons_self]
          omega
      · obtain ⟨msg', rs, hrun, hcount⟩ :=
          hops_lt htables hparser (c :: cs) hone hread ⟨hcareful, hrest⟩
        have hfirst : firstTTL d parser header messageElementName msg (c :: cs) = h.ttl := by
          unfold firstTTL
          rw [getElement1_eq, hone]
          dsimp only [getLast?_singleton]
          rw [hread]
        refine ⟨msg', rs, hrun, ?_⟩
        rw [hfirst]
        omega

/-- In a chain of careful calls each does what it should, and the first TTL bounds the hops. -/
theorem chains_lawful (htables : Tables d header) (hparser : Conforms parser)
    (msg : List MessageElement) (cs : List UpdateProphdr)
    (hsafe : SafeRun (updateProphdr d parser header messageElementName)
      (Careful d parser header messageElementName) msg cs) :
    Lawful d parser header messageElementName msg cs := by
  refine ⟨?_, hops_le htables hparser cs hsafe⟩
  refine along_of_safeRun (fun _ h => h) (fun msg c _ hcareful => ?_) cs trivial hsafe
  obtain ⟨msg', r, hstep, hmeets⟩ := updateProphdr_careful htables hparser hcareful
  exact ⟨msg', r, hstep, hmeets, trivial⟩

end Chain

/-! ## two peers -/

def propagateDialect : Dialect Unit where
  documentName _ := documentName
  elements _ := some (keepers Unit [text "DestSName", text "DestSParam", text "MessageId",
    text "Path", text "TTL"])
  globalHandler _ := none
  rank _ := 0
  rank_lt {kind tags k inner} htags hmem hparse := by
    cases htags
    obtain ⟨kwd, -, rfl⟩ := mem_map.mp hmem
    cases hparse
  switch_table _ _ _ := rfl
  global_table h := absurd h (by simp)

theorem propagate_tables : Tables propagateDialect () := ⟨rfl, rfl⟩

def elementName : CString := .ofBuffer (text "jxta:RendezVousPropagate")

/-- A peer propagates a message for the service `chat`, over two hops at most. -/
def chat (peer : List Byte) : UpdateProphdr :=
  ⟨.ofBuffer peer, some (.ofBuffer (text "chat")), none, 2, by decide,
    ⟨.ofBuffer (text "4e0c8f1a-6d53-4b7e-9f20-c1a2b3d4e5f6"), by decide⟩⟩

theorem word_chat {peer : List Byte} (h : Plain (chat peer).localPeerId.bytes)
    (hne : (chat peer).localPeerId.bytes ≠ []) : Word (chat peer).localPeerId.bytes :=
  word_plain h hne

theorem verbatim_chat (peer : List Byte) :
    ∀ s, (chat peer).serviceName = some s → Verbatim s.bytes := fun _ hs =>
  Option.some.inj hs ▸ verbatim_plain (by decide)

/-- The first peer gives the message its header. -/
theorem chat_first : ∃ msg' el h,
    updateProphdr propagateDialect scan () elementName [] (chat (text "A")) = .ok (msg', .success) ∧
      msg'.filter (isHeader elementName) = [el] ∧
      recover propagateDialect scan () el = .ok h ∧ h.Faithful ∧ h.ttl = 2 := by
  have hnone : ([] : List MessageElement).filter (isHeader elementName) = [] := rfl
  obtain ⟨msg', el, h, hstep, hone, -, hread, hfaithful, httl, -⟩ :=
    updateProphdr_first propagate_tables scan_conforms hnone (c := chat (text "A")) rfl (by decide)
      (word_chat (by decide) (by decide)) (verbatim_plain (by decide))
      (fun _ hs => absurd hs (by simp [chat]))
  exact ⟨msg', el, h, hstep, hone, hread, hfaithful, httl⟩

theorem chains_lawful_two :
    Lawful propagateDialect scan () elementName [] [chat (text "A"), chat (text "B")] := by
  apply chains_lawful propagate_tables scan_conforms
  obtain ⟨msg', el, h, hstep, hone, hread, hfaithful, httl⟩ := chat_first
  refine ⟨.inr (.inr ⟨word_chat (by decide) (by decide), .inl ⟨rfl, verbatim_chat _, ?_⟩⟩), ?_⟩
  · exact fun _ hs => absurd hs (by simp [chat])
  rw [hstep]
  refine ⟨.inr (.inr ⟨word_chat (by decide) (by decide), .inr ?_⟩), ?_⟩
  · exact ⟨el, h, hone, hread, hfaithful, httl.ge⟩
  · obtain ⟨msg'', el', h', hstep', -⟩ := updateProphdr_again propagate_tables scan_conforms hone
      hread hfaithful httl.ge (c := chat (text "B")) rfl (by decide)
      (word_chat (by decide) (by decide))
    rw [hstep']
    exact trivial

/-- The third peer lets the TTL expire, and the message goes on without its header. -/
theorem not_lawful : ¬ ∀ msg cs, Lawful propagateDialect scan () elementName msg cs := by
  intro hall
  obtain ⟨msg₁, el₁, h₁, hstep₁, hone₁, hread₁, hfaithful₁, httl₁⟩ := chat_first
  obtain ⟨msg₂, el₂, h₂, hstep₂, hone₂, -, hread₂, -, httl₂, -⟩ :=
    updateProphdr_again propagate_tables scan_conforms hone₁ hread₁ hfaithful₁ httl₁.ge
      (c := chat (text "B")) rfl (by decide) (word_chat (by decide) (by decide))
  have hone : h₂.ttl = 1 := by
    rw [httl₂, httl₁]
    decide
  obtain ⟨⟨-, s, r, hs, -, -, s', r', hs', -, -, s'', r'', hs'', hmeets, -⟩, -⟩ :=
    hall [] [chat (text "A"), chat (text "B"), chat (text "C")]
  obtain ⟨rfl, -⟩ := Prod.mk.inj (Except.ok.inj (hstep₁.symm.trans hs))
  obtain ⟨rfl, -⟩ := Prod.mk.inj (Except.ok.inj (hstep₂.symm.trans hs'))
  have hget : getElement1 msg₂ elementName = some el₂ := by
    rw [getElement1_eq, hone₂]
    rfl
  have hexpired : updateProphdr propagateDialect scan () elementName msg₂ (chat (text "C")) =
      .ok (removeElement msg₂ el₂, .ttlExpired) := by
    show (match getElement1 msg₂ elementName with
      | some el => _
      | none => _) = _
    rw [hget]
    dsimp only
    rw [hread₂, ok_bind, hone]
    rfl
  obtain ⟨rfl, rfl⟩ := Prod.mk.inj (Except.ok.inj (hexpired.symm.trans hs''))
  have hsame : removeElement msg₂ el₂ = msg₂ := hmeets
  have hnone := (filter_removeElement hone₂).1
  rw [hsame, hone₂] at hnone
  exact absurd hnone (cons_ne_nil _ _)

end JxtaC.Propagate
