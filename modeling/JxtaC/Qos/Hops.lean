import JxtaC.Message.RoundTrip
import JxtaC.Qos.Setting

/-
  The TTL of a message along its hops (jxta_message.c).
  The QoS element is the last one that is written, so that a reader which comes to its end has taken
  the QoS from it (`Hop.Passes.passed`). A hop is safe if what it writes fits the fields of its
  version. `ttl_falls`: along safe hops the TTL goes down by one each, as long as it is there, and
  the other entries stay, if all of them come through XML as they are.
-/

namespace JxtaC.Qos

open Lib Lib.Stream Message List

/-! ## the last QoS element -/

/-- The QoS element that is read last has this value. -/
def LastQos (elements : List MessageElement) (value : List Byte) : Prop :=
  ∃ pre el post, elements = pre ++ el :: post ∧ el.isQos = true ∧ el.body.value = value ∧
    ∀ e ∈ post, e.isQos = false

theorem lastQos_append {l : List MessageElement} {value : List Byte} (h : LastQos l value)
    (pre : List MessageElement) {post : List MessageElement} (hpost : ∀ e ∈ post, e.isQos = false) :
    LastQos (pre ++ (l ++ post)) value := by
  obtain ⟨pre', el, post', rfl, hel, hvalue, hpost'⟩ := h
  refine ⟨pre ++ pre', el, post' ++ post, by simp, hel, hvalue, fun e he => ?_⟩
  exact (mem_append.mp he).elim (hpost' e) (hpost e)

theorem lastQos_map {elements : List MessageElement} {value : List Byte} (h : LastQos elements value)
    {f : MessageElement → MessageElement} (hf : ∀ el, (f el).body = el.body) :
    LastQos (elements.map f) value := by
  have hqos : ∀ el, (f el).isQos = el.isQos := by
    intro el
    unfold MessageElement.isQos
    rw [hf]
  obtain ⟨pre, el, post, rfl, hel, hvalue, hpost⟩ := h
  refine ⟨pre.map f, f el, post.map f, by simp, (hqos el).trans hel, by rw [hf, hvalue], ?_⟩
  rw [forall_mem_map]
  exact fun e he => (hqos e).trans (hpost e he)

/-- Version 1 writes the namespace of the QoS as its second, and the QoS element last in it. -/
theorem lastQos_grouped {elements : List MessageElement} {value : List Byte}
    (h : LastQos elements value) : LastQos (grouped elements) value := by
  obtain ⟨pre, el, post, rfl, hel, hvalue, hpost⟩ := h
  have hns : el.body.ns = messageJxtaNs := (of_decide_eq_true hel).1
  have hnodup := nodup_v1NamesTable (pre ++ el :: post)
  obtain ⟨more, htable⟩ : ∃ more, v1NamesTable (pre ++ el :: post) =
      messageEmptyNs :: messageJxtaNs :: more := by
    rw [v1NamesTable_eq]
    exact ⟨_, tableOf_eq _⟩
  unfold grouped
  rw [htable] at hnodup ⊢
  rw [flatMap_cons, flatMap_cons]
  refine lastQos_append ?_ _ ?_
  · rw [filter_append, filter_cons_of_pos (by exact decide_eq_true hns)]
    refine ⟨_, el, _, rfl, hel, hvalue, fun e he => ?_⟩
    exact hpost e (mem_filter.mp he).1
  · intro e he
    obtain ⟨ns, hmem, he⟩ := mem_flatMap.mp he
    have hother : e.body.ns = ns := of_decide_eq_true (mem_filter.mp he).2
    refine decide_eq_false fun hqos => ?_
    rw [← hother, hqos.1] at hmem
    exact (nodup_cons.mp (nodup_cons.mp hnodup).2).1 hmem

/-- The QoS that is left is the one that was taken last. -/
theorem takeAll_lastQos {extract : Option Qos → List Byte → Exec (Option Qos × Status)}
    {msg msg' : Message Qos} {elements : List MessageElement} {value : List Byte}
    (h : LastQos elements value) (htake : takeAll extract msg elements = .ok (msg', .success)) :
    ∃ old, extract old value = .ok (msg'.qos, .success) := by
  obtain ⟨pre, el, post, rfl, hel, rfl, hpost⟩ := h
  induction pre generalizing msg with
  | nil =>
    obtain ⟨next, hnext, hrest⟩ := takeAll_cons_iff.mp htake
    rw [takeAll_plain hpost] at hrest
    obtain rfl := congrArg Prod.fst (Except.ok.inj hrest)
    unfold takeElement at hnext
    rw [if_pos hel] at hnext
    refine ⟨msg.qos, ?_⟩
    cases hext : extract msg.qos el.body.value with
    | error f =>
      rw [hext] at hnext
      cases hnext
    | ok taken =>
      obtain ⟨qos, res⟩ := taken
      rw [hext] at hnext
      cases hnext
      rfl
  | cons e pre ih =>
    obtain ⟨next, -, hrest⟩ := takeAll_cons_iff.mp htake
    exact ih hrest

/-! ## a hop -/

/-- What a hop comes upon: the order in which its hash table is gone through, the version and the
    stream that it writes to, and the stream, the message and the time that the next peer reads
    with. -/
structure Hop where
  order : AprHash → List AprHash.Entry
  visits : ∀ ht, (order ht).Perm ht.entries
  version : Int
  mimeType : Option CString
  out : OutputStream
  readMimeType : Option CString
  stream : InputStream
  into : Message Qos
  time : Int
  rest : List Byte

namespace Hop

/-- The QoS as it is written. -/
def toXml (hop : Hop) (me : Qos) : CString := qosSettingToXml (hop.order me.ht)

/-- The message is written, and what was written is read. -/
def Passes (psr : AprXmlParser) (hop : Hop) (msg msg' : Message Qos) : Prop :=
  ∃ (sent : Message Qos) (bytes left : List Byte),
    messageWrite1 hop.toXml msg hop.mimeType hop.version hop.out = .ok (sent, .success, bytes) ∧
    messageRead hop.stream (extractQosElement psr hop.time) hop.into hop.readMimeType
      (bytes ++ hop.rest) = .ok (msg', .success, left)

/-- What is written fits the fields of its version, and version 1 has at most 256 namespaces,
    version 2 at most 65535 names. -/
def Fits (hop : Hop) (msg : Message Qos) : Prop :=
  let elements := (addQosElement hop.toXml msg).elements
  (hop.version = 0 → FitsV1 elements ∧ (v1NamesTable elements).length ≤ 256) ∧
    (hop.version = 1 → FitsV2 elements ∧ (buildV2NamesTable elements).length ≤ 65535)

end Hop

theorem lastQos_addQosElement {toXml : Qos → CString} {msg : Message Qos} {me : Qos}
    (h : msg.qos = some me) : LastQos (addQosElement toXml msg).elements (toXml me).bytes := by
  unfold addQosElement
  rw [h]
  exact ⟨_, _, [], rfl, rfl, rfl, fun e he => absurd he not_mem_nil⟩

theorem writesV1_or_fails (out : OutputStream) (mimeType : Option CString)
    (elements : List MessageElement) :
    messageWriteV1 out.sink mimeType elements [] = .ok () (layoutV1 elements).bytes ∨
      ∃ res o, messageWriteV1 out.sink mimeType elements [] = .exit res o ∧ res ≠ .success := by
  by_cases hmime : wireMimeOk mimeType = true
  · rcases emits_messageWriteV1 out.sink hmime elements [] with hok | ⟨e, o, _, _, hexit, hW⟩
    · exact .inl hok
    · exact .inr ⟨e, o, hexit, OutputStream.refused hW⟩
  · refine .inr ⟨.notimp, [], ?_, by decide⟩
    rw [messageWriteV1, if_pos (by simpa using hmime)]
    rfl

/-- A version 2 message of at most 65535 names is written only if all its names are in the table. -/
theorem writesV2_or_fails (out : OutputStream) (mimeType : Option CString)
    {elements : List MessageElement} (htable : (buildV2NamesTable elements).length ≤ 65535) :
    ((∀ n ∈ lookupsOf elements, Registered (buildV2NamesTable elements) n) ∧
        messageWriteV2 out.sink mimeType elements [] = .ok () (layoutV2 elements).bytes) ∨
      ∃ res o, messageWriteV2 out.sink mimeType elements [] = .exit res o ∧ res ≠ .success := by
  by_cases hmime : wireMimeOk mimeType = true
  swap
  · refine .inr ⟨.notimp, [], ?_, by decide⟩
    rw [messageWriteV2, if_pos (by simpa using hmime)]
    rfl
  have hlooks := @looks_messageWriteV2 out mimeType hmime elements
  cases hfirst : firstUnregistered (buildV2NamesTable elements) (lookupsOf elements) with
  | none =>
    rcases hlooks.emits hfirst [] with hok | ⟨e, o, _, _, hexit, hW⟩
    · exact .inl ⟨firstUnregistered_eq_none_iff.mp hfirst, hok⟩
    · exact .inr ⟨e, o, hexit, OutputStream.refused hW⟩
  | some name =>
    have hunregistered : ¬ Registered (buildV2NamesTable elements) name := by
      simpa using find?_some hfirst
    have hlookup := lookupNameToken_not_registered hunregistered
    refine .inr (hlooks.refuses name hfirst (hlookup.resolve_right fun hhang => ?_) [])
    unfold lookupNameToken at hhang
    dsimp only at hhang
    rw [if_pos htable] at hhang
    split at hhang <;> cases hhang

/-- What a safe hop writes is a message as the reader takes it, and the QoS is in it. -/
theorem Hop.written {hop : Hop} {msg sent : Message Qos} {me : Qos} {bytes : List Byte}
    (hfits : hop.Fits msg) (hme : msg.qos = some me)
    (h : messageWrite1 hop.toXml msg hop.mimeType hop.version hop.out = .ok (sent, .success, bytes)) :
    ∃ w : WireMessage, w.Framed ∧ w.header.namesCount.val < 65534 ∧ bytes = w.bytes ∧
      LastQos w.contents (hop.toXml me).bytes := by
  have hlast := @lastQos_addQosElement hop.toXml msg me hme
  obtain ⟨hfits1, hfits2⟩ := hfits
  rw [messageWrite1] at h
  by_cases hv1 : hop.version = 0
  · obtain ⟨hfits, htable⟩ := hfits1 hv1
    rw [if_pos hv1] at h
    rcases writesV1_or_fails hop.out hop.mimeType (addQosElement hop.toXml msg).elements with
      hok | ⟨res, o, hexit, hres⟩
    · rw [hok] at h
      cases h
      refine ⟨_, layoutV1_framed hfits htable, ?_, rfl, ?_⟩
      · show ((v1NamesTable _).length - 2) % 65536 < 65534
        omega
      · rw [contents_layoutV1 htable]
        exact lastQos_map (lastQos_grouped hlast) fun el => rfl
    · rw [hexit] at h
      cases h
      exact absurd rfl hres
  rw [if_neg hv1] at h
  by_cases hv2 : hop.version = 1
  · obtain ⟨hfits, htable⟩ := hfits2 hv2
    rw [if_pos hv2] at h
    rcases writesV2_or_fails hop.out hop.mimeType htable with ⟨hreg, hok⟩ | ⟨res, o, hexit, hres⟩
    · rw [hok] at h
      cases h
      refine ⟨_, layoutV2_framed hreg hfits, ?_, rfl, ?_⟩
      · show ((buildV2NamesTable _).length - 2) % 65536 < 65534
        omega
      · rw [contents_layoutV2 hreg]
        exact hlast
    · rw [hexit] at h
      cases h
      exact absurd rfl hres
  · rw [if_neg hv2] at h
    cases h

/-- A safe hop passes the QoS on with a TTL that is one less. -/
theorem Hop.passes_qos {psr : AprXmlParser} (hpsr : psr.ReadsPlain) {hop : Hop}
    {msg msg' : Message Qos} {me : Qos} {n : Int} (hfits : hop.Fits msg) (hme : msg.qos = some me)
    (hplain : me.Plain) (httl : me.getLong ttlName = .ok n) (hn : 0 ≤ n)
    (h : hop.Passes psr msg msg') : 0 < n ∧ ∃ me', msg'.qos = some me' ∧ me.Passed me' n := by
  obtain ⟨sent, bytes, left, hwrite, hread⟩ := h
  obtain ⟨w, hw, hroom, rfl, hlast⟩ := Hop.written hfits hme hwrite
  obtain ⟨old, hextract⟩ := takeAll_lastQos hlast (takeAll_of_messageRead hw hroom hread)
  exact extractQosElement_setting hpsr hplain httl hn (hop.visits me.ht) hextract

/-! ## chains of hops -/

/-- A message is passed on from hop to hop, each of which meets `Ok`. -/
inductive Run (psr : AprXmlParser) (Ok : Hop → Message Qos → Prop) :
    List Hop → Message Qos → Message Qos → Prop where
  | nil (msg : Message Qos) : Run psr Ok [] msg msg
  | cons {hop : Hop} {hops : List Hop} {msg next msg' : Message Qos} (ok : Ok hop msg)
      (head : hop.Passes psr msg next) (tail : Run psr Ok hops next msg') :
      Run psr Ok (hop :: hops) msg msg'

/-- A message with a TTL of `n` passes `n` hops at most, and has a TTL of one less behind each; the
    rest of its QoS stays. -/
def TtlFalls (psr : AprXmlParser) (Ok : Hop → Message Qos → Prop) (msg : Message Qos) : Prop :=
  ∀ me n, msg.qos = some me → me.getLong ttlName = .ok n →
    ∀ hops msg', Run psr Ok hops msg msg' →
      hops.length ≤ n.toNat ∧ ∃ me', msg'.qos = some me' ∧
        me'.getLong ttlName = .ok (n - hops.length) ∧
        ∀ name ≠ ttlName, me'.ht.lookup name = me.ht.lookup name

theorem Run.falls {psr : AprXmlParser} (hpsr : psr.ReadsPlain) {hops : List Hop}
    {msg msg' : Message Qos} (h : Run psr Hop.Fits hops msg msg') {me : Qos} {n : Int}
    (hme : msg.qos = some me) (hplain : me.Plain) (httl : me.getLong ttlName = .ok n) (hn : 0 ≤ n) :
    (hops.length : Int) ≤ n ∧ ∃ me', msg'.qos = some me' ∧
      me'.getLong ttlName = .ok (n - hops.length) ∧
      ∀ name ≠ ttlName, me'.ht.lookup name = me.ht.lookup name := by
  induction h generalizing me n with
  | nil msg =>
    refine ⟨hn, me, hme, ?_, fun name _ => rfl⟩
    rw [httl, length_nil, Int.natCast_zero, Int.sub_zero]
  | cons ok head tail ih =>
    obtain ⟨hpos, next, hnext, hpassed⟩ := Hop.passes_qos hpsr ok hme hplain httl hn head
    obtain ⟨hle, me', hme', httl', hothers⟩ := ih hnext hpassed.plain hpassed.ttl (by omega)
    rw [length_cons, Int.natCast_add, Int.natCast_one]
    refine ⟨by omega, me', hme', ?_, fun name hname => ?_⟩
    · rw [httl']
      exact congrArg Except.ok (by omega)
    · rw [hothers name hname, hpassed.others name hname]

/-- Along safe hops the TTL falls, if it is not negative and the QoS comes through XML. -/
theorem ttl_falls {psr : AprXmlParser} (hpsr : psr.ReadsPlain) {msg : Message Qos}
    (hplain : ∀ me ∈ msg.qos, me.Plain)
    (hpos : ∀ me ∈ msg.qos, ∀ n, me.getLong ttlName = .ok n → 0 ≤ n) :
    TtlFalls psr Hop.Fits msg := by
  intro me n hme httl hops msg' hrun
  obtain ⟨hle, hrest⟩ := hrun.falls hpsr hme (hplain me hme) httl (hpos me hme n httl)
  exact ⟨by omega, hrest⟩

/-- A parser for plain elements. -/
def plainParser : AprXmlParser := ⟨fun s => (Xml.parse s).isSome, Xml.parse⟩

theorem plainParser_readsPlain : plainParser.ReadsPlain := by
  intro e he
  have hparse := Xml.parse_text he
  exact ⟨Option.isSome_of_eq_some hparse, hparse⟩

def key : CString := .ofBuffer (text "k")

/-- A TTL of 5 and one more entry. -/
def qosWith (value : String) : Qos :=
  ⟨(AList.singleton key (.ofBuffer (text value))).insert ttlName (.ofBuffer (text "5")), false⟩

theorem getLong_qosWith (value : String) : (qosWith value).getLong ttlName = .ok 5 := by
  unfold getLong qosWith
  rw [AList.lookup_insert]
  decide

def withEntry (value : String) : Message Qos := ⟨[], some (qosWith value)⟩

/-- A hop without incidents. -/
def directHop : Hop where
  order ht := ht.entries
  visits _ := .refl _
  version := 0
  mimeType := none
  out := acceptAll
  readMimeType := none
  stream := exhausted
  into := ⟨[], none⟩
  time := 0
  rest := []

/-- The TTL that such a hop leaves. -/
def ttlBehind (msg : Message Qos) : Option Int :=
  match messageWrite1 directHop.toXml msg none 0 acceptAll with
  | .ok (_, .success, bytes) =>
    match messageRead exhausted (extractQosElement plainParser 0) ⟨[], none⟩ none (bytes ++ []) with
    | .ok (msg', .success, _) => msg'.qos.bind fun me => (me.getLong ttlName).toOption
    | _ => none
  | _ => none

theorem passes_of_ttlBehind {msg : Message Qos} {t : Int} (h : ttlBehind msg = some t) :
    ∃ msg' me', directHop.Passes plainParser msg msg' ∧ msg'.qos = some me' ∧
      me'.getLong ttlName = .ok t := by
  unfold ttlBehind at h
  split at h
  · rename_i sent bytes hwrite
    split at h
    · rename_i msg' left hread
      obtain ⟨me', hme', ht⟩ := Option.bind_eq_some_iff.mp h
      refine ⟨msg', me', ⟨sent, bytes, left, hwrite, hread⟩, hme', ?_⟩
      cases hlong : me'.getLong ttlName with
      | error e =>
        rw [hlong] at ht
        cases ht
      | ok v =>
        rw [hlong] at ht
        exact congrArg Except.ok (Option.some.inj ht)
    · cases h
  · cases h

theorem plain_qosWith : (qosWith "v").Plain := by
  have hk : Xml.IsPlainText key.bytes := ⟨['k'], by decide +kernel, by decide, by decide, by decide⟩
  have hv : Xml.IsPlainText (CString.ofBuffer (text "v")).bytes :=
    ⟨['v'], by decide +kernel, by decide, by decide, by decide⟩
  have httl : Xml.IsPlainText ttlName.bytes :=
    ⟨['j', 'x', 't', 'a', 'M', 's', 'g', ':', 'T', 'T', 'L'], by decide +kernel, by decide,
      by decide, by decide⟩
  have hfive : Xml.IsPlainText (CString.ofBuffer (text "5")).bytes :=
    ⟨['5'], by decide +kernel, by decide, by decide, by decide⟩
  intro name v hlookup
  unfold qosWith at hlookup
  by_cases hname : name = ttlName
  · subst hname
    rw [AList.lookup_insert] at hlookup
    cases hlookup
    exact ⟨httl, hfive⟩
  · rw [AList.lookup_insert_ne hname] at hlookup
    by_cases hkey : name = key
    · subst hkey
      cases hlookup
      exact ⟨hk, hv⟩
    · have hnone : (AList.singleton key (CString.ofBuffer (text "v")) : AprHash).lookup name = none :=
        dlookup_cons_ne [] (⟨key, CString.ofBuffer (text "v")⟩ : AprHash.Entry) hkey
      rw [hnone] at hlookup
      cases hlookup

/-- `ttl_falls` at a message that a direct hop passes on. -/
theorem ttl_falls_plain :
    TtlFalls plainParser Hop.Fits (withEntry "v") ∧ ttlBehind (withEntry "v") = some 4 := by
  refine ⟨ttl_falls plainParser_readsPlain ?_ ?_, by decide +kernel⟩
  · intro me hme
    rw [← Option.some.inj hme]
    exact plain_qosWith
  · intro me hme n hn
    rw [← Option.some.inj hme, getLong_qosWith] at hn
    rw [← Except.ok.inj hn]
    decide

/-- The value of an entry is written as it is, and ends it; the TTL that stands in it is the one that
    is read. -/
theorem not_ttl_falls :
    ¬ TtlFalls plainParser (fun _ _ => True)
      (withEntry "1</Value></QoS><QoS>jxtaMsg:TTL<Value>9") := by
  intro h
  have hbehind : ttlBehind (withEntry "1</Value></QoS><QoS>jxtaMsg:TTL<Value>9") = some 8 := by
    decide +kernel
  obtain ⟨msg', me', hpasses, hme', httl'⟩ := passes_of_ttlBehind hbehind
  obtain ⟨-, me'', hme'', httl'', -⟩ := h (qosWith _) 5 rfl (getLong_qosWith _) [directHop] msg'
    (.cons trivial hpasses (.nil msg'))
  rw [← Option.some.inj (hme'.symm.trans hme''), httl', length_singleton] at httl''
  exact absurd (Except.ok.inj httl'') (by decide)

end JxtaC.Qos
