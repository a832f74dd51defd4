import Mathlib.Data.List.AList
import JxtaC.Lib.Xml
import JxtaC.Message

/-
  The QoS of a message (jxta_qos.c, and of jxta_util_priv.c and jxta_message.c the XML of it).
  A hash table is an association list with one value for a key; the order in which `apr_hash_next`
  goes through it is left to the writer. The XML parser and the time are parameters of the reader.
  Allocations are served.
-/

namespace JxtaC

open Lib

/-- `apr_hash_t`, of strings. -/
abbrev AprHash : Type := AList fun _ : CString => CString

/-- An entry of the table. -/
abbrev AprHash.Entry : Type := Σ _ : CString, CString

/-- `Jxta_qos`. -/
structure Qos where
  ht : AprHash
  immutable : Bool

namespace Qos

/-- `jxta_qos_get_long`: a value without digits is read as 0. -/
def getLong (me : Qos) (name : CString) : Except Status Int :=
  match me.ht.lookup name with
  | none => .error .itemNotfound
  | some v =>
    let tmp := Decimal.strtolEnd v.bytes
    if tmp ≠ v.bytes ∧ tmp ≠ [] then .error .invalidArgument else .ok (Decimal.strtol v.bytes)

/-- `jxta_qos_set_long`. -/
def setLong (me : Qos) (name : CString) (value : Int) : Qos × Status :=
  if me.immutable then (me, .failed)
  else ({ me with ht := me.ht.insert name (.ofBuffer (Decimal.ofInt value)) }, .success)

/-! ## to XML -/

/-- The text of an entry; neither its key nor its value is escaped. -/
def entryXml (entry : AprHash.Entry) : List Byte :=
  text "<QoS>" ++ entry.1.bytes ++ text "<Value>" ++ entry.2.bytes ++ text "</Value></QoS>"

/-- `qos_setting_to_xml`, on the entries in the order in which they are gone through. -/
def qosSettingToXml (entries : List AprHash.Entry) : CString :=
  if entries = [] then .ofBuffer []
  else .ofBuffer (text "<QoS_Setting>" ++ entries.flatMap entryXml ++ text "</QoS_Setting>")

/-! ## from XML -/

/-- `apr_xml_parser`: whether it takes a text, and the root of the document of that. -/
structure AprXmlParser where
  feed : List Byte → Bool
  done : List Byte → Option Xml.Element

/-- The loop of `xml_to_qos_setting`: the table is made with its first entry. -/
def settingLoop : List Xml.Element → Option AprHash → Exec (Option AprHash)
  | [], ht => .ok ht
  | elt :: next, ht =>
    if elt.name ≠ text "QoS" then settingLoop next ht
    else
      match elt.children with
      | [] => .error .nullPointer
      | ve :: _ =>
        if ve.name ≠ text "Value" then settingLoop next ht
        else
          match elt.cdata, ve.cdata with
          | key :: _, value :: _ =>
            settingLoop next (some ((ht.getD ∅).insert (.ofBuffer key) (.ofBuffer value)))
          | _, _ => .error .nullPointer

/-- `xml_to_qos_setting`: the root of a document that the parser did not get to the end of is not
    set. -/
def xmlToQosSetting (psr : AprXmlParser) (xml : CString) : Exec (Except Status (Option AprHash)) :=
  if !psr.feed xml.bytes then .ok (.error .invalidArgument)
  else
    match psr.done xml.bytes with
    | none => .error .danglingPointer
    | some elt =>
      if elt.name ≠ text "QoS_Setting" then .ok (.error .invalidArgument)
      else
        match settingLoop elt.children none with
        | .error f => .error f
        | .ok ht => .ok (.ok ht)

/-! ## in a message -/

def ttlName : CString := .ofBuffer (text "jxtaMsg:TTL")

def lifespanName : CString := .ofBuffer (text "jxtaMsg:lifespan")

/-- The TTL goes down by one, if there is one. -/
def decrementTtl (me : Qos) : Exec (Except Status Qos) :=
  match me.getLong ttlName with
  | .error _ => .ok (.ok me)
  | .ok val =>
    if val = 0 then .ok (.error .invalidArgument)
    else if val = -2 ^ 63 then .error .signedOverflow
    else .ok (.ok (me.setLong ttlName (val - 1)).1)

/-- Whether the time is behind the end of the lifespan, if there is one. -/
def expired (me : Qos) (time : Int) : Bool :=
  match me.getLong lifespanName with
  | .error _ => false
  | .ok val => time > val

/-- `extract_qos_element`: there is a NUL behind the value. A table without entries is NULL. -/
def extractQosElement (psr : AprXmlParser) (time : Int) (old : Option Qos) (value : List Byte) :
    Exec (Option Qos × Status) :=
  match xmlToQosSetting psr (.ofBuffer value) with
  | .error f => .error f
  | .ok (.error rv) => .ok (old, rv)
  | .ok (.ok none) => .error .nullPointer
  | .ok (.ok (some ht)) =>
    match decrementTtl ⟨ht, false⟩ with
    | .error f => .error f
    | .ok (.error rv) => .ok (some ⟨ht, false⟩, rv)
    | .ok (.ok qos) => .ok (some qos, if qos.expired time then .invalidArgument else .success)

end Qos

end JxtaC
