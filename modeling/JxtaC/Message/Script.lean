import JxtaC.Lib.Script
import JxtaC.Message

/-
  The message writers as the calls of their `write_func` in turn (jxta_message.c).
  `Script.messageWriteV1` and `Script.messageWriteV2` are the writers of `Message` without a sink:
  with one they are the same (`run_messageWriteV1`, `run_messageWriteV2`), so that what is
  proved of the writers holds with any `write_func`.
-/

namespace JxtaC

open Lib Lib.Stream

namespace Message

/-- A part of a writer. -/
abbrev WriteScript : Type := Script Byte Status Unit

namespace WriteScript

open Script (put)
variable (mimeType : Option CString) (table : List CString)

/-- `string_write`. -/
def stringWrite (str : CString) : WriteScript := do
  put (bigEndian 2 str.bytes.length)
  put str.bytes

def writeMimeType : Option CString → WriteScript
  | none => pure ()
  | some mimeType => stringWrite mimeType

def writeValue (value : List Byte) : WriteScript := do
  put (bigEndian 4 value.length)
  if value.length = 0 then pure () else put value

def writeV1Element (eachName : Nat) (el : MessageElement) : WriteScript := do
  put elmMagicSig
  put [UInt8.ofNat eachName]
  put [if el.body.mimeType.isSome then elmFlag1Type else 0]
  stringWrite el.body.name
  writeMimeType el.body.mimeType
  writeValue el.body.value

/-- `message_write_v1`. -/
def messageWriteV1 (mimeType : Option CString) (elements : List MessageElement) : WriteScript :=
  if !wireMimeOk mimeType then Script.leave .notimp
  else do
    let table := v1NamesTable elements
    put msgMagicSig
    put [0]
    put (bigEndian 2 (table.length - 2))
    Script.each stringWrite (table.drop 2)
    put (bigEndian 2 elements.length)
    Script.each (fun p => Script.each (writeV1Element p.2) (elementsOfNamespace elements p.1).reverse)
      table.zipIdx

def writeName (table : List CString) (name : CString) : WriteScript :=
  match lookupNameToken name table with
  | .error f => Script.crash f
  | .ok token =>
    if token = namesLiteralIdx then Script.leave .ioerr else put (bigEndian 2 token)

def writeV2MimeType (table : List CString) : Option CString → WriteScript
  | none => pure ()
  | some mimeType => writeName table mimeType

/-- `write_v2_element`, along the chain of signatures. -/
def writeV2Element (table : List CString) : (p : Part) → (sigs : List Part) → WriteScript
  | p, sigs => do
    put elmMagicSig
    put [v2Flags p sigs]
    writeName table p.ns
    stringWrite p.name
    writeV2MimeType table p.mimeType
    writeValue p.value
    match sigs with
    | [] => pure ()
    | sig :: sigs => writeV2Element table sig sigs

/-- `message_write_v2`. -/
def messageWriteV2 (mimeType : Option CString) (elements : List MessageElement) : WriteScript :=
  if !wireMimeOk mimeType then Script.leave .notimp
  else do
    let table := buildV2NamesTable elements
    put msgMagicSig
    put [1]
    put [0]
    put (bigEndian 2 (table.length - 2))
    Script.each stringWrite (table.drop 2)
    put (bigEndian 2 elements.length)
    Script.each (fun el => writeV2Element table el.body el.sigs) elements

/-- The writer that `jxta_message_write_1` takes for a version. -/
def messageWriter (version : Int) (mimeType : Option CString) (elements : List MessageElement) :
    WriteScript :=
  if version = 0 then messageWriteV1 mimeType elements
  else if version = 1 then messageWriteV2 mimeType elements
  else Script.leave .invalidArgument

/-! ## how it ends -/

/-- A code that the writers leave with says that something is wrong. -/
abbrev Fails (x : WriteScript) : Prop := x.Exits (· ≠ Status.success)

theorem fails_stringWrite (str : CString) : Fails (stringWrite str) :=
  (Script.exits_put _).bind fun _ => Script.exits_put _

theorem fails_writeMimeType : Fails (writeMimeType mimeType) := by
  cases mimeType with
  | none => exact Script.exits_pure ()
  | some mimeType => exact fails_stringWrite mimeType

theorem fails_writeValue (value : List Byte) : Fails (writeValue value) := by
  refine (Script.exits_put _).bind fun _ => ?_
  split
  · exact Script.exits_pure ()
  · exact Script.exits_put value

theorem fails_writeV1Element (eachName : Nat) (el : MessageElement) :
    Fails (writeV1Element eachName el) :=
  (Script.exits_put _).bind fun _ => (Script.exits_put _).bind fun _ => (Script.exits_put _).bind
    fun _ => (fails_stringWrite _).bind fun _ => (fails_writeMimeType _).bind fun _ =>
      fails_writeValue _

theorem fails_messageWriteV1 (elements : List MessageElement) :
    Fails (messageWriteV1 mimeType elements) := by
  unfold messageWriteV1
  split
  · exact Script.exits_leave (by decide)
  · exact (Script.exits_put _).bind fun _ => (Script.exits_put _).bind fun _ =>
      (Script.exits_put _).bind fun _ => (Script.exits_each fails_stringWrite _).bind fun _ =>
        (Script.exits_put _).bind fun _ => Script.exits_each
          (fun p : CString × Nat => Script.exits_each (fails_writeV1Element p.2) _) _

theorem fails_writeName (name : CString) : Fails (writeName table name) := by
  unfold writeName
  split
  · exact Script.exits_crash _
  · split
    · exact Script.exits_leave (by decide)
    · exact Script.exits_put _

theorem fails_writeV2MimeType (mimeType : Option CString) :
    Fails (writeV2MimeType table mimeType) := by
  cases mimeType with
  | none => exact Script.exits_pure ()
  | some mimeType => exact fails_writeName table mimeType

theorem fails_writeV2Element (p : Part) (sigs : List Part) :
    Fails (writeV2Element table p sigs) := by
  have hpart : ∀ (p : Part) (rest : WriteScript) (flags : Byte), Fails rest → Fails (do
      put elmMagicSig
      put [flags]
      writeName table p.ns
      stringWrite p.name
      writeV2MimeType table p.mimeType
      writeValue p.value
      rest) := fun p rest flags hrest =>
    (Script.exits_put _).bind fun _ => (Script.exits_put _).bind fun _ =>
      (fails_writeName table p.ns).bind fun _ => (fails_stringWrite p.name).bind fun _ =>
        (fails_writeV2MimeType table p.mimeType).bind fun _ => (fails_writeValue p.value).bind
          fun _ => hrest
  induction sigs generalizing p with
  | nil =>
    unfold writeV2Element
    exact hpart p (pure ()) _ (Script.exits_pure ())
  | cons sig sigs ih =>
    unfold writeV2Element
    exact hpart p (writeV2Element table sig sigs) _ (ih sig)

theorem fails_messageWriteV2 (elements : List MessageElement) :
    Fails (messageWriteV2 mimeType elements) := by
  unfold messageWriteV2
  split
  · exact Script.exits_leave (by decide)
  · exact (Script.exits_put _).bind fun _ => (Script.exits_put _).bind fun _ =>
      (Script.exits_put _).bind fun _ => (Script.exits_put _).bind fun _ =>
        (Script.exits_each fails_stringWrite _).bind fun _ => (Script.exits_put _).bind fun _ =>
          Script.exits_each (fun el : MessageElement => fails_writeV2Element _ el.body el.sigs) _

theorem fails_messageWriter (version : Int) (mimeType : Option CString)
    (elements : List MessageElement) : Fails (messageWriter version mimeType elements) := by
  unfold messageWriter
  split
  · exact fails_messageWriteV1 mimeType elements
  · split
    · exact fails_messageWriteV2 mimeType elements
    · exact Script.exits_leave (by decide)

theorem completes_stringWrite (str : CString) : (stringWrite str).Completes :=
  (Script.completes_put _).bind (Script.completes_put _)

theorem completes_writeV1Element (eachName : Nat) (el : MessageElement) :
    (writeV1Element eachName el).Completes := by
  have htype : (writeMimeType el.body.mimeType).Completes := by
    cases el.body.mimeType with
    | none => exact Script.completes_pure
    | some mimeType => exact completes_stringWrite mimeType
  have hvalue : (writeValue el.body.value).Completes := by
    refine (Script.completes_put _).bind ?_
    split
    · exact Script.completes_pure
    · exact Script.completes_put _
  exact (Script.completes_put _).bind ((Script.completes_put _).bind ((Script.completes_put _).bind
    ((completes_stringWrite _).bind (htype.bind hvalue))))

/-- With the type of a message on the wire `message_write_v1` fails only where its stream does. -/
theorem completes_messageWriteV1 {mimeType : Option CString} (hmime : wireMimeOk mimeType = true)
    (elements : List MessageElement) : (messageWriteV1 mimeType elements).Completes := by
  unfold messageWriteV1
  rw [hmime]
  exact (Script.completes_put _).bind ((Script.completes_put _).bind ((Script.completes_put _).bind
    ((Script.completes_each completes_stringWrite _).bind ((Script.completes_put _).bind
      (Script.completes_each
        (fun p : CString × Nat => Script.completes_each (completes_writeV1Element p.2) _) _)))))

/-! ## with a sink -/

section Sink
variable (W : Sink Byte Status)
variable (mimeType : Option CString) (table : List CString)

theorem run_stringWrite (str : CString) : (stringWrite str).run W = Message.stringWrite W str := by
  unfold stringWrite Message.stringWrite
  rw [Script.run_bind, Script.run_put, Script.run_put]

theorem run_writeMimeType : (writeMimeType mimeType).run W = Message.writeMimeType W mimeType := by
  cases mimeType with
  | none => rfl
  | some mimeType => exact run_stringWrite W mimeType

theorem run_writeValue (value : List Byte) :
    (writeValue value).run W = Message.writeValue W value := by
  unfold writeValue Message.writeValue
  rw [Script.run_bind, Script.run_put]
  split
  · rfl
  · rw [Script.run_put]

theorem run_writeV1Element (eachName : Nat) (el : MessageElement) :
    (writeV1Element eachName el).run W = Message.writeV1Element W eachName el := by
  unfold writeV1Element Message.writeV1Element
  simp only [Script.run_bind, Script.run_put, run_stringWrite, run_writeMimeType, run_writeValue]

theorem run_messageWriteV1 (elements : List MessageElement) :
    (messageWriteV1 mimeType elements).run W = Message.messageWriteV1 W mimeType elements := by
  unfold messageWriteV1 Message.messageWriteV1
  split
  · rfl
  · simp only [Script.run_bind, Script.run_put, Script.run_each, run_stringWrite,
      run_writeV1Element]

theorem run_writeName (name : CString) :
    (writeName table name).run W = Message.writeName W table name := by
  unfold writeName Message.writeName
  cases lookupNameToken name table with
  | error f => rfl
  | ok token =>
    dsimp only
    split
    · rfl
    · rw [Script.run_put]

theorem run_writeV2MimeType (mimeType : Option CString) :
    (writeV2MimeType table mimeType).run W = Message.writeV2MimeType W table mimeType := by
  cases mimeType with
  | none => rfl
  | some mimeType => exact run_writeName W table mimeType

theorem run_writeV2Element (p : Part) (sigs : List Part) :
    (writeV2Element table p sigs).run W = Message.writeV2Element W table p sigs := by
  induction sigs generalizing p with
  | nil =>
    unfold writeV2Element Message.writeV2Element
    simp only [Script.run_bind, Script.run_put, run_stringWrite, run_writeName, run_writeV2MimeType,
      run_writeValue, Script.run_pure]
  | cons sig sigs ih =>
    unfold writeV2Element Message.writeV2Element
    simp only [Script.run_bind, Script.run_put, run_stringWrite, run_writeName, run_writeV2MimeType,
      run_writeValue, ih]

theorem run_messageWriteV2 (elements : List MessageElement) :
    (messageWriteV2 mimeType elements).run W = Message.messageWriteV2 W mimeType elements := by
  unfold messageWriteV2 Message.messageWriteV2
  split
  · rfl
  · simp only [Script.run_bind, Script.run_put, Script.run_each, run_stringWrite,
      run_writeV2Element]

theorem run_messageWriter (version : Int) (mimeType : Option CString)
    (elements : List MessageElement) : (messageWriter version mimeType elements).run W =
      if version = 0 then Message.messageWriteV1 W mimeType elements
      else if version = 1 then Message.messageWriteV2 W mimeType elements
      else leave .invalidArgument := by
  unfold messageWriter
  split
  · rw [run_messageWriteV1]
  · split
    · rw [run_messageWriteV2]
    · rfl

/-- A sink as a consumer whose state is what was written. -/
def sinkPut (out : List Byte) (chunk : List Byte) : Exec (List Byte × Option Status) :=
  match W out chunk with
  | none => .ok (out ++ chunk, none)
  | some e => .ok (out, some e)

theorem driveChunks_sink (chunks : List (List Byte)) (out : List Byte) :
    Script.driveChunks (sinkPut W) chunks out =
      match Script.writeChunks W chunks out with
      | .ok () out => .ok (out, none)
      | .exit e out => .ok (out, some e)
      | .fault f => .error f := by
  induction chunks generalizing out with
  | nil => rfl
  | cons chunk chunks ih =>
    have hchunks : Script.writeChunks W (chunk :: chunks)
        = (write W chunk >>= fun _ => Script.writeChunks W chunks) := rfl
    cases hW : W out chunk with
    | none =>
      have hwrite : write W chunk out = .ok () (out ++ chunk) := by
        unfold write
        rw [hW]
      have hput : sinkPut W out chunk = .ok (out ++ chunk, none) := by
        unfold sinkPut
        rw [hW]
      rw [hchunks, bind_of_ok hwrite, Script.driveChunks, hput]
      exact ih (out ++ chunk)
    | some e =>
      have hwrite : write W chunk out = .exit e out := by
        unfold write
        rw [hW]
      have hput : sinkPut W out chunk = .ok (out, some e) := by
        unfold sinkPut
        rw [hW]
      rw [hchunks, bind_of_exit hwrite, Script.driveChunks, hput]
      rfl

theorem drive_sink (x : WriteScript) (out : List Byte) :
    x.drive (sinkPut W) out =
      match x.run W out with
      | .ok () out => .ok (out, none)
      | .exit e out => .ok (out, some e)
      | .fault f => .error f := by
  unfold Script.drive Script.run
  rw [driveChunks_sink]
  cases h : Script.writeChunks W x.chunks out with
  | ok u out =>
    rw [bind_of_ok h]
    cases x.ending with
    | value a => rfl
    | exit e => rfl
    | fault f => rfl
  | exit e out => rw [bind_of_exit h]; rfl
  | fault f => rw [bind_of_fault h]; rfl

end Sink

/-- `jxta_message_write_1`, with any `write_func`. -/
def messageWrite1To {Qos σ : Type} (writeFunc : σ → List Byte → Exec (σ × Option Status))
    (qosToXml : Qos → CString) (msg : Message Qos) (mimeType : Option CString) (version : Int)
    (stream : σ) : Exec (Message Qos × Option Status × σ) := do
  let msg := addQosElement qosToXml msg
  let (stream, res) ← (messageWriter version mimeType msg.elements).drive writeFunc stream
  return (msg, res, stream)

/-- On a stream that nothing was written to it is `messageWrite1`. -/
theorem messageWrite1_eq {Qos : Type} (qosToXml : Qos → CString) (msg : Message Qos)
    (mimeType : Option CString) (version : Int) (stream : OutputStream) :
    messageWrite1 qosToXml msg mimeType version stream =
      (messageWrite1To (sinkPut stream.sink) qosToXml msg mimeType version [] >>= fun p =>
        .ok (p.1, p.2.1.getD .success, p.2.2)) := by
  have hdrive := drive_sink stream.sink
    (messageWriter version mimeType (addQosElement qosToXml msg).elements) []
  rw [run_messageWriter] at hdrive
  unfold messageWrite1 messageWrite1To
  dsimp only
  rw [hdrive]
  generalize (if version = 0 then
      Message.messageWriteV1 stream.sink mimeType (addQosElement qosToXml msg).elements
    else if version = 1 then
      Message.messageWriteV2 stream.sink mimeType (addQosElement qosToXml msg).elements
    else leave Status.invalidArgument) [] = written
  cases written with
  | ok u out => rfl
  | exit res out => rfl
  | fault f => rfl

end WriteScript

end Message

end JxtaC
