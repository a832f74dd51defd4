import JxtaC.EndpointAddress
import JxtaC.Lib.Decimal

/-
  The welcome message of a TCP connection (jxta_transport_welcome_message.c): a line of fields with
  a space between them, the last one the version of the format. Strings are the bytes in front of
  their NUL. A field of `_welcome_message` that is not set has the value that `calloc` gave it.
-/

namespace JxtaC

open Lib

/-- `Jxta_welcome_message_version`. -/
inductive WelcomeMessageVersion where
  | unknown
  | v1_1
  | v3_0
  deriving DecidableEq

/-- `_welcome_message`, but for the string. -/
structure WelcomeMessage where
  destAddr : Option EndpointAddress
  publicAddr : Option EndpointAddress
  peerId : List Byte
  noprop : Bool
  useMessageVersion : Int
  version : WelcomeMessageVersion
  deriving DecidableEq

namespace WelcomeMessage

/-- `GREETING`. -/
def greeting : List Byte := text "JXTAHELLO"

/-- `CURRENTVERSION`. -/
def currentVersion : List Byte := text "3.0"

def crlf : List Byte := [13, 10]

def space : Byte := 32

/-- The string that `welcome_message_new_1` builds; NULL for a message version that no byte holds. -/
def new1 (destAddr publicAddr : EndpointAddress) (peerid : CString) (noprop : Bool)
    (messageVersion : Int) : Option (List Byte) :=
  if messageVersion < 0 ∨ messageVersion > 255 then none
  else some (greeting ++ space :: destAddr.toCString ++ space :: publicAddr.toCString ++
    space :: peerid.bytes ++ space :: text (if noprop then "0" else "1") ++
    space :: Decimal.ofInt messageVersion ++ space :: currentVersion ++ crlf)

/-- What stands in front of the first space, and behind it, as `strchr` finds it. -/
def token (current : List Byte) : Option (List Byte × List Byte) :=
  if space ∈ current then
    some (current.takeWhile (· ≠ space), (current.dropWhile (· ≠ space)).drop 1)
  else none

/-- A token that is not empty. -/
def field (current : List Byte) : Option (List Byte × List Byte) :=
  match token current with
  | some (t, next) => if t = [] then none else some (t, next)
  | none => none

/-- What stands behind the last space, as `strrchr` finds it. -/
def lastToken (current : List Byte) : Option (List Byte) :=
  if space ∈ current then some (current.reverse.takeWhile (· ≠ space)).reverse else none

/-- `strncmp` finds no difference in the first `n` bytes, or in front of the NUL. -/
def sameText : (n : Nat) → (a b : List Byte) → Bool
  | 0, _, _ => true
  | _ + 1, [], [] => true
  | n + 1, x :: a, y :: b => x = y && sameText n a b
  | _ + 1, [], _ :: _ => false
  | _ + 1, _ :: _, [] => false

/-- The comparison of a version with the last token, without its last two bytes; the number of bytes
    is huge where the token is shorter. -/
def isVersion (version last : List Byte) : Bool :=
  sameText (if last.length < 2 then version.length + 1 else last.length - 2) version last

/-- The propagate flag: none where it is not one byte, and `none` inside for another byte. -/
def nopropField (current : List Byte) : Option (Option Bool × List Byte) :=
  match token current with
  | some (t, next) =>
    if t.length ≠ 1 then none
    else if t = text "0" then some (some false, next)
    else if t = text "1" then some (some true, next)
    else some (none, next)
  | none => none

/-- The fields behind the peer id, for `myself` with the fields in front of them. -/
def parseVersion (myself : WelcomeMessage) (current : List Byte) : Option WelcomeMessage :=
  match lastToken current with
  | none => none
  | some last =>
    if last.head? = some 48 then none
    else if isVersion (text "1.1") last then
      match nopropField current with
      | none => none
      | some (none, _) => some myself
      | some (some noprop, next) =>
        if next ≠ last then some { myself with noprop }
        else some { myself with noprop, version := .v1_1 }
    else if isVersion (text "3.0") last then
      match nopropField current with
      | none => none
      | some (none, _) => some myself
      | some (some noprop, next) =>
        match field next with
        | none => none
        | some (msgVers, next) =>
          if msgVers.length > 3 then none
          else
            let useMessageVersion := Decimal.atoi msgVers
            if next ≠ last then some { myself with noprop, useMessageVersion }
            else some { myself with noprop, useMessageVersion, version := .v3_0 }
    else some { myself with noprop := true, useMessageVersion := 0, version := .unknown }

/-- `welcome_message_new_2`. -/
def new2 (uriParse : CString → Uri) (welcomeStr : CString) : Option WelcomeMessage :=
  match token welcomeStr.bytes with
  | none => none
  | some (t, current) =>
    if t = [] ∨ ¬sameText t.length (welcomeStr.bytes) greeting then none
    else
      match field current with
      | none => none
      | some (dest, current) =>
        match field current with
        | none => none
        | some (source, current) =>
          match field current with
          | none => none
          | some (peerId, current) =>
            parseVersion ⟨EndpointAddress.new uriParse (.ofBuffer dest),
              EndpointAddress.new uriParse (.ofBuffer source), peerId, false, 0, .unknown⟩ current

end WelcomeMessage

end JxtaC
