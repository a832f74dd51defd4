import JxtaC.EndpointFilters
import JxtaC.Lib.EncodedTable

/-
  Demultiplexing in the endpoint service (jxta_endpoint_service.c, jxta_util_priv.c): the recipients
  and the listeners in their tables, and what `jxta_endpoint_service_demux_addr` does with a message
  that has passed the filters. A callback is its function with its argument; what it answers is a
  parameter. The cookie of a recipient is its key, read while the recipient is there. Allocations
  are served, but for those whose size does not fit into the `int` it is computed in.
-/

namespace JxtaC

open Lib

/-- The two tables of the service, by the strings of their keys. -/
structure EndpointTables (Callback Listener : Type) where
  cbTable : AList fun _ : List Byte => Callback
  listenerTable : AList fun _ : List Byte => Listener

namespace EndpointTables

/-- Whom a message is handed to. -/
inductive Handed (Callback Listener : Type) where
  | recipient (cb : Callback)
  | listener (l : Listener)
  deriving DecidableEq

variable {Callback Listener : Type}

/-- What a string, or NULL, adds to a key. -/
def orEmpty (s : Option CString) : List Byte := (s.map CString.bytes).getD []

/-- `get_service_key`. -/
def getServiceKey (svcName svcParam : Option CString) : Option (List Byte) :=
  match svcName with
  | none => none
  | some name =>
    match svcParam with
    | none => some name.bytes
    | some param => some (name.bytes ++ 47 :: param.bytes)

/-- `apr_hash_get` with the length of the string: NULL is no key. -/
def hashGet {α : Type} (table : AList fun _ : List Byte => α) : Option (List Byte) → Exec (Option α)
  | none => .error .nullPointer
  | some key => .ok (table.lookup key)

/-! ## recipients -/

/-- `endpoint_service_add_recipient`: the cookie, and the status. -/
def addRecipient (t : EndpointTables Callback Listener) (name param : Option CString)
    (cb : Callback) : Exec (EndpointTables Callback Listener × Option (List Byte) × Status) := do
  let recipient := getServiceKey name param
  match ← hashGet t.cbTable recipient with
  | some _ => return (t, none, .busy)
  | none =>
    match recipient with
    | none => .error .nullPointer
    | some key => return ({ t with cbTable := t.cbTable.insert key cb }, some key, .success)

/-- `endpoint_service_remove_recipient`. -/
def removeRecipient (t : EndpointTables Callback Listener) (cookie : Option (List Byte)) :
    Exec (EndpointTables Callback Listener × Status) := do
  match ← hashGet t.cbTable cookie with
  | none => return (t, .itemNotfound)
  | some _ =>
    match cookie with
    | none => .error .nullPointer
    | some key => return ({ t with cbTable := t.cbTable.erase key }, .success)

/-- `endpoint_service_remove_recipient_by_addr`. -/
def removeRecipientByAddr (t : EndpointTables Callback Listener) (name param : Option CString) :
    Exec (EndpointTables Callback Listener × Status) :=
  t.removeRecipient (getServiceKey name param)

/-! ## listeners -/

/-- What `"%s%s"` makes of a name and a parameter. -/
def serviceText (name param : Option CString) : List Byte := orEmpty name ++ orEmpty param

/-- `apr_snprintf` into a buffer of this size; without room for the NUL the buffer is no string. -/
def aprSnprintf (size : Int) (s : List Byte) : Exec (List Byte) :=
  if size < 0 then .error .nullPointer
  else if size = 0 then .error .outOfBounds
  else .ok (s.take (size.toNat - 1))

/-- `jxta_endpoint_service_add_listener`. The length goes through an `int`: a block of a negative
    size is not served. -/
def addListener (t : EndpointTables Callback Listener) (serviceName serviceParam : Option CString)
    (listener : Listener) : Exec (EndpointTables Callback Listener × Status) := do
  let strLength := Walk.toInt ((serviceText serviceName serviceParam).length + 1)
  let str ← aprSnprintf strLength (serviceText serviceName serviceParam)
  match t.listenerTable.lookup str with
  | some _ => return (t, .busy)
  | none => return ({ t with listenerTable := t.listenerTable.insert str listener }, .success)

/-- `jxta_endpoint_service_remove_listener`: the key is in a buffer of 256 bytes. -/
def removeListener (t : EndpointTables Callback Listener)
    (serviceName serviceParam : Option CString) :
    Exec (EndpointTables Callback Listener × Status) := do
  let str ← aprSnprintf 256 (serviceText serviceName serviceParam)
  return ({ t with listenerTable := t.listenerTable.erase str }, .success)

/-- The loop of `lookup_listener` over the parameters: `str1`, and `j` and `pt` behind it. -/
def copyParams : (params : List Byte) → (i j pt : Nat) → (str1 : List Byte) →
    List Byte × Nat × Nat
  | [], _, j, pt, str1 => (str1, j, pt)
  | c :: params, i, j, pt, str1 =>
    if c = 47 then copyParams params (i + 1) j i (str1.set j c)
    else copyParams params (i + 1) (j + 1) pt (str1.set j c)

/-- `str1` behind the loop, terminated, and `pt`. -/
def subgroupEndpoint (params : List Byte) : List Byte × Nat :=
  let (str1, j, pt) := copyParams params 0 0 0 (List.replicate (params.length + 1) 0)
  (str1.set j 0, pt)

/-- `strncpy` of a string that is not shorter than `n`. -/
def strncpy (dest src : List Byte) (n : Nat) : List Byte := src.take n ++ dest.drop n

/-- The string of a buffer. -/
def cString (buffer : List Byte) : List Byte := buffer.takeWhile (· ≠ 0)

/-- The key of the last lookup of `lookup_listener`, if it comes to it. -/
def relayEndpoint (params : List Byte) : Option (List Byte) :=
  let (str1, pt) := subgroupEndpoint params
  if pt ≠ 0 then some (cString ((strncpy str1 params (pt - 1)).set pt 0)) else none

/-- `lookup_listener`. -/
def lookupListener (t : EndpointTables Callback Listener) (addr : EndpointAddress) :
    Exec (Option Listener) :=
  match addr.serviceName with
  | none => .ok none
  | some name =>
    let str := serviceText (some name) addr.serviceParams
    let strLength := Walk.toInt (str.length + 1)
    if strLength < 0 then .ok none
    else if strLength < str.length + 1 then .error .outOfBounds
    else
      match t.listenerTable.lookup str with
      | some listener => .ok (some listener)
      | none =>
        match addr.serviceParams with
        | none => .error .nullPointer
        | some params =>
          match t.listenerTable.lookup (cString (subgroupEndpoint params.bytes).1) with
          | some listener => .ok (some listener)
          | none =>
            match relayEndpoint params.bytes with
            | some str1 => .ok (t.listenerTable.lookup str1)
            | none => .ok none

/-! ## messages -/

section Demux
variable (answer : Callback → List MessageElement → Status)

/-- The lookups of `endpoint_service_demux`. -/
def findCallback (t : EndpointTables Callback Listener) (name param : Option CString) :
    Exec (Option Callback) := do
  match ← hashGet t.cbTable (getServiceKey name param), param with
  | none, some _ => hashGet t.cbTable (name.map CString.bytes)
  | cb, _ => return cb

/-- `endpoint_service_demux`: the callback that is called, and the status. -/
def endpointServiceDemux (t : EndpointTables Callback Listener) (name param : Option CString)
    (msg : List MessageElement) : Exec (List (Handed Callback Listener) × Status) := do
  match ← t.findCallback name param with
  | some cb => return ([.recipient cb], answer cb msg)
  | none => return ([], .itemNotfound)

/-- `jxta_endpoint_service_demux_addr` behind the filters: whom the message is handed to. -/
def dispatch (t : EndpointTables Callback Listener) (dest : EndpointAddress)
    (msg : List MessageElement) : Exec (List (Handed Callback Listener)) := do
  let (handed, rv) ← endpointServiceDemux answer t dest.serviceName dest.serviceParams msg
  if rv ≠ .itemNotfound then return handed
  else
    match ← t.lookupListener dest with
    | some listener => return handed ++ [.listener listener]
    | none => return handed

/-- `jxta_endpoint_service_demux_addr`: the calls of filters, and whom the message is handed to. -/
def demuxAddr {Func Arg : Type}
    (call : Func → Arg → List MessageElement → Bool × List MessageElement)
    (filters : EndpointFilters Func Arg) (t : EndpointTables Callback Listener) (started : Bool)
    (dest : Option EndpointAddress) (string : Nat → Option CString) (msg : List MessageElement) :
    Exec (List (EndpointFilters.Call Func Arg) × List (Handed Callback Listener)) := do
  let (calls, outcome) ← filters.demuxAddr call started dest string msg
  match outcome, dest with
  | .delivered msg, some dest => return (calls, ← dispatch answer t dest msg)
  | _, _ => return (calls, [])

end Demux

end EndpointTables

end JxtaC
