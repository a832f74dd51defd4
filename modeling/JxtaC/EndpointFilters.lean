import JxtaC.EndpointAddress
import JxtaC.Lib.CircularList
import JxtaC.Walk

/-
  The filters of the endpoint service (jxta_endpoint_service.c) in their list (jdlist.c).
  The list is circular, with a sentinel that holds no value; the left pointer of a node is its
  `blink`, the right one its `flink`. A node of the list is read only while it is allocated. What
  `malloc` leaves in the `str` of a filter is a number, and `string` says which numbers point to a
  string. The calls of a filter do not come back into the service. `demuxAddr` is the function down
  to where it looks for a recipient.
-/

namespace JxtaC

open Lib

/-- `struct _Filter`. -/
structure Filter (Func Arg : Type) where
  str : Nat
  func : Func
  arg : Arg

/-- The filter list of the service: its nodes, and its sentinel. -/
structure EndpointFilters (Func Arg : Type) where
  links : Links
  val : Nat → Option (Filter Func Arg)
  live : Nat → Bool
  filterList : Nat
  fresh : Nat

/-- `parseqname`: the namespace and the name. -/
def parseqname (srcqname : CString) : CString × CString :=
  match srcqname.bytes.dropWhile (· ≠ 58) with
  | [] => (messageEmptyNs, srcqname)
  | _ :: ncname => (.ofBuffer (srcqname.bytes.takeWhile (· ≠ 58)), .ofBuffer ncname)

/-- `jxta_message_get_element_1`. -/
def getElement1 (msg : List MessageElement) (qname : CString) : Option MessageElement :=
  Walk.getElement2 msg (parseqname qname).1 (parseqname qname).2

namespace EndpointFilters

/-- A call of a filter: the node it is registered at, the function and its argument. -/
structure Call (Func Arg : Type) where
  node : Nat
  func : Func
  arg : Arg
  deriving DecidableEq

/-- What becomes of a message. -/
inductive Outcome where
  | notStarted
  | noDestination
  | discarded
  | delivered (msg : List MessageElement)
  deriving DecidableEq

variable {Func Arg : Type}

/-- `dl_make`. -/
def dlMake : EndpointFilters Func Arg :=
  ⟨⟨fun n => n, fun n => n⟩, fun _ => none, fun n => n == 0, 0, 1⟩

section List
variable (s : EndpointFilters Func Arg)

/-- The pointer to a node is followed. -/
def deref (node : Nat) : Exec Unit :=
  if s.live node then .ok () else .error .danglingPointer

def flink (node : Nat) : Exec Nat := do
  s.deref node
  return s.links.right node

def blink (node : Nat) : Exec Nat := do
  s.deref node
  return s.links.left node

/-- The filter at a node. -/
def filterAt (node : Nat) : Exec (Filter Func Arg) := do
  s.deref node
  match s.val node with
  | none => .error .nullPointer
  | some filter => return filter

/-- `dl_insert_b` on the sentinel. -/
def dlInsertB (filter : Filter Func Arg) : Exec (EndpointFilters Func Arg) := do
  let newNode := s.fresh
  let lastNode ← s.blink s.filterList
  s.deref lastNode
  let left := Function.update s.links.left s.filterList newNode
  let right := Function.update s.links.right lastNode newNode
  return { s with
    links := ⟨Function.update left newNode lastNode, Function.update right newNode s.filterList⟩
    val := Function.update s.val newNode (some filter)
    live := Function.update s.live newNode true
    fresh := s.fresh + 1 }

/-- `dl_delete_node`. -/
def dlDeleteNode (item : Nat) : Exec (EndpointFilters Func Arg) := do
  let next ← s.flink item
  s.deref next
  let left := Function.update s.links.left next (s.links.left item)
  s.deref (left item)
  let right := Function.update s.links.right (left item) next
  return { s with links := ⟨left, right⟩, live := Function.update s.live item false }

/-- `dl_traverse` from a node on: the body says whether the loop goes on. It ends with the node it
    stops at. -/
def traverse {β : Type} (body : Nat → Filter Func Arg → β → Exec (Bool × β)) :
    (nodes : Nat) → (cur : Nat) → β → Exec (Nat × β)
  | 0, _, _ => .error .neverReturns
  | nodes + 1, cur, b =>
    if cur = s.filterList then .ok (cur, b)
    else do
      let filter ← s.filterAt cur
      let (more, b) ← body cur filter b
      if more then
        let next ← s.flink cur
        traverse body nodes next b
      else return (cur, b)

/-- `dl_traverse` over the filter list. -/
def dlTraverse {β : Type} (body : Nat → Filter Func Arg → β → Exec (Bool × β)) (b : β) :
    Exec (Nat × β) := do
  let first ← s.flink s.filterList
  s.traverse body s.fresh first b

/-- The filters of the list, in its order. -/
def contents : Exec (List (Call Func Arg)) := do
  let (_, calls) ← s.dlTraverse
    (fun node filter calls => .ok (true, calls ++ [⟨node, filter.func, filter.arg⟩])) []
  return calls

end List

/-- `jxta_endpoint_service_add_filter`. `block` is what the allocated block holds where the filter
    has its `str`, and `str` is not read. -/
def addFilter (s : EndpointFilters Func Arg) (_str : CString) (f : Func) (arg : Arg) (block : Nat) :
    Exec (EndpointFilters Func Arg) :=
  s.dlInsertB ⟨block, f, arg⟩

/-- `jxta_endpoint_service_remove_filter`. The node at the end of the loop is not NULL. -/
def removeFilter [DecidableEq Func] (s : EndpointFilters Func Arg) (filter : Func) :
    Exec (EndpointFilters Func Arg) := do
  let (cur, _) ← s.dlTraverse (fun _ f () => .ok (!decide (f.func = filter), ())) ()
  s.dlDeleteNode cur

/-- `jxta_message_get_elements_of_namespace`: a vector in any case. The string is read once there is
    an element to compare it with. -/
def getElementsOfNamespace (string : Nat → Option CString) (msg : List MessageElement) (ns : Nat) :
    Exec (Option (List MessageElement)) :=
  if msg = [] then .ok (some [])
  else
    match string ns with
    | none => .error .danglingPointer
    | some ns => .ok (some (Message.elementsOfNamespace msg ns))

/-- The condition on which a filter gets the message. -/
def applies (string : Nat → Option CString) (msg : List MessageElement) (str : Nat) :
    Exec Bool := do
  match ← getElementsOfNamespace string msg str with
  | some _ => return true
  | none =>
    match string str with
    | none => .error .danglingPointer
    | some qname => return (getElement1 msg qname).isSome

section Demux
variable (call : Func → Arg → List MessageElement → Bool × List MessageElement)

/-- The body of the filter loop: the calls so far, and the message as the last one left it. -/
def passTo (string : Nat → Option CString) (node : Nat) (filter : Filter Func Arg)
    (p : List (Call Func Arg) × List MessageElement) :
    Exec (Bool × List (Call Func Arg) × List MessageElement) := do
  if ← applies string p.2 filter.str then
    let (pass, msg) := call filter.func filter.arg p.2
    return (pass, p.1 ++ [⟨node, filter.func, filter.arg⟩], msg)
  else return (true, p)

/-- `jxta_endpoint_service_demux_addr` as far as the filters go: the calls it makes, and what
    becomes of the message. `call` is what a filter answers, and what it leaves of the message. -/
def demuxAddr (s : EndpointFilters Func Arg) (started : Bool) (dest : Option EndpointAddress)
    (string : Nat → Option CString) (msg : List MessageElement) :
    Exec (List (Call Func Arg) × Outcome) :=
  if started = false then .ok ([], .notStarted)
  else if dest = none then .ok ([], .noDestination)
  else do
    let (cur, calls, msg) ← s.dlTraverse (passTo call string) ([], msg)
    return (calls, if cur = s.filterList then .delivered msg else .discarded)

end Demux

end EndpointFilters

end JxtaC
