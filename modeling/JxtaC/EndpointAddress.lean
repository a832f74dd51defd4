import JxtaC.Message

/-
  Endpoint addresses (jxta_endpoint_address.c): a protocol, an address of it, and the name and the
  parameters of a service. The URI parser is a parameter.
-/

namespace JxtaC

/-- What `apr_uri_parse` finds of a URI. -/
structure Uri where
  scheme : Option CString
  hostname : Option CString
  portStr : Option CString
  path : Option CString
  query : Option CString
  fragment : Option CString

/-- `Jxta_endpoint_address`. -/
structure EndpointAddress where
  protocolName : CString
  protocolAddress : CString
  serviceName : Option CString
  serviceParams : Option CString
  deriving DecidableEq

namespace EndpointAddress

/-- `trim_uri`. -/
def trimUri (uri : List Byte) : List Byte := uri.dropWhile fun b => b = 58 ∨ b = 47

/-- The name and the parameters of the service: what stands before the first slash, and what stands
    behind it. -/
def service (tmp : List Byte) : Option CString × Option CString :=
  let name := tmp.takeWhile (· ≠ 47)
  let params := if 47 ∈ tmp then some (.ofBuffer ((tmp.dropWhile (· ≠ 47)).drop 1)) else none
  (if name = [] then none else some (.ofBuffer name), params)

/-- The path, the query and the fragment of a URI, in one text. -/
def pathText (uri : Uri) : List Byte :=
  (uri.path.map fun p => trimUri p.bytes).getD [] ++
    (uri.query.map fun q => 63 :: q.bytes).getD [] ++
    (uri.fragment.map fun f => 35 :: f.bytes).getD []

/-- `jxta_endpoint_address_new`. -/
def new (uriParse : CString → Uri) (s : CString) : Option EndpointAddress :=
  let uri := uriParse s
  match uri.scheme, uri.hostname with
  | some scheme, some hostname =>
    let protocolAddress := match uri.portStr with
      | some port => if port.bytes = [] then hostname
        else .ofBuffer (hostname.bytes ++ 58 :: port.bytes)
      | none => hostname
    let (serviceName, serviceParams) := service (pathText uri)
    some ⟨scheme, protocolAddress, serviceName, serviceParams⟩
  | _, _ => none

/-- `jxta_endpoint_address_to_string`. -/
def toCString (a : EndpointAddress) : List Byte :=
  a.protocolName.bytes ++ text "://" ++ a.protocolAddress.bytes ++
    match a.serviceName with
    | none => []
    | some name => 47 :: name.bytes ++ (a.serviceParams.map fun p => 47 :: p.bytes).getD []

end EndpointAddress

end JxtaC
