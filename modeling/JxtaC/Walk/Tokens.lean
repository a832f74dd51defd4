import JxtaC.Walk.Header
import Mathlib.Data.List.InsertIdx

/-
  The walk as tokens. Of a message on its way only the peer it goes to, its TTL and its direction
  change; `Request` is the rest. `deliver_net`: what the network does with messages is what
  `TokenNet.deliver` does with tokens.
-/

namespace JxtaC.Walk

open Lib List

variable {xmlParse : XmlParser} {send : Transmission → Status}

/-- What a walk is started with: a message without a walk header, for a service whose names need no
    escapes in XML. -/
structure Request where
  msg : List MessageElement
  serviceName : CString
  serviceParam : CString
  origin : Pid
  fresh : getElement2 msg rdvNsName limitedRangeWalkElement = none
  plainName : Plain serviceName.bytes
  plainParam : Plain serviceParam.bytes
  plainOrigin : Plain origin

/-- A message on its way: up, or down. -/
structure Token where
  dest : Pid
  ttl : Int
  up : Bool
  fits : -2 ^ 31 ≤ ttl ∧ ttl < 2 ^ 31

def direction (up : Bool) : Int := if up then walkUp else walkDown

theorem toInt_fits (u : Nat) : -2 ^ 31 ≤ toInt u ∧ toInt u < 2 ^ 31 := by
  unfold toInt uintMod
  have hlow := Int.le_bmod (x := (u : Int)) (m := 2 ^ 32) (by decide)
  have hhigh := Int.bmod_lt (x := (u : Int)) (m := 2 ^ 32) (by decide)
  omega

theorem toInt_of_lt {u : Nat} (h : u < 2 ^ 31) : toInt u = u :=
  Int.bmod_eq_of_le (by unfold uintMod; omega) (by unfold uintMod; omega)

theorem toInt_of_ge {u : Nat} (h : 2 ^ 31 ≤ u) (hu : u < 2 ^ 32) : toInt u = u - 2 ^ 32 := by
  have hsplit : (u : Int) = (u - 2 ^ 32 : Int) + (uintMod : Nat) := by
    unfold uintMod
    omega
  unfold toInt
  rw [hsplit, Int.add_bmod_right, Int.bmod_eq_of_le (by unfold uintMod; omega)
    (by unfold uintMod; omega)]
  omega

namespace Request

variable (r : Request)

/-- The message but for its header. -/
def base : List MessageElement :=
  r.msg ++ [rdvElement rdvWalkSvcName textPlain r.serviceName.bytes] ++
    [rdvElement rdvWalkSvcParam textPlain r.serviceParam.bytes]

def header (t : Token) : LimitedRangeRdvMessage :=
  ⟨t.ttl, direction t.up, some r.origin, some r.serviceName.bytes, some r.serviceParam.bytes⟩

def transmission (t : Token) : Transmission :=
  ⟨t.dest, r.base ++ [rdvElement limitedRangeWalkElement textXml (r.header t).getXml]⟩

theorem header_printable (t : Token) : (r.header t).Printable where
  ttl := t.fits
  dir := by
    show -2 ^ 31 ≤ direction t.up ∧ direction t.up < 2 ^ 31
    cases t.up <;> decide
  srcPeerId := ⟨_, rfl, r.plainOrigin⟩
  svcName := ⟨_, rfl, r.plainName⟩
  svcParams := ⟨_, rfl, r.plainParam⟩

/-! ## what a message carries -/

theorem getElement2_append (msg : List MessageElement) (el : MessageElement) (ns name : CString) :
    getElement2 (msg ++ [el]) ns name =
      if el.body.ns = ns ∧ el.body.name = name then some el else getElement2 msg ns name := by
  unfold getElement2
  rw [reverse_append, reverse_singleton, singleton_append, find?_cons]
  by_cases h : el.body.ns = ns ∧ el.body.name = name
  · simp [h]
  · simp [h]

theorem getElement2_header (t : Token) :
    getElement2 (r.transmission t).msg rdvNsName limitedRangeWalkElement =
      some (rdvElement limitedRangeWalkElement textXml (r.header t).getXml) := by
  unfold transmission
  rw [getElement2_append, if_pos ⟨rfl, rfl⟩]

theorem removeElement2_header (t : Token) :
    Message.removeElement2 rdvNsName limitedRangeWalkElement (r.transmission t).msg = r.base := by
  unfold transmission Message.removeElement2
  rw [reverse_append, reverse_singleton, singleton_append, eraseP_cons,
    cond_eq_ite, if_pos (decide_eq_true ⟨rfl, rfl⟩), reverse_reverse]

theorem names_ne : limitedRangeWalkElement ≠ rdvWalkSvcName ∧
    limitedRangeWalkElement ≠ rdvWalkSvcParam ∧ rdvWalkSvcParam ≠ rdvWalkSvcName := by decide

/-- The service finds the names it is addressed by. -/
theorem walkerCb_transmission (hxml : ReadsFlat xmlParse) (t : Token) :
    walkerCb xmlParse (r.transmission t).msg =
      if t.ttl ≤ 0 then none
      else some (some r.serviceName, some r.serviceParam) := by
  have hname : getElement2 (r.transmission t).msg rdvNsName rdvWalkSvcName =
      some (rdvElement rdvWalkSvcName textPlain r.serviceName.bytes) := by
    unfold transmission base
    rw [getElement2_append, if_neg fun h => names_ne.1 h.2, getElement2_append,
      if_neg fun h => names_ne.2.2 h.2, getElement2_append, if_pos ⟨rfl, rfl⟩]
  have hparam : getElement2 (r.transmission t).msg rdvNsName rdvWalkSvcParam =
      some (rdvElement rdvWalkSvcParam textPlain r.serviceParam.bytes) := by
    unfold transmission base
    rw [getElement2_append, if_neg fun h => names_ne.2.1 h.2, getElement2_append,
      if_pos ⟨rfl, rfl⟩]
  unfold walkerCb
  rw [getElement2_header, hname, hparam]
  dsimp only [rdvElement]
  rw [LimitedRangeRdvMessage.parse_getXml hxml (r.header_printable t)]
  simp only [CString.ofBuffer_bytes]
  rfl

end Request

/-! ## one peer -/

/-- The neighbour a message of this direction goes to. -/
def Provider.peer (self : Provider) (up : Bool) : Option Pid :=
  if up then self.upPeer else self.downPeer

/-- What `walk` makes of a TTL. -/
def Provider.left (self : Provider) (ttl : Int) : Nat :=
  min ((self.localViewSize % uintMod + (uintMod - 1)) % uintMod) ((ttl - 1) % uintMod).toNat

theorem ite_lt_eq_min (a b : Nat) : (if a < b then a else b) = min a b := by
  split <;> omega

theorem useTTL_eq (self : Provider) {ttl : Int} (h : -2 ^ 31 < ttl) :
    useTTL (self.localViewSize % uintMod) ttl = .ok (self.left ttl) := by
  unfold useTTL Provider.left
  rw [if_neg (by omega)]
  exact congrArg Except.ok (ite_lt_eq_min _ _)

/-- The tokens that `walk` sends with a TTL of `ttl` before it, in this direction. -/
def Provider.tokens (self : Provider) (ttl : Int) (up : Bool) : List Token :=
  if self.left ttl < 1 then []
  else (self.peer up).toList.map fun pid =>
    ⟨pid, toInt (self.left ttl), up, toInt_fits (self.left ttl)⟩

/-- The TTL that a walk starts with. -/
def Provider.startTTL (self : Provider) : Int := toInt (self.localViewSize % uintMod)

theorem walkTo_tokens (r : Request) (self : Provider) (ttl : Int) (up : Bool) (dir : Int)
    (hleft : ¬self.left ttl < 1) :
    (walkTo send ⟨toInt (self.left ttl), dir, some r.origin, some r.serviceName.bytes,
      some r.serviceParam.bytes⟩ (direction up) (self.peer up) r.base).1 =
        (self.tokens ttl up).map r.transmission := by
  unfold Provider.tokens
  rw [if_neg hleft]
  cases self.peer up <;> rfl

/-- `walk` on a message that it sent: it goes on in the same direction. -/
theorem walk_transmission (hxml : ReadsFlat xmlParse) (r : Request) (self : Provider) (t : Token)
    (hlow : 0 < t.ttl) (serviceName serviceParam : CString) :
    ∃ p, walk xmlParse send self (r.transmission t).msg serviceName serviceParam = .ok p ∧
      p.1 = (self.tokens t.ttl t.up).map r.transmission := by
  unfold walk
  rw [r.getElement2_header]
  dsimp only [rdvElement]
  rw [LimitedRangeRdvMessage.parse_getXml hxml (r.header_printable t)]
  rw [r.removeElement2_header]
  unfold walkOn
  dsimp only [Request.header]
  rw [useTTL_eq self (by omega), ok_bind]
  by_cases hleft : self.left t.ttl < 1
  · rw [if_pos hleft]
    refine ⟨_, rfl, ?_⟩
    rw [Provider.tokens, if_pos hleft]
    rfl
  · rw [if_neg hleft]
    have hto := @walkTo_tokens send r self t.ttl t.up (direction t.up) hleft
    refine ⟨_, rfl, ?_⟩
    cases hup : t.up with
    | true =>
      rw [hup] at hto
      rw [if_pos (.inr rfl), if_neg (by decide), ← hto, append_nil]
      rfl
    | false =>
      rw [hup] at hto
      rw [if_neg (by decide), if_pos (.inr rfl), ← hto]
      rfl

/-- `walk` on a new message: it goes in both directions. -/
theorem walk_start (r : Request) (self : Provider) (horigin : self.localPeerId = r.origin)
    (hlow : -2 ^ 31 < self.startTTL) :
    ∃ p, walk xmlParse send self r.msg r.serviceName r.serviceParam = .ok p ∧
      p.1 = (self.tokens self.startTTL true ++ self.tokens self.startTTL false).map
        r.transmission := by
  unfold walk
  rw [r.fresh]
  rw [horigin]
  unfold walkOn
  dsimp only
  rw [show toInt (self.localViewSize % uintMod) = self.startTTL from rfl, useTTL_eq self hlow,
    ok_bind]
  by_cases hleft : self.left self.startTTL < 1
  · rw [if_pos hleft]
    refine ⟨_, rfl, ?_⟩
    simp only [Provider.tokens, if_pos hleft]
    rfl
  · rw [if_neg hleft, if_pos (.inl rfl), if_pos (.inl rfl)]
    refine ⟨_, rfl, ?_⟩
    rw [map_append, ← @walkTo_tokens send r self self.startTTL true walkBoth hleft,
      ← @walkTo_tokens send r self self.startTTL false walkBoth hleft]
    rfl

/-- Without a TTL that fits, a walk does not start. -/
theorem walk_start_fault (r : Request) (self : Provider) (hlow : ¬-2 ^ 31 < self.startTTL) :
    walk xmlParse send self r.msg r.serviceName r.serviceParam = .error .signedOverflow := by
  unfold walk
  rw [r.fresh]
  unfold walkOn useTTL
  dsimp only
  rw [show toInt (self.localViewSize % uintMod) = self.startTTL from rfl, if_pos (by omega)]
  rfl

/-! ## the network -/

/-- The network, with the messages as tokens. -/
structure TokenNet where
  tokens : List Token
  sent : List Pid
  received : List Pid

def TokenNet.net (r : Request) (n : TokenNet) : Net :=
  ⟨n.tokens.map r.transmission, n.sent, n.received⟩

/-- What arrives with a TTL is passed on with less of it. -/
def Provider.onward (self : Provider) (t : Token) : List Token :=
  if t.ttl ≤ 0 then [] else self.tokens t.ttl t.up

def Token.reached (t : Token) : List Pid := if t.ttl ≤ 0 then [] else [t.dest]

def TokenNet.deliver (self : Provider) (n : TokenNet) (i : Nat) : TokenNet :=
  match n.tokens[i]? with
  | none => n
  | some t =>
    { tokens := n.tokens.eraseIdx i ++ self.onward t
      sent := n.sent ++ (self.onward t).map Token.dest
      received := n.received ++ t.reached }

/-- The tokens a walk starts with. -/
def Provider.startNet (self : Provider) : TokenNet :=
  let tokens := self.tokens self.startTTL true ++ self.tokens self.startTTL false
  { tokens, sent := tokens.map Token.dest, received := [] }

theorem map_dest_transmission (r : Request) (tokens : List Token) :
    (tokens.map r.transmission).map Transmission.dest = tokens.map Token.dest := by
  rw [map_map]
  rfl

theorem start_eq (r : Request) (self : Provider) (horigin : self.localPeerId = r.origin) :
    start xmlParse send self r.msg r.serviceName r.serviceParam =
      if -2 ^ 31 < self.startTTL then .ok (self.startNet.net r) else .error .signedOverflow := by
  unfold start
  by_cases hlow : -2 ^ 31 < self.startTTL
  · obtain ⟨⟨sends, res⟩, hwalk, hp⟩ := @walk_start xmlParse send r self horigin hlow
    rw [hwalk, ok_bind, if_pos hlow]
    simp only [pure_eq_ok, show sends = _ from hp, map_dest_transmission, Provider.startNet,
      TokenNet.net]
  · rw [walk_start_fault r self hlow, error_bind, if_neg hlow]

theorem arrive_transmission (hxml : ReadsFlat xmlParse) (r : Request) (self : Provider) (t : Token)
    (serviceName serviceParam : CString) :
    arrive xmlParse send self serviceName serviceParam (r.transmission t) =
      .ok ((self.onward t).map r.transmission, t.reached) := by
  unfold arrive Provider.onward Token.reached
  rw [r.walkerCb_transmission hxml]
  by_cases httl : t.ttl ≤ 0
  · simp only [if_pos httl, map_nil]
  · obtain ⟨⟨sends, res⟩, hwalk, hp⟩ := @walk_transmission xmlParse send hxml r self t (by omega)
      serviceName serviceParam
    simp only [if_neg httl]
    rw [hwalk, ok_bind]
    simp only [pure_eq_ok, show sends = _ from hp]
    rfl

/-- A delivery of the network is one of the tokens. -/
theorem deliver_net (hxml : ReadsFlat xmlParse) (r : Request) (self : Provider) (n : TokenNet)
    (i : Nat) (serviceName serviceParam : CString) :
    deliver xmlParse send self serviceName serviceParam (n.net r) i = .ok ((n.deliver self i).net r) := by
  unfold deliver TokenNet.deliver TokenNet.net
  simp only [getElem?_map]
  cases n.tokens[i]? with
  | none => rfl
  | some t =>
    simp only [Option.map_some]
    rw [arrive_transmission hxml, ok_bind]
    rw [pure_eq_ok, map_dest_transmission, eraseIdx_map, map_append]

/-- Runs of the network, on tokens. -/
inductive TokenRun (Now : (Pid → Provider) → Prop) (n : TokenNet) : Nat → TokenNet → Prop where
  | start : TokenRun Now n 0 n
  | deliver {k : Nat} {n' : TokenNet} {peers : Pid → Provider} {i : Nat} {t : Token}
      (run : TokenRun Now n k n') (now : Now peers) (ht : n'.tokens[i]? = some t) :
      TokenRun Now n (k + 1) (n'.deliver (peers t.dest) i)

/-- Every run of the network from tokens is one of tokens. -/
theorem run_net (hxml : ReadsFlat xmlParse) (r : Request) {Now : (Pid → Provider) → Prop}
    {n : TokenNet} {k : Nat} {net : Net} (h : Run xmlParse send Now (n.net r) k net) :
    ∃ n', net = n'.net r ∧ TokenRun Now n k n' := by
  induction h with
  | start => exact ⟨n, rfl, .start⟩
  | @deliver k net' net'' peers i t serviceName serviceParam run now ht hnext ih =>
    obtain ⟨n', rfl, hrun⟩ := ih
    obtain ⟨t', ht', rfl⟩ : ∃ t', n'.tokens[i]? = some t' ∧ r.transmission t' = t := by
      simpa [TokenNet.net] using ht
    rw [deliver_net hxml] at hnext
    exact ⟨_, (Except.ok.inj hnext).symm, .deliver hrun now ht'⟩

/-- And the other way around. -/
theorem tokenRun_net (hxml : ReadsFlat xmlParse) (r : Request) {Now : (Pid → Provider) → Prop}
    {n n' : TokenNet} {k : Nat} (h : TokenRun Now n k n') :
    Run xmlParse send Now (n.net r) k (n'.net r) := by
  induction h with
  | start => exact .start
  | @deliver k n' peers i t run now ht ih =>
    have hget : (n'.net r).inFlight[i]? = some (r.transmission t) := by
      simp [TokenNet.net, ht]
    exact .deliver ih now hget (deliver_net hxml r _ n' i r.serviceName r.serviceParam)

end JxtaC.Walk
