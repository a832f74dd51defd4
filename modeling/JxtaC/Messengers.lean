import JxtaC.EndpointAddress
import JxtaC.PacketHeader
import Mathlib.Logic.Function.Basic

/-
  The messengers of the endpoint service (jxta_endpoint_service.c): the table has an entry for the
  transport address and one for the peer of a connection. A messenger is that of one connection, and
  is written as the connection. The TCP preference of `messenger_add` looks at the address of the
  entry, not at its messenger: for a peer address it prefers nothing (`messengerAdd_peer`). And a
  connection that is closed takes the entry of its peer along, whosever it is. So the table is right
  after every event if and only if nobody else bears the addresses of a connection that is closed,
  and no TCP connection is superseded (`messengers_iff`).
-/

namespace JxtaC

open Lib List

/-- `jxta_endpoint_address_get_transport_addr`. -/
def EndpointAddress.transportAddr (ea : EndpointAddress) : List Byte :=
  ea.protocolName.bytes ++ [58, 47, 47] ++ ea.protocolAddress.bytes

/-- `jxta_endpoint_address_new_3` without a service: the address of a peer. -/
def EndpointAddress.new3 (uniquePortion : CString) : EndpointAddress :=
  ⟨.ofChars ['j', 'x', 't', 'a'], uniquePortion, none, none⟩

namespace Messengers

/-- A connection, and its messenger. -/
structure Connection where
  destAddr : EndpointAddress
  /-- The unique portion of the peer id. -/
  peerId : CString
  /-- Tells it from others with these addresses. -/
  serial : Nat
  deriving DecidableEq

namespace Connection

/-- The key of its transport address. -/
def ta (c : Connection) : List Byte := c.destAddr.transportAddr

/-- The key of its peer. -/
def peerTa (c : Connection) : List Byte := (EndpointAddress.new3 c.peerId).transportAddr

/-- It bears the address. -/
def Bears (c : Connection) (key : List Byte) : Prop := c.ta = key ∨ c.peerTa = key

end Connection

/-- `strcasecmp` finds no difference to "tcp". -/
def isTcp (protocol : CString) : Bool := PacketHeader.sameName 4 [116, 99, 112] protocol.bytes

/-- `strncasecmp` finds no difference to "tcp://". -/
def startsTcp (ta : List Byte) : Bool := PacketHeader.sameName 6 [116, 99, 112, 58, 47, 47] ta

/-- The connection is one of the TCP transport. -/
def Connection.isTcp (c : Connection) : Bool := Messengers.isTcp c.destAddr.protocolName

/-- The table `messengers`, and the connections that are open. -/
structure Endpoint where
  messengers : List Byte → Option Connection
  opened : List Connection

/-- `messenger_add`. -/
def messengerAdd (messengers : List Byte → Option Connection) (ea : EndpointAddress)
    (msgr : Connection) : List Byte → Option Connection :=
  let ta := ea.transportAddr
  match messengers ta with
  | some _ =>
    if startsTcp ta ∧ ¬isTcp ea.protocolName then messengers
    else Function.update messengers ta (some msgr)
  | none => Function.update messengers ta (some msgr)

/-- `messenger_remove`. -/
def messengerRemove (messengers : List Byte → Option Connection) (ea : EndpointAddress) :
    List Byte → Option Connection :=
  Function.update messengers ea.transportAddr none

/-- A transport event of a connection. The messages that waited for the addresses of an inbound
connection are sent; `lostAddr` and `lostPeer`: over the messenger of the address this failed, and
`try_existing_messenger` has removed it. -/
inductive Event where
  | inboundConnected (c : Connection) (lostAddr lostPeer : Bool)
  | outboundConnected (c : Connection)
  | connectionClosed (c : Connection)

/-- Both entries of a connection. -/
def connected (s : Endpoint) (c : Connection) : Endpoint where
  messengers := messengerAdd (messengerAdd s.messengers c.destAddr c)
    (.new3 c.peerId) c
  opened := c :: s.opened

/-- `jxta_endpoint_service_transport_event`. -/
def transportEvent (s : Endpoint) : Event → Endpoint
  | .inboundConnected c lostAddr lostPeer =>
    let s := connected s c
    let s := if lostAddr then { s with messengers := messengerRemove s.messengers c.destAddr }
      else s
    if lostPeer then { s with messengers := messengerRemove s.messengers (.new3 c.peerId) } else s
  | .outboundConnected c => connected s c
  | .connectionClosed c =>
    { messengers := messengerRemove (messengerRemove s.messengers c.destAddr) (.new3 c.peerId)
      opened := s.opened.filter (· ≠ c) }

/-- An address has an entry if an open connection bears it, and the entry has a messenger of such a
one; that of a peer has a TCP messenger if there is one. -/
structure Consistent (s : Endpoint) : Prop where
  entry_iff : ∀ key, s.messengers key ≠ none ↔ ∃ c ∈ s.opened, c.Bears key
  entry_open : ∀ key m, s.messengers key = some m → m ∈ s.opened ∧ m.Bears key
  tcp : ∀ c ∈ s.opened, c.isTcp → ∃ m, s.messengers c.peerTa = some m ∧ m.isTcp

/-! ## one event -/

variable {s : Endpoint} {c : Connection} {key : List Byte}
  {messengers : List Byte → Option Connection} {ea : EndpointAddress} {msgr : Connection}

theorem peerTa_eq (c : Connection) : c.peerTa = [106, 120, 116, 97, 58, 47, 47] ++ c.peerId.bytes :=
  rfl

/-- The address of a peer does not look like one of TCP. -/
theorem startsTcp_peer (c : Connection) : startsTcp c.peerTa = false := by
  rw [peerTa_eq]
  rfl

/-- The current messenger is kept, or the new one is the entry. -/
theorem messengerAdd_cases (messengers : List Byte → Option Connection) (ea : EndpointAddress)
    (msgr : Connection) :
    ((∃ old, messengers ea.transportAddr = some old) ∧ startsTcp ea.transportAddr ∧
      messengerAdd messengers ea msgr = messengers) ∨
    messengerAdd messengers ea msgr = Function.update messengers ea.transportAddr (some msgr) := by
  unfold messengerAdd
  dsimp only
  split
  · rename_i old hold
    by_cases hkeep : startsTcp ea.transportAddr ∧ ¬isTcp ea.protocolName
    · exact .inl ⟨⟨old, hold⟩, hkeep.1, if_pos hkeep⟩
    · exact .inr (if_neg hkeep)
  · exact .inr rfl

theorem messengerAdd_of_ne (h : key ≠ ea.transportAddr) :
    messengerAdd messengers ea msgr key = messengers key := by
  obtain ⟨-, -, hkept⟩ | hnew := messengerAdd_cases messengers ea msgr
  · rw [hkept]
  · rw [hnew, Function.update_of_ne h]

/-- At its own address there is the new messenger, or still the old one. -/
theorem messengerAdd_self (messengers : List Byte → Option Connection) (ea : EndpointAddress)
    (msgr : Connection) : messengerAdd messengers ea msgr ea.transportAddr = some msgr ∨
      ∃ old, messengers ea.transportAddr = some old ∧
        messengerAdd messengers ea msgr ea.transportAddr = some old := by
  obtain ⟨⟨old, hold⟩, -, hkept⟩ | hnew := messengerAdd_cases messengers ea msgr
  · exact .inr ⟨old, hold, hkept.symm ▸ hold⟩
  · exact .inl (hnew.symm ▸ Function.update_self _ _ _)

/-- At an address that does not look like one of TCP nothing is preferred. -/
theorem messengerAdd_replaces (h : startsTcp ea.transportAddr = false) :
    messengerAdd messengers ea msgr ea.transportAddr = some msgr := by
  obtain ⟨-, htcp, -⟩ | hnew := messengerAdd_cases messengers ea msgr
  · exact absurd (h.symm.trans htcp) Bool.false_ne_true
  · exact hnew.symm ▸ Function.update_self _ _ _

theorem connected_of_ne (hta : key ≠ c.ta) (hpeer : key ≠ c.peerTa) :
    (connected s c).messengers key = s.messengers key :=
  (messengerAdd_of_ne hpeer).trans (messengerAdd_of_ne hta)

/-- The entry of the peer is the new messenger, whatever was there. -/
theorem connected_peer (s : Endpoint) (c : Connection) :
    (connected s c).messengers c.peerTa = some c :=
  messengerAdd_replaces (startsTcp_peer c)

theorem connected_ta (s : Endpoint) (c : Connection) :
    (connected s c).messengers c.ta = some c ∨
      ∃ old, s.messengers c.ta = some old ∧ (connected s c).messengers c.ta = some old := by
  by_cases h : c.ta = c.peerTa
  · rw [h]
    exact .inl (connected_peer s c)
  · have hsame : (connected s c).messengers c.ta = messengerAdd s.messengers c.destAddr c c.ta :=
      messengerAdd_of_ne h
    rw [hsame]
    exact messengerAdd_self s.messengers c.destAddr c

/-- Where another connection's peer has the address, the new messenger is the entry. -/
theorem connected_other_peer {c' : Connection} (h : c'.peerTa = c.ta) :
    (connected s c).messengers c'.peerTa = some c := by
  rw [h]
  by_cases hpeer : c.ta = c.peerTa
  · rw [hpeer]
    exact connected_peer s c
  · have hsame : (connected s c).messengers c.ta = messengerAdd s.messengers c.destAddr c c.ta :=
      messengerAdd_of_ne hpeer
    rw [hsame]
    have hpeer : startsTcp c.ta = false := h ▸ startsTcp_peer c'
    exact messengerAdd_replaces hpeer

/-- A connection that is not one of TCP does not come over one that is. -/
def Supersedes (s : Endpoint) (c : Connection) : Prop :=
  ¬c.isTcp ∧ ∃ c' ∈ s.opened, c'.isTcp ∧ c.Bears c'.peerTa

theorem connected_iff (h : Consistent s) : Consistent (connected s c) ↔ ¬Supersedes s c := by
  constructor
  · intro hafter hsup
    obtain ⟨hnot, c', hopen, htcp, hbears⟩ := hsup
    obtain ⟨m, hm, hmtcp⟩ := hafter.tcp c' (mem_cons_of_mem c hopen) htcp
    have hc : (connected s c).messengers c'.peerTa = some c := by
      rcases hbears with hta | hpeer
      · exact connected_other_peer hta.symm
      · rw [← hpeer]
        exact connected_peer s c
    obtain rfl := Option.some.inj (hc.symm.trans hm)
    exact hnot hmtcp
  · intro hsup
    refine ⟨?_, ?_, ?_⟩
    · intro key
      by_cases hbears : c.Bears key
      · refine iff_of_true ?_ ⟨c, mem_cons_self, hbears⟩
        rcases hbears with rfl | rfl
        · obtain hnew | ⟨old, -, hold⟩ := connected_ta s c
          · rw [hnew]
            exact Option.some_ne_none c
          · rw [hold]
            exact Option.some_ne_none old
        · rw [connected_peer]
          exact Option.some_ne_none c
      · rw [connected_of_ne (fun hta => hbears (.inl hta.symm)) (fun hp => hbears (.inr hp.symm)),
          h.entry_iff key]
        constructor
        · exact fun ⟨c', hopen, hb⟩ => ⟨c', mem_cons_of_mem c hopen, hb⟩
        · intro hex
          obtain ⟨c', hopen, hb⟩ := hex
          rcases mem_cons.mp hopen with rfl | hopen
          · exact absurd hb hbears
          · exact ⟨c', hopen, hb⟩
    · intro key m hm
      have hold : s.messengers key = some m → m ∈ c :: s.opened ∧ m.Bears key := by
        intro hm
        obtain ⟨hopen, hb⟩ := h.entry_open key m hm
        exact ⟨mem_cons_of_mem c hopen, hb⟩
      by_cases hpeer : key = c.peerTa
      · subst hpeer
        obtain rfl := Option.some.inj ((connected_peer s c).symm.trans hm)
        exact ⟨mem_cons_self, .inr rfl⟩
      · by_cases hta : key = c.ta
        · subst hta
          obtain hnew | ⟨old, hbefore, hkept⟩ := connected_ta s c
          · obtain rfl := Option.some.inj (hnew.symm.trans hm)
            exact ⟨mem_cons_self, .inl rfl⟩
          · obtain rfl := Option.some.inj (hkept.symm.trans hm)
            exact hold hbefore
        · exact hold ((connected_of_ne hta hpeer).symm.trans hm)
    · intro c' hopen htcp
      by_cases hbears : c.Bears c'.peerTa
      · have hc : (connected s c).messengers c'.peerTa = some c := by
          rcases hbears with hta | hpeer
          · exact connected_other_peer hta.symm
          · rw [← hpeer]
            exact connected_peer s c
        refine ⟨c, hc, ?_⟩
        by_contra hnot
        rcases mem_cons.mp hopen with rfl | hopen
        · exact hnot htcp
        · exact hsup ⟨hnot, c', hopen, htcp, hbears⟩
      · rcases mem_cons.mp hopen with rfl | hopen
        · exact absurd (.inr rfl) hbears
        · obtain ⟨m, hm, hmtcp⟩ := h.tcp c' hopen htcp
          refine ⟨m, ?_, hmtcp⟩
          rw [connected_of_ne (fun hta => hbears (.inl hta.symm)) (fun hp => hbears (.inr hp.symm))]
          exact hm

theorem closed_messengers (s : Endpoint) (c : Connection) (key : List Byte) [Decidable (c.Bears key)] :
    (transportEvent s (.connectionClosed c)).messengers key =
      if c.Bears key then none else s.messengers key := by
  change Function.update (Function.update s.messengers c.ta none) c.peerTa none key = _
  split
  · rename_i hbears
    by_cases hpeer : key = c.peerTa
    · rw [hpeer, Function.update_self]
    · rcases hbears with rfl | hpeer'
      · rw [Function.update_of_ne hpeer, Function.update_self]
      · exact absurd hpeer'.symm hpeer
  · rename_i hbears
    rw [Function.update_of_ne fun hp => hbears (.inr hp.symm),
      Function.update_of_ne fun hta => hbears (.inl hta.symm)]

/-- Nobody else bears the addresses of the connection. -/
def Alone (s : Endpoint) (c : Connection) : Prop :=
  ∀ c' ∈ s.opened, c' ≠ c → ¬c'.Bears c.ta ∧ ¬c'.Bears c.peerTa

theorem closed_iff (h : Consistent s) :
    Consistent (transportEvent s (.connectionClosed c)) ↔ Alone s c := by
  classical
  have hmem : ∀ c', c' ∈ (transportEvent s (.connectionClosed c)).opened ↔
      c' ∈ s.opened ∧ c' ≠ c := by
    intro c'
    exact mem_filter.trans (and_congr_right' (decide_eq_true_iff))
  constructor
  · intro hafter c' hopen hne
    have hgone : ∀ key, c.Bears key → ¬c'.Bears key := by
      intro key hbears hb
      have hentry := (hafter.entry_iff key).mpr ⟨c', (hmem c').mpr ⟨hopen, hne⟩, hb⟩
      rw [closed_messengers, if_pos hbears] at hentry
      exact hentry rfl
    exact ⟨hgone c.ta (.inl rfl), hgone c.peerTa (.inr rfl)⟩
  · intro halone
    have hothers : ∀ c' ∈ s.opened, c' ≠ c → ∀ key, c.Bears key → ¬c'.Bears key := by
      intro c' hopen hne key hbears
      rcases hbears with rfl | rfl
      · exact (halone c' hopen hne).1
      · exact (halone c' hopen hne).2
    refine ⟨?_, ?_, ?_⟩
    · intro key
      rw [closed_messengers]
      split
      · rename_i hbears
        refine iff_of_false (fun hne => hne rfl) ?_
        intro hex
        obtain ⟨c', hopen, hb⟩ := hex
        obtain ⟨hopen, hne⟩ := (hmem c').mp hopen
        exact hothers c' hopen hne key hbears hb
      · rename_i hbears
        rw [h.entry_iff key]
        constructor
        · intro hex
          obtain ⟨c', hopen, hb⟩ := hex
          exact ⟨c', (hmem c').mpr ⟨hopen, fun heq => hbears (heq ▸ hb)⟩, hb⟩
        · intro hex
          obtain ⟨c', hopen, hb⟩ := hex
          exact ⟨c', ((hmem c').mp hopen).1, hb⟩
    · intro key m hm
      rw [closed_messengers] at hm
      split at hm
      · cases hm
      · rename_i hbears
        obtain ⟨hopen, hb⟩ := h.entry_open key m hm
        exact ⟨(hmem m).mpr ⟨hopen, fun heq => hbears (heq ▸ hb)⟩, hb⟩
    · intro c' hopen htcp
      obtain ⟨hopen, hne⟩ := (hmem c').mp hopen
      obtain ⟨m, hm, hmtcp⟩ := h.tcp c' hopen htcp
      refine ⟨m, ?_, hmtcp⟩
      rw [closed_messengers, if_neg fun hbears => hothers c' hopen hne _ hbears (.inr rfl)]
      exact hm

/-- The event takes nothing from a connection that stays open. -/
def Orderly (s : Endpoint) : Event → Prop
  | .inboundConnected c lostAddr lostPeer =>
    lostAddr = false ∧ lostPeer = false ∧ ¬Supersedes s c
  | .outboundConnected c => ¬Supersedes s c
  | .connectionClosed c => Alone s c

/-- What was removed after a failed send is missed. -/
theorem not_consistent_of_removed {opened : List Connection} (hopen : c ∈ opened)
    (hbears : c.Bears key) (hgone : messengers key = none) : ¬Consistent ⟨messengers, opened⟩ :=
  fun h => (h.entry_iff key).mpr ⟨c, hopen, hbears⟩ hgone

theorem event_iff (h : Consistent s) (e : Event) : Consistent (transportEvent s e) ↔ Orderly s e := by
  cases e with
  | inboundConnected c lostAddr lostPeer =>
    have hopen : c ∈ (connected s c).opened := mem_cons_self
    cases lostPeer with
    | true =>
      refine iff_of_false ?_ (fun hord => Bool.noConfusion hord.2.1)
      cases lostAddr with
      | true => exact not_consistent_of_removed hopen (.inr rfl) (Function.update_self _ _ _)
      | false => exact not_consistent_of_removed hopen (.inr rfl) (Function.update_self _ _ _)
    | false =>
      cases lostAddr with
      | true =>
        refine iff_of_false ?_ (fun hord => Bool.noConfusion hord.1)
        exact not_consistent_of_removed hopen (.inl rfl) (Function.update_self _ _ _)
      | false =>
        exact (connected_iff h).trans ⟨fun hsup => ⟨rfl, rfl, hsup⟩, fun hord => hord.2.2⟩
  | outboundConnected c => exact connected_iff h
  | connectionClosed c => exact closed_iff h

/-! ## runs -/

/-- No connection, and no entry. -/
def init : Endpoint := ⟨fun _ => none, []⟩

theorem consistent_init : Consistent init := by
  refine ⟨?_, ?_, ?_⟩
  · intro key
    refine iff_of_false (fun hne => hne rfl) ?_
    exact fun ⟨c, hopen, _⟩ => not_mem_nil hopen
  · exact fun key m hm => by cases hm
  · exact fun c hopen => absurd hopen not_mem_nil

def step (s : Endpoint) (e : Event) : Exec (Endpoint × Unit) := .ok (transportEvent s e, ())

/-- The table is right after each event. -/
def AlwaysConsistent (events : List Event) : Prop :=
  Throughout step Consistent (fun _ _ => True) init events

theorem messengers_iff (events : List Event) :
    AlwaysConsistent events ↔ SafeRun step Orderly init events := by
  apply throughout_iff_safeRun _ events consistent_init
  intro s e h
  rw [← event_iff h e]
  constructor
  · exact fun hafter => ⟨_, (), rfl, hafter⟩
  · intro hex
    obtain ⟨s', r, hs', hafter⟩ := hex
    cases hs'
    exact hafter

/-- Two connections of one peer. -/
def first : Connection :=
  ⟨⟨.ofChars ['t', 'c', 'p'], .ofChars ['h', ':', '1'], none, none⟩, .ofChars ['p'], 1⟩

def second : Connection :=
  ⟨⟨.ofChars ['t', 'c', 'p'], .ofChars ['h', ':', '2'], none, none⟩, .ofChars ['p'], 2⟩

/-- The first is closed, and the entry of the peer is gone with it. -/
def closesFirst : List Event :=
  [.outboundConnected first, .inboundConnected second false false, .connectionClosed first]

theorem not_always_consistent : ¬∀ events, AlwaysConsistent events := by
  intro h
  have hrun : runOps step init closesFirst =
      .ok (closesFirst.foldl transportEvent init, [(), (), ()]) := rfl
  have hlast := (h closesFirst).last closesFirst hrun
  have hentry := (hlast.entry_iff second.peerTa).mpr ⟨second, by decide +kernel, .inr rfl⟩
  exact hentry (by decide +kernel)

end Messengers

end JxtaC
