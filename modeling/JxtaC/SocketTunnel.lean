import JxtaC.EndpointFilters

/-
  One direction of a tunnel for a TCP socket (jxta_socket_tunnel.c): what `pump_stream_socket` reads
  goes through the pipe, in order and without loss, to `listener_func` at the other end, while
  `pipe_accept_func` there sets up the data socket. `stream_throughout`: what is written is what was
  read, as long as a send that succeeds takes all of it, none takes anything behind one that failed,
  and no data comes while there is no data socket.
-/

namespace JxtaC

open Lib List

/-- A call of `apr_socket_send`: whether it succeeded, and how many bytes it took. -/
structure Send where
  success : Bool
  taken : Nat
  deriving DecidableEq

/-- A call of `apr_socket_recv`: the bytes, and whether it returned `APR_EOF`. Other errors are only
logged. -/
structure Recv where
  bytes : List Byte
  eof : Bool
  deriving DecidableEq

/-- `Jxta_socket_tunnel`, of a stream socket: whether `data_socket` is set, and the size of the
forward buffer. -/
structure SocketTunnel where
  dataSocket : Bool
  oBufSize : Nat
  eof : Bool
  deriving DecidableEq

/-- What the data socket took in a call of the listener, and whether a send failed. -/
structure Sent where
  bytes : List Byte
  failed : Bool
  deriving DecidableEq

namespace SocketTunnel

/-- `DEFAULT_TUNNEL_BUFFER_SIZE`. -/
def bufSize : Nat := 8 * 1024

/-- `DATA`. -/
def dataName : CString := .ofBuffer (text "DATA")

/-- `jxta_bytevector_get_bytes_at_1`, at an index inside of the vector. -/
def getBytesAt1 (vector : List Byte) (atIndex length : Nat) : List Byte :=
  (vector.drop atIndex).take length

/-- The loop of `listener_func`, behind some calls of `apr_socket_send`. The index is an `unsigned
int`. -/
def forward (self : SocketTunnel) (sends : Nat → Send) (data : List Byte) :
    (fuel calls readSize : Nat) → Sent → Exec Sent
  | 0, _, _, _ => .error .neverReturns
  | fuel + 1, calls, readSize, sent =>
    if readSize < data.length then
      if self.dataSocket then
        let buf := getBytesAt1 data (readSize % uintMod) self.oBufSize
        let send := sends calls
        -- a send is logged, whatever came of it
        forward self sends data fuel (calls + 1) (readSize + buf.length)
          ⟨sent.bytes ++ buf.take send.taken, sent.failed || !send.success⟩
      else .error .nullPointer
    else .ok sent

/-- `listener_func`; no message says that the pipe was closed. -/
def listenerFunc (self : SocketTunnel) (msg : Option (List MessageElement)) (allocated : Bool)
    (sends : Nat → Send) : Exec (SocketTunnel × Sent) :=
  match msg with
  | none => .ok ({ self with eof := true }, ⟨[], false⟩)
  | some msg =>
    match getElement1 msg dataName with
    | none => .ok (self, ⟨[], false⟩)
    | some el =>
      let data := el.body.value
      if data = [] then .ok (self, ⟨[], false⟩)
      else if self.oBufSize < data.length ∧ !allocated then
        .ok ({ self with oBufSize := 0 }, ⟨[], false⟩)
      else do
        let self := { self with oBufSize := max self.oBufSize data.length }
        let sent ← self.forward sends data (data.length + 1) 0 0 ⟨[], false⟩
        return (self, sent)

/-- `send_to_pipe`: the messages that are sent. -/
def sendToPipe (buf : List Byte) : List (List MessageElement) :=
  if buf = [] then [] else [[⟨⟨messageEmptyNs, dataName, none, buf⟩, []⟩]]

end SocketTunnel

/-- Where `pipe_accept_func` is. -/
inductive Stage where
  | waiting
  | accepted
  | created
  | pumping
  | closing
  deriving DecidableEq

/-- One direction of a tunnel: the near end and what it read, the messages in the pipe, the far end,
what its data socket took, and whether a send on it failed. -/
structure Tunnel where
  near : SocketTunnel
  recvEof : Bool
  read : List Byte
  pipe : List (List MessageElement)
  far : SocketTunnel
  stage : Stage
  written : List Byte
  failed : Bool

namespace Tunnel

open SocketTunnel

inductive Event where
  | recv (r : Recv)
  | dataless (msg : List MessageElement)
  | deliver (allocated : Bool) (sends : Nat → Send)
  | nearClosed
  | farClosed
  | accept (ok : Bool)

/-- The data of a message. -/
def dataOf (msg : List MessageElement) : List Byte :=
  match getElement1 msg dataName with
  | some el => el.body.value
  | none => []

/-- Once through the loop of `pump_stream_socket`. -/
def pump (t : Tunnel) (r : Recv) : Tunnel :=
  if t.near.eof ∨ t.recvEof then t
  else
    let buf := r.bytes.take bufSize
    { t with
      recvEof := r.eof
      read := t.read ++ buf
      pipe := t.pipe ++ sendToPipe buf }

/-- `pipe_accept_func` from one of its calls to the next: the accepted pipe, the new data socket,
its connection, the pump, and the end of the connection. -/
def pipeAccept (t : Tunnel) (ok : Bool) : Tunnel :=
  match t.stage with
  | .waiting =>
    { t with
      far := { t.far with eof := false }
      stage := if ok then .accepted else .waiting }
  | .accepted =>
    if ok then { t with far := { t.far with dataSocket := true }, stage := .created }
    else { t with stage := .waiting }
  | .created => { t with stage := if ok then .pumping else .closing }
  | .pumping => { t with stage := .closing }
  | .closing => { t with far := { t.far with dataSocket := false }, stage := .waiting }

/-- The listener at the far end is called with the first message of the pipe. -/
def deliver (t : Tunnel) (allocated : Bool) (sends : Nat → Send) : Exec Tunnel :=
  match t.pipe with
  | [] => .ok t
  | msg :: pipe => do
    let (far, sent) ← t.far.listenerFunc (some msg) allocated sends
    return { t with
      pipe
      far
      written := t.written ++ sent.bytes
      failed := t.failed || sent.failed }

def step (t : Tunnel) : Event → Exec (Tunnel × Unit)
  | .recv r => .ok (t.pump r, ())
  | .dataless msg => .ok (if dataOf msg = [] then { t with pipe := t.pipe ++ [msg] } else t, ())
  | .deliver allocated sends => (t.deliver allocated sends).map fun t => (t, ())
  | .nearClosed => .ok ({ t with near := { t.near with eof := true } }, ())
  | .farClosed => .ok ({ t with far := { t.far with eof := true } }, ())
  | .accept ok => .ok (t.pipeAccept ok, ())

/-! ## a call of the listener -/

variable {self : SocketTunnel} {msg : List MessageElement} {allocated : Bool} {sends : Nat → Send}

/-- A buffer that holds all data is forwarded at once. -/
theorem forward_once {data : List Byte} (hdata : data ≠ []) (hsocket : self.dataSocket = true)
    (hsize : data.length ≤ self.oBufSize) :
    self.forward sends data (data.length + 1) 0 0 ⟨[], false⟩ =
      .ok ⟨data.take (sends 0).taken, !(sends 0).success⟩ := by
  have hpos : 0 < data.length := length_pos_iff.mpr hdata
  obtain ⟨n, hn⟩ := Nat.exists_eq_add_one.mpr hpos
  have hbuf : getBytesAt1 data (0 % uintMod) self.oBufSize = data := by
    unfold getBytesAt1
    rw [Nat.zero_mod, drop_zero, take_of_length_le hsize]
  have hend : ¬ 0 + data.length < data.length := by omega
  rw [forward, if_pos hpos, if_pos hsocket]
  dsimp only
  rw [hbuf, hn, forward, ← hn, if_neg hend]
  rfl

theorem listenerFunc_dataless (h : dataOf msg = []) :
    self.listenerFunc (some msg) allocated sends = .ok (self, ⟨[], false⟩) := by
  unfold dataOf at h
  unfold listenerFunc
  dsimp only
  cases hel : getElement1 msg dataName with
  | none => rfl
  | some el =>
    rw [hel] at h
    exact if_pos h

/-- A message with data, for which there is room, is forwarded from a buffer that holds it all. -/
theorem listenerFunc_eq (hdata : dataOf msg ≠ [])
    (hroom : self.oBufSize < (dataOf msg).length → allocated = true) :
    let grown := { self with oBufSize := max self.oBufSize (dataOf msg).length }
    self.listenerFunc (some msg) allocated sends = (do
      let sent ← grown.forward sends (dataOf msg) ((dataOf msg).length + 1) 0 0 ⟨[], false⟩
      return (grown, sent)) := by
  unfold dataOf at hdata hroom ⊢
  unfold listenerFunc
  dsimp only
  cases hel : getElement1 msg dataName with
  | none =>
    rw [hel] at hdata
    exact absurd rfl hdata
  | some el =>
    rw [hel] at hdata hroom
    dsimp only at hdata hroom ⊢
    have hserved : ¬ (self.oBufSize < el.body.value.length ∧ (!allocated) = true) := by
      intro h
      rw [hroom h.1] at h
      exact absurd h.2 (by decide)
    rw [if_neg hdata, if_neg hserved]

/-- What is sent of a message with data. -/
theorem listenerFunc_data (hdata : dataOf msg ≠ []) (hsocket : self.dataSocket = true)
    (hroom : self.oBufSize < (dataOf msg).length → allocated = true) :
    self.listenerFunc (some msg) allocated sends =
      .ok ({ self with oBufSize := max self.oBufSize (dataOf msg).length },
        ⟨(dataOf msg).take (sends 0).taken, !(sends 0).success⟩) := by
  have hforward := @forward_once { self with oBufSize := max self.oBufSize (dataOf msg).length }
    sends _ hdata hsocket (Nat.le_max_right _ _)
  rw [listenerFunc_eq hdata hroom, hforward]
  rfl

/-! ## runs -/

/-- A direction that nothing went through yet. -/
structure Fresh (t : Tunnel) : Prop where
  read : t.read = []
  pipe : t.pipe = []
  written : t.written = []
  failed : t.failed = false

/-- What was written is a part of what was read, from the start on, and all of it where no send
failed and nothing is in the pipe. -/
structure Faithful (t : Tunnel) : Prop where
  front : t.written <+: t.read
  all : t.failed = false → t.pipe = [] → t.written = t.read

/-- Nothing is forwarded without a data socket. -/
def Forwards (t t' : Tunnel) : Prop :=
  t'.written ≠ t.written ∨ t'.failed ≠ t.failed → t.far.dataSocket = true

/-- A step of the surroundings that the tunnel can stand. Data finds a data socket, and room for it.
A send that succeeds takes all, and behind one that failed none takes anything. -/
def Safe (t : Tunnel) : Event → Prop
  | .deliver allocated sends =>
    match t.pipe with
    | [] => True
    | msg :: _ => dataOf msg = [] ∨ t.far.dataSocket = true ∧
      (t.far.oBufSize < (dataOf msg).length → allocated = true) ∧
      ((sends 0).success = true → (dataOf msg).length ≤ (sends 0).taken) ∧
      (t.failed = true → (sends 0).taken = 0)
  | _ => True

instance (t : Tunnel) (e : Event) : Decidable (t.Safe e) :=
  match e with
  | .deliver allocated sends =>
    match h : t.pipe with
    | [] => isTrue (by unfold Safe; rw [h]; trivial)
    | msg :: _ => decidable_of_iff _ (by unfold Safe; rw [h])
  | .recv _ | .dataless _ | .nearClosed | .farClosed | .accept _ => isTrue trivial

/-- As long as no send failed, what was read is written or in the pipe. -/
structure Inv (t : Tunnel) : Prop where
  front : t.written <+: t.read
  whole : t.failed = false → t.written ++ t.pipe.flatMap dataOf = t.read

theorem Fresh.inv {t : Tunnel} (h : t.Fresh) : t.Inv where
  front := by rw [h.written]; exact List.nil_prefix
  whole _ := by rw [h.written, h.pipe, h.read]; rfl

theorem Inv.faithful {t : Tunnel} (h : t.Inv) : t.Faithful where
  front := h.front
  all hfailed hpipe := by
    have hwhole := h.whole hfailed
    rw [hpipe, flatMap_nil, append_nil] at hwhole
    exact hwhole

theorem flatMap_sendToPipe (buf : List Byte) : (sendToPipe buf).flatMap dataOf = buf := by
  unfold sendToPipe
  split
  next hbuf => rw [hbuf, flatMap_nil]
  next => rw [flatMap_singleton]; rfl

theorem Inv.pump {t : Tunnel} (h : t.Inv) (r : Recv) : (t.pump r).Inv := by
  unfold Tunnel.pump
  split
  next => exact h
  next =>
    refine ⟨h.front.trans (prefix_append _ _), fun hfailed => ?_⟩
    rw [flatMap_append, flatMap_sendToPipe, ← append_assoc, h.whole hfailed]

/-- `pipe_accept_func` has nothing to do with the bytes. -/
theorem pipeAccept_keeps (t : Tunnel) (ok : Bool) :
    (t.pipeAccept ok).read = t.read ∧ (t.pipeAccept ok).pipe = t.pipe ∧
      (t.pipeAccept ok).written = t.written ∧ (t.pipeAccept ok).failed = t.failed := by
  unfold pipeAccept
  cases t.stage <;> cases ok <;> exact ⟨rfl, rfl, rfl, rfl⟩

/-- One message, of those that the tunnel can stand. -/
theorem Inv.deliver {t : Tunnel} (h : t.Inv) {allocated : Bool} {sends : Nat → Send}
    (hsafe : t.Safe (.deliver allocated sends)) :
    ∃ t', t.deliver allocated sends = .ok t' ∧ t.Forwards t' ∧ t'.Inv := by
  unfold Tunnel.deliver
  unfold Safe at hsafe
  cases hpipe : t.pipe with
  | nil => exact ⟨t, rfl, fun hne => hne.elim (absurd rfl) (absurd rfl), h⟩
  | cons msg pipe =>
    rw [hpipe] at hsafe
    dsimp only at hsafe ⊢
    by_cases hdata : dataOf msg = []
    · rw [listenerFunc_dataless hdata, ok_bind]
      refine ⟨_, rfl, fun hne => ?_, ⟨?_, fun hfailed => ?_⟩⟩
      · exact absurd hne (by simp)
      · dsimp only
        rw [append_nil]
        exact h.front
      · have hwhole := h.whole (by simpa using hfailed)
        rw [hpipe, flatMap_cons, hdata, nil_append] at hwhole
        dsimp only
        rw [append_nil, hwhole]
    · obtain ⟨hsocket, hroom, hcomplete, hbehind⟩ := hsafe.resolve_left hdata
      rw [listenerFunc_data hdata hsocket hroom, ok_bind]
      refine ⟨_, rfl, fun _ => hsocket, ⟨?_, fun hfailed => ?_⟩⟩
      · dsimp only
        cases hfailed : t.failed with
        | true =>
          rw [hbehind hfailed, take_zero, append_nil]
          exact h.front
        | false =>
          have hwhole := h.whole hfailed
          rw [hpipe, flatMap_cons] at hwhole
          rw [← hwhole]
          exact prefix_append_right_inj t.written |>.mpr
            ((List.take_prefix _ _).trans (prefix_append _ _))
      · dsimp only at hfailed ⊢
        rw [Bool.or_eq_false_iff, Bool.not_eq_false'] at hfailed
        have hwhole := h.whole hfailed.1
        rw [hpipe, flatMap_cons] at hwhole
        rw [take_of_length_le (hcomplete hfailed.2), append_assoc, hwhole]

theorem Inv.step {t : Tunnel} (h : t.Inv) {e : Event} (hsafe : t.Safe e) :
    ∃ t' r, t.step e = .ok (t', r) ∧ t.Forwards t' ∧ t'.Inv := by
  have hsame : ∀ t' : Tunnel, t'.written = t.written → t'.failed = t.failed → t.Forwards t' :=
    fun t' hwritten hfailed hne => hne.elim (absurd hwritten) (absurd hfailed)
  cases e with
  | recv r =>
    refine ⟨_, _, rfl, hsame _ ?_ ?_, h.pump r⟩
    · unfold Tunnel.pump
      split <;> rfl
    · unfold Tunnel.pump
      split <;> rfl
  | dataless msg =>
    by_cases hdata : dataOf msg = []
    · refine ⟨{ t with pipe := t.pipe ++ [msg] }, (),
        congrArg (fun t => Except.ok (t, ())) (if_pos hdata), hsame _ rfl rfl,
        ⟨h.front, fun hfailed => ?_⟩⟩
      rw [flatMap_append, flatMap_singleton, hdata, append_nil, h.whole hfailed]
    · exact ⟨t, (), congrArg (fun t => Except.ok (t, ())) (if_neg hdata), hsame _ rfl rfl, h⟩
  | deliver allocated sends =>
    obtain ⟨t', hdeliver, hforwards, hinv⟩ := h.deliver hsafe
    refine ⟨t', (), ?_, hforwards, hinv⟩
    unfold Tunnel.step
    dsimp only
    rw [hdeliver]
    rfl
  | nearClosed => exact ⟨_, _, rfl, hsame _ rfl rfl, ⟨h.front, h.whole⟩⟩
  | farClosed => exact ⟨_, _, rfl, hsame _ rfl rfl, ⟨h.front, h.whole⟩⟩
  | accept ok =>
    obtain ⟨hread, hpipe, hwritten, hfailed⟩ := t.pipeAccept_keeps ok
    refine ⟨_, _, rfl, hsame _ hwritten hfailed, ⟨?_, fun hnot => ?_⟩⟩
    · rw [hread, hwritten]
      exact h.front
    · rw [hread, hpipe, hwritten]
      exact h.whole (hfailed.symm.trans hnot)

/-- In every run whose steps the tunnel can stand, all its states are faithful, and nothing is
forwarded without a data socket. -/
theorem stream_throughout {t : Tunnel} (ht : t.Fresh) (es : List Event)
    (hsafe : SafeRun step Safe t es) : Throughout step Faithful Forwards t es :=
  throughout_of_safeRun (fun _ h => h.faithful) (fun _ _ h hsafe => h.step hsafe) es ht.inv hsafe

/-- A tunnel before the first connection. -/
def idle : Tunnel := ⟨⟨true, 0, false⟩, false, [], [], ⟨false, 0, false⟩, .waiting, [], false⟩

theorem idle_fresh : idle.Fresh := ⟨rfl, rfl, rfl, rfl⟩

/-- The far end accepts the pipe and connects a data socket. -/
def connecting : List Event := [.accept true, .accept true, .accept true]

/-- Four bytes, in a message that is taken as far as this, and two more. -/
def sixBytes (taken : Nat) : List Event :=
  [.recv ⟨text "abcd", false⟩, .deliver true fun _ => ⟨true, taken⟩, .recv ⟨text "ef", true⟩,
    .deliver true fun _ => ⟨true, 2⟩]

theorem stream_throughout_sixBytes :
    Throughout step Faithful Forwards idle (connecting ++ sixBytes 4) :=
  stream_throughout idle_fresh (connecting ++ sixBytes 4) (by decide)

example :
    (runOps step idle (connecting ++ sixBytes 4)).map (·.1.written) = .ok (text "abcdef") := rfl

theorem not_stream_throughout :
    ¬ Throughout step Faithful Forwards idle (connecting ++ sixBytes 2) ∧
      ¬ Throughout step Faithful Forwards idle (.accept true :: sixBytes 4) := by
  have hlost : (runOps step idle (connecting ++ sixBytes 2)).map
      (fun r => (r.1.written, r.1.read)) = .ok (text "abef", text "abcdef") := rfl
  have hmissing : (runOps step idle (.accept true :: sixBytes 4)).map Prod.fst =
      .error .nullPointer := rfl
  constructor
  · intro h
    obtain ⟨t, rs, hrun, ht⟩ := h.runOps
    rw [hrun] at hlost
    obtain ⟨hwritten, hread⟩ := Prod.mk.inj (Except.ok.inj hlost)
    have hfront := ht.front
    rw [hwritten, hread] at hfront
    exact absurd hfront (by decide)
  · intro h
    obtain ⟨t, rs, hrun, -⟩ := h.runOps
    rw [hrun] at hmissing
    exact absurd hmissing (by simp [Except.map])

end Tunnel

end JxtaC
