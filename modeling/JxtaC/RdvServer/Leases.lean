import JxtaC.Lib.Directory
import JxtaC.RdvServer

/-
  The leases of clients in runs of careful steps. Every entry that a handler works with, and every one
  that the periodic thread still has to look at, is the one of its peer in the table (`Inv.held`,
  `Inv.swept`), and a lease that was promised does not end behind the entry's (`State.Covered`).
-/

namespace JxtaC

open Lib List

namespace RdvServer

/-! ## what careful steps keep -/

/-- The clients that the periodic thread still has to do with. -/
def Sweep.rest : Sweep → List Nat
  | .waiting => []
  | .clients rest => rest
  | .timed _ n rest => n :: rest
  | .expired n rest => n :: rest

/-- The entry is the one of its peer in the table. -/
def State.Listed (s : State) (n : Nat) : Prop := Lib.Listed Entry.peerid s.entries s.clients n

/-- A lease from the given time on is over, or the peer's entry in the table carries it. -/
def State.Covered (s : State) (peerid : CString) (time : Int) : Prop :=
  time + s.config.offeredLeaseDuration ≤ s.now ∨ ∃ n client, s.client peerid = some n ∧
    s.entries[n]? = some client ∧ time + s.config.offeredLeaseDuration ≤ client.expires

structure Inv (s : State) : Prop where
  bounded : s.clients.keys.length ≤ s.config.maxClients
  names : Names Entry.peerid s.entries s.clients
  nodup : s.sweep.rest.Nodup
  swept : ∀ n ∈ s.sweep.rest, s.Listed n
  held : ∀ n ∈ s.held, s.Listed n
  room : ∀ lookup ∈ s.lookup, lookup.found = none → s.client lookup.peerid = none ∧
    ∀ currentPeers ∈ lookup.currentPeers, s.clients.keys.length ≤ currentPeers
  renewed : ∀ n time, .renewed n time ∈ s.handlers → time ≤ s.now ∧
    ∀ client ∈ s.entries[n]?, time + s.config.offeredLeaseDuration ≤ client.expires
  granted : ∀ peerid known, .declined peerid known ∈ s.log → known = false
  replies : ∀ peerid time, .reply peerid time ∈ s.log → time ≤ s.now ∧ s.Covered peerid time

theorem inv_initial (config : Config) (now : Nat) : Inv (initial config now) where
  bounded := Nat.zero_le _
  names := names_empty
  nodup := nodup_nil
  swept := by simp [initial, Sweep.rest]
  held := by simp [initial, State.held]
  room := by simp [initial]
  renewed := by simp [initial]
  granted := by simp [initial]
  replies := by simp [initial]

theorem State.mem_held {s : State} {n : Nat} : n ∈ s.held ↔
    (∃ handler ∈ s.handlers, handler.client = n) ∨ ∃ lookup ∈ s.lookup, lookup.found = some n := by
  unfold State.held
  rw [mem_append, mem_map, Option.mem_toList, Option.bind_eq_some_iff]
  rfl

section Steps
variable {s s' : State}

theorem Inv.lawful (h : Inv s) : s.Lawful := by
  refine ⟨h.bounded, h.granted, fun peerid time hreply hnow => ?_⟩
  rcases (h.replies peerid time hreply).2 with hover | ⟨n, client, hclient, -, -⟩
  · omega
  · exact Option.isSome_iff_exists.mpr ⟨n, hclient⟩

/-- The threads go on, and nothing else is changed. -/
theorem Inv.goOn (h : Inv s) (lookup : Option Lookup) (handlers : List Handler) (sweep : Sweep)
    (hnodup : sweep.rest.Nodup) (hswept : ∀ n ∈ sweep.rest, s.Listed n)
    (hhandlers : ∀ handler ∈ handlers, s.Listed handler.client)
    (hlookup : ∀ l ∈ lookup, ∀ n ∈ l.found, s.Listed n)
    (hroom : ∀ l ∈ lookup, l.found = none → s.client l.peerid = none ∧
      ∀ currentPeers ∈ l.currentPeers, s.clients.keys.length ≤ currentPeers)
    (hrenewed : ∀ n time, .renewed n time ∈ handlers → .renewed n time ∈ s.handlers) :
    Inv { s with lookup := lookup, handlers := handlers, sweep := sweep } where
  bounded := h.bounded
  names := h.names
  nodup := hnodup
  swept := hswept
  held := by
    intro n hn
    rcases State.mem_held.mp hn with ⟨handler, hmem, rfl⟩ | ⟨l, hl, hfound⟩
    · exact hhandlers handler hmem
    · exact hlookup l hl n hfound
  room := hroom
  renewed := fun n time hmem => h.renewed n time (hrenewed n time hmem)
  granted := h.granted
  replies := h.replies

theorem Inv.handler (h : Inv s) {handler : Handler} (hmem : handler ∈ s.handlers) :
    s.Listed handler.client :=
  h.held _ (State.mem_held.mpr (.inl ⟨handler, hmem, rfl⟩))

theorem Inv.found (h : Inv s) : ∀ l ∈ s.lookup, ∀ n ∈ l.found, s.Listed n :=
  fun l hl n hn => h.held n (State.mem_held.mpr (.inr ⟨l, hl, hn⟩))

/-- The periodic thread goes on with some of its clients. -/
theorem Inv.sweepOn (h : Inv s) (sweep : Sweep) (hnodup : sweep.rest.Nodup)
    (hswept : ∀ n ∈ sweep.rest, s.Listed n) : Inv { s with sweep := sweep } :=
  h.goOn s.lookup s.handlers sweep hnodup hswept (fun _ => h.handler) h.found h.room
    fun _ _ hmem => hmem

/-- A handler is done with the table. -/
theorem Inv.handOver {n : Nat} (h : Inv s) (hn : s.Listed n) :
    Inv { s with lookup := none, handlers := s.handlers ++ [.found n] } := by
  apply h.goOn none (s.handlers ++ [Handler.found n]) s.sweep h.nodup h.swept
  · intro handler hmem
    rcases mem_append.mp hmem with hmem | hmem
    · exact h.handler hmem
    · obtain rfl := mem_singleton.mp hmem
      exact hn
  · nofun
  · nofun
  · intro m time hmem
    exact (mem_append.mp hmem).resolve_right (by simp)

/-- A peer that is not in the table is put there. -/
theorem Inv.insert {peerid : CString} (h : Inv s) (hnone : s.client peerid = none)
    (hroom : s.clients.keys.length < s.config.maxClients) :
    Inv { s with
      entries := s.entries ++ [⟨peerid, absoluteTimeMax⟩]
      clients := s.clients.insert peerid s.entries.length
      lookup := none } where
  bounded := by
    show (s.clients.insert peerid s.entries.length).keys.length ≤ _
    rw [keys_length_insert hnone]
    exact hroom
  names := h.names.insert ⟨peerid, absoluteTimeMax⟩
  nodup := h.nodup
  swept := fun n hn => (h.swept n hn).insert hnone
  held := by
    intro n hn
    rcases State.mem_held.mp hn with ⟨handler, hmem, rfl⟩ | ⟨l, hl, hfound⟩
    · exact (h.handler hmem).insert hnone
    · cases hl
  room := nofun
  renewed := by
    intro n time hmem
    obtain ⟨htime, hexpires⟩ := h.renewed n time hmem
    refine ⟨htime, fun client hclient => ?_⟩
    obtain ⟨x, hx, -⟩ := h.handler hmem
    have hold : s.entries[n]? = some client := by
      rcases getElem?_concat_iff.mp hclient with hclient | ⟨rfl, -⟩
      · exact hclient
      · exact absurd (List.getElem?_eq_some_iff.mp hx).1 (Nat.lt_irrefl _)
    exact hexpires client hold
  granted := h.granted
  replies := by
    intro k time hreply
    obtain ⟨htime, hcovered⟩ := h.replies k time hreply
    refine ⟨htime, ?_⟩
    rcases hcovered with hover | ⟨n, client, hclient, hn, hexpires⟩
    · exact .inl hover
    · refine .inr ⟨n, client, ?_, getElem?_concat_iff.mpr (.inl hn), hexpires⟩
      show (s.clients.insert peerid s.entries.length).lookup k = _
      have hne : k ≠ peerid := by
        intro heq
        rw [heq, hnone] at hclient
        cases hclient
      rw [AList.lookup_insert_ne hne]
      exact hclient

theorem Inv.create {peerid : CString} {found : Option Nat} {currentPeers : Nat} (h : Inv s)
    (hlookup : s.lookup = some ⟨peerid, found, some currentPeers⟩) :
    Inv (s.create peerid found currentPeers) := by
  unfold State.create
  match found with
  | some n => exact h.handOver (h.found _ hlookup n rfl)
  | none =>
    obtain ⟨hnone, hpeers⟩ := h.room _ hlookup rfl
    have hle := hpeers currentPeers rfl
    dsimp only
    split
    next hlt =>
      exact (h.insert hnone (by omega)).handOver (listed_insert (⟨peerid, absoluteTimeMax⟩ : Entry))
    next =>
      have hdone : Inv { s with lookup := none } :=
        h.goOn none s.handlers s.sweep h.nodup h.swept (fun _ => h.handler) nofun nofun
          fun _ _ hmem => hmem
      -- nobody else could put the peer into the table
      refine { hdone with granted := fun k known hmem => ?_, replies := fun k time hmem => ?_ }
      · rcases mem_cons.mp hmem with heq | hmem
        · cases heq
          rw [hnone]
          rfl
        · exact h.granted k known hmem
      · exact h.replies k time ((mem_cons.mp hmem).resolve_left nofun)

theorem Inv.readClock {i n : Nat} (h : Inv s) (hi : s.handlers[i]? = some (.found n)) :
    Inv { s with handlers := s.handlers.set i (.timed n s.now) } := by
  have hn : s.Listed n := h.handler (mem_of_getElem? hi)
  apply h.goOn s.lookup (s.handlers.set i (.timed n s.now)) s.sweep h.nodup h.swept
  · intro handler hmem
    rcases mem_or_eq_of_mem_set hmem with hmem | rfl
    · exact h.handler hmem
    · exact hn
  · exact h.found
  · exact h.room
  · intro m time hmem
    exact (mem_or_eq_of_mem_set hmem).resolve_right nofun

/-- A lease is renewed at the time from which it runs. -/
theorem Inv.setExpires {i n : Nat} {client : Entry} (h : Inv s)
    (hi : s.handlers[i]? = some (.timed n s.now)) (hn : s.entries[n]? = some client)
    (hmin : -2 ^ 63 ≤ s.now + s.config.offeredLeaseDuration)
    (hmax : s.now + s.config.offeredLeaseDuration ≤ absoluteTimeMax) :
    Inv { s.setExpires n client s.now with handlers := s.handlers.set i (.renewed n s.now) } := by
  have hexpires : (s.now + s.config.offeredLeaseDuration).bmod (2 ^ 64) =
      s.now + s.config.offeredLeaseDuration := by
    unfold absoluteTimeMax at hmax
    exact Int.bmod_eq_of_le (by omega) (by omega)
  have hlists : s.Listed n := h.handler (mem_of_getElem? hi)
  unfold State.setExpires
  rw [hexpires]
  -- what an entry had to carry it carries still
  have hcarries : ∀ {m : Nat} {x : Entry} {time : Int}, s.entries[m]? = some x → time ≤ s.now →
      time + s.config.offeredLeaseDuration ≤ x.expires →
      ∀ y ∈ (s.entries.set n
        { client with expires := s.now + s.config.offeredLeaseDuration })[m]?,
        time + s.config.offeredLeaseDuration ≤ y.expires := by
    intro m x time hx htime hle y hy
    rcases (getElem?_set_iff hn).mp hy with ⟨-, rfl⟩ | ⟨-, hy⟩
    · exact Int.add_le_add_right htime _
    · obtain rfl := Option.some.inj (hx.symm.trans hy)
      exact hle
  have hlisted : ∀ {m : Nat}, s.Listed m → Lib.Listed Entry.peerid (s.entries.set n
      { client with expires := s.now + s.config.offeredLeaseDuration }) s.clients m :=
    fun hm => hm.set hn rfl
  constructor
  case bounded => exact h.bounded
  case names => exact h.names.set hn rfl
  case nodup => exact h.nodup
  case swept => exact fun m hm => hlisted (h.swept m hm)
  case held =>
    intro m hm
    rcases State.mem_held.mp hm with ⟨handler, hmem, rfl⟩ | ⟨l, hl, hfound⟩
    · rcases mem_or_eq_of_mem_set hmem with hmem | rfl
      · exact hlisted (h.handler hmem)
      · exact hlisted hlists
    · exact hlisted (h.found l hl m hfound)
  case room => exact h.room
  case renewed =>
    intro m time hmem
    rcases mem_or_eq_of_mem_set hmem with hmem | heq
    · obtain ⟨htime, hle⟩ := h.renewed m time hmem
      obtain ⟨x, hx, -⟩ := h.handler hmem
      exact ⟨htime, hcarries hx htime (hle x hx)⟩
    · cases heq
      refine ⟨Int.le_refl _, fun y hy => ?_⟩
      rcases (getElem?_set_iff hn).mp hy with ⟨-, rfl⟩ | ⟨hne, -⟩
      · exact Int.le_refl _
      · exact absurd rfl hne
  case granted => exact h.granted
  case replies =>
    intro k time hreply
    obtain ⟨htime, hcovered⟩ := h.replies k time hreply
    refine ⟨htime, ?_⟩
    rcases hcovered with hover | ⟨m, x, hclient, hx, hle⟩
    · exact .inl hover
    · obtain ⟨y, hy, -⟩ := hlisted (h.names.listed hclient)
      exact .inr ⟨m, y, hclient, hy, hcarries hx htime hle y hy⟩

/-- A reply is sent at the time from which the lease runs, or is not sent. -/
theorem Inv.reply {i n : Nat} {client : Entry} {time : Int} {sent : Bool} (h : Inv s)
    (hi : s.handlers[i]? = some (.renewed n time)) (hn : s.entries[n]? = some client)
    (htime : sent = true → time = s.now) :
    Inv { s with
      handlers := s.handlers.eraseIdx i
      log := if sent then .reply client.peerid s.now :: s.log else s.log } := by
  have hmem : .renewed n time ∈ s.handlers := mem_of_getElem? hi
  have hdone : Inv { s with handlers := s.handlers.eraseIdx i } := by
    apply h.goOn s.lookup (s.handlers.eraseIdx i) s.sweep h.nodup h.swept
    · exact fun handler hmem => h.handler (mem_of_mem_eraseIdx hmem)
    · exact h.found
    · exact h.room
    · exact fun m time hmem => mem_of_mem_eraseIdx hmem
  match sent with
  | false => exact hdone
  | true =>
    obtain rfl := htime rfl
    obtain ⟨x, hx, hclient⟩ := h.handler hmem
    obtain rfl := Option.some.inj (hn.symm.trans hx)
    refine { hdone with granted := fun k known hevent => ?_, replies := fun k t hevent => ?_ }
    · exact h.granted k known ((mem_cons.mp hevent).resolve_left nofun)
    · rcases mem_cons.mp hevent with heq | hevent
      · cases heq
        exact ⟨Int.le_refl _, .inr ⟨n, client, hclient, hn, (h.renewed n s.now hmem).2 client hn⟩⟩
      · exact h.replies k t hevent

/-- The lease of a client is over, and no handler is about to renew it. -/
theorem Inv.delete {n : Nat} {rest : List Nat} {peer : Entry} (h : Inv s)
    (hsweep : s.sweep = .expired n rest) (hn : s.entries[n]? = some peer)
    (hover : peer.expires ≤ s.now) (hheld : n ∉ s.held) :
    Inv { s with clients := s.clients.erase peer.peerid, sweep := .clients rest } := by
  have hrest : s.sweep.rest = n :: rest := by rw [hsweep, Sweep.rest]
  have hnodup : (n :: rest).Nodup := hrest ▸ h.nodup
  have hlisted : s.Listed n := h.swept n (hrest ▸ mem_cons_self)
  have hstays : ∀ {m : Nat}, s.Listed m → m ≠ n →
      Lib.Listed Entry.peerid s.entries (s.clients.erase peer.peerid) m :=
    fun hm hne => hm.erase hn hlisted hne
  have hle : (s.clients.erase peer.peerid).keys.length ≤ s.clients.keys.length :=
    keys_length_erase_le peer.peerid
  constructor
  case bounded => exact Nat.le_trans hle h.bounded
  case names => exact h.names.erase peer.peerid
  case nodup => exact hnodup.of_cons
  case swept =>
    intro m hm
    refine hstays (h.swept m (hrest ▸ mem_cons_of_mem n hm)) ?_
    exact fun heq => (nodup_cons.mp hnodup).1 (heq ▸ hm)
  case held => exact fun m hm => hstays (h.held m hm) fun heq => hheld (heq ▸ hm)
  case room =>
    intro l hl hnone
    obtain ⟨hclient, hpeers⟩ := h.room l hl hnone
    refine ⟨?_, fun currentPeers hc => Nat.le_trans hle (hpeers currentPeers hc)⟩
    show (s.clients.erase peer.peerid).lookup l.peerid = none
    by_cases hkey : l.peerid = peer.peerid
    · rw [hkey, AList.lookup_erase]
    · rw [AList.lookup_erase_ne hkey]
      exact hclient
  case renewed => exact h.renewed
  case granted => exact h.granted
  case replies =>
    intro k time hreply
    obtain ⟨htime, hcovered⟩ := h.replies k time hreply
    refine ⟨htime, ?_⟩
    rcases hcovered with hend | ⟨m, x, hclient, hx, hexpires⟩
    · exact .inl hend
    · by_cases hm : m = n
      · subst hm
        obtain rfl := Option.some.inj (hn.symm.trans hx)
        exact .inl (Int.le_trans hexpires hover)
      · obtain ⟨y, hy, hstill⟩ := hstays (h.names.listed hclient) hm
        obtain ⟨x', hx', rfl⟩ := h.names k m hclient
        obtain rfl := Option.some.inj (hx'.symm.trans hy)
        exact .inr ⟨m, x, hstill, hx, hexpires⟩

theorem Inv.tick (h : Inv s) (d : Nat) : Inv { s with now := s.now + d } where
  bounded := h.bounded
  names := h.names
  nodup := h.nodup
  swept := h.swept
  held := h.held
  room := h.room
  renewed := by
    intro n time hmem
    obtain ⟨htime, hexpires⟩ := h.renewed n time hmem
    exact ⟨by show time ≤ s.now + d; omega, hexpires⟩
  granted := h.granted
  replies := by
    intro k time hreply
    obtain ⟨htime, hcovered⟩ := h.replies k time hreply
    refine ⟨by show time ≤ s.now + d; omega, ?_⟩
    rcases hcovered with hover | hclient
    · exact .inl (Int.le_trans hover (by show s.now ≤ s.now + d; omega))
    · exact .inr hclient

theorem Inv.next {a : Action} (h : Inv s) (hcare : Careful s a) (hnext : Next s a s') : Inv s' := by
  unfold Next step at hnext
  cases a with
  | request peerid =>
    dsimp only at hnext
    split at hnext
    next =>
      cases hnext
      apply h.goOn _ s.handlers s.sweep h.nodup h.swept (fun _ => h.handler)
      · intro l hl n hn
        cases hl
        exact h.names.listed hn
      · intro l hl hnone
        cases hl
        exact ⟨hnone, nofun⟩
      · exact fun _ _ hmem => hmem
    next => cases hnext
  | stats =>
    dsimp only at hnext
    split at hnext
    next peerid found hlookup =>
      cases hnext
      apply h.goOn _ s.handlers s.sweep h.nodup h.swept (fun _ => h.handler)
      · intro l hl n hn
        cases hl
        exact h.found _ hlookup n hn
      · intro l hl hnone
        cases hl
        refine ⟨(h.room _ hlookup hnone).1, fun currentPeers hc => ?_⟩
        cases hc
        exact Nat.le_refl _
      · exact fun _ _ hmem => hmem
    next => cases hnext
  | create =>
    dsimp only at hnext
    split at hnext
    next peerid found currentPeers hlookup =>
      cases hnext
      exact h.create hlookup
    next => cases hnext
  | readClock i =>
    dsimp only at hnext
    split at hnext
    next n hi =>
      cases hnext
      exact h.readClock hi
    next => cases hnext
  | setExpires i =>
    dsimp only at hnext
    split at hnext
    next n time hi =>
      obtain ⟨client, hclient, heq⟩ := Option.map_eq_some_iff.mp hnext
      cases heq
      simp only [Careful, hi] at hcare
      obtain ⟨rfl, hmin, hmax⟩ := hcare
      exact h.setExpires hi hclient hmin hmax
    next => cases hnext
  | reply i sent =>
    dsimp only at hnext
    split at hnext
    next n time hi =>
      obtain ⟨client, hclient, heq⟩ := Option.map_eq_some_iff.mp hnext
      cases heq
      simp only [Careful, hi] at hcare
      exact h.reply hi hclient hcare
    next => cases hnext
  | run =>
    dsimp only at hnext
    split at hnext
    next =>
      cases hnext
      exact h.sweepOn _ h.names.nodup_values h.names.listed_values
    next => cases hnext
  | readTime i =>
    dsimp only at hnext
    split at hnext
    next rest hsweep =>
      obtain ⟨n, hn, heq⟩ := Option.map_eq_some_iff.mp hnext
      cases heq
      have hrest : s.sweep.rest = rest := by rw [hsweep, Sweep.rest]
      obtain ⟨pre, post, hsplit, -, herase⟩ := exists_split hn
      have hperm : (n :: rest.eraseIdx i).Perm rest := by
        rw [herase, hsplit]
        exact perm_middle.symm
      apply h.sweepOn
      · exact hperm.nodup_iff.mpr (hrest ▸ h.nodup)
      · intro m hm
        exact h.swept m (hrest ▸ hperm.mem_iff.mp hm)
    next => cases hnext
  | checkLease =>
    dsimp only at hnext
    split at hnext
    next currentTime n rest hsweep =>
      obtain ⟨peer, hpeer, heq⟩ := Option.map_eq_some_iff.mp hnext
      cases heq
      have hrest : s.sweep.rest = n :: rest := by rw [hsweep, Sweep.rest]
      have hnodup : (n :: rest).Nodup := hrest ▸ h.nodup
      have hswept : ∀ m ∈ n :: rest, s.Listed m := hrest ▸ h.swept
      apply h.sweepOn
      · split
        · exact hnodup.of_cons
        · exact hnodup
      · intro m hm
        apply hswept
        split at hm
        · exact mem_cons_of_mem n hm
        · exact hm
    next => cases hnext
  | delete =>
    dsimp only at hnext
    split at hnext
    next n rest hsweep =>
      obtain ⟨peer, hpeer, heq⟩ := Option.map_eq_some_iff.mp hnext
      cases heq
      simp only [Careful, hsweep] at hcare
      obtain ⟨hover, hheld⟩ := hcare peer hpeer
      exact h.delete hsweep hpeer hover hheld
    next => cases hnext
  | wait =>
    dsimp only at hnext
    split at hnext
    next =>
      cases hnext
      exact h.sweepOn .waiting nodup_nil nofun
    next => cases hnext
  | tick d =>
    dsimp only at hnext
    split at hnext
    next =>
      cases hnext
      exact h.tick d
    next => cases hnext

/-- Runs of careful steps keep the law of the leases. -/
theorem offers_lawful {config : Config} {now : Nat}
    (hreaches : Reaches Next Careful (initial config now) s) : s.Lawful := by
  have hinv : Inv s := hreaches.invariant (inv_initial config now) Inv.next
  exact hinv.lawful

end Steps

/-! ## runs -/

instance (s : State) (a : Action) : Decidable (Careful s a) := by
  unfold Careful
  split
  · split <;> infer_instance
  · split <;> infer_instance
  · split <;> infer_instance
  · infer_instance

/-- A peer with a lease. -/
def clientId : CString := .ofBuffer (text "uuid-edge")

/-- A peer gets a lease. -/
def grant : List Action :=
  [.request clientId, .stats, .create, .readClock 0, .setExpires 0, .reply 0 true]

/-- The lease is checked when it is over. -/
def overdue : List Action := [.tick 1000, .run, .readTime 0, .checkLease]

/-- A client whose lease is over, and has been found to be. -/
def lapsed : State :=
  ⟨⟨1, 1000⟩, 1100, [⟨clientId, 1100⟩], AList.insert clientId 0 ∅, none, [], .expired 0 [],
    [.reply clientId 100]⟩

theorem offers_lawful_lapsed : { lapsed with clients := ∅, sweep := .clients [] }.Lawful := by
  have hrun : Reaches Next Careful (initial ⟨1, 1000⟩ 100)
      { lapsed with clients := ∅, sweep := .clients [] } :=
    reaches_of_foldlM (f := goOn step fun s a => decide (Careful s a))
      (fun h => ⟨of_decide_eq_true (goOn_eq_some h).1, (goOn_eq_some h).2⟩)
      (l := grant ++ overdue ++ [.delete]) rfl
  exact offers_lawful hrun

/-- The client gets another lease before it is deleted, and is not in the table any more. -/
theorem not_offers_lawful : ¬ ∀ config now s,
    Reaches Next (fun _ _ => True) (initial config now) s → s.Lawful := by
  intro h
  have hrun : Reaches Next (fun _ _ => True) (initial ⟨1, 1000⟩ 100)
      { lapsed with
        entries := [⟨clientId, 2100⟩]
        clients := ∅
        sweep := .clients []
        log := [.reply clientId 1100, .reply clientId 100] } :=
    reaches_of_foldlM (f := goOn step fun _ _ => true)
      (fun h => ⟨trivial, (goOn_eq_some h).2⟩)
      (l := grant ++ overdue ++ grant ++ [.delete]) rfl
  have hclient := (h _ _ _ hrun).leases clientId 1100 mem_cons_self (by decide)
  cases hclient

end RdvServer

end JxtaC
