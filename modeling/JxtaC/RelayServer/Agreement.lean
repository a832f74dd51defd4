import JxtaC.RelayServer
import Mathlib.Data.List.Nodup

/-
  What the responses of a relay promise, and what its leases keep. A response announces an hour; the
  lease is issued for `DEFAULT_LEASE_DURATION`, which is 20 minutes. `Tracks` ties the leases to the
  responses sent: a client has a valid lease exactly where a response was sent to it less than 20
  minutes ago, and no disconnect came in since (`Tracks.holdsLease_iff`).
-/

namespace JxtaC.RelayServer

open Lib List

variable {self : RelayServer} {log : List Logged} {r : Issued} {id : CString}

/-- The response was sent, and its client did not ask to disconnect since. -/
def Standing (log : List Logged) (r : Issued) : Prop :=
  ∃ u v, log = u ++ .response r :: v ∧ .disconnect r.requestorId ∉ v

/-- The server holds a valid lease for the client. -/
def HoldsLease (self : RelayServer) (id : CString) : Prop :=
  ∃ l ∈ self.leases, l.requestorId = id ∧ l.isValid self.clock = true

/-- Every client has a valid lease for as long as the responses it was sent announced. -/
def Agrees (self : RelayServer) (log : List Logged) : Prop :=
  ∀ r, Standing log r → self.clock < r.sent + extractLeaseValue r.response →
    self.HoldsLease r.requestorId

/-- Every client to which a lease was announced that has not ended had its last lease issued less than
    20 minutes ago. -/
def RenewedInTime (self : RelayServer) (log : List Logged) : Prop :=
  ∀ r, Standing log r → self.clock < r.sent + extractLeaseValue r.response →
    ∃ r', Standing log r' ∧ r'.requestorId = r.requestorId ∧
      self.clock < r'.stored + defaultLeaseDuration

/-! ## standing responses -/

theorem standing_response {r' : Issued} :
    Standing (log ++ [.response r']) r ↔ r = r' ∨ Standing log r := by
  constructor
  · rintro ⟨u, v, heq, hnot⟩
    rcases eq_nil_or_concat v with rfl | ⟨v, e, rfl⟩
    · obtain ⟨-, hone⟩ := append_inj' heq rfl
      injection hone with hone
      injection hone with hone
      exact Or.inl hone.symm
    · rw [concat_eq_append] at heq hnot
      have heq' : log ++ [.response r'] = (u ++ .response r :: v) ++ [e] := by simpa using heq
      obtain ⟨hlog, -⟩ := append_inj' heq' rfl
      exact Or.inr ⟨u, v, hlog, fun hmem => hnot (mem_append_left _ hmem)⟩
  · rintro (rfl | ⟨u, v, rfl, hnot⟩)
    · exact ⟨log, [], rfl, not_mem_nil⟩
    · refine ⟨u, v ++ [.response r'], by simp, ?_⟩
      simpa using hnot

theorem standing_disconnect :
    Standing (log ++ [.disconnect id]) r ↔ Standing log r ∧ r.requestorId ≠ id := by
  constructor
  · rintro ⟨u, v, heq, hnot⟩
    rcases eq_nil_or_concat v with rfl | ⟨v, e, rfl⟩
    · obtain ⟨-, hone⟩ := append_inj' heq rfl
      injection hone with hone
      injection hone
    · rw [concat_eq_append] at heq hnot
      have heq' : log ++ [.disconnect id] = (u ++ .response r :: v) ++ [e] := by simpa using heq
      obtain ⟨hlog, hone⟩ := append_inj' heq' rfl
      injection hone with hone
      refine ⟨⟨u, v, hlog, fun hmem => hnot (mem_append_left _ hmem)⟩, ?_⟩
      rintro rfl
      exact hnot (by simp [← hone])
  · rintro ⟨⟨u, v, rfl, hnot⟩, hne⟩
    refine ⟨u, v ++ [.disconnect id], by simp, ?_⟩
    simp [hnot, hne]

theorem not_standing_nil : ¬Standing [] r := by
  rintro ⟨u, v, heq, -⟩
  simp at heq

/-! ## the leases and the responses -/

/-- The lease of a client was issued with its last standing response; a client without a lease had none
    for a whole duration. -/
structure Tracks (server : RelayServer) (log : List Logged) : Prop where
  nodup : (server.leases.map Lease.requestorId).Nodup
  duration : ∀ l ∈ server.leases, l.leaseDuration = defaultLeaseDuration
  issued : ∀ l ∈ server.leases, ∃ r, Standing log r ∧ r.requestorId = l.requestorId ∧
    r.stored = l.issueTime
  latest : ∀ l ∈ server.leases, ∀ r, Standing log r → r.requestorId = l.requestorId →
    r.stored ≤ l.issueTime
  past : ∀ r, Standing log r → r.stored ≤ server.clock
  lapsed : ∀ r, Standing log r → (∃ l ∈ server.leases, l.requestorId = r.requestorId) ∨
    r.stored + defaultLeaseDuration ≤ server.clock

theorem tracks_start (groupid assignedId peerid : List Byte) (maxLeasesAllowed clock : Nat) :
    Tracks (start groupid assignedId peerid maxLeasesAllowed clock) [] :=
  ⟨nodup_nil, fun _ h => absurd h not_mem_nil, fun _ h => absurd h not_mem_nil,
    fun _ h => absurd h not_mem_nil, fun _ h => absurd h not_standing_nil,
    fun _ h => absurd h not_standing_nil⟩

theorem isValid_iff {l : Lease} (h : l.leaseDuration = defaultLeaseDuration) (now : Nat) :
    l.isValid now = true ↔ now < l.issueTime + defaultLeaseDuration := by
  unfold Lease.isValid
  rw [h]
  exact decide_eq_true_iff

section
variable (h : Tracks self log)
include h

theorem Tracks.holdsLease_iff (id : CString) :
    self.HoldsLease id ↔ ∃ r, Standing log r ∧ r.requestorId = id ∧
      self.clock < r.stored + defaultLeaseDuration := by
  constructor
  · rintro ⟨l, hl, rfl, hvalid⟩
    rw [isValid_iff (h.duration l hl)] at hvalid
    obtain ⟨r, hr, hid, hstored⟩ := h.issued l hl
    exact ⟨r, hr, hid, hstored ▸ hvalid⟩
  · rintro ⟨r, hr, rfl, hlt⟩
    rcases h.lapsed r hr with ⟨l, hl, hid⟩ | hle
    · refine ⟨l, hl, hid, ?_⟩
      rw [isValid_iff (h.duration l hl)]
      have hlatest := h.latest l hl r hr hid.symm
      omega
    · omega

theorem Tracks.agrees_iff : Agrees self log ↔ RenewedInTime self log := by
  unfold Agrees RenewedInTime
  refine forall_congr' fun r => imp_congr_right fun _ => imp_congr_right fun _ => ?_
  exact h.holdsLease_iff r.requestorId

/-! ## steps -/

/-- Time passes, and requests come and go. -/
theorem Tracks.later {self' : RelayServer} (hleases : self'.leases = self.leases)
    (hclock : self.clock ≤ self'.clock) : Tracks self' log where
  nodup := hleases ▸ h.nodup
  duration := hleases ▸ h.duration
  issued := hleases ▸ h.issued
  latest := hleases ▸ h.latest
  past r hr := (h.past r hr).trans hclock
  lapsed r hr := by
    rw [hleases]
    exact (h.lapsed r hr).imp_right fun hle => hle.trans hclock

/-- Leases that are not valid may go. -/
theorem Tracks.drop {self' : RelayServer} (hsub : self'.leases.Sublist self.leases)
    (hclock : self'.clock = self.clock)
    (hgone : ∀ l ∈ self.leases, l ∈ self'.leases ∨ l.isValid self.clock = false) :
    Tracks self' log where
  nodup := h.nodup.sublist (hsub.map _)
  duration l hl := h.duration l (hsub.subset hl)
  issued l hl := h.issued l (hsub.subset hl)
  latest l hl := h.latest l (hsub.subset hl)
  past r hr := hclock ▸ h.past r hr
  lapsed r hr := by
    rcases h.lapsed r hr with ⟨l, hl, hid⟩ | hle
    · rcases hgone l hl with hmem | hinvalid
      · exact Or.inl ⟨l, hmem, hid⟩
      · have hlatest := h.latest l hl r hr hid.symm
        rw [← Bool.not_eq_true, isValid_iff (h.duration l hl)] at hinvalid
        right
        omega
    · exact Or.inr (hclock ▸ hle)

theorem Tracks.leasesRemoveExpired : Tracks self.leasesRemoveExpired log := by
  refine h.drop filter_sublist rfl fun l hl => ?_
  cases hvalid : l.isValid self.clock with
  | true => exact Or.inl (mem_filter.mpr ⟨hl, hvalid⟩)
  | false => exact Or.inr rfl

end

/-- There is one lease of a client, and it is the one that is found. -/
theorem find_unique {leases : List Lease} (h : (leases.map Lease.requestorId).Nodup) {l : Lease}
    (hl : l ∈ leases) : leases.find? (fun m => m.requestorId = l.requestorId) = some l := by
  induction leases with
  | nil => exact absurd hl not_mem_nil
  | cons m leases ih =>
    rw [map_cons, nodup_cons] at h
    rw [find?_cons]
    rcases mem_cons.mp hl with rfl | hl
    · simp
    · have hne : m.requestorId ≠ l.requestorId := by
        intro heq
        exact h.1 (heq ▸ mem_map_of_mem hl)
      simp only [hne, decide_false]
      exact ih h.2 hl

/-- `lease_delete` leaves the leases of the other clients. -/
theorem mem_leaseDelete {leases : List Lease} (h : (leases.map Lease.requestorId).Nodup) {l : Lease}
    (id : CString) :
    l ∈ leases.eraseP (fun m => m.requestorId = id) ↔ l ∈ leases ∧ l.requestorId ≠ id := by
  induction leases with
  | nil => simp
  | cons m leases ih =>
    rw [map_cons, nodup_cons] at h
    rw [eraseP_cons]
    by_cases hm : m.requestorId = id
    · have hother : ∀ n ∈ leases, n.requestorId ≠ id := by
        intro n hn heq
        exact h.1 (hm.trans heq.symm ▸ mem_map_of_mem hn)
      simp only [hm, decide_true, cond_true, mem_cons]
      constructor
      · exact fun hl => ⟨Or.inr hl, hother l hl⟩
      · rintro ⟨rfl | hl, hne⟩
        · exact absurd hm hne
        · exact hl
    · simp only [hm, decide_false, cond_false, mem_cons, ih h.2]
      constructor
      · rintro (rfl | ⟨hl, hne⟩)
        · exact ⟨Or.inl rfl, hm⟩
        · exact ⟨Or.inr hl, hne⟩
      · rintro ⟨rfl | hl, hne⟩
        · exact Or.inl rfl
        · exact Or.inr ⟨hl, hne⟩

theorem Tracks.getMessenger (h : Tracks self log) (id : CString) :
    Tracks (self.getMessenger id) log := by
  unfold RelayServer.getMessenger
  split
  · exact h
  · rename_i l hfind
    cases hvalid : l.isValid self.clock with
    | true => exact h
    | false =>
      refine h.drop eraseP_sublist rfl fun m hm => ?_
      by_cases hid : m.requestorId = id
      · subst hid
        have hfound := find_unique h.nodup hm
        unfold findRelayLease at hfind
        rw [hfound] at hfind
        obtain rfl := Option.some.inj hfind
        exact Or.inr hvalid
      · exact Or.inl ((mem_leaseDelete h.nodup id).mpr ⟨hm, hid⟩)

theorem Tracks.disconnect (h : Tracks self log) (id : CString) :
    Tracks (self.leaseDelete id) (log ++ [.disconnect id]) where
  nodup := h.nodup.sublist (eraseP_sublist.map _)
  duration l hl := h.duration l (mem_of_mem_eraseP hl)
  issued l hl := by
    obtain ⟨hl, hne⟩ := (mem_leaseDelete h.nodup id).mp hl
    obtain ⟨r, hr, hid, hstored⟩ := h.issued l hl
    exact ⟨r, standing_disconnect.mpr ⟨hr, hid ▸ hne⟩, hid, hstored⟩
  latest l hl r hr hid := h.latest l (mem_of_mem_eraseP hl) r (standing_disconnect.mp hr).1 hid
  past r hr := h.past r (standing_disconnect.mp hr).1
  lapsed r hr := by
    obtain ⟨hr, hne⟩ := standing_disconnect.mp hr
    refine (h.lapsed r hr).imp_left ?_
    rintro ⟨l, hl, hid⟩
    exact ⟨l, (mem_leaseDelete h.nodup id).mpr ⟨hl, hid ▸ hne⟩, hid⟩

theorem map_renew (id : CString) (now : Nat) (leases : List Lease) :
    (renew id now leases).map Lease.requestorId = leases.map Lease.requestorId := by
  induction leases with
  | nil => rfl
  | cons l leases ih =>
    unfold renew
    split_ifs
    · rfl
    · rw [map_cons, map_cons, ih]

theorem mem_renew {leases : List Lease} (h : (leases.map Lease.requestorId).Nodup) {l : Lease}
    (id : CString) (now : Nat) :
    l ∈ renew id now leases ↔ (l ∈ leases ∧ l.requestorId ≠ id) ∨
      ∃ m ∈ leases, m.requestorId = id ∧ l = { m with issueTime := now } := by
  induction leases with
  | nil => simp [renew]
  | cons m leases ih =>
    rw [map_cons, nodup_cons] at h
    unfold renew
    by_cases hm : m.requestorId = id
    · have hother : ∀ n ∈ leases, n.requestorId ≠ id := by
        intro n hn heq
        exact h.1 (hm.trans heq.symm ▸ mem_map_of_mem hn)
      rw [if_pos hm, mem_cons]
      constructor
      · rintro (rfl | hl)
        · exact Or.inr ⟨m, mem_cons_self, hm, rfl⟩
        · exact Or.inl ⟨mem_cons_of_mem m hl, hother l hl⟩
      · rintro (⟨hl, hne⟩ | ⟨n, hn, hid, rfl⟩)
        · rcases mem_cons.mp hl with rfl | hl
          · exact absurd hm hne
          · exact Or.inr hl
        · rcases mem_cons.mp hn with rfl | hn
          · exact Or.inl rfl
          · exact absurd hid (hother n hn)
    · rw [if_neg hm, mem_cons, ih h.2]
      constructor
      · rintro (rfl | ⟨hl, hne⟩ | ⟨n, hn, hid, rfl⟩)
        · exact Or.inl ⟨mem_cons_self, hm⟩
        · exact Or.inl ⟨mem_cons_of_mem m hl, hne⟩
        · exact Or.inr ⟨n, mem_cons_of_mem m hn, hid, rfl⟩
      · rintro (⟨hl, hne⟩ | ⟨n, hn, hid, rfl⟩)
        · rcases mem_cons.mp hl with rfl | hl
          · exact Or.inl rfl
          · exact Or.inr (Or.inl ⟨hl, hne⟩)
        · rcases mem_cons.mp hn with rfl | hn
          · exact absurd hid hm
          · exact Or.inr (Or.inr ⟨n, hn, hid, rfl⟩)

/-- What answering a request does to the leases: the one of the client is issued now, the others stay
    as they are. -/
structure Reissues (server : RelayServer) (r : Issued) (leases : List Lease) : Prop where
  nodup : (leases.map Lease.requestorId).Nodup
  other : ∀ l, l.requestorId ≠ r.requestorId → (l ∈ leases ↔ l ∈ server.leases)
  own : ∃ l ∈ leases, l.requestorId = r.requestorId
  issueTime : ∀ l ∈ leases, l.requestorId = r.requestorId →
    l.issueTime = r.stored ∧ l.leaseDuration = defaultLeaseDuration

theorem Tracks.reissue {leases : List Lease} (h : Tracks self log) {self' : RelayServer}
    (hre : Reissues self r leases) (hleases : self'.leases = leases)
    (hclock : self.clock ≤ self'.clock) (hstored : r.stored = self'.clock) :
    Tracks self' (log ++ [.response r]) where
  nodup := hleases ▸ hre.nodup
  duration l hl := by
    rw [hleases] at hl
    by_cases hid : l.requestorId = r.requestorId
    · exact (hre.issueTime l hl hid).2
    · exact h.duration l ((hre.other l hid).mp hl)
  issued l hl := by
    rw [hleases] at hl
    by_cases hid : l.requestorId = r.requestorId
    · exact ⟨r, standing_response.mpr (Or.inl rfl), hid.symm, (hre.issueTime l hl hid).1.symm⟩
    · obtain ⟨r', hr', hid', hstored'⟩ := h.issued l ((hre.other l hid).mp hl)
      exact ⟨r', standing_response.mpr (Or.inr hr'), hid', hstored'⟩
  latest l hl r' hr' hid' := by
    rw [hleases] at hl
    by_cases hid : l.requestorId = r.requestorId
    · rw [(hre.issueTime l hl hid).1]
      rcases standing_response.mp hr' with rfl | hr'
      · exact Nat.le_refl _
      · have hpast := h.past r' hr'
        omega
    · rcases standing_response.mp hr' with rfl | hr'
      · exact absurd hid'.symm hid
      · exact h.latest l ((hre.other l hid).mp hl) r' hr' hid'
  past r' hr' := by
    rcases standing_response.mp hr' with rfl | hr'
    · exact Nat.le_of_eq hstored
    · exact (h.past r' hr').trans hclock
  lapsed r' hr' := by
    rw [hleases]
    by_cases hid : r'.requestorId = r.requestorId
    · rw [hid]
      exact Or.inl hre.own
    · rcases standing_response.mp hr' with rfl | hr'
      · exact absurd rfl hid
      · rcases h.lapsed r' hr' with ⟨l, hl, hl'⟩ | hle
        · exact Or.inl ⟨l, (hre.other l (hl' ▸ hid)).mpr hl, hl'⟩
        · exact Or.inr (hle.trans hclock)

theorem Tracks.respond (h : Tracks self log) (i delay : Nat) (send : Status) :
    Tracks (self.respond i delay send).1 (log ++ (self.respond i delay send).2.toList) := by
  unfold RelayServer.respond
  cases hpending : self.pending[i]? with
  | none =>
    rw [Option.toList_none, append_nil]
    exact h
  | some request =>
    dsimp only
    by_cases hsend : send = .success
    · rw [if_pos hsend]
      refine h.reissue ?_ rfl (Nat.le_add_right _ _) rfl
      cases hfind : self.findRelayLease request.requestorId with
      | none =>
        have hnone : ∀ l ∈ self.leases, l.requestorId ≠ request.requestorId := by
          intro l hl heq
          have hnot := find?_eq_none.mp hfind l hl
          simp [heq] at hnot
        constructor
        · rw [map_append, map_singleton, nodup_append]
          refine ⟨h.nodup, nodup_singleton _, fun a ha b hb => ?_⟩
          obtain ⟨l, hl, rfl⟩ := mem_map.mp ha
          rw [mem_singleton.mp hb]
          exact hnone l hl
        · intro l hid
          rw [mem_append, mem_singleton]
          refine or_iff_left fun heq => hid ?_
          rw [heq]
        · exact ⟨_, mem_append_right _ (mem_singleton.mpr rfl), rfl⟩
        · intro l hl hid
          rcases mem_append.mp hl with hl | hl
          · exact absurd hid (hnone l hl)
          · rw [mem_singleton.mp hl]
            exact ⟨rfl, rfl⟩
      | some m =>
        have hm : m ∈ self.leases := mem_of_find?_eq_some hfind
        have hid : m.requestorId = request.requestorId := by
          simpa using find?_some hfind
        constructor
        · dsimp only
          rw [map_renew]
          exact h.nodup
        · intro l hne
          dsimp only
          rw [mem_renew h.nodup]
          constructor
          · rintro (⟨hl, -⟩ | ⟨n, -, hn, rfl⟩)
            · exact hl
            · exact absurd hn hne
          · exact fun hl => Or.inl ⟨hl, hne⟩
        · exact ⟨_, (mem_renew h.nodup _ _).mpr (Or.inr ⟨m, hm, hid, rfl⟩), hid⟩
        · intro l hl hid'
          rcases (mem_renew h.nodup _ _).mp hl with ⟨-, hne⟩ | ⟨n, hn, -, rfl⟩
          · exact absurd hid' hne
          · exact ⟨rfl, h.duration n hn⟩
    · rw [if_neg hsend, Option.toList_none, append_nil]
      exact h.later rfl (Nat.le_add_right _ _)

/-- What `receive` does to the leases: a disconnect request deletes one, another request none. -/
theorem receive_cases {msg : LeaseMessage} {self' : RelayServer} {out : Option Logged}
    (h : self.receive msg = .ok (self', out)) :
    (self'.leases = self.leases ∧ self'.clock = self.clock ∧ out = none) ∨
      ∃ id, self' = self.leaseDelete id ∧ out = some (.disconnect id) := by
  unfold receive at h
  obtain ⟨request, -, h⟩ := bind_eq_ok.mp h
  cases request with
  | none =>
    obtain ⟨rfl, rfl⟩ := Prod.mk.inj (Except.ok.inj h)
    exact Or.inl ⟨rfl, rfl, rfl⟩
  | some request =>
    dsimp only at h
    split_ifs at h
    · obtain ⟨rfl, rfl⟩ := Prod.mk.inj (Except.ok.inj h)
      exact Or.inr ⟨request.1, rfl, rfl⟩
    · obtain ⟨rfl, rfl⟩ := Prod.mk.inj (Except.ok.inj h)
      exact Or.inl ⟨rfl, rfl, rfl⟩
    · obtain ⟨rfl, rfl⟩ := Prod.mk.inj (Except.ok.inj h)
      exact Or.inl ⟨rfl, rfl, rfl⟩
    · obtain ⟨rfl, rfl⟩ := Prod.mk.inj (Except.ok.inj h)
      exact Or.inl ⟨rfl, rfl, rfl⟩

/-- Every step keeps the leases and the responses tied. -/
theorem Tracks.step (h : Tracks self log) {event : Event} {self' : RelayServer} {out : Option Logged}
    (hstep : self.step event = .ok (self', out)) : Tracks self' (log ++ out.toList) := by
  cases event with
  | receive msg =>
    rcases receive_cases hstep with ⟨hleases, hclock, rfl⟩ | ⟨id, rfl, rfl⟩
    · rw [Option.toList_none, append_nil]
      exact h.later hleases (Nat.le_of_eq hclock.symm)
    · exact h.disconnect id
  | respond i delay send =>
    have hres := h.respond i delay send
    rw [show self.respond i delay send = (self', out) from Except.ok.inj hstep] at hres
    exact hres
  | leasesRemoveExpired =>
    obtain ⟨rfl, rfl⟩ := Prod.mk.inj (Except.ok.inj hstep)
    rw [Option.toList_none, append_nil]
    exact h.leasesRemoveExpired
  | getMessenger id =>
    obtain ⟨rfl, rfl⟩ := Prod.mk.inj (Except.ok.inj hstep)
    rw [Option.toList_none, append_nil]
    exact h.getMessenger id
  | wait milliseconds =>
    obtain ⟨rfl, rfl⟩ := Prod.mk.inj (Except.ok.inj hstep)
    rw [Option.toList_none, append_nil]
    exact h.later rfl (Nat.le_add_right _ _)

/-- What was seen of a run. -/
def seen (outs : List (Option Logged)) : List Logged := outs.flatMap Option.toList

theorem Tracks.run (events : List Event) {outs : List (Option Logged)} {self' : RelayServer}
    (h : Tracks self log) (hrun : runOps RelayServer.step self events = .ok (self', outs)) :
    Tracks self' (log ++ seen outs) := by
  induction events generalizing self log outs with
  | nil =>
    obtain ⟨rfl, rfl⟩ := Prod.mk.inj (Except.ok.inj hrun)
    simpa [seen] using h
  | cons event events ih =>
    unfold runOps at hrun
    obtain ⟨⟨t, out⟩, hstep, hrest⟩ := bind_eq_ok.mp hrun
    obtain ⟨⟨t', outs'⟩, hrun', heq⟩ := bind_eq_ok.mp hrest
    obtain ⟨rfl, rfl⟩ := Prod.mk.inj (Except.ok.inj heq)
    have hnext := ih (h.step hstep) hrun'
    rw [append_assoc] at hnext
    exact hnext

/-! ## renewal -/

/-- The parameters ask for a lease. -/
def AsksToConnect (params : CString) : Prop :=
  ¬relayDisconnectRequest <:+: params.bytes ∧ relayConnectRequest <:+: params.bytes

instance (params : CString) : Decidable (AsksToConnect params) := inferInstanceAs (Decidable (_ ∧ _))

/-- The request is taken, and answered by a response; the client then has a lease that was issued with
    the response, for the address the request came from. -/
def Honours (self : RelayServer) (id : CString) (msg : LeaseMessage) (delay : Nat) (send : Status) :
    Prop :=
  ∃ self', self.receive msg = .ok (self', none) ∧
    ∃ r, (self'.respond self.pending.length delay send).2 = some (.response r) ∧ r.requestorId = id ∧
      ∃ l ∈ (self'.respond self.pending.length delay send).1.leases, l.requestorId = id ∧
        l.issueTime = r.stored ∧ l.requestorAddress = msg.source

theorem receive_connect {msg : LeaseMessage} {params : CString}
    (hmsg : msg.leaseRequest = .ok (some (id, params))) (hconnect : AsksToConnect params) :
    self.receive msg = .ok (if self.leases.length ≥ self.maxLeasesAllowed then self
      else { self with pending := self.pending ++ [⟨id, msg.source⟩] }, none) := by
  unfold receive
  rw [hmsg, ok_bind]
  dsimp only
  rw [if_neg hconnect.1, if_neg (not_not_intro hconnect.2)]
  split_ifs <;> rfl

/-- The response to the request that came last, and the leases behind it. -/
theorem respond_last {request : PendingRequest} {l : Lease} (delay : Nat) (send : Status)
    (hfind : self.findRelayLease request.requestorId = some l) :
    let answered := { self with pending := self.pending ++ [request] }.respond self.pending.length
      delay send
    answered.2 = (if send = .success then some (.response ⟨request.requestorId,
        self.leaseResponse request.clientAddress, self.clock, self.clock + delay⟩) else none) ∧
      (send = .success →
        answered.1.leases = renew request.requestorId (self.clock + delay) self.leases) := by
  unfold respond
  dsimp only
  rw [getElem?_concat_length]
  dsimp only
  by_cases hsend : send = .success
  · rw [if_pos hsend, if_pos hsend]
    refine ⟨rfl, fun _ => ?_⟩
    unfold findRelayLease at hfind ⊢
    dsimp only
    rw [hfind]
  · rw [if_neg hsend, if_neg hsend]
    exact ⟨rfl, fun h => absurd h hsend⟩

theorem Tracks.honours_iff (h : Tracks self log) {l : Lease} (hl : l ∈ self.leases)
    {msg : LeaseMessage} {params : CString}
    (hmsg : msg.leaseRequest = .ok (some (l.requestorId, params))) (hconnect : AsksToConnect params)
    (delay : Nat) (send : Status) :
    self.Honours l.requestorId msg delay send ↔
      self.leases.length < self.maxLeasesAllowed ∧ send = .success ∧
        l.requestorAddress = msg.source := by
  have hfind := find_unique h.nodup hl
  unfold Honours
  rw [receive_connect hmsg hconnect]
  by_cases hfull : self.leases.length ≥ self.maxLeasesAllowed
  · rw [if_pos hfull]
    refine iff_of_false ?_ fun hroom => absurd hroom.1 (Nat.not_lt.mpr hfull)
    rintro ⟨self', heq, r, hr, -⟩
    obtain ⟨rfl, -⟩ := Prod.mk.inj (Except.ok.inj heq)
    have hnone : (self.respond self.pending.length delay send).2 = none := by
      unfold RelayServer.respond
      rw [getElem?_eq_none (Nat.le_refl _)]
    rw [hnone] at hr
    exact absurd hr (by simp)
  · rw [if_neg hfull]
    obtain ⟨hout, hleases⟩ := @respond_last self ⟨l.requestorId, msg.source⟩ l delay send hfind
    rw [and_iff_right (Nat.not_le.mp hfull)]
    constructor
    · rintro ⟨self', heq, r, hr, -, m, hm, hid, -, haddress⟩
      obtain ⟨rfl, -⟩ := Prod.mk.inj (Except.ok.inj heq)
      rw [hout] at hr
      by_cases hsend : send = .success
      · rw [hleases hsend] at hm
        rcases (mem_renew h.nodup _ _).mp hm with ⟨-, hne⟩ | ⟨n, hn, hid', rfl⟩
        · exact absurd hid hne
        · have hsame := find_unique h.nodup hn
          rw [hid', hfind] at hsame
          obtain rfl := Option.some.inj hsame
          exact ⟨hsend, haddress⟩
      · rw [if_neg hsend] at hr
        exact absurd hr (by simp)
    · rintro ⟨hsend, haddress⟩
      refine ⟨_, rfl, _, hout.trans (if_pos hsend), rfl, ?_⟩
      rw [hleases hsend]
      exact ⟨_, (mem_renew h.nodup _ _).mpr (Or.inr ⟨l, hl, rfl, rfl⟩), rfl, rfl, haddress⟩

/-- In a run of a relay, the leases agree with what the responses announced exactly where every client
    was answered again before 20 minutes were over; and the connect request of a client that has a
    lease is honoured exactly where the table of leases is not full, the response can be sent, and the
    client has kept its address. -/
theorem lease_agreement_iff (groupid assignedId peerid : List Byte) (maxLeasesAllowed clock : Nat)
    (events : List Event) (self : RelayServer) (outs : List (Option Logged))
    (hrun : runOps step (start groupid assignedId peerid maxLeasesAllowed clock) events
      = .ok (self, outs)) :
    (Agrees self (seen outs) ↔ RenewedInTime self (seen outs)) ∧
    ∀ l ∈ self.leases, ∀ (msg : LeaseMessage) (params : CString) (delay : Nat) (send : Status),
      msg.leaseRequest = .ok (some (l.requestorId, params)) → AsksToConnect params →
        (self.Honours l.requestorId msg delay send ↔
          self.leases.length < self.maxLeasesAllowed ∧ send = .success ∧
            l.requestorAddress = msg.source) := by
  have h := (tracks_start groupid assignedId peerid maxLeasesAllowed clock).run events hrun
  rw [nil_append] at h
  exact ⟨h.agrees_iff, fun l hl msg params delay send hmsg hconnect =>
    h.honours_iff hl hmsg hconnect delay send⟩

/-- The connect request of a client. -/
def connectMessage : LeaseMessage where
  requestorPid := some (text "uuid-1")
  request := some (text "connect,3600000,keep,true")
  destination := ⟨.ofBuffer (text "tcp"), .ofBuffer (text "10.0.0.1:9701"), none, none⟩
  source := ⟨.ofBuffer (text "tcp"), .ofBuffer (text "10.0.0.2:9701"), none, none⟩

/-- A client is answered, and asks again 10 minutes later. -/
theorem lease_agreement_iff_renewal :
    ∃ self outs, runOps step (start [] [] [] 5000 0)
      [.receive connectMessage, .respond 0 0 .success, .wait 600000] = .ok (self, outs) ∧
      (Agrees self (seen outs) ↔ RenewedInTime self (seen outs)) ∧
      ∃ l ∈ self.leases, self.Honours l.requestorId connectMessage 0 .success ↔
        self.leases.length < self.maxLeasesAllowed ∧ Status.success = .success ∧
          l.requestorAddress = connectMessage.source := by
  have hpair := lease_agreement_iff [] [] [] 5000 0
    [.receive connectMessage, .respond 0 0 .success, .wait 600000] _ _ rfl
  refine ⟨_, _, rfl, hpair.1, _, mem_singleton.mpr rfl, ?_⟩
  exact hpair.2 _ (mem_singleton.mpr rfl) connectMessage _ 0 .success rfl (by decide)

/-- A client is answered; 20 minutes later the lease is not valid any more. -/
theorem not_agrees :
    ¬∀ (events : List Event) (self : RelayServer) (outs : List (Option Logged)),
      runOps step (start [] [] [] 5000 0) events = .ok (self, outs) → Agrees self (seen outs) := by
  intro h
  have hagrees := h [.receive connectMessage, .respond 0 0 .success, .wait 1200000] _ _ rfl
  obtain ⟨l, hl, -, hvalid⟩ := hagrees _ ⟨[], [], rfl, not_mem_nil⟩ (by decide)
  obtain rfl := mem_singleton.mp hl
  exact absurd hvalid (by decide)

end JxtaC.RelayServer
