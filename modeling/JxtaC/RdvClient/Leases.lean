import JxtaC.Lib.Transition
import JxtaC.RdvClient

/-
  The leases in runs of careful steps. Every entry that the periodic run still has to look at is the
  one of its peer in the table, and one that is about to be taken from the table holds no lease
  (`Inv.dead`); an entry from which all requests to its peer went out carries their back-off (`Backed`).
-/

namespace JxtaC

open Lib List

namespace RdvClient

/-! ## what happened -/

/-- The peer to which something happened. -/
def Event.peerid : Event → CString
  | .request peerid _ _ => peerid
  | .grant peerid _ _ => peerid
  | .denial peerid _ => peerid
  | .failure peerid => peerid

section Log
variable {peerid : CString} {event : Event} {log : List Event} {n : Nat}

section
variable (h : event.peerid ≠ peerid)
include h

theorem latest_of_ne : latest peerid (event :: log) = latest peerid log := by
  cases event with
  | request peer m time => rfl
  | grant peer time lease => exact if_neg h
  | denial peer m => exact if_neg h
  | failure peer => exact if_neg h

theorem tries_of_ne : tries peerid (event :: log) = tries peerid log := by
  cases event with
  | request peer m time => exact if_neg h
  | grant peer time lease => exact if_neg h
  | denial peer m => rfl
  | failure peer => rfl

theorem undisturbed_of_ne : undisturbed peerid n (event :: log) = undisturbed peerid n log := by
  cases event with
  | request peer m time =>
    have hne : peer ≠ peerid := h
    simp [undisturbed, hne]
  | grant peer time lease =>
    have hne : peer ≠ peerid := h
    simp [undisturbed, hne]
  | denial peer m =>
    have hne : peer ≠ peerid := h
    simp [undisturbed, hne]
  | failure peer => rfl

end

/-- The requests went out from entries that there are. -/
def Logged (log : List Event) (k : Nat) : Prop :=
  ∀ peerid n time, Event.request peerid n time ∈ log → n < k

/-- An entry from which nothing was sent knows of all requests only if there are none. -/
theorem tries_of_undisturbed {k : Nat} (hlogged : Logged log k) (hn : k ≤ n)
    (h : undisturbed peerid n log = true) : tries peerid log = [] := by
  induction log with
  | nil => rfl
  | cons event log ih =>
    have hrest : Logged log k := fun p m t hmem => hlogged p m t (mem_cons_of_mem _ hmem)
    by_cases hne : event.peerid = peerid
    · subst hne
      cases event with
      | request peer m time =>
        simp only [undisturbed, Event.peerid, ne_eq, not_true_eq_false, false_or, Bool.and_eq_true,
          decide_eq_true_eq] at h
        have hlt := hlogged peer m time mem_cons_self
        omega
      | grant peer time lease => simp [tries, Event.peerid]
      | denial peer m =>
        simp only [undisturbed, Bool.and_eq_true] at h
        exact ih hrest h.2
      | failure peer => exact ih hrest h
    · rw [undisturbed_of_ne hne] at h
      rw [tries_of_ne hne]
      exact ih hrest h

/-- Where there are no requests, an entry knows of all. -/
theorem undisturbed_of_tries (h : tries peerid log = []) : undisturbed peerid n log = true := by
  induction log with
  | nil => rfl
  | cons event log ih =>
    by_cases hne : event.peerid = peerid
    · subst hne
      cases event with
      | request peer m time => simp [tries, Event.peerid] at h
      | grant peer time lease => simp [undisturbed, Event.peerid]
      | denial peer m =>
        have htries : tries peer log = [] := h
        simp only [undisturbed, Event.peerid, Bool.and_eq_true]
        exact ⟨decide_eq_true (.inr (.inr (by simp [htries]))), ih htries⟩
      | failure peer => exact ih h
    · rw [tries_of_ne hne] at h
      rw [undisturbed_of_ne hne]
      exact ih h

end Log

/-! ## what careful steps keep -/

/-- The entries that the run still has to look at. -/
def Point.todo : Point → List Nat
  | .waiting => []
  | .leases rdvs _ => rdvs
  | .expired n rdvs _ => n :: rdvs
  | .renewals rdvs _ => rdvs
  | .renewing n rdvs _ => n :: rdvs
  | .renewalSent n rdvs _ => n :: rdvs
  | .candidateSent _ => []

/-- The entry that is about to be taken is still to be looked at. -/
theorem Point.todo_of_doomed {point : Point} {n : Nat} (hn : n ∈ point.doomed) : n ∈ point.todo := by
  cases point with
  | expired m rdvs nb =>
    cases hn
    exact mem_cons_self
  | _ => exact absurd hn (by simp [Point.doomed])

/-- An entry that knows of all requests to its peer has their back-off. -/
structure Backed (config : Config) (log : List Event) (n : Nat) (peer : Entry) : Prop where
  nonneg : 0 ≤ peer.connectInterval
  delay : undisturbed peer.peerid n log = true →
    config.delay (tries peer.peerid log).length ≤ peer.connectInterval ∧
      ∀ time ∈ (tries peer.peerid log).head?, time ≤ peer.lastConnectTry

/-- Where there are no requests, nothing is asked of an entry. -/
theorem backed_of_tries {config : Config} {log : List Event} {n : Nat} {peer : Entry}
    (h : tries peer.peerid log = []) (hnonneg : 0 ≤ peer.connectInterval) :
    Backed config log n peer := by
  refine ⟨hnonneg, fun _ => ?_⟩
  rw [h]
  refine ⟨?_, by simp⟩
  unfold Config.delay
  simp only [length_nil, Int.natCast_zero, Int.zero_mul]
  omega

/-- The lease is over, or is that of the peer's entry in the table. -/
def State.Holds (s : State) (peerid : CString) (time lease : Int) : Prop :=
  time + lease ≤ s.now ∨ ∃ n peer, s.rdvs.lookup peerid = some n ∧ s.entries[n]? = some peer ∧
    time + lease ≤ peer.expires

structure Inv (s : State) : Prop where
  clock : 0 ≤ s.now
  bounded : s.rdvs.keys.length ≤ s.config.minConnected
  keys : ∀ peerid n, s.rdvs.lookup peerid = some n →
    ∃ peer, s.entries[n]? = some peer ∧ peer.peerid = peerid
  nodup : s.point.todo.Nodup
  listed : ∀ n ∈ s.point.todo, ∃ peer, s.entries[n]? = some peer ∧ s.rdvs.lookup peer.peerid = some n
  dead : ∀ n ∈ s.point.doomed, ∀ peer ∈ s.entries[n]?, ∀ time lease,
    latest peer.peerid s.log = some (time, lease) → time + lease ≤ s.now
  leases : ∀ peerid time lease, latest peerid s.log = some (time, lease) → s.Holds peerid time lease
  logged : Logged s.log s.entries.length
  backed : s.config.Sane → ∀ (n : Nat) (peer : Entry), s.entries[n]? = some peer →
    Backed s.config s.log n peer
  spaced : ∀ peerid, Spaced s.config (tries peerid s.log)

theorem inv_initial (config : Config) (now : Nat) : Inv (initial config now) := by
  refine ⟨Int.natCast_nonneg now, ?_, ?_, ?_, ?_, ?_, ?_, ?_, ?_, fun _ => trivial⟩
  · exact Nat.zero_le _
  · intro peerid n hlookup
    exact absurd hlookup (by simp [initial])
  · exact nodup_nil
  · intro n hn
    exact absurd hn (by simp [initial, Point.todo])
  · intro n hn
    exact absurd hn (by simp [initial, Point.doomed])
  · intro peerid time lease hlatest
    exact absurd hlatest (by simp [initial, latest])
  · intro peerid n time hmem
    exact absurd hmem (by simp [initial])
  · intro _ n peer hpeer
    exact absurd hpeer (by simp [initial])

section Steps
variable {s s' : State}
variable {n : Nat} {peer : Entry} {config : Config} {i : Nat} {rdvs : List Nat} {nb : Nat}

section
variable (h : Inv s)
include h

theorem Inv.lawful : s.Lawful := by
  refine ⟨h.bounded, fun peerid time lease hlatest hnow => ?_, h.spaced⟩
  rcases h.leases peerid time lease hlatest with hover | ⟨n, peer, hlookup, -, -⟩
  · omega
  · exact Option.isSome_iff_exists.mpr ⟨n, hlookup⟩

/-- The run goes on, and nothing else is changed. -/
theorem Inv.goOn (point : Point) (candidate : Option Nat) (candidates : Option (List CString))
    (hnodup : point.todo.Nodup)
    (hlisted : ∀ n ∈ point.todo, ∃ peer, s.entries[n]? = some peer ∧
      s.rdvs.lookup peer.peerid = some n)
    (hdead : ∀ n ∈ point.doomed, ∀ peer ∈ s.entries[n]?, ∀ time lease,
      latest peer.peerid s.log = some (time, lease) → time + lease ≤ s.now) :
    Inv { s with point := point, candidate := candidate, candidates := candidates } :=
  ⟨h.clock, h.bounded, h.keys, hnodup, hlisted, hdead, h.leases, h.logged, h.backed, h.spaced⟩

/-- Something happens to the peer of an entry, and changes the entry. -/
theorem Inv.happen {peer' : Entry} (event : Event) (hn : s.entries[n]? = some peer)
    (hentries : s'.entries = s.entries.set n peer') (hid : peer'.peerid = peer.peerid)
    (hevent : event.peerid = peer.peerid) (hconfig : s'.config = s.config) (hnow : s'.now = s.now)
    (hrdvs : s'.rdvs = s.rdvs) (hlog : s'.log = event :: s.log) (hpoint : s'.point = s.point)
    (hlatest : ∀ time lease, latest peer.peerid (event :: s.log) = some (time, lease) →
      s'.Holds peer.peerid time lease ∧ ∀ m ∈ s.point.doomed,
        s.rdvs.lookup peer.peerid = some m → time + lease ≤ s.now)
    (hlogged : Logged (event :: s.log) s.entries.length)
    (hbacked : s.config.Sane → Backed s.config (event :: s.log) n peer' ∧
      ∀ m x, m ≠ n → s.entries[m]? = some x → x.peerid = peer.peerid →
        Backed s.config (event :: s.log) m x)
    (hspaced : Spaced s.config (tries peer.peerid (event :: s.log))) : Inv s' := by
  have hget : ∀ {m : Nat} {x : Entry}, s.entries[m]? = some x →
      ∃ x', s'.entries[m]? = some x' ∧ x'.peerid = x.peerid := by
    intro m x hx
    rw [hentries]
    by_cases hm : m = n
    · subst hm
      obtain rfl := Option.some.inj (hn.symm.trans hx)
      exact ⟨peer', (getElem?_set_iff hn).mpr (.inl ⟨rfl, rfl⟩), hid⟩
    · exact ⟨x, (getElem?_set_iff hn).mpr (.inr ⟨hm, hx⟩), rfl⟩
  refine ⟨hnow ▸ h.clock, ?_, fun peerid m hm => ?_, hpoint ▸ h.nodup, fun m hm => ?_,
    fun m hm x hx time lease hl => ?_, fun peerid time lease hl => ?_, ?_, fun hsane m x hx => ?_,
    fun peerid => ?_⟩
  · rw [hrdvs, hconfig]
    exact h.bounded
  · rw [hrdvs] at hm
    obtain ⟨x, hx, hxid⟩ := h.keys peerid m hm
    obtain ⟨x', hx', hxid'⟩ := hget hx
    exact ⟨x', hx', hxid'.trans hxid⟩
  · rw [hpoint] at hm
    obtain ⟨x, hx, hlookup⟩ := h.listed m hm
    obtain ⟨x', hx', hxid'⟩ := hget hx
    exact ⟨x', hx', by rwa [hrdvs, hxid']⟩
  · rw [hpoint] at hm
    rw [hlog] at hl
    rw [hnow]
    obtain ⟨y, hy, hlookup⟩ := h.listed m (Point.todo_of_doomed hm)
    obtain ⟨y', hy', hyid⟩ := hget hy
    obtain rfl := Option.some.inj (hy'.symm.trans hx)
    rw [hyid] at hl
    by_cases hsame : y.peerid = peer.peerid
    · rw [hsame] at hl hlookup
      exact (hlatest time lease hl).2 m hm hlookup
    · rw [latest_of_ne (fun heq => hsame (heq.symm.trans hevent))] at hl
      exact h.dead m hm y hy time lease hl
  · rw [hlog] at hl
    by_cases hsame : peerid = peer.peerid
    · subst hsame
      exact (hlatest time lease hl).1
    · rw [latest_of_ne (fun heq => hsame (heq.symm.trans hevent))] at hl
      rcases h.leases peerid time lease hl with hover | ⟨m, x, hlookup, hx, htime⟩
      · exact .inl (hnow ▸ hover)
      · refine .inr ⟨m, x, hrdvs ▸ hlookup, ?_, htime⟩
        rw [hentries]
        refine (getElem?_set_iff hn).mpr (.inr ⟨?_, hx⟩)
        rintro rfl
        obtain ⟨y, hy, hyid⟩ := h.keys peerid m hlookup
        obtain rfl := Option.some.inj (hn.symm.trans hy)
        exact hsame hyid.symm
  · rw [hlog, hentries, length_set]
    exact hlogged
  · rw [hconfig] at hsane ⊢
    rw [hlog]
    rw [hentries] at hx
    rcases (getElem?_set_iff hn).mp hx with ⟨rfl, rfl⟩ | ⟨hmn, hx⟩
    · exact (hbacked hsane).1
    · by_cases hsame : x.peerid = peer.peerid
      · exact (hbacked hsane).2 m x hmn hx hsame
      · have hne : event.peerid ≠ x.peerid := fun heq => hsame (heq.symm.trans hevent)
        refine ⟨(h.backed hsane m x hx).nonneg, ?_⟩
        rw [undisturbed_of_ne hne, tries_of_ne hne]
        exact (h.backed hsane m x hx).delay
  · rw [hlog, hconfig]
    by_cases hsame : peerid = peer.peerid
    · exact hsame ▸ hspaced
    · rw [tries_of_ne (fun heq => hsame (heq.symm.trans hevent))]
      exact h.spaced peerid

/-- A new entry object. -/
theorem Inv.append (peerid : CString) (expires : Int) :
    Inv { s with entries := s.entries ++ [⟨peerid, expires, 0, 0⟩] } := by
  have hold : ∀ {m : Nat} {x : Entry}, s.entries[m]? = some x →
      (s.entries ++ [(⟨peerid, expires, 0, 0⟩ : Entry)])[m]? = some x :=
    fun hx => getElem?_concat_iff.mpr (.inl hx)
  refine ⟨h.clock, h.bounded, fun k m hm => ?_, h.nodup, fun m hm => ?_,
    fun m hm x hx time lease hl => ?_, fun k time lease hl => ?_, fun k m time hmem => ?_,
    fun hsane m x hx => ?_, h.spaced⟩
  · obtain ⟨x, hx, hid⟩ := h.keys k m hm
    exact ⟨x, hold hx, hid⟩
  · obtain ⟨x, hx, hlookup⟩ := h.listed m hm
    exact ⟨x, hold hx, hlookup⟩
  · obtain ⟨y, hy, -⟩ := h.listed m (Point.todo_of_doomed hm)
    obtain rfl := Option.some.inj ((hold hy).symm.trans hx)
    exact h.dead m hm y hy time lease hl
  · rcases h.leases k time lease hl with hover | ⟨m, x, hlookup, hx, htime⟩
    · exact .inl hover
    · exact .inr ⟨m, x, hlookup, hold hx, htime⟩
  · have hlt := h.logged k m time hmem
    rw [length_append]
    omega
  · rcases getElem?_concat_iff.mp hx with hx | ⟨rfl, rfl⟩
    · exact h.backed hsane m x hx
    · exact ⟨Int.le_refl 0, fun hundisturbed =>
        (backed_of_tries (tries_of_undisturbed h.logged (Nat.le_refl _) hundisturbed)
          (Int.le_refl 0)).delay hundisturbed⟩

/-- The peer of the last entry is put into the table. -/
theorem Inv.insert (peer : Entry) (hn : s.entries[n]? = some peer)
    (hnone : s.rdvs.lookup peer.peerid = none)
    (hroom : s.rdvs.keys.length < s.config.minConnected) :
    Inv { s with rdvs := s.rdvs.insert peer.peerid n } := by
  have hne : ∀ {k : CString} {m : Nat}, s.rdvs.lookup k = some m → k ≠ peer.peerid := by
    rintro k m hk rfl
    rw [hnone] at hk
    cases hk
  refine ⟨h.clock, ?_, fun k m hm => ?_, h.nodup, fun m hm => ?_, h.dead, fun k time lease hl => ?_,
    h.logged, h.backed, h.spaced⟩
  · show (s.rdvs.insert peer.peerid n).keys.length ≤ _
    rw [AList.keys_insert, erase_of_not_mem (AList.lookup_eq_none.mp hnone), length_cons]
    exact hroom
  · by_cases hk : k = peer.peerid
    · subst hk
      have hm' : (s.rdvs.insert peer.peerid n).lookup peer.peerid = some m := hm
      rw [AList.lookup_insert] at hm'
      exact ⟨peer, Option.some.inj hm' ▸ hn, rfl⟩
    · have hm' : (s.rdvs.insert peer.peerid n).lookup k = some m := hm
      rw [AList.lookup_insert_ne hk] at hm'
      exact h.keys k m hm'
  · obtain ⟨x, hx, hlookup⟩ := h.listed m hm
    refine ⟨x, hx, ?_⟩
    show (s.rdvs.insert peer.peerid n).lookup x.peerid = _
    rw [AList.lookup_insert_ne (hne hlookup), hlookup]
  · rcases h.leases k time lease hl with hover | ⟨m, x, hlookup, hx, htime⟩
    · exact .inl hover
    · refine .inr ⟨m, x, ?_, hx, htime⟩
      show (s.rdvs.insert peer.peerid n).lookup k = _
      rw [AList.lookup_insert_ne (hne hlookup), hlookup]

/-- Nothing is said of the replies that are handled. -/
theorem Inv.replies (replies : List Reply) : Inv { s with replies := replies } :=
  ⟨h.clock, h.bounded, h.keys, h.nodup, h.listed, h.dead, h.leases, h.logged, h.backed, h.spaced⟩

theorem Inv.receive {peerid : CString} {lease : Int} : Inv (s.receive peerid lease) := by
  have hentry : Inv (s.getPeerEntry peerid (0 < lease)).1 := by
    unfold State.getPeerEntry
    split
    next => exact h
    next hnone =>
      split
      next hroom =>
        exact (h.append peerid absoluteTimeMax).insert ⟨peerid, absoluteTimeMax, 0, 0⟩
          (getElem?_concat_iff.mpr (.inr ⟨rfl, rfl⟩)) hnone hroom.2
      next => exact h
  unfold State.receive
  split
  next s' n heq =>
    rw [heq] at hentry
    exact hentry.replies _
  next s' heq =>
    rw [heq] at hentry
    exact hentry

end

/-- The delay grows with the number of requests. -/
theorem Config.Sane.delay_succ (h : config.Sane) {k : Nat} {interval : Int}
    (hk : config.delay k ≤ interval) :
    config.delay (k + 1) ≤ if config.maxRetryDelay < interval + config.minRetryDelay then
      config.maxRetryDelay else interval + config.minRetryDelay := by
  obtain ⟨hmin, hmax⟩ := h
  have hsucc : ((k + 1 : Nat) : Int) * config.minRetryDelay =
      k * config.minRetryDelay + config.minRetryDelay := by
    rw [Int.natCast_succ, Int.add_mul, Int.one_mul]
  unfold Config.delay at hk ⊢
  rw [hsucc]
  split <;> omega

theorem Config.Sane.min_le_delay (h : config.Sane) (k : Nat) :
    config.minRetryDelay ≤ config.delay (k + 1) := by
  obtain ⟨hmin, hmax⟩ := h
  have hmul : 0 ≤ (k : Int) * config.minRetryDelay := Int.mul_nonneg (Int.natCast_nonneg k) hmin
  unfold Config.delay
  rw [Int.natCast_succ, Int.add_mul, Int.one_mul]
  omega

/-- There is hardly a delay behind one request. -/
theorem Config.Sane.delay_le_min (h : config.Sane) {k : Nat} (hk : k ≤ 1) :
    config.delay k ≤ config.minRetryDelay := by
  have hmin := h.1
  unfold Config.delay
  rcases Nat.le_one_iff_eq_zero_or_eq_one.mp hk with rfl | rfl
  · simp only [Int.natCast_zero, Int.zero_mul]
    omega
  · simp only [Int.natCast_one, Int.one_mul]
    omega

section
variable (h : Inv s)
include h

section
variable (hn : s.entries[n]? = some peer)
include hn

/-- A request that is due. -/
theorem Inv.connect (hdue : s.Due peer) (hsane : s.config.Sane)
    (hundisturbed : undisturbed peer.peerid n s.log = true) : Inv (s.connect n peer) := by
  have hlt : n < s.entries.length := (List.getElem?_eq_some_iff.mp hn).1
  have hbacked := h.backed hsane n peer hn
  obtain ⟨hdelay, hlast⟩ := hbacked.delay hundisturbed
  have htries : ∀ time, tries peer.peerid (.request peer.peerid n time :: s.log) =
      time :: tries peer.peerid s.log := fun time => if_pos rfl
  have hdue' : peer.lastConnectTry + peer.connectInterval ≤ s.now := Int.not_lt.mp hdue
  refine h.happen (.request peer.peerid n s.now) hn rfl rfl rfl rfl rfl rfl rfl rfl
    (fun time lease hl => ⟨?_, fun m hm hlookup => ?_⟩) (fun k m time hmem => ?_)
    (fun _ => ⟨⟨?_, fun _ => ?_⟩, fun m x hmn hx hid => ?_⟩) ?_
  · rcases h.leases _ time lease hl with hover | ⟨m, x, hlookup, hx, htime⟩
    · exact .inl hover
    · by_cases hm : m = n
      · subst hm
        obtain rfl := Option.some.inj (hn.symm.trans hx)
        exact .inr ⟨m, _, hlookup, (getElem?_set_iff hn).mpr (.inl ⟨rfl, rfl⟩), htime⟩
      · exact .inr ⟨m, x, hlookup, (getElem?_set_iff hn).mpr (.inr ⟨hm, hx⟩), htime⟩
  · obtain ⟨x, hx, hlookup'⟩ := h.listed m (Point.todo_of_doomed hm)
    obtain ⟨y, hy, hid⟩ := h.keys _ m hlookup
    obtain rfl := Option.some.inj (hx.symm.trans hy)
    exact h.dead m hm x hx time lease (hid ▸ hl)
  · rcases mem_cons.mp hmem with heq | hmem
    · cases heq
      exact hlt
    · exact h.logged k m time hmem
  · have hnonneg := hbacked.nonneg
    obtain ⟨hmin, hmax⟩ := hsane
    dsimp only
    split <;> omega
  · rw [htries]
    refine ⟨hsane.delay_succ hdelay, fun time htime => ?_⟩
    exact (Option.some.inj htime) ▸ Int.le_refl _
  · refine ⟨(h.backed hsane m x hx).nonneg, fun hm => ?_⟩
    rw [hid] at hm
    simp [undisturbed, Ne.symm hmn] at hm
  · rw [htries]
    cases hcase : tries peer.peerid s.log with
    | nil => trivial
    | cons time times =>
      rw [hcase] at hdelay hlast
      have hspaced := h.spaced peer.peerid
      rw [hcase] at hspaced
      have htime := hlast time rfl
      have hmin := hsane.min_le_delay times.length
      rw [length_cons] at hdelay
      exact ⟨by omega, by omega, hspaced⟩

/-- A request could not be sent. -/
theorem Inv.fail : Inv (s.fail n peer) := by
  have hnone : latest peer.peerid (.failure peer.peerid :: s.log) = none := if_pos rfl
  refine h.happen (.failure peer.peerid) hn rfl rfl rfl rfl rfl rfl rfl rfl
    (fun time lease hl => ?_) (fun k m time hmem => ?_) (fun hsane => ⟨?_, fun m x _ hx _ => ?_⟩)
    (h.spaced peer.peerid)
  · rw [hnone] at hl
    cases hl
  · exact h.logged k m time ((mem_cons.mp hmem).resolve_left (by simp))
  · exact ⟨(h.backed hsane n peer hn).nonneg, (h.backed hsane n peer hn).delay⟩
  · exact ⟨(h.backed hsane m x hx).nonneg, (h.backed hsane m x hx).delay⟩

/-- A reply is applied to its entry. -/
theorem Inv.settle {lease : Int}
    (hcare : 0 < lease → s.rdvs.lookup peer.peerid = some n ∧ s.now + lease ≤ absoluteTimeMax ∧
      n ∉ s.point.doomed) :
    Inv (s.settle n peer lease) := by
  unfold State.settle
  split
  next hlease =>
    obtain ⟨hlookup, hmax, halive⟩ := hcare hlease
    have hclock := h.clock
    have htime : (s.now + lease).bmod (2 ^ 64) = s.now + lease := by
      unfold absoluteTimeMax at hmax
      exact Int.bmod_eq_of_le (by omega) (by omega)
    have hnil : tries peer.peerid (.grant peer.peerid s.now lease :: s.log) = [] := if_pos rfl
    refine h.happen (.grant peer.peerid s.now lease) hn rfl rfl rfl rfl rfl rfl rfl rfl
      (fun time lease' hl => ⟨?_, fun m hm hlookup' => ?_⟩) (fun k m time hmem => ?_)
      (fun hsane => ⟨backed_of_tries hnil (Int.le_refl 0), fun m x _ hx hid =>
        backed_of_tries (hid ▸ hnil) (h.backed hsane m x hx).nonneg⟩) ?_
    · have hl' : some (s.now, lease) = some (time, lease') := (if_pos rfl).symm.trans hl
      cases hl'
      exact .inr ⟨n, _, hlookup, (getElem?_set_iff hn).mpr (.inl ⟨rfl, rfl⟩), Int.le_of_eq htime.symm⟩
    · obtain rfl := Option.some.inj (hlookup.symm.trans hlookup')
      exact absurd hm halive
    · exact h.logged k m time ((mem_cons.mp hmem).resolve_left (by simp))
    · rw [hnil]
      trivial
  next hlease =>
    have hnone : latest peer.peerid (.denial peer.peerid n :: s.log) = none := if_pos rfl
    refine h.happen (.denial peer.peerid n) hn rfl rfl rfl rfl rfl rfl rfl rfl
      (fun time lease' hl => ?_) (fun k m time hmem => ?_)
      (fun hsane => ⟨⟨hsane.1, fun hundisturbed => ?_⟩, fun m x hmn hx hid => ⟨?_, fun hm => ?_⟩⟩)
      (h.spaced peer.peerid)
    · rw [hnone] at hl
      cases hl
    · exact h.logged k m time ((mem_cons.mp hmem).resolve_left (by simp))
    · simp only [undisturbed, ne_eq, not_true_eq_false, false_or, Bool.and_eq_true,
        decide_eq_true_eq] at hundisturbed
      obtain ⟨hfew, hundisturbed⟩ := hundisturbed
      exact ⟨hsane.delay_le_min hfew, ((h.backed hsane n peer hn).delay hundisturbed).2⟩
    · exact (h.backed hsane m x hx).nonneg
    · simp only [undisturbed, Bool.and_eq_true] at hm
      exact (h.backed hsane m x hx).delay hm.2

end

/-- The entries of the table are those of their peers. -/
theorem Inv.listed_values : ∀ n ∈ s.values, ∃ peer, s.entries[n]? = some peer ∧
    s.rdvs.lookup peer.peerid = some n := by
  intro n hn
  obtain ⟨⟨peerid, m⟩, hmem, rfl⟩ := mem_map.mp hn
  have hlookup : s.rdvs.lookup peerid = some m := AList.mem_lookup_iff.mpr hmem
  obtain ⟨peer, hpeer, rfl⟩ := h.keys peerid m hlookup
  exact ⟨peer, hpeer, hlookup⟩

theorem Inv.nodup_values : s.values.Nodup := by
  refine List.Nodup.map_on ?_ s.rdvs.nodupKeys.nodup
  rintro ⟨k, n⟩ hk ⟨k', n'⟩ hk' heq
  obtain rfl : n = n' := heq
  obtain ⟨peer, hpeer, rfl⟩ := h.keys k n (AList.mem_lookup_iff.mpr hk)
  obtain ⟨peer', hpeer', rfl⟩ := h.keys k' n (AList.mem_lookup_iff.mpr hk')
  obtain rfl := Option.some.inj (hpeer.symm.trans hpeer')
  rfl

/-- A part of what is to be looked at is left. -/
theorem Inv.goOn_of_subset {point : Point} (hnodup : point.todo.Nodup)
    (hsub : ∀ n ∈ point.todo, n ∈ s.point.todo) (hdead : point.doomed = none) :
    Inv { s with point := point } :=
  h.goOn point s.candidate s.candidates hnodup (fun n hn => h.listed n (hsub n hn)) (by simp [hdead])

end

/-- What is left of the entries behind the choice of one of them. -/
theorem nodup_cons_eraseIdx {l : List Nat} (hi : l[i]? = some n) (h : l.Nodup) :
    (n :: l.eraseIdx i).Nodup ∧ ∀ m ∈ n :: l.eraseIdx i, m ∈ l := by
  obtain ⟨before, behind, hsplit, -, herase⟩ := exists_split hi
  rw [herase]
  subst hsplit
  refine ⟨nodup_middle.mp h, fun m hm => ?_⟩
  simpa [or_left_comm] using hm

theorem Inv.checkLease (h : Inv s) (hpoint : s.point = .leases rdvs nb) (hi : rdvs[i]? = some n)
    (hn : s.entries[n]? = some peer) :
    Inv { s with
      point := if s.checkPeerLease peer then .leases (rdvs.eraseIdx i) (nb + 1)
        else .expired n (rdvs.eraseIdx i) nb } := by
  have htodo : s.point.todo = rdvs := by rw [hpoint, Point.todo]
  obtain ⟨hnodup, hsub⟩ := nodup_cons_eraseIdx hi (htodo ▸ h.nodup)
  split
  next =>
    refine h.goOn_of_subset hnodup.of_cons (fun m hm => ?_) rfl
    exact htodo ▸ hsub m (mem_cons_of_mem _ hm)
  next hexpired =>
    refine h.goOn _ s.candidate s.candidates hnodup (fun m hm => h.listed m (htodo ▸ hsub m hm)) ?_
    intro m hm x hx time lease hl
    cases hm
    obtain rfl := Option.some.inj (hn.symm.trans hx)
    have hover : peer.expires ≤ s.now := by
      simp only [State.checkPeerLease, decide_eq_true_eq] at hexpired
      omega
    rcases h.leases _ time lease hl with hdone | ⟨k, y, hlookup, hy, htime⟩
    · exact hdone
    · obtain ⟨x, hx, hlookup'⟩ := h.listed n (htodo ▸ mem_of_getElem? hi)
      obtain rfl := Option.some.inj (hn.symm.trans hx)
      obtain rfl := Option.some.inj (hlookup.symm.trans hlookup')
      obtain rfl := Option.some.inj (hn.symm.trans hy)
      omega

theorem Inv.checkConnect (h : Inv s) (hpoint : s.point = .renewals rdvs nb)
    (hi : rdvs[i]? = some n) :
    Inv { s with
      point := if s.checkPeerConnect peer then .renewing n (rdvs.eraseIdx i) nb
        else .renewals (rdvs.eraseIdx i) nb } := by
  have htodo : s.point.todo = rdvs := by rw [hpoint, Point.todo]
  obtain ⟨hnodup, hsub⟩ := nodup_cons_eraseIdx hi (htodo ▸ h.nodup)
  split
  next => exact h.goOn_of_subset hnodup (fun m hm => htodo ▸ hsub m hm) rfl
  next =>
    refine h.goOn_of_subset hnodup.of_cons (fun m hm => ?_) rfl
    exact htodo ▸ hsub m (mem_cons_of_mem _ hm)

/-- An entry without a lease is taken from the table. -/
theorem Inv.delete (h : Inv s) (hpoint : s.point = .expired n rdvs nb)
    (hn : s.entries[n]? = some peer) :
    Inv { s with rdvs := s.rdvs.erase peer.peerid, point := .leases rdvs nb } := by
  have htodo : s.point.todo = n :: rdvs := by rw [hpoint, Point.todo]
  have hnodup : (n :: rdvs).Nodup := htodo ▸ h.nodup
  obtain ⟨x, hx, hlookup⟩ := h.listed n (htodo ▸ mem_cons_self)
  obtain rfl := Option.some.inj (hn.symm.trans hx)
  have hdead := h.dead n (by rw [hpoint]; rfl) peer hn
  have hkept : ∀ {k : CString} {m : Nat}, (s.rdvs.erase peer.peerid).lookup k = some m →
      k ≠ peer.peerid ∧ s.rdvs.lookup k = some m := by
    intro k m hk
    have hne : k ≠ peer.peerid := by
      rintro rfl
      rw [AList.lookup_erase] at hk
      cases hk
    exact ⟨hne, by rwa [AList.lookup_erase_ne hne] at hk⟩
  refine ⟨h.clock, ?_, fun k m hm => h.keys k m (hkept hm).2, hnodup.of_cons, fun m hm => ?_,
    fun m hm => absurd hm (by simp [Point.doomed]), fun k time lease hl => ?_, h.logged, h.backed,
    h.spaced⟩
  · show (s.rdvs.erase peer.peerid).keys.length ≤ _
    rw [AList.keys_erase]
    exact Nat.le_trans (length_erase_le) h.bounded
  · obtain ⟨y, hy, hlookup'⟩ := h.listed m (htodo ▸ mem_cons_of_mem _ hm)
    refine ⟨y, hy, ?_⟩
    show (s.rdvs.erase peer.peerid).lookup y.peerid = _
    rw [AList.lookup_erase_ne, hlookup']
    intro hid
    rw [hid, hlookup] at hlookup'
    cases hlookup'
    exact (nodup_cons.mp hnodup).1 hm
  · rcases h.leases k time lease hl with hover | ⟨m, y, hlookup', hy, htime⟩
    · exact .inl hover
    · by_cases hk : k = peer.peerid
      · subst hk
        exact .inl (hdead time lease hl)
      · refine .inr ⟨m, y, ?_, hy, htime⟩
        show (s.rdvs.erase peer.peerid).lookup k = _
        rw [AList.lookup_erase_ne hk, hlookup']

theorem Inv.tick {d : Nat} (h : Inv s) : Inv { s with now := s.now + d } := by
  have hlater : ∀ x : Int, x ≤ s.now → x ≤ s.now + d := fun x hx => by omega
  refine ⟨hlater 0 h.clock, h.bounded, h.keys, h.nodup, h.listed,
    fun n hn peer hpeer time lease hl => hlater _ (h.dead n hn peer hpeer time lease hl),
    fun peerid time lease hl => ?_, h.logged, h.backed, h.spaced⟩
  rcases h.leases peerid time lease hl with hover | hheld
  · exact .inl (hlater _ hover)
  · exact .inr hheld

/-! ## requests while the table is full -/

theorem keeps_of_log (h : s'.log = s.log) : Keeps s s' := by
  intro _ peerid n time hlog
  have hlength := congrArg List.length (h.symm.trans hlog)
  simp at hlength

theorem keeps_of_event (event : Event) (hlog : s'.log = event :: s.log)
    (h : s.Full → ∀ peerid n time, event = .request peerid n time →
      (s.rdvs.lookup peerid).isSome = true) : Keeps s s' := by
  intro hfull peerid n time hlog'
  exact h hfull peerid n time (List.cons.inj (hlog.symm.trans hlog')).1

/-- A candidate is taken. -/
theorem Inv.takeCandidate {peerid : CString} {candidates : List CString} (h : Inv s)
    (hsane : s.config.Sane) (htries : tries peerid s.log = [])
    (hfull : s.Full → (s.rdvs.lookup peerid).isSome = true) :
    Inv (s.takeCandidate peerid candidates) ∧ Keeps s (s.takeCandidate peerid candidates) := by
  have happended : Inv { s with
      entries := s.entries ++ [⟨peerid, 0, 0, 0⟩]
      point := .waiting
      candidate := some s.entries.length
      candidates := some candidates } :=
    (h.append peerid 0).goOn .waiting (some s.entries.length) (some candidates)
      nodup_nil (fun n hn => absurd hn (by simp [Point.todo]))
      (fun n hn => absurd hn (by simp [Point.doomed]))
  unfold State.takeCandidate
  dsimp only
  split
  next hdue =>
    refine ⟨?_, keeps_of_event (.request peerid s.entries.length s.now) rfl ?_⟩
    · have hconnected := happended.connect (n := s.entries.length)
        (getElem?_concat_iff.mpr (.inr ⟨rfl, rfl⟩)) hdue hsane (undisturbed_of_tries htries)
      exact hconnected.goOn (.candidateSent s.entries.length) _ _ nodup_nil
        (fun n hn => absurd hn (by simp [Point.todo])) (fun n hn => absurd hn (by simp [Point.doomed]))
    · intro hs k n time heq
      cases heq
      exact hfull hs
  next => exact ⟨happended, keeps_of_log rfl⟩

theorem Inv.search {view : List CString} (h : Inv s)
    (hcare : s.keptCandidate = none → ∀ candidates ∈ (s.cleared nb).toOption,
      ∀ peerid ∈ (State.loaded candidates view).head?, s.config.Sane ∧ tries peerid s.log = [] ∧
        (s.Full → (s.rdvs.lookup peerid).isSome = true)) (hsearch : s.search nb view = .ok s') :
    Inv s' ∧ Keeps s s' := by
  unfold State.search at hsearch
  obtain ⟨candidates, hcleared, hsearch⟩ := bind_eq_ok.mp hsearch
  split at hsearch
  next peerid rest hkept hloaded =>
    cases hsearch
    have hmem : candidates ∈ (s.cleared nb).toOption := by
      rw [hcleared]
      rfl
    obtain ⟨hsane, htries, hfull⟩ := hcare hkept candidates hmem peerid (by rw [hloaded]; rfl)
    exact h.takeCandidate hsane htries hfull
  next =>
    cases hsearch
    exact ⟨h.goOn .waiting _ _ nodup_nil (fun n hn => absurd hn (by simp [Point.todo]))
      (fun n hn => absurd hn (by simp [Point.doomed])), keeps_of_log rfl⟩

theorem log_receive (s : State) (peerid : CString) (lease : Int) :
    (s.receive peerid lease).log = s.log := by
  have hentry : (s.getPeerEntry peerid (0 < lease)).1.log = s.log := by
    unfold State.getPeerEntry
    split
    next => rfl
    next => split <;> rfl
  unfold State.receive
  split
  next s' n heq =>
    rw [heq] at hentry
    exact hentry
  next s' heq =>
    rw [heq] at hentry
    exact hentry

theorem keeps_settle (s : State) (n : Nat) (peer : Entry) (lease : Int) (replies : List Reply) :
    Keeps s { s.settle n peer lease with replies := replies } := by
  unfold State.settle
  split
  next => exact keeps_of_event (.grant peer.peerid s.now lease) rfl (by simp)
  next => exact keeps_of_event (.denial peer.peerid n) rfl (by simp)

/-- The run goes on behind a send. -/
theorem Inv.send {point : Point} (h : Inv s) (hn : s.entries[n]? = some peer) (sent : Bool)
    (hnodup : point.todo.Nodup) (hsub : ∀ m ∈ point.todo, m ∈ s.point.todo)
    (hdead : point.doomed = none) : Inv { if sent then s else s.fail n peer with point := point } ∧
      Keeps s { if sent then s else s.fail n peer with point := point } := by
  cases sent with
  | false =>
    exact ⟨(h.fail hn).goOn_of_subset hnodup hsub hdead,
      keeps_of_event (.failure peer.peerid) rfl (by simp)⟩
  | true => exact ⟨h.goOn_of_subset hnodup hsub hdead, keeps_of_log rfl⟩

theorem Inv.next {a : Action} (h : Inv s) (hcare : Careful s a) (hnext : Next s a s') :
    Inv s' ∧ Keeps s s' := by
  unfold Next step at hnext
  cases a with
  | receive peerid lease =>
    cases hnext
    exact ⟨h.receive, keeps_of_log (log_receive s peerid lease)⟩
  | settle i =>
    dsimp only at hnext
    split at hnext
    next reply hreply =>
      obtain ⟨peer, hpeer, heq⟩ := Option.map_eq_some_iff.mp hnext
      cases heq
      refine ⟨(h.settle hpeer fun hlease => ?_).replies _, keeps_settle s _ _ _ _⟩
      exact hcare reply hreply hlease peer hpeer
    next => cases hnext
  | run =>
    dsimp only at hnext
    split at hnext
    next =>
      cases hnext
      exact ⟨h.goOn _ s.candidate s.candidates h.nodup_values h.listed_values
        (fun n hn => absurd hn (by simp [Point.doomed])), keeps_of_log rfl⟩
    next => cases hnext
  | check i =>
    dsimp only at hnext
    split at hnext
    next rdvs nb hpoint =>
      split at hnext
      next n hi =>
        obtain ⟨peer, hpeer, heq⟩ := Option.map_eq_some_iff.mp hnext
        cases heq
        exact ⟨h.checkLease hpoint hi hpeer, keeps_of_log rfl⟩
      next => cases hnext
    next rdvs nb hpoint =>
      split at hnext
      next n hi =>
        obtain ⟨peer, hpeer, heq⟩ := Option.map_eq_some_iff.mp hnext
        cases heq
        exact ⟨h.checkConnect hpoint hi, keeps_of_log rfl⟩
      next => cases hnext
    next => cases hnext
  | delete =>
    dsimp only at hnext
    split at hnext
    next n rdvs nb hpoint =>
      obtain ⟨peer, hpeer, heq⟩ := Option.map_eq_some_iff.mp hnext
      cases heq
      exact ⟨h.delete hpoint hpeer, keeps_of_log rfl⟩
    next => cases hnext
  | secondPass =>
    dsimp only at hnext
    split at hnext
    next =>
      cases hnext
      exact ⟨h.goOn _ s.candidate s.candidates h.nodup_values h.listed_values
        (fun n hn => absurd hn (by simp [Point.doomed])), keeps_of_log rfl⟩
    next => cases hnext
  | connect =>
    dsimp only at hnext
    split at hnext
    next n rdvs nb hpoint =>
      obtain ⟨peer, hpeer, heq⟩ := Option.map_eq_some_iff.mp hnext
      have htodo : s.point.todo = n :: rdvs := by rw [hpoint, Point.todo]
      have hnodup : (n :: rdvs).Nodup := htodo ▸ h.nodup
      split at heq
      next hdue =>
        cases heq
        simp only [Careful, hpoint] at hcare
        obtain ⟨hsane, hundisturbed⟩ := hcare peer hpeer hdue
        refine ⟨(h.connect hpeer hdue hsane hundisturbed).goOn_of_subset hnodup
          (fun m hm => htodo ▸ hm) rfl, keeps_of_event (.request peer.peerid n s.now) rfl ?_⟩
        -- the entry is still in the table
        intro _ peerid m time hevent
        cases hevent
        obtain ⟨x, hx, hlookup⟩ := h.listed n (htodo ▸ mem_cons_self)
        obtain rfl := Option.some.inj (hpeer.symm.trans hx)
        exact Option.isSome_iff_exists.mpr ⟨n, hlookup⟩
      next =>
        cases heq
        exact ⟨h.goOn_of_subset hnodup.of_cons
          (fun m hm => htodo ▸ mem_cons_of_mem _ hm) rfl, keeps_of_log rfl⟩
    next => cases hnext
  | send sent =>
    dsimp only at hnext
    split at hnext
    next n rdvs nb hpoint =>
      obtain ⟨peer, hpeer, heq⟩ := Option.map_eq_some_iff.mp hnext
      cases heq
      have htodo : s.point.todo = n :: rdvs := by rw [hpoint, Point.todo]
      have hnodup : (n :: rdvs).Nodup := htodo ▸ h.nodup
      exact h.send hpeer sent hnodup.of_cons (fun m hm => htodo ▸ mem_cons_of_mem _ hm) rfl
    next n hpoint =>
      obtain ⟨peer, hpeer, heq⟩ := Option.map_eq_some_iff.mp hnext
      cases heq
      exact h.send hpeer sent nodup_nil (fun m hm => absurd hm (by simp [Point.todo])) rfl
    next => cases hnext
  | search view =>
    dsimp only at hnext
    split at hnext
    next nb hpoint =>
      simp only [Careful, hpoint] at hcare
      exact h.search hcare (Option.some.inj hnext)
    next => cases hnext
  | tick d =>
    dsimp only at hnext
    split at hnext
    next =>
      cases hnext
      exact ⟨h.tick, keeps_of_log rfl⟩
    next => cases hnext

/-- Runs of careful steps keep the law of the leases, and send requests to peers outside a table that
is full to none. -/
theorem leases_lawful {config : Config} {now : Nat}
    (hreaches : Reaches Next Careful (initial config now) s) :
    s.Lawful ∧ ∀ a s', Careful s a → Next s a s' → Keeps s s' := by
  have hinv : Inv s :=
    hreaches.invariant (inv_initial config now) fun h hcare hnext => (h.next hcare hnext).1
  exact ⟨hinv.lawful, fun a s' hcare hnext => (hinv.next hcare hnext).2⟩

end Steps

/-! ## runs -/

instance (s : State) : Decidable s.Full := inferInstanceAs (Decidable (_ ∧ _))

instance (s : State) (a : Action) : Decidable (Careful s a) := by
  unfold Careful
  split
  · infer_instance
  · split <;> infer_instance
  · split <;> infer_instance
  · infer_instance

/-- The state behind a step, under a condition. -/
def call (ok : State → Action → Bool) (s : State) (a : Action) : Option State :=
  if ok s a then (step s a).bind Except.toOption else none

theorem call_eq_some {ok : State → Action → Bool} {s s' : State} {a : Action}
    (h : call ok s a = some s') : ok s a = true ∧ Next s a s' := by
  unfold call at h
  split at h
  next hok =>
    obtain ⟨r, hstep, hr⟩ := Option.bind_eq_some_iff.mp h
    cases r with
    | error f => cases hr
    | ok t =>
      cases hr
      exact ⟨hok, hstep⟩
  next => cases h

/-- The peer that grants a lease. -/
def rdvId : CString := .ofBuffer (text "uuid-rdv")

/-- A peer that the table has no room for. -/
def otherId : CString := .ofBuffer (text "uuid-other")

/-- One rendezvous, which has a lease. -/
def leased : State :=
  ⟨⟨1, 15, 45, 300⟩, 100, [⟨rdvId, 0, 100, 15⟩, ⟨rdvId, 1100, 100, 0⟩], AList.insert rdvId 1 ∅, [],
    .waiting, some 0, some [], [.grant rdvId 100 1000, .request rdvId 0 100]⟩

/-- The first run finds a candidate, and it grants a lease. -/
def firstRun : List Action :=
  [.run, .secondPass, .search [rdvId], .send true, .receive rdvId 1000, .settle 0]

theorem leases_lawful_leased : leased.Lawful ∧
    ∀ a s', Careful leased a → Next leased a s' → Keeps leased s' := by
  have hrun : Reaches Next Careful (initial ⟨1, 15, 45, 300⟩ 100) leased :=
    reaches_of_foldlM (f := call fun s a => decide (Careful s a))
      (fun h => ⟨of_decide_eq_true (call_eq_some h).1, (call_eq_some h).2⟩) (l := firstRun) rfl
  exact leases_lawful hrun

/-- The next run takes the first peer of the local view, although the table is full. -/
theorem not_leases_lawful : ¬ ∀ config now s,
    Reaches Next (fun _ _ => True) (initial config now) s →
      s.Lawful ∧ ∀ a s', Next s a s' → Keeps s s' := by
  intro h
  have hrun : Reaches Next (fun _ _ => True) (initial ⟨1, 15, 45, 300⟩ 100)
      { leased with now := 150, point := .renewals [] 1 } :=
    reaches_of_foldlM (f := call fun _ _ => true) (fun h => ⟨trivial, (call_eq_some h).2⟩)
      (l := firstRun ++ [.tick 50, .run, .check 0, .secondPass, .check 0]) rfl
  have hkeeps := (h _ _ _ hrun).2 (.search [otherId]) _ rfl
  have hlookup := hkeeps (by decide) otherId 2 150 rfl
  cases hlookup

end RdvClient

end JxtaC
