import JxtaC.Walk.Tokens
import Mathlib.Data.List.Perm.Basic

/-
  Every walk ends. Whatever the peers know of each other at each delivery, a message is passed on
  at most once, with a TTL that is smaller and still positive; so a weight of the messages on their
  way that grows with the TTL goes down. `walk_ends` says so of the network.
-/

namespace JxtaC.Walk

open Lib List

variable {xmlParse : XmlParser} {send : Transmission → Status}

/-- The TTL in the header of a message. -/
def headerTTL (xmlParse : XmlParser) (msg : List MessageElement) : Option Int :=
  match getElement2 msg rdvNsName limitedRangeWalkElement with
  | none => none
  | some el =>
    match LimitedRangeRdvMessage.parse xmlParse el.body.value with
    | (header, .success) => some header.ttl
    | _ => none

/-- At every delivery, with the peers in any state, what is sent on has a smaller TTL; and there
    are not more deliveries than this. -/
def Ends (xmlParse : XmlParser) (send : Transmission → Status) (r : Request) (self : Provider) :
    Prop :=
  ∀ net₀, start xmlParse send self r.msg r.serviceName r.serviceParam = .ok net₀ →
    ∀ k net, Run xmlParse send (fun _ => True) net₀ k net →
      k ≤ 2 ^ 32 ∧
      ∀ t ∈ net.inFlight, ∀ (peer : Provider) (serviceName serviceParam : CString),
        ∃ sends reached,
          arrive xmlParse send peer serviceName serviceParam t = .ok (sends, reached) ∧
          ∀ t' ∈ sends, ∃ ttl ttl', headerTTL xmlParse t.msg = some ttl ∧
            headerTTL xmlParse t'.msg = some ttl' ∧ ttl' < ttl

/-! ## what is passed on -/

theorem left_lt (self : Provider) {ttl : Int} (h : 0 < ttl) (hfits : ttl < 2 ^ 31) :
    (self.left ttl : Int) < ttl := by
  have hmod : ((ttl - 1) % uintMod).toNat = (ttl - 1).toNat := by
    rw [Int.emod_eq_of_lt (by omega) (by unfold uintMod; omega)]
  unfold Provider.left
  rw [hmod]
  omega

/-- A message is passed on at most once, with less TTL, and not without. -/
theorem onward_cases (self : Provider) (t : Token) : self.onward t = [] ∨
    ∃ t', self.onward t = [t'] ∧ 0 < t'.ttl ∧ t'.ttl < t.ttl := by
  unfold Provider.onward Provider.tokens
  by_cases httl : t.ttl ≤ 0
  · exact .inl (if_pos httl)
  · rw [if_neg httl]
    by_cases hleft : self.left t.ttl < 1
    · exact .inl (if_pos hleft)
    · rw [if_neg hleft]
      have hlt := left_lt self (Int.not_le.mp httl) t.fits.2
      cases self.peer t.up with
      | none => exact .inl rfl
      | some pid =>
        refine .inr ⟨_, rfl, ?_, ?_⟩
        · have hsmall : toInt (self.left t.ttl) = self.left t.ttl :=
            toInt_of_lt (by have := t.fits.2; omega)
          dsimp only
          omega
        · have hsmall : toInt (self.left t.ttl) = self.left t.ttl :=
            toInt_of_lt (by have := t.fits.2; omega)
          dsimp only
          omega

/-! ## weights -/

/-- The sum of a weight over the messages on their way. -/
def weight (w : Token → Nat) (n : TokenNet) : Nat := (n.tokens.map w).sum

theorem weight_deliver (w : Token → Nat) (self : Provider) (n : TokenNet) {i : Nat} {t : Token}
    (ht : n.tokens[i]? = some t) :
    weight w (n.deliver self i) + w t = weight w n + ((self.onward t).map w).sum := by
  obtain ⟨hi, hget⟩ := List.getElem?_eq_some_iff.mp ht
  have hperm := ((getElem_cons_eraseIdx_perm hi).map w).sum_nat
  rw [map_cons, sum_cons, hget] at hperm
  unfold weight TokenNet.deliver
  rw [ht]
  rw [map_append, sum_append]
  omega

/-- Room for the deliveries that a message can still cause. -/
def deliveries (t : Token) : Nat := max t.ttl.toNat 1

/-- Room for the peers that a message can still reach. -/
def reaches (t : Token) : Nat := t.ttl.toNat

theorem deliveries_onward (self : Provider) (t : Token) :
    ((self.onward t).map deliveries).sum < deliveries t := by
  rcases onward_cases self t with h | ⟨t', h, hpos, hlt⟩
  · rw [h]
    show 0 < max t.ttl.toNat 1
    omega
  · rw [h]
    show max t'.ttl.toNat 1 + 0 < max t.ttl.toNat 1
    omega

theorem reaches_onward (self : Provider) (t : Token) :
    ((self.onward t).map reaches).sum + t.reached.length ≤ reaches t := by
  unfold Token.reached
  rcases onward_cases self t with h | ⟨t', h, hpos, hlt⟩
  · rw [h]
    show 0 + (if t.ttl ≤ 0 then [] else [t.dest]).length ≤ t.ttl.toNat
    split
    · exact Nat.zero_le _
    · rw [length_singleton]
      omega
  · rw [h, if_neg (by omega)]
    show t'.ttl.toNat + 0 + 1 ≤ t.ttl.toNat
    omega

theorem TokenRun.deliveries_le {Now : (Pid → Provider) → Prop} {n n' : TokenNet} {k : Nat}
    (h : TokenRun Now n k n') : k + weight deliveries n' ≤ weight deliveries n := by
  induction h with
  | start => rw [Nat.zero_add]
  | @deliver k n' peers i t run now ht ih =>
    have hstep := weight_deliver deliveries (peers t.dest) n' ht
    have hlt := deliveries_onward (peers t.dest) t
    omega

theorem TokenRun.reaches_le {Now : (Pid → Provider) → Prop} {n n' : TokenNet} {k : Nat}
    (h : TokenRun Now n k n') :
    n'.received.length + weight reaches n' ≤ n.received.length + weight reaches n := by
  induction h with
  | start => exact Nat.le_refl _
  | @deliver k n' peers i t run now ht ih =>
    have hstep := weight_deliver reaches (peers t.dest) n' ht
    have hle := reaches_onward (peers t.dest) t
    have hreceived : (n'.deliver (peers t.dest) i).received = n'.received ++ t.reached := by
      unfold TokenNet.deliver
      rw [ht]
    rw [hreceived, length_append]
    omega

/-- A walk can always be carried to its end. -/
theorem exists_end {Now : (Pid → Provider) → Prop} {peers : Pid → Provider} (hnow : Now peers)
    {n n' : TokenNet} {k : Nat} (h : TokenRun Now n k n') :
    ∃ k' n'', TokenRun Now n k' n'' ∧ n''.tokens = [] := by
  cases htokens : n'.tokens with
  | nil => exact ⟨k, n', h, htokens⟩
  | cons t rest =>
    have ht : n'.tokens[0]? = some t := by rw [htokens, getElem?_cons_zero]
    have hnext := TokenRun.deliver h hnow ht
    have hlt := hnext.deliveries_le
    exact exists_end hnow hnext
termination_by weight deliveries n - k
decreasing_by omega

/-! ## the start -/

theorem weight_tokens (w : Token → Nat) (self : Provider) (ttl : Int) (up : Bool) (b : Nat)
    (hb : ∀ pid, w ⟨pid, toInt (self.left ttl), up, toInt_fits _⟩ ≤ b) :
    ((self.tokens ttl up).map w).sum ≤ b := by
  unfold Provider.tokens
  split
  · exact Nat.zero_le b
  · cases self.peer up with
    | none => exact Nat.zero_le b
    | some pid =>
      show w _ + 0 ≤ b
      exact hb pid

theorem weight_start (w : Token → Nat) (self : Provider) (b : Nat)
    (hb : ∀ pid up, w ⟨pid, toInt (self.left self.startTTL), up, toInt_fits _⟩ ≤ b) :
    weight w self.startNet ≤ 2 * b := by
  unfold weight Provider.startNet
  rw [map_append, sum_append]
  have hup := weight_tokens w self self.startTTL true b fun pid => hb pid true
  have hdown := weight_tokens w self self.startTTL false b fun pid => hb pid false
  omega

theorem headerTTL_transmission (hxml : ReadsFlat xmlParse) (r : Request) (t : Token) :
    headerTTL xmlParse (r.transmission t).msg = some t.ttl := by
  unfold headerTTL
  rw [r.getElement2_header]
  dsimp only [rdvElement]
  rw [LimitedRangeRdvMessage.parse_getXml hxml (r.header_printable t)]
  rfl

theorem walk_ends (hxml : ReadsFlat xmlParse) (r : Request) (self : Provider)
    (horigin : self.localPeerId = r.origin) : Ends xmlParse send r self := by
  intro net₀ hstart k net hrun
  rw [start_eq r self horigin] at hstart
  split at hstart
  · obtain rfl := Except.ok.inj hstart
    obtain ⟨n, rfl, htokens⟩ := run_net hxml r hrun
    refine ⟨?_, ?_⟩
    · have hle := htokens.deliveries_le
      have hbound := weight_start deliveries self (2 ^ 31) fun pid up => by
        have hfits := toInt_fits (self.left self.startTTL)
        unfold deliveries
        dsimp only
        omega
      omega
    · intro t ht peer serviceName serviceParam
      obtain ⟨t, -, rfl⟩ := mem_map.mp ht
      refine ⟨_, _, arrive_transmission hxml r peer t serviceName serviceParam, ?_⟩
      intro t' ht'
      obtain ⟨u, hu, rfl⟩ := mem_map.mp ht'
      refine ⟨t.ttl, u.ttl, headerTTL_transmission hxml r t, headerTTL_transmission hxml r u, ?_⟩
      rcases onward_cases peer t with h | ⟨v, h, -, hlt⟩
      · rw [h] at hu
        exact absurd hu not_mem_nil
      · rw [h, mem_singleton] at hu
        rw [hu]
        exact hlt
  · cases hstart

end JxtaC.Walk
