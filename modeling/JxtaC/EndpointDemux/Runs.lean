import JxtaC.EndpointDemux
import JxtaC.Walk.Tokens

/-
  Runs of the tables of recipients and listeners. A registration has a name and a parameter; the
  tables have one string for it, which others may have as well: a slash in the name of a recipient
  or in front of its parameter, and any other split of the text of a listener. So the registrations
  that meet in a table, or where a message looks, must be told apart by their strings (`Alone`).
  `demux_run` is the claim for the runs whose steps are all `Careful`.
-/

namespace JxtaC.EndpointTables

open Lib List

variable {Callback Listener : Type}

/-! ## the parameters of an address -/

/-- The parameters without their slashes. -/
def withoutSlashes (params : List Byte) : List Byte := params.filter (· ≠ 47)

/-- The first component of the parameters. -/
def firstComponent (params : List Byte) : List Byte := params.takeWhile (· ≠ 47)

/-- The `pt` of the loop. -/
def lastSlash : (params : List Byte) → (i pt : Nat) → Nat
  | [], _, pt => pt
  | c :: params, i, pt => lastSlash params (i + 1) (if c = 47 then i else pt)

theorem withoutSlashes_cons (c : Byte) (params : List Byte) :
    withoutSlashes (c :: params) =
      if c = 47 then withoutSlashes params else c :: withoutSlashes params := by
  unfold withoutSlashes
  by_cases hc : c = 47
  · rw [if_pos hc, filter_cons_of_neg (by simp [hc])]
  · rw [if_neg hc, filter_cons_of_pos (by simp [hc])]

/-- The loop has copied `pre`; the byte behind it is a slash, if it is not a NUL. -/
theorem copyParams_eq (params pre : List Byte) (x : Byte) (i pt m : Nat) (hm : params.length ≤ m) :
    ∃ y, copyParams params i pre.length pt (pre ++ x :: List.replicate m 0) =
      (pre ++ withoutSlashes params ++
        y :: List.replicate (m - (withoutSlashes params).length) 0,
        (pre ++ withoutSlashes params).length, lastSlash params i pt) := by
  induction params generalizing pre x i pt m with
  | nil =>
    refine ⟨x, ?_⟩
    rw [show withoutSlashes [] = [] from rfl, append_nil]
    rfl
  | cons c params ih =>
    obtain ⟨m, rfl⟩ := Nat.exists_eq_succ_of_ne_zero (Nat.ne_zero_of_lt hm)
    have hset : (pre ++ x :: List.replicate (m + 1) 0).set pre.length c =
        pre ++ c :: List.replicate (m + 1) 0 := by
      rw [set_append_right _ _ (Nat.le_refl _), Nat.sub_self]
      rfl
    unfold copyParams lastSlash
    rw [withoutSlashes_cons, Nat.succ_eq_add_one, hset]
    by_cases hc : c = 47
    · rw [if_pos hc, if_pos hc, if_pos hc]
      exact ih pre c (i + 1) i (m + 1) (Nat.le_of_succ_le hm)
    · rw [if_neg hc, if_neg hc, if_neg hc]
      obtain ⟨y, hy⟩ := ih (pre ++ [c]) 0 (i + 1) pt m (Nat.le_of_succ_le_succ hm)
      have hlength : (pre ++ [c]).length = pre.length + 1 := length_append
      refine ⟨y, ?_⟩
      rw [append_cons pre c (List.replicate (m + 1) 0),
        append_cons pre c (withoutSlashes params), length_cons, Nat.add_sub_add_right,
        ← hlength]
      exact hy

theorem subgroupEndpoint_eq (params : List Byte) :
    subgroupEndpoint params = (withoutSlashes params ++
      List.replicate (params.length - (withoutSlashes params).length + 1) 0,
      lastSlash params 0 0) := by
  obtain ⟨y, hy⟩ := copyParams_eq params [] 0 0 0 params.length (Nat.le_refl _)
  unfold subgroupEndpoint
  rw [replicate_succ]
  have hcopy : copyParams params 0 0 0 (0 :: List.replicate params.length 0) = _ := hy
  rw [hcopy, nil_append]
  dsimp only
  rw [set_append_right _ _ (Nat.le_refl _), Nat.sub_self, replicate_succ]
  rfl

theorem cString_append_zero {s : List Byte} (hs : 0 ∉ s) (rest : List Byte) :
    cString (s ++ 0 :: rest) = s := by
  unfold cString
  rw [takeWhile_append_of_pos]
  · rw [takeWhile_cons_of_neg (by simp), append_nil]
  · intro b hb
    exact decide_eq_true fun heq => hs (heq ▸ hb)

/-- The second lookup is for the parameters without slashes. -/
theorem cString_subgroupEndpoint (params : CString) :
    cString (subgroupEndpoint params.bytes).1 = withoutSlashes params.bytes := by
  rw [subgroupEndpoint_eq]
  rw [replicate_succ]
  exact cString_append_zero (fun hmem => params.property (mem_of_mem_filter hmem)) _

/-! ## the claim of the tables -/

/-- The key of a recipient. -/
def recipientKey (q : CString × Option CString) : List Byte :=
  match q.2 with
  | none => q.1.bytes
  | some param => q.1.bytes ++ 47 :: param.bytes

/-- The text of a listener: its name and its parameter. -/
def listenerText (q : Option CString × Option CString) : List Byte := serviceText q.1 q.2

/-- What has been added and not removed again, by names and parameters. -/
structure Registry (Callback Listener : Type) where
  recipients : AList fun _ : CString × Option CString => Callback
  listeners : AList fun _ : Option CString × Option CString => Listener

namespace Registry

variable (g : Registry Callback Listener)

/-- Who is registered for the name and the parameter. -/
def exact (name : CString) (param : Option CString) : List (Handed Callback Listener) :=
  ((g.recipients.lookup (name, param)).map Handed.recipient).toList ++
    ((g.listeners.lookup (some name, param)).map Handed.listener).toList

/-- The listeners of a text. -/
def listenersOf (s : List Byte) : List (Handed Callback Listener) :=
  (g.listeners.entries.filter fun e => listenerText e.1 = s).map fun e => Handed.listener e.2

/-- Who may have the message otherwise: the recipient of the bare name, the listeners for the
    parameter without slashes and for its first component. -/
def fallbacks (name : CString) : Option CString → List (Handed Callback Listener)
  | none => []
  | some param => ((g.recipients.lookup (name, none)).map Handed.recipient).toList ++
    g.listenersOf (withoutSlashes param.bytes) ++ g.listenersOf (firstComponent param.bytes)

/-- The message is handed to one of these. -/
def OneOf (choices handed : List (Handed Callback Listener)) : Prop := ∃ x ∈ choices, handed = [x]

/-- Whom a message for the name and the parameter may be handed to. -/
def Delivered (name : CString) (param : Option CString)
    (handed : List (Handed Callback Listener)) : Prop :=
  if g.exact name param ≠ [] then OneOf (g.exact name param) handed
  else if g.fallbacks name param ≠ [] then OneOf (g.fallbacks name param) handed
  else handed = []

/-- The registration that a cookie stands for. -/
def ofCookie (cookie : Option (List Byte)) : Option (CString × Option CString) :=
  g.recipients.keys.find? fun q => some (recipientKey q) = cookie

end Registry

/-- The tables, and what is registered. -/
structure Service (Callback Listener : Type) where
  tables : EndpointTables Callback Listener
  registry : Registry Callback Listener

inductive Action (Callback Listener : Type) where
  | addRecipient (name param : Option CString) (cb : Callback)
  | removeRecipient (cookie : Option (List Byte))
  | removeRecipientByAddr (name param : Option CString)
  | addListener (name param : Option CString) (l : Listener)
  | removeListener (name param : Option CString)
  | demuxAddr (dest : EndpointAddress) (msg : List MessageElement)

/-- What a call returns, or whom it hands a message to. -/
inductive Answer (Callback Listener : Type) where
  | status (rv : Status)
  | handed (handed : List (Handed Callback Listener))

/-- The registry behind a call: a pair is added if it is not there, and removed if it is. -/
def Registry.next (g : Registry Callback Listener) :
    Action Callback Listener → Registry Callback Listener
  | .addRecipient (some name) param cb =>
    if (name, param) ∈ g.recipients.keys then g
    else { g with recipients := g.recipients.insert (name, param) cb }
  | .addRecipient none _ _ => g
  | .removeRecipient cookie =>
    match g.ofCookie cookie with
    | some q => { g with recipients := g.recipients.erase q }
    | none => g
  | .removeRecipientByAddr (some name) param =>
    { g with recipients := g.recipients.erase (name, param) }
  | .removeRecipientByAddr none _ => g
  | .addListener name param l =>
    if (name, param) ∈ g.listeners.keys then g
    else { g with listeners := g.listeners.insert (name, param) l }
  | .removeListener name param => { g with listeners := g.listeners.erase (name, param) }
  | .demuxAddr _ _ => g

section Claim
variable (answer : Callback → List MessageElement → Status)

/-- A call on the tables. -/
def call (t : EndpointTables Callback Listener) :
    Action Callback Listener → Exec (EndpointTables Callback Listener × Answer Callback Listener)
  | .addRecipient name param cb => do
    let (t, _, rv) ← t.addRecipient name param cb
    return (t, .status rv)
  | .removeRecipient cookie => do
    let (t, rv) ← t.removeRecipient cookie
    return (t, .status rv)
  | .removeRecipientByAddr name param => do
    let (t, rv) ← t.removeRecipientByAddr name param
    return (t, .status rv)
  | .addListener name param l => do
    let (t, rv) ← t.addListener name param l
    return (t, .status rv)
  | .removeListener name param => do
    let (t, rv) ← t.removeListener name param
    return (t, .status rv)
  | .demuxAddr dest msg => do
    let handed ← dispatch answer t dest msg
    return (t, .handed handed)

def step (s : Service Callback Listener) (a : Action Callback Listener) :
    Exec (Service Callback Listener × Answer Callback Listener) := do
  let (tables, r) ← call answer s.tables a
  return (⟨tables, s.registry.next a⟩, r)

/-- The tables have one entry for every registration, and no other. -/
structure Kept (s : Service Callback Listener) : Prop where
  recipients : Encodes recipientKey s.tables.cbTable s.registry.recipients
  listeners : Encodes listenerText s.tables.listenerTable s.registry.listeners

/-- What a call should answer: a pair is added if and only if it is not there, a recipient is found
    for its removal if and only if it is there, and a message goes to whom it is for. -/
def Meets (s : Service Callback Listener) (a : Action Callback Listener)
    (r : Answer Callback Listener) (_ : Service Callback Listener) : Prop :=
  match a, r with
  | .addRecipient (some name) param _, .status rv =>
    rv = if (name, param) ∈ s.registry.recipients.keys then .busy else .success
  | .removeRecipient cookie, .status rv =>
    rv = if (s.registry.ofCookie cookie).isSome then .success else .itemNotfound
  | .removeRecipientByAddr (some name) param, .status rv =>
    rv = if (name, param) ∈ s.registry.recipients.keys then .success else .itemNotfound
  | .addListener name param _, .status rv =>
    rv = if (name, param) ∈ s.registry.listeners.keys then .busy else .success
  | .removeListener _ _, .status rv => rv = .success
  | .demuxAddr dest _, .handed handed =>
    match dest.serviceName with
    | some name => s.registry.Delivered name dest.serviceParams handed
    | none => handed = []
  | _, _ => False

/-- The length of a text fits into an `int`, with the NUL. -/
def Fits (s : List Byte) : Prop := s.length + 1 < 2 ^ 31

/-- The lookups of `lookup_listener` find nobody. -/
def Unheard (g : Registry Callback Listener) (name : CString) : Option CString → Prop
  | none => False
  | some param => Fits (serviceText (some name) (some param)) ∧ ∀ q ∈ g.listeners.keys,
    listenerText q ≠ serviceText (some name) (some param) ∧
      listenerText q ≠ withoutSlashes param.bytes ∧
      some (listenerText q) ≠ relayEndpoint param.bytes

/-- The last lookup of `lookup_listener`, for the first component, looks for it, or it and what it
    looks for instead are no texts of listeners; or it is not reached. -/
def RelayRight (g : Registry Callback Listener) (param : CString) : Prop :=
  (∃ q ∈ g.listeners.keys, listenerText q = withoutSlashes param.bytes) ∨
    relayEndpoint param.bytes = some (firstComponent param.bytes) ∨
    ∀ q ∈ g.listeners.keys, listenerText q ≠ firstComponent param.bytes ∧
      some (listenerText q) ≠ relayEndpoint param.bytes

/-- The lookups of `lookup_listener` find the right one: the listener for the pair shares its text
    with no other, and without one there is a parameter, and `RelayRight`. -/
def Heard (g : Registry Callback Listener) (name : CString) (param : Option CString) : Prop :=
  Fits (serviceText (some name) param) ∧
    Alone listenerText g.listeners (some name, param) (serviceText (some name) param) ∧
    ((some name, param) ∈ g.listeners.keys ∨
      match param with
      | none => False
      | some param => RelayRight g param)

/-- The condition on a message: whom the callbacks and the lookups lead to. -/
def WellAddressed (g : Registry Callback Listener) (name : CString) (param : Option CString)
    (msg : List MessageElement) : Prop :=
  Alone recipientKey g.recipients (name, param) (recipientKey (name, param)) ∧
    match g.recipients.lookup (name, param) with
    | some cb => answer cb msg ≠ .itemNotfound ∨ Unheard g name param
    | none =>
      match param with
      | none => Heard g name none
      | some param => Alone recipientKey g.recipients (name, none) name.bytes ∧
        match g.recipients.lookup (name, none) with
        | some cb => (some name, some param) ∉ g.listeners.keys ∧
          (answer cb msg ≠ .itemNotfound ∨ Unheard g name (some param))
        | none => Heard g name (some param)

/-- The condition on a call. -/
def Careful (s : Service Callback Listener) : Action Callback Listener → Prop
  | .addRecipient name param _ | .removeRecipientByAddr name param =>
    match name with
    | some name =>
      Alone recipientKey s.registry.recipients (name, param) (recipientKey (name, param))
    | none => False
  | .removeRecipient cookie => cookie ≠ none
  | .addListener name param _ => Fits (serviceText name param) ∧
    Alone listenerText s.registry.listeners (name, param) (serviceText name param)
  | .removeListener name param =>
    Alone listenerText s.registry.listeners (name, param) ((serviceText name param).take 255) ∧
      ((name, param) ∈ s.registry.listeners.keys → (serviceText name param).length ≤ 255)
  | .demuxAddr dest msg =>
    match dest.serviceName with
    | some name => WellAddressed answer s.registry name dest.serviceParams msg
    | none => False

end Claim

/-! ## recipients and listeners -/

section Registrations
variable {t : EndpointTables Callback Listener}
variable {recipients : AList fun _ : CString × Option CString => Callback}
variable {listeners : AList fun _ : Option CString × Option CString => Listener}

theorem getServiceKey_some (name : CString) (param : Option CString) :
    getServiceKey (some name) param = some (recipientKey (name, param)) := by
  cases param with
  | none => rfl
  | some param => rfl

theorem addRecipient_eq (h : Encodes recipientKey t.cbTable recipients) {name : CString}
    {param : Option CString}
    (halone : Alone recipientKey recipients (name, param) (recipientKey (name, param)))
    (cb : Callback) :
    t.addRecipient (some name) param cb =
      if (name, param) ∈ recipients.keys then .ok (t, none, .busy)
      else .ok ({ t with cbTable := t.cbTable.insert (recipientKey (name, param)) cb },
        some (recipientKey (name, param)), .success) := by
  unfold addRecipient hashGet
  rw [getServiceKey_some]
  rcases h.found_or halone with ⟨hmem, old, -, hfound⟩ | ⟨hmem, -, hfound⟩
  · rw [if_pos hmem, ok_bind, hfound]
    rfl
  · rw [if_neg hmem, ok_bind, hfound]
    rfl

theorem removeRecipient_found {key : List Byte} {cb : Callback}
    (h : t.cbTable.lookup key = some cb) :
    t.removeRecipient (some key) = .ok ({ t with cbTable := t.cbTable.erase key }, .success) := by
  unfold removeRecipient hashGet
  rw [ok_bind, h]
  rfl

theorem removeRecipient_missing {key : List Byte} (h : t.cbTable.lookup key = none) :
    t.removeRecipient (some key) = .ok (t, .itemNotfound) := by
  unfold removeRecipient hashGet
  rw [ok_bind, h]
  rfl

theorem aprSnprintf_fits {s : List Byte} (h : Fits s) :
    aprSnprintf (Walk.toInt (s.length + 1)) s = .ok s := by
  have hint : Walk.toInt (s.length + 1) = (s.length + 1 : Nat) := Walk.toInt_of_lt h
  unfold aprSnprintf
  rw [hint, if_neg (by omega), if_neg (by omega), Int.toNat_natCast, Nat.add_sub_cancel,
    take_length]

theorem addListener_eq (h : Encodes listenerText t.listenerTable listeners)
    {name param : Option CString} (hfits : Fits (serviceText name param))
    (halone : Alone listenerText listeners (name, param) (serviceText name param)) (l : Listener) :
    t.addListener name param l =
      if (name, param) ∈ listeners.keys then .ok (t, .busy)
      else .ok ({ t with listenerTable := t.listenerTable.insert (serviceText name param) l },
        .success) := by
  unfold addListener
  dsimp only
  rw [aprSnprintf_fits hfits, ok_bind]
  rcases h.found_or halone with ⟨hmem, old, -, hfound⟩ | ⟨hmem, -, hfound⟩
  · have hfound : t.listenerTable.lookup (serviceText name param) = some old := hfound
    rw [if_pos hmem, hfound]
    rfl
  · have hfound : t.listenerTable.lookup (serviceText name param) = none := hfound
    rw [if_neg hmem, hfound]
    rfl

theorem removeListener_eq (name param : Option CString) :
    t.removeListener name param = .ok ({ t with
      listenerTable := t.listenerTable.erase ((serviceText name param).take 255) }, .success) :=
  rfl

end Registrations

/-! ## messages -/

section Messages
variable {t : EndpointTables Callback Listener} {g : Registry Callback Listener}
variable {s : List Byte} {x : Handed Callback Listener} {dest : EndpointAddress} {name : CString}
variable {param : Option CString}

theorem mem_listenersOf :
    x ∈ g.listenersOf s ↔
      ∃ q l, g.listeners.lookup q = some l ∧ listenerText q = s ∧ x = .listener l := by
  unfold Registry.listenersOf
  constructor
  · intro h
    obtain ⟨e, he, rfl⟩ := mem_map.mp h
    obtain ⟨he, htext⟩ := mem_filter.mp he
    exact ⟨e.1, e.2, AList.mem_lookup_iff.mpr he, of_decide_eq_true htext, rfl⟩
  · intro h
    obtain ⟨q, l, hq, htext, rfl⟩ := h
    refine mem_map.mpr ⟨⟨q, l⟩, mem_filter.mpr ⟨AList.mem_lookup_iff.mp hq, ?_⟩, rfl⟩
    exact decide_eq_true htext

theorem listenersOf_of_lookup (h : Encodes listenerText t.listenerTable g.listeners) {l : Listener}
    (hs : t.listenerTable.lookup s = some l) : Handed.listener l ∈ g.listenersOf s := by
  obtain ⟨q, hq, hlookup⟩ := h.only s l hs
  exact mem_listenersOf.mpr ⟨q, l, hlookup, hq, rfl⟩

theorem listenersOf_eq_nil (h : Encodes listenerText t.listenerTable g.listeners)
    (hs : t.listenerTable.lookup s = none) : g.listenersOf s = [] := by
  apply eq_nil_iff_forall_not_mem.mpr
  intro x hx
  obtain ⟨q, l, hlookup, rfl, -⟩ := mem_listenersOf.mp hx
  rw [h.found q l hlookup] at hs
  cases hs

/-- `lookup_listener` where the lengths fit. -/
theorem lookupListener_eq (hname : dest.serviceName = some name)
    (hfits : Fits (serviceText (some name) dest.serviceParams)) :
    t.lookupListener dest =
      match t.listenerTable.lookup (serviceText (some name) dest.serviceParams) with
      | some listener => .ok (some listener)
      | none =>
        match dest.serviceParams with
        | none => .error .nullPointer
        | some params =>
          match t.listenerTable.lookup (withoutSlashes params.bytes) with
          | some listener => .ok (some listener)
          | none =>
            match relayEndpoint params.bytes with
            | some str1 => .ok (t.listenerTable.lookup str1)
            | none => .ok none := by
  have hint : Walk.toInt ((serviceText (some name) dest.serviceParams).length + 1) =
      ((serviceText (some name) dest.serviceParams).length + 1 : Nat) := Walk.toInt_of_lt hfits
  unfold lookupListener
  rw [hname]
  dsimp only
  rw [hint, if_neg (by omega), if_neg (by omega)]
  cases dest.serviceParams with
  | none => rfl
  | some params =>
    dsimp only
    cases t.listenerTable.lookup (serviceText (some name) (some params)) with
    | some l => rfl
    | none =>
      cases hsubgroup : t.listenerTable.lookup (withoutSlashes params.bytes) with
      | some l => rw [cString_subgroupEndpoint, hsubgroup]
      | none =>
        cases relayEndpoint params.bytes with
        | some str1 => rw [cString_subgroupEndpoint, hsubgroup]
        | none => rw [cString_subgroupEndpoint, hsubgroup]

theorem lookupListener_unheard (h : Encodes listenerText t.listenerTable g.listeners)
    (hname : dest.serviceName = some name) (hunheard : Unheard g name dest.serviceParams) :
    t.lookupListener dest = .ok none := by
  cases hparams : dest.serviceParams with
  | none =>
    rw [hparams] at hunheard
    exact absurd hunheard id
  | some params =>
    rw [hparams] at hunheard
    obtain ⟨hfits, hnone⟩ := hunheard
    rw [lookupListener_eq hname (hparams ▸ hfits), hparams,
      h.lookup_eq_none fun q hq => (hnone q hq).1]
    dsimp only
    rw [h.lookup_eq_none fun q hq => (hnone q hq).2.1]
    cases hrelay : relayEndpoint params.bytes with
    | none => rfl
    | some str1 =>
      dsimp only
      rw [h.lookup_eq_none]
      exact fun q hq heq => (hnone q hq).2.2 (by rw [heq, hrelay])

theorem delivered_exact (hx : x ∈ g.exact name param) : g.Delivered name param [x] := by
  unfold Registry.Delivered
  rw [if_pos (ne_nil_of_mem hx)]
  exact ⟨x, hx, rfl⟩

theorem delivered_fallback (hexact : g.exact name param = []) (hx : x ∈ g.fallbacks name param) :
    g.Delivered name param [x] := by
  unfold Registry.Delivered
  rw [if_neg (not_not_intro hexact), if_pos (ne_nil_of_mem hx)]
  exact ⟨x, hx, rfl⟩

theorem delivered_nobody (hexact : g.exact name param = [])
    (hfallbacks : g.fallbacks name param = []) : g.Delivered name param [] := by
  unfold Registry.Delivered
  rw [if_neg (not_not_intro hexact), if_neg (not_not_intro hfallbacks)]

theorem exact_eq_nil (hrecipient : g.recipients.lookup (name, param) = none)
    (hlistener : g.listeners.lookup (some name, param) = none) : g.exact name param = [] := by
  unfold Registry.exact
  rw [hrecipient, hlistener]
  rfl

section
variable (h : Encodes listenerText t.listenerTable g.listeners)
include h

/-- The lookups of `lookup_listener` behind the exact one, without a recipient of the bare name. -/
theorem relay_delivered {param : CString} (hexact : g.exact name (some param) = [])
    (hbare : g.recipients.lookup (name, none) = none) (hright : RelayRight g param) :
    g.Delivered name (some param) (((match t.listenerTable.lookup (withoutSlashes param.bytes) with
      | some listener => some listener
      | none =>
        match relayEndpoint param.bytes with
        | some str1 => t.listenerTable.lookup str1
        | none => none).map Handed.listener).toList) := by
  have hfallbacks : g.fallbacks name (some param) = g.listenersOf (withoutSlashes param.bytes) ++
      g.listenersOf (firstComponent param.bytes) := by
    show ((g.recipients.lookup (name, none)).map Handed.recipient).toList ++ _ ++ _ = _
    rw [hbare]
    rfl
  cases hsubgroup : t.listenerTable.lookup (withoutSlashes param.bytes) with
  | some l =>
    apply delivered_fallback hexact
    rw [hfallbacks]
    exact mem_append_left _ (listenersOf_of_lookup h hsubgroup)
  | none =>
    have hnone := listenersOf_eq_nil h hsubgroup
    rw [hnone, nil_append] at hfallbacks
    rcases hright with ⟨q, hq, htext⟩ | hfirst | hothers
    · obtain ⟨l, hl⟩ := Option.isSome_iff_exists.mp
        (AList.lookup_isSome.mpr (AList.mem_keys.mpr hq))
      rw [← htext, h.found q l hl] at hsubgroup
      cases hsubgroup
    · rw [hfirst]
      dsimp only
      cases hrelay : t.listenerTable.lookup (firstComponent param.bytes) with
      | some l =>
        apply delivered_fallback hexact
        rw [hfallbacks]
        exact listenersOf_of_lookup h hrelay
      | none =>
        apply delivered_nobody hexact
        rw [hfallbacks]
        exact listenersOf_eq_nil h hrelay
    · have hnobody : g.fallbacks name (some param) = [] := by
        rw [hfallbacks]
        exact listenersOf_eq_nil h (h.lookup_eq_none fun q hq => (hothers q hq).1)
      cases hrelay : relayEndpoint param.bytes with
      | none => exact delivered_nobody hexact hnobody
      | some str1 =>
        dsimp only
        rw [h.lookup_eq_none]
        · exact delivered_nobody hexact hnobody
        · exact fun q hq heq => (hothers q hq).2 (by rw [heq, hrelay])

/-- What `lookup_listener` finds is whom a message without a recipient is for. -/
theorem lookupListener_heard (hname : dest.serviceName = some name)
    (hexact : g.recipients.lookup (name, dest.serviceParams) = none)
    (hbare : g.recipients.lookup (name, none) = none) (hheard : Heard g name dest.serviceParams) :
    ∃ found, t.lookupListener dest = .ok found ∧
      g.Delivered name dest.serviceParams (found.map Handed.listener).toList := by
  obtain ⟨hfits, halone, hfound⟩ := hheard
  rw [lookupListener_eq hname hfits]
  rcases h.found_or halone with ⟨-, l, hl, htable⟩ | ⟨hmem, hl, htable⟩
  · have htable : t.listenerTable.lookup (serviceText (some name) dest.serviceParams) = some l :=
      htable
    refine ⟨some l, by rw [htable], delivered_exact ?_⟩
    unfold Registry.exact
    rw [hl]
    exact mem_append_right _ mem_cons_self
  · have htable : t.listenerTable.lookup (serviceText (some name) dest.serviceParams) = none :=
      htable
    have hright := hfound.resolve_left hmem
    have hnil := exact_eq_nil hexact hl
    rw [htable]
    cases hparams : dest.serviceParams with
    | none =>
      rw [hparams] at hright
      exact absurd hright id
    | some param =>
      rw [hparams] at hright hnil
      refine ⟨_, ?_, relay_delivered h hnil hbare hright⟩
      dsimp only
      split
      · rfl
      · split
        · rfl
        · rfl

/-- A callback that is called. -/
theorem dispatch_found {answer : Callback → List MessageElement → Status}
    (hname : dest.serviceName = some name) {cb : Callback}
    (hfound : t.findCallback dest.serviceName dest.serviceParams = .ok (some cb))
    {msg : List MessageElement}
    (hcalled : answer cb msg ≠ .itemNotfound ∨ Unheard g name dest.serviceParams) :
    dispatch answer t dest msg = .ok [.recipient cb] := by
  unfold dispatch endpointServiceDemux
  rw [hfound, ok_bind]
  show (if answer cb msg ≠ .itemNotfound then Except.ok [Handed.recipient cb] else _) = _
  by_cases hanswer : answer cb msg = .itemNotfound
  · rw [if_neg (not_not_intro hanswer),
      lookupListener_unheard h hname (hcalled.resolve_left (not_not_intro hanswer))]
    rfl
  · rw [if_pos hanswer]

end

theorem dispatch_none {answer : Callback → List MessageElement → Status}
    (hfound : t.findCallback dest.serviceName dest.serviceParams = .ok none)
    {found : Option Listener} (hlookup : t.lookupListener dest = .ok found)
    (msg : List MessageElement) :
    dispatch answer t dest msg = .ok (found.map Handed.listener).toList := by
  unfold dispatch endpointServiceDemux
  rw [hfound, ok_bind]
  show (t.lookupListener dest >>= _) = _
  rw [hlookup]
  cases found with
  | none => rfl
  | some l => rfl

/-- A message for a pair goes to whom it is for. -/
theorem dispatch_delivered (answer : Callback → List MessageElement → Status)
    (hrecipients : Encodes recipientKey t.cbTable g.recipients)
    (hlisteners : Encodes listenerText t.listenerTable g.listeners)
    (hname : dest.serviceName = some name) {msg : List MessageElement}
    (hwell : WellAddressed answer g name dest.serviceParams msg) :
    ∃ handed, dispatch answer t dest msg = .ok handed ∧
      g.Delivered name dest.serviceParams handed := by
  obtain ⟨halone, hwell⟩ := hwell
  have hlookup := hrecipients.lookup halone
  cases hexact : g.recipients.lookup (name, dest.serviceParams) with
  | some cb =>
    rw [hexact] at hwell hlookup
    have hfound : t.findCallback dest.serviceName dest.serviceParams = .ok (some cb) := by
      unfold findCallback hashGet
      rw [hname, getServiceKey_some, ok_bind, hlookup]
      rfl
    refine ⟨_, dispatch_found hlisteners hname hfound hwell, delivered_exact ?_⟩
    unfold Registry.exact
    rw [hexact]
    exact mem_append_left _ mem_cons_self
  | none =>
    rw [hexact] at hwell hlookup
    cases hparams : dest.serviceParams with
    | none =>
      rw [hparams] at hwell hlookup hexact
      have hfound : t.findCallback dest.serviceName dest.serviceParams = .ok none := by
        unfold findCallback hashGet
        rw [hname, hparams, getServiceKey_some, ok_bind, hlookup]
        rfl
      obtain ⟨found, hlistener, hdelivered⟩ := lookupListener_heard hlisteners hname
        (by rw [hparams]; exact hexact) hexact (by rw [hparams]; exact hwell)
      rw [hparams] at hdelivered
      exact ⟨_, dispatch_none hfound hlistener msg, hdelivered⟩
    | some param =>
      rw [hparams] at hwell hlookup hexact
      obtain ⟨hbareAlone, hwell⟩ := hwell
      have hbareLookup : t.cbTable.lookup name.bytes = g.recipients.lookup (name, none) :=
        hrecipients.lookup hbareAlone
      have hfindCallback : t.findCallback dest.serviceName dest.serviceParams =
          .ok (g.recipients.lookup (name, none)) := by
        unfold findCallback hashGet
        rw [hname, hparams, getServiceKey_some, ok_bind, hlookup, ← hbareLookup]
        rfl
      cases hbare : g.recipients.lookup (name, none) with
      | some cb =>
        rw [hbare] at hwell hfindCallback
        obtain ⟨hlistener, hcalled⟩ := hwell
        rw [← hparams] at hcalled
        refine ⟨_, dispatch_found hlisteners hname hfindCallback hcalled, ?_⟩
        apply delivered_fallback
        · apply exact_eq_nil hexact
          exact AList.lookup_eq_none.mpr fun hmem => hlistener (AList.mem_keys.mp hmem)
        · show Handed.recipient cb ∈ ((g.recipients.lookup (name, none)).map _).toList ++ _ ++ _
          rw [hbare]
          exact mem_append_left _ (mem_append_left _ mem_cons_self)
      | none =>
        rw [hbare] at hwell hfindCallback
        obtain ⟨found, hlistener, hdelivered⟩ := lookupListener_heard hlisteners hname
          (by rw [hparams]; exact hexact) hbare (by rw [hparams]; exact hwell)
        rw [hparams] at hdelivered
        exact ⟨_, dispatch_none hfindCallback hlistener msg, hdelivered⟩

end Messages

/-! ## runs -/

section Runs
variable (answer : Callback → List MessageElement → Status) {s : Service Callback Listener}
variable {param : Option CString}

theorem step_ok {a : Action Callback Listener} {tables : EndpointTables Callback Listener}
    {r : Answer Callback Listener} (h : call answer s.tables a = .ok (tables, r)) :
    step answer s a = .ok (⟨tables, s.registry.next a⟩, r) := by
  unfold step
  rw [h]
  rfl

section
variable (h : Kept s)
include h

theorem Kept.addRecipient {name : CString} (cb : Callback)
    (halone : Alone recipientKey s.registry.recipients (name, param) (recipientKey (name, param))) :
    ∃ s' r, step answer s (.addRecipient (some name) param cb) = .ok (s', r) ∧
      Meets s (.addRecipient (some name) param cb) r s' ∧ Kept s' := by
  have hadd := addRecipient_eq h.recipients halone cb
  by_cases hmem : (name, param) ∈ s.registry.recipients.keys
  · rw [if_pos hmem] at hadd
    have hcall : call answer s.tables (.addRecipient (some name) param cb) =
        .ok (s.tables, .status .busy) := by
      show (s.tables.addRecipient (some name) param cb >>= _) = _
      rw [hadd]
      rfl
    have hnext : s.registry.next (.addRecipient (some name) param cb) = s.registry := if_pos hmem
    refine ⟨_, _, step_ok answer hcall, (if_pos hmem).symm, ?_⟩
    rw [hnext]
    exact ⟨h.recipients, h.listeners⟩
  · rw [if_neg hmem] at hadd
    have hcall : call answer s.tables (.addRecipient (some name) param cb) =
        .ok ({ s.tables with
          cbTable := s.tables.cbTable.insert (recipientKey (name, param)) cb },
          .status .success) := by
      show (s.tables.addRecipient (some name) param cb >>= _) = _
      rw [hadd]
      rfl
    have hnext : s.registry.next (.addRecipient (some name) param cb) =
        { s.registry with recipients := s.registry.recipients.insert (name, param) cb } :=
      if_neg hmem
    have hnone := AList.lookup_eq_none.mpr fun h => hmem (AList.mem_keys.mp h)
    refine ⟨_, _, step_ok answer hcall, (if_neg hmem).symm, ?_⟩
    rw [hnext]
    exact ⟨h.recipients.insert halone hnone cb, h.listeners⟩

theorem Kept.addListener {name : Option CString} (l : Listener)
    (hfits : Fits (serviceText name param))
    (halone : Alone listenerText s.registry.listeners (name, param) (serviceText name param)) :
    ∃ s' r, step answer s (.addListener name param l) = .ok (s', r) ∧
      Meets s (.addListener name param l) r s' ∧ Kept s' := by
  have hadd := addListener_eq h.listeners hfits halone l
  by_cases hmem : (name, param) ∈ s.registry.listeners.keys
  · rw [if_pos hmem] at hadd
    have hcall : call answer s.tables (.addListener name param l) =
        .ok (s.tables, .status .busy) := by
      show (s.tables.addListener name param l >>= _) = _
      rw [hadd]
      rfl
    have hnext : s.registry.next (.addListener name param l) = s.registry := if_pos hmem
    refine ⟨_, _, step_ok answer hcall, (if_pos hmem).symm, ?_⟩
    rw [hnext]
    exact ⟨h.recipients, h.listeners⟩
  · rw [if_neg hmem] at hadd
    have hcall : call answer s.tables (.addListener name param l) =
        .ok ({ s.tables with
          listenerTable := s.tables.listenerTable.insert (serviceText name param) l },
          .status .success) := by
      show (s.tables.addListener name param l >>= _) = _
      rw [hadd]
      rfl
    have hnext : s.registry.next (.addListener name param l) =
        { s.registry with listeners := s.registry.listeners.insert (name, param) l } :=
      if_neg hmem
    have hnone := AList.lookup_eq_none.mpr fun h => hmem (AList.mem_keys.mp h)
    refine ⟨_, _, step_ok answer hcall, (if_neg hmem).symm, ?_⟩
    rw [hnext]
    exact ⟨h.recipients, h.listeners.insert halone hnone l⟩

theorem Kept.removeRecipientByAddr {name : CString}
    (halone : Alone recipientKey s.registry.recipients (name, param) (recipientKey (name, param))) :
    ∃ s' r, step answer s (.removeRecipientByAddr (some name) param) = .ok (s', r) ∧
      Meets s (.removeRecipientByAddr (some name) param) r s' ∧ Kept s' := by
  have hremove : s.tables.removeRecipientByAddr (some name) param =
      s.tables.removeRecipient (some (recipientKey (name, param))) := by
    unfold EndpointTables.removeRecipientByAddr
    rw [getServiceKey_some]
  have herase := h.recipients.erase halone fun _ => rfl
  rcases h.recipients.found_or halone with ⟨hmem, cb, -, hfound⟩ | ⟨hmem, -, hfound⟩
  · rw [removeRecipient_found hfound] at hremove
    have hcall : call answer s.tables (.removeRecipientByAddr (some name) param) =
        .ok ({ s.tables with
          cbTable := s.tables.cbTable.erase (recipientKey (name, param)) }, .status .success) := by
      show (s.tables.removeRecipientByAddr (some name) param >>= _) = _
      rw [hremove]
      rfl
    exact ⟨_, _, step_ok answer hcall, (if_pos hmem).symm, herase, h.listeners⟩
  · rw [removeRecipient_missing hfound] at hremove
    have hcall : call answer s.tables (.removeRecipientByAddr (some name) param) =
        .ok (s.tables, .status .itemNotfound) := by
      show (s.tables.removeRecipientByAddr (some name) param >>= _) = _
      rw [hremove]
      rfl
    refine ⟨_, _, step_ok answer hcall, (if_neg hmem).symm, ?_, h.listeners⟩
    have hnothing : s.tables.cbTable.erase (recipientKey (name, param)) = s.tables.cbTable :=
      erase_of_lookup hfound
    rw [hnothing] at herase
    exact herase

/-- A cookie stands for the registration whose key it is. -/
theorem Kept.removeRecipient (key : List Byte) :
    ∃ s' r, step answer s (.removeRecipient (some key)) = .ok (s', r) ∧
      Meets s (.removeRecipient (some key)) r s' ∧ Kept s' := by
  cases hcookie : s.registry.ofCookie (some key) with
  | some q =>
    have hkey : recipientKey q = key := by
      have hfind := find?_some hcookie
      exact Option.some.inj (of_decide_eq_true hfind)
    have hmem : q ∈ s.registry.recipients.keys := mem_of_find?_eq_some hcookie
    have halone := h.recipients.apart q hmem
    rcases h.recipients.found_or halone with ⟨-, cb, -, hfound⟩ | ⟨hnot, -, -⟩
    · rw [hkey] at hfound halone
      have hcall : call answer s.tables (.removeRecipient (some key)) =
          .ok ({ s.tables with cbTable := s.tables.cbTable.erase key }, .status .success) := by
        show (s.tables.removeRecipient (some key) >>= _) = _
        rw [removeRecipient_found hfound]
        rfl
      have hnext : s.registry.next (.removeRecipient (some key)) =
          { s.registry with recipients := s.registry.recipients.erase q } := by
        show (match s.registry.ofCookie (some key) with
          | some q => _
          | none => _) = _
        rw [hcookie]
      refine ⟨_, _, step_ok answer hcall, ?_, ?_⟩
      · show Status.success = if (s.registry.ofCookie (some key)).isSome then _ else _
        rw [hcookie]
        rfl
      · rw [hnext]
        exact ⟨h.recipients.erase halone fun _ => hkey, h.listeners⟩
    · exact absurd hmem hnot
  | none =>
    have hfound : s.tables.cbTable.lookup key = none := by
      apply h.recipients.lookup_eq_none
      intro q hq heq
      have hnone := find?_eq_none.mp hcookie q hq
      exact hnone (decide_eq_true (congrArg some heq))
    have hcall : call answer s.tables (.removeRecipient (some key)) =
        .ok (s.tables, .status .itemNotfound) := by
      show (s.tables.removeRecipient (some key) >>= _) = _
      rw [removeRecipient_missing hfound]
      rfl
    have hnext : s.registry.next (.removeRecipient (some key)) = s.registry := by
      show (match s.registry.ofCookie (some key) with
        | some q => _
        | none => _) = _
      rw [hcookie]
    refine ⟨_, _, step_ok answer hcall, ?_, ?_⟩
    · show Status.itemNotfound = if (s.registry.ofCookie (some key)).isSome then _ else _
      rw [hcookie]
      rfl
    · rw [hnext]
      exact ⟨h.recipients, h.listeners⟩

theorem Kept.removeListener {name : Option CString}
    (halone : Alone listenerText s.registry.listeners (name, param)
      ((serviceText name param).take 255))
    (hlength : (name, param) ∈ s.registry.listeners.keys → (serviceText name param).length ≤ 255) :
    ∃ s' r, step answer s (.removeListener name param) = .ok (s', r) ∧
      Meets s (.removeListener name param) r s' ∧ Kept s' := by
  have hcall : call answer s.tables (.removeListener name param) =
      .ok ({ s.tables with listenerTable :=
        s.tables.listenerTable.erase ((serviceText name param).take 255) }, .status .success) := by
    show (s.tables.removeListener name param >>= _) = _
    rw [removeListener_eq]
    rfl
  refine ⟨_, _, step_ok answer hcall, rfl, h.recipients, h.listeners.erase halone fun hmem => ?_⟩
  exact (take_of_length_le (hlength hmem)).symm

/-- A careful call answers as it should, and the tables keep what is registered. -/
theorem Kept.step {a : Action Callback Listener} (hcareful : Careful answer s a) :
    ∃ s' r, EndpointTables.step answer s a = .ok (s', r) ∧ Meets s a r s' ∧ Kept s' := by
  match a with
  | .addRecipient (some name) param cb => exact h.addRecipient answer cb hcareful
  | .addRecipient none param cb => exact absurd hcareful id
  | .removeRecipient (some key) => exact h.removeRecipient answer key
  | .removeRecipient none => exact absurd rfl hcareful
  | .removeRecipientByAddr (some name) param => exact h.removeRecipientByAddr answer hcareful
  | .removeRecipientByAddr none param => exact absurd hcareful id
  | .addListener name param l => exact h.addListener answer l hcareful.1 hcareful.2
  | .removeListener name param => exact h.removeListener answer hcareful.1 hcareful.2
  | .demuxAddr dest msg =>
    cases hname : dest.serviceName with
    | none =>
      unfold Careful at hcareful
      dsimp only at hcareful
      rw [hname] at hcareful
      exact absurd hcareful id
    | some name =>
      unfold Careful at hcareful
      dsimp only at hcareful
      rw [hname] at hcareful
      obtain ⟨handed, hdispatch, hdelivered⟩ :=
        dispatch_delivered answer h.recipients h.listeners hname hcareful
      have hcall : call answer s.tables (.demuxAddr dest msg) = .ok (s.tables, .handed handed) := by
        show (dispatch answer s.tables dest msg >>= _) = _
        rw [hdispatch]
        rfl
      refine ⟨_, _, step_ok answer hcall, ?_, h.recipients, h.listeners⟩
      show (match dest.serviceName with
        | some name => s.registry.Delivered name dest.serviceParams handed
        | none => handed = [])
      rw [hname]
      exact hdelivered

end

/-- The service at its start. -/
def start : Service Callback Listener := ⟨⟨∅, ∅⟩, ⟨∅, ∅⟩⟩

/-- Along a run of careful calls, the tables have one entry for every registration and no other, the
    pairs are added and removed as they should, and every message goes to whom it is for. -/
theorem demux_run (actions : List (Action Callback Listener))
    (h : SafeRun (EndpointTables.step answer) (Careful answer) start actions) :
    Along (EndpointTables.step answer) Kept Meets start actions := by
  apply along_of_safeRun (fun _ hs => hs) _ actions _ h
  · intro s a hs hcareful
    exact hs.step answer hcareful
  · exact ⟨encodes_empty _, encodes_empty _⟩

end Runs

/-! ## runs that can be evaluated -/

section Decisions
variable [DecidableEq Callback] [DecidableEq Listener]
variable (answer : Callback → List MessageElement → Status) (g : Registry Callback Listener)

instance (choices handed : List (Handed Callback Listener)) :
    Decidable (Registry.OneOf choices handed) :=
  inferInstanceAs (Decidable (∃ x ∈ choices, handed = [x]))

instance (name : CString) (param : Option CString) (handed : List (Handed Callback Listener)) :
    Decidable (g.Delivered name param handed) :=
  inferInstanceAs (Decidable (if g.exact name param ≠ [] then Registry.OneOf _ handed
    else if g.fallbacks name param ≠ [] then Registry.OneOf _ handed else handed = []))

instance (s : Service Callback Listener) (s' : Service Callback Listener) :
    (a : Action Callback Listener) → (r : Answer Callback Listener) → Decidable (Meets s a r s')
  | .addRecipient (some _) _ _, .status rv => inferInstanceAs (Decidable (rv = _))
  | .removeRecipient _, .status rv => inferInstanceAs (Decidable (rv = _))
  | .removeRecipientByAddr (some _) _, .status rv => inferInstanceAs (Decidable (rv = _))
  | .addListener _ _ _, .status rv => inferInstanceAs (Decidable (rv = _))
  | .removeListener _ _, .status rv => inferInstanceAs (Decidable (rv = _))
  | .demuxAddr ⟨_, _, some name, params⟩ _, .handed handed =>
    inferInstanceAs (Decidable (s.registry.Delivered name params handed))
  | .demuxAddr ⟨_, _, none, _⟩ _, .handed handed => inferInstanceAs (Decidable (handed = []))
  | .addRecipient none _ _, _ => isFalse id
  | .removeRecipientByAddr none _, _ => isFalse id
  | .addRecipient (some _) _ _, .handed _ => isFalse id
  | .removeRecipient _, .handed _ => isFalse id
  | .removeRecipientByAddr (some _) _, .handed _ => isFalse id
  | .addListener _ _ _, .handed _ => isFalse id
  | .removeListener _ _, .handed _ => isFalse id
  | .demuxAddr _ _, .status _ => isFalse id

instance (s : List Byte) : Decidable (Fits s) := inferInstanceAs (Decidable (_ < _))

instance (name : CString) : (param : Option CString) → Decidable (Unheard g name param)
  | none => isFalse id
  | some _ => inferInstanceAs (Decidable (_ ∧ ∀ q ∈ g.listeners.keys, _))

instance (param : CString) : Decidable (RelayRight g param) :=
  inferInstanceAs (Decidable ((∃ q ∈ g.listeners.keys, _) ∨ _ ∨ ∀ q ∈ g.listeners.keys, _))

instance (name : CString) : (param : Option CString) → Decidable (Heard g name param)
  | none => inferInstanceAs (Decidable (_ ∧ _ ∧ (_ ∨ False)))
  | some param => inferInstanceAs (Decidable (_ ∧ _ ∧ (_ ∨ RelayRight g param)))

instance (name : CString) (param : Option CString) (msg : List MessageElement) :
    Decidable (WellAddressed answer g name param msg) :=
  have : Decidable (match g.recipients.lookup (name, param) with
      | some cb => answer cb msg ≠ .itemNotfound ∨ Unheard g name param
      | none =>
        match param with
        | none => Heard g name none
        | some param => Alone recipientKey g.recipients (name, none) name.bytes ∧
          match g.recipients.lookup (name, none) with
          | some cb => (some name, some param) ∉ g.listeners.keys ∧
            (answer cb msg ≠ .itemNotfound ∨ Unheard g name (some param))
          | none => Heard g name (some param)) :=
    match g.recipients.lookup (name, param) with
    | some cb => inferInstanceAs (Decidable (_ ∨ Unheard g name param))
    | none =>
      match param with
      | none => inferInstanceAs (Decidable (Heard g name none))
      | some param =>
        have : Decidable (match g.recipients.lookup (name, none) with
            | some cb => (some name, some param) ∉ g.listeners.keys ∧
              (answer cb msg ≠ .itemNotfound ∨ Unheard g name (some param))
            | none => Heard g name (some param)) :=
          match g.recipients.lookup (name, none) with
          | some cb => inferInstanceAs (Decidable (_ ∧ (_ ∨ Unheard g name (some param))))
          | none => inferInstanceAs (Decidable (Heard g name (some param)))
        inferInstanceAs (Decidable (_ ∧ _))
  inferInstanceAs (Decidable (_ ∧ _))

instance (s : Service Callback Listener) :
    (a : Action Callback Listener) → Decidable (Careful answer s a)
  | .addRecipient (some _) _ _ => inferInstanceAs (Decidable (Alone ..))
  | .addRecipient none _ _ => isFalse id
  | .removeRecipientByAddr (some _) _ => inferInstanceAs (Decidable (Alone ..))
  | .removeRecipientByAddr none _ => isFalse id
  | .removeRecipient cookie => inferInstanceAs (Decidable (cookie ≠ none))
  | .addListener _ _ _ => inferInstanceAs (Decidable (_ ∧ Alone ..))
  | .removeListener _ _ => inferInstanceAs (Decidable (Alone .. ∧ (_ → _)))
  | .demuxAddr ⟨_, _, some name, params⟩ msg =>
    inferInstanceAs (Decidable (WellAddressed answer s.registry name params msg))
  | .demuxAddr ⟨_, _, none, _⟩ _ => isFalse id

end Decisions

/-- The strings of the runs below. -/
def wireService : CString := .ofBuffer (text "jxta.service.wirepipe")

def relayService : CString := .ofBuffer (text "relay")

/-- A parameter of three components. -/
def groupAndPipe : CString := .ofBuffer (text "uuid-4E/uuid-50/04")

/-- An address of a service. -/
def addressOf (name : CString) (param : Option CString) : EndpointAddress :=
  ⟨.ofBuffer (text "tcp"), .ofBuffer (text "10.0.0.1:9701"), some name, param⟩

/-- A callback that takes the message. -/
def takes (_ : Nat) (_ : List MessageElement) : Status := .success

/-- Calls for a recipient of a pair, one of a bare name, and a listener of a first component. -/
def carefulActions : List (Action Nat Nat) :=
  [.addRecipient (some wireService) (some relayService) 1,
    .addRecipient (some wireService) none 2,
    .addRecipient (some wireService) none 3,
    .addListener (some relayService) none 4,
    .demuxAddr (addressOf wireService (some relayService)) [],
    .demuxAddr (addressOf wireService (some groupAndPipe)) [],
    .removeRecipientByAddr (some wireService) none,
    .demuxAddr (addressOf wireService (some (.ofBuffer (text "relay/uuid-59")))) [],
    .demuxAddr (addressOf relayService none) [],
    .removeRecipient (some (text "jxta.service.wirepipe/relay")),
    .removeListener (some relayService) none,
    .demuxAddr (addressOf wireService (some relayService)) []]

theorem demux_run_careful : Along (step takes) Kept Meets start carefulActions :=
  demux_run takes carefulActions (by decide +kernel)

/-- Two recipients share a key, a listener with a long text is not removed, a message of three
    components does not come to the listener of the first one, and a message without parameters for
    which nobody is registered ends the process. -/
theorem not_demux_run :
    ¬Along (step takes) Kept Meets (start : Service Nat Nat)
        [.addRecipient (some (.ofBuffer (text "a/b"))) none 1,
          .addRecipient (some (.ofBuffer (text "a"))) (some (.ofBuffer (text "b"))) 2] ∧
      ¬Along (step takes) Kept Meets (start : Service Nat Nat)
        [.addListener (some (.ofBuffer (List.replicate 256 97))) none 1,
          .removeListener (some (.ofBuffer (List.replicate 256 97))) none,
          .addListener (some (.ofBuffer (List.replicate 256 97))) none 2] ∧
      ¬Along (step takes) Kept Meets (start : Service Nat Nat)
        [.addListener (some (.ofBuffer (text "uuid-4E"))) none 1,
          .demuxAddr (addressOf wireService (some groupAndPipe)) []] ∧
      ¬Along (step takes) Kept Meets (start : Service Nat Nat)
        [.demuxAddr (addressOf relayService none) []] := by
  have hweaker : ∀ actions : List (Action Nat Nat),
      Along (step takes) Kept Meets start actions →
        Along (step takes) (fun _ => True) Meets start actions := fun actions =>
    Along.imp (fun _ _ => trivial) (fun _ _ _ _ h => h) actions
  refine ⟨fun h => absurd (hweaker _ h) ?_, fun h => absurd (hweaker _ h) ?_,
    fun h => absurd (hweaker _ h) ?_, fun h => absurd (hweaker _ h) ?_⟩
  · decide +kernel
  · decide +kernel
  · decide +kernel
  · decide +kernel

end JxtaC.EndpointTables
