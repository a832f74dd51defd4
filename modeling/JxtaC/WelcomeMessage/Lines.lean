import JxtaC.WelcomeMessage.Pointers

/-
  Which lines `welcome_message_new_2` takes (jxta_transport_welcome_message.c). `Line` is the
  grammar, with the message that a line stands for; a version that is not known has its own message.
  `Lapse` lists the lines that get past a comparison of too few bytes, a check that is only logged or
  an exit for errors that returns the message. `new2_line` and `line_or_lapse` say that beside these
  the lines of the grammar are the ones that are taken.
-/

namespace JxtaC.WelcomeMessage

open Lib List

/-! ## the grammar -/

structure Token (t : List Byte) : Prop where
  nonempty : t ≠ []
  noSpace : space ∉ t

/-- The propagate flag as the reader takes it. -/
def flag (noprop : Bool) : List Byte := text (if noprop then "1" else "0")

/-- A version that is neither of the known ones, nor agrees with one as far as it goes. -/
structure Other (version : List Byte) : Prop where
  noSpace : space ∉ version
  noZero : version.head? ≠ some 48
  not1_1 : ¬ version <+: text "1.1"
  not3_0 : ¬ version <+: text "3.0"

/-- What stands behind the peer id. -/
inductive Ending : List Byte → (noprop : Bool) → (useMessageVersion : Int) →
    WelcomeMessageVersion → Prop
  | v1_1 (noprop : Bool) :
      Ending (flag noprop ++ space :: (text "1.1" ++ crlf)) noprop 0 .v1_1
  | v3_0 (noprop : Bool) {msgVers : List Byte} (htoken : Token msgVers) (hlen : msgVers.length ≤ 3)
      (hdigits : ∀ b ∈ msgVers, Decimal.isDigit b = true) :
      Ending (flag noprop ++ space :: (msgVers ++ space :: (text "3.0" ++ crlf))) noprop
        (Decimal.atoi msgVers) .v3_0
  | other (front : List Byte) {version : List Byte} (h : Other version) :
      Ending (front ++ space :: (version ++ crlf)) true 0 .unknown

/-- The fields of a line in front of the version. -/
def lineBytes (t dest source peerId rest : List Byte) : List Byte :=
  t ++ space :: (dest ++ space :: (source ++ space :: (peerId ++ space :: rest)))

/-- A welcome line, and the message it stands for. -/
inductive Line (uriParse : CString → Uri) : List Byte → WelcomeMessage → Prop
  | mk {dest source peerId rest : List Byte} {destAddr publicAddr : EndpointAddress} {noprop : Bool}
      {useMessageVersion : Int} {version : WelcomeMessageVersion} (hdest : Token dest)
      (hsource : Token source) (hpeer : Token peerId)
      (hnew : EndpointAddress.new uriParse (.ofBuffer dest) = some destAddr)
      (hnew' : EndpointAddress.new uriParse (.ofBuffer source) = some publicAddr)
      (hending : Ending rest noprop useMessageVersion version) :
      Line uriParse (lineBytes greeting dest source peerId rest)
        ⟨some destAddr, some publicAddr, peerId, noprop, useMessageVersion, version⟩

/-! ## what is let through -/

/-- An ending that is taken for one: it does not end the line, has a shortened version, another
flag, more tokens than its version has, or a message version that is no number. -/
inductive EndingLapse : List Byte → Prop
  | noCrlf (front : List Byte) {last : List Byte} (hspace : space ∉ last) (h : ¬ crlf <:+ last) :
      EndingLapse (front ++ space :: last)
  | shortened (front : List Byte) {version known : List Byte}
      (hknown : known = text "1.1" ∨ known = text "3.0") (h : version <+: known)
      (hne : version ≠ known) : EndingLapse (front ++ space :: (version ++ crlf))
  | otherFlag {t known : List Byte} (more : List Byte)
      (hknown : known = text "1.1" ∨ known = text "3.0") (hspace : space ∉ t) (hlen : t.length = 1)
      (hflag : ∀ noprop, t ≠ flag noprop) (hmore : more = [] ∨ more.head? = some space) :
      EndingLapse (t ++ more ++ space :: (known ++ crlf))
  | extra1_1 (noprop : Bool) (more : List Byte) :
      EndingLapse (flag noprop ++ space :: (more ++ space :: (text "1.1" ++ crlf)))
  | extra3_0 (noprop : Bool) {msgVers : List Byte} (more : List Byte) (htoken : Token msgVers)
      (hlen : msgVers.length ≤ 3) : EndingLapse (flag noprop ++ space ::
        (msgVers ++ space :: (more ++ space :: (text "3.0" ++ crlf))))
  | noNumber (noprop : Bool) {msgVers : List Byte} (htoken : Token msgVers)
      (hlen : msgVers.length ≤ 3) (h : ¬ ∀ b ∈ msgVers, Decimal.isDigit b = true) :
      EndingLapse (flag noprop ++ space :: (msgVers ++ space :: (text "3.0" ++ crlf)))

/-- A line that is taken for one: its greeting is shortened, it has an address that is none, or its
ending lapses. -/
def Lapse (uriParse : CString → Uri) (line : List Byte) : Prop :=
  ∃ t dest source peerId rest, line = lineBytes t dest source peerId rest ∧ t ≠ [] ∧
    t <+: greeting ∧ Token dest ∧ Token source ∧ Token peerId ∧
    (t ≠ greeting ∨ EndpointAddress.new uriParse (.ofBuffer dest) = none ∨
      EndpointAddress.new uriParse (.ofBuffer source) = none ∨ EndingLapse rest)

/-! ## tokens -/

theorem field_token {current t rest : List Byte} (h : Token t)
    (hsplit : current = t ++ space :: rest) : field current = some (t, rest) := by
  rw [hsplit]
  exact field_append rest h.noSpace h.nonempty

theorem field_eq_some {current t rest : List Byte} (h : field current = some (t, rest)) :
    current = t ++ space :: rest ∧ Token t := by
  unfold field at h
  split at h
  next t' rest' htoken =>
    split at h
    next => exact absurd h nofun
    next hne =>
      cases h
      obtain ⟨hsplit, hspace⟩ := token_eq_some htoken
      exact ⟨hsplit, hne, hspace⟩
  next => exact absurd h nofun

/-- The first and the last space of a string. -/
theorem first_last {t next front last : List Byte}
    (h : t ++ space :: next = front ++ space :: last) (ht : space ∉ t) :
    (front = t ∧ next = last) ∨
      ∃ more, front = t ++ space :: more ∧ next = more ++ space :: last := by
  rcases append_eq_append_iff.mp h with ⟨mid, hfront, hnext⟩ | ⟨mid, ht', hlast'⟩
  · match mid with
    | [] =>
      rw [append_nil] at hfront
      exact .inl ⟨hfront, (List.cons.inj hnext).2⟩
    | b :: more =>
      obtain ⟨rfl, hnext'⟩ := List.cons.inj hnext
      exact .inr ⟨more, hfront, hnext'⟩
  · match mid with
    | [] =>
      rw [append_nil] at ht'
      exact .inl ⟨ht'.symm, (List.cons.inj hlast').2.symm⟩
    | b :: more =>
      cases hlast'
      exact absurd (ht' ▸ mem_append_right front mem_cons_self) ht

theorem flag_noSpace (noprop : Bool) : space ∉ flag noprop := by
  match noprop with
  | true => decide
  | false => decide

theorem nopropField_flag (noprop : Bool) (rest : List Byte) :
    nopropField (flag noprop ++ space :: rest) = some (some noprop, rest) := by
  unfold nopropField
  rw [token_append rest (flag_noSpace noprop)]
  match noprop with
  | true => rfl
  | false => rfl

theorem nopropField_eq_some {current next : List Byte} {noprop : Option Bool}
    (h : nopropField current = some (noprop, next)) : ∃ t, current = t ++ space :: next ∧
      space ∉ t ∧ t.length = 1 ∧
      match noprop with
      | some b => t = flag b
      | none => ∀ b, t ≠ flag b := by
  unfold nopropField at h
  split at h
  next t rest htoken =>
    obtain ⟨hsplit, hspace⟩ := token_eq_some htoken
    split at h
    next => exact absurd h nofun
    next hlen =>
      have hlen' : t.length = 1 := not_not.mp hlen
      split at h
      next hzero =>
        cases h
        exact ⟨t, hsplit, hspace, hlen', hzero⟩
      next hzero =>
        split at h
        next hone =>
          cases h
          exact ⟨t, hsplit, hspace, hlen', hone⟩
        next hone =>
          cases h
          refine ⟨t, hsplit, hspace, hlen', fun b => ?_⟩
          match b with
          | true => exact hone
          | false => exact hzero
  next => exact absurd h nofun

/-- A last token without its end is compared as far as it goes. -/
theorem isVersion_crlf {known : List Byte} (hknown : (0 : Byte) ∉ known) (version : List Byte) :
    isVersion known (version ++ crlf) = true ↔ version <+: known := by
  have hlen : (version ++ crlf).length = version.length + 2 := length_append
  unfold isVersion
  rw [hlen, if_neg (by omega), Nat.add_sub_cancel, sameText_eq hknown, decide_eq_true_iff,
    take_left, prefix_iff_eq_take]
  exact eq_comm

/-! ## endings -/

section Endings
variable {myself m : WelcomeMessage} {rest : List Byte} {noprop : Bool} {useMessageVersion : Int}
  {version : WelcomeMessageVersion}

theorem parseVersion_of_last {front last : List Byte} (hspace : space ∉ last)
    (hzero : last.head? ≠ some 48) (hrest : rest = front ++ space :: last) :
    parseVersion myself rest =
      if isVersion (text "1.1") last then
        match nopropField rest with
        | none => none
        | some (none, _) => some myself
        | some (some noprop, next) =>
          if next ≠ last then some { myself with noprop }
          else some { myself with noprop, version := .v1_1 }
      else if isVersion (text "3.0") last then
        match nopropField rest with
        | none => none
        | some (none, _) => some myself
        | some (some noprop, next) =>
          match field next with
          | none => none
          | some (msgVers, next) =>
            if msgVers.length > 3 then none
            else if next ≠ last then
              some { myself with noprop, useMessageVersion := Decimal.atoi msgVers }
            else
              some { myself with
                noprop, useMessageVersion := Decimal.atoi msgVers, version := .v3_0 }
      else some { myself with noprop := true, useMessageVersion := 0, version := .unknown } := by
  have hlast : lastToken rest = some last := hrest ▸ lastToken_append front hspace
  unfold parseVersion
  rw [hlast]
  exact if_neg hzero

/-- The ending of a welcome line is read as what it stands for. -/
theorem parseVersion_ending (h : Ending rest noprop useMessageVersion version)
    (hinit : myself.useMessageVersion = 0) :
    parseVersion myself rest = some { myself with noprop, useMessageVersion, version } := by
  cases h with
  | v1_1 noprop =>
    have hone : isVersion (text "1.1") (text "1.1" ++ crlf) = true := by decide
    rw [parseVersion_of_last (by decide) (by decide) rfl, if_pos hone, nopropField_flag]
    dsimp only
    rw [if_neg (not_not_intro rfl), ← hinit]
  | v3_0 noprop htoken hlen hdigits =>
    rename_i msgVers
    have hone : ¬ isVersion (text "1.1") (text "3.0" ++ crlf) = true := by decide
    have hthree : isVersion (text "3.0") (text "3.0" ++ crlf) = true := by decide
    have hrest : flag noprop ++ space :: (msgVers ++ space :: (text "3.0" ++ crlf)) =
        (flag noprop ++ space :: msgVers) ++ space :: (text "3.0" ++ crlf) := by simp
    rw [parseVersion_of_last (by decide) (by decide) hrest, if_neg hone, if_pos hthree,
      nopropField_flag]
    dsimp only
    rw [field_token htoken rfl]
    dsimp only
    rw [if_neg (Nat.not_lt.mpr hlen), if_neg (not_not_intro rfl)]
  | other front hother =>
    rename_i known
    have hspace : space ∉ known ++ crlf := by
      intro hmem
      rcases mem_append.mp hmem with hmem | hmem
      · exact hother.noSpace hmem
      · exact absurd hmem (by decide)
    have hzero : (known ++ crlf).head? ≠ some 48 := by
      match known, hother.noZero with
      | [], _ => decide
      | b :: known, hb => exact hb
    rw [parseVersion_of_last hspace hzero rfl,
      if_neg fun h => hother.not1_1 ((isVersion_crlf (by decide) _).mp h),
      if_neg fun h => hother.not3_0 ((isVersion_crlf (by decide) _).mp h)]

/-- What was read of an ending: it lapses, or it is one and the fields are its own. -/
def Read (myself : WelcomeMessage) (rest : List Byte) (m : WelcomeMessage) : Prop :=
  EndingLapse rest ∨ ∃ noprop useMessageVersion version,
    Ending rest noprop useMessageVersion version ∧
    m = { myself with noprop, useMessageVersion, version }

theorem otherFlag_lapse {front known next : List Byte}
    (hknown : known = text "1.1" ∨ known = text "3.0")
    (hrest : rest = front ++ space :: (known ++ crlf))
    (hflag : nopropField rest = some (none, next)) : EndingLapse rest := by
  obtain ⟨t, hsplit, hnot, hlen, hother⟩ := nopropField_eq_some hflag
  rcases first_last (hsplit.symm.trans hrest) hnot with ⟨rfl, -⟩ | ⟨more, hfront, -⟩
  · have hlapse := EndingLapse.otherFlag [] hknown hnot hlen hother (.inl rfl)
    rw [append_nil] at hlapse
    exact hrest ▸ hlapse
  · rw [hrest, hfront]
    exact .otherFlag (space :: more) hknown hnot hlen hother (.inr rfl)

theorem read_v1_1 {front : List Byte} (hinit : myself.useMessageVersion = 0)
    (hrest : rest = front ++ space :: (text "1.1" ++ crlf))
    (h : parseVersion myself rest = some m) : Read myself rest m := by
  rw [parseVersion_of_last (by decide) (by decide) hrest, if_pos (by decide)] at h
  match hflag : nopropField rest with
  | none =>
    rw [hflag] at h
    exact absurd h nofun
  | some (none, next) => exact .inl (otherFlag_lapse (.inl rfl) hrest hflag)
  | some (some noprop, next) =>
    obtain ⟨t, hsplit, hnot, -, rfl⟩ := nopropField_eq_some hflag
    rw [hflag] at h
    dsimp only at h
    rcases first_last (hsplit.symm.trans hrest) hnot with ⟨-, rfl⟩ | ⟨more, -, hnext⟩
    · rw [if_neg (not_not_intro rfl)] at h
      refine .inr ⟨noprop, 0, .v1_1, hsplit ▸ .v1_1 noprop, ?_⟩
      rw [← Option.some.inj h, ← hinit]
    · rw [hsplit, hnext]
      exact .inl (.extra1_1 noprop more)

theorem read_v3_0 {front : List Byte} (hrest : rest = front ++ space :: (text "3.0" ++ crlf))
    (h : parseVersion myself rest = some m) : Read myself rest m := by
  have hspace : space ∉ text "3.0" ++ crlf := by decide
  rw [parseVersion_of_last hspace (by decide) hrest, if_neg (by decide), if_pos (by decide)] at h
  match hflag : nopropField rest with
  | none =>
    rw [hflag] at h
    exact absurd h nofun
  | some (none, next) => exact .inl (otherFlag_lapse (.inr rfl) hrest hflag)
  | some (some noprop, next) =>
    obtain ⟨t, hsplit, hnot, -, rfl⟩ := nopropField_eq_some hflag
    rw [hflag] at h
    dsimp only at h
    match hvers : field next with
    | none =>
      rw [hvers] at h
      exact absurd h nofun
    | some (msgVers, next') =>
      obtain ⟨hnext, htoken⟩ := field_eq_some hvers
      rw [hvers] at h
      dsimp only at h
      by_cases hlong : msgVers.length > 3
      · rw [if_pos hlong] at h
        exact absurd h nofun
      · have hshort := Nat.not_lt.mp hlong
        rw [if_neg hlong] at h
        rcases first_last (hsplit.symm.trans hrest) hnot with ⟨-, hlast⟩ | ⟨more, -, hlast⟩
        · -- there is no space behind the flag
          refine absurd ?_ hspace
          rw [← hlast, hnext]
          exact mem_append_right _ mem_cons_self
        · rcases first_last (hnext.symm.trans hlast) htoken.noSpace with
            ⟨-, rfl⟩ | ⟨more', -, hnext'⟩
          · rw [if_neg (not_not_intro rfl)] at h
            rw [hsplit, hnext]
            by_cases hdigits : ∀ b ∈ msgVers, Decimal.isDigit b = true
            · exact .inr ⟨noprop, _, .v3_0, .v3_0 noprop htoken hshort hdigits,
                (Option.some.inj h).symm⟩
            · exact .inl (.noNumber noprop htoken hshort hdigits)
          · rw [hsplit, hnext, hnext']
            exact .inl (.extra3_0 noprop more' htoken hshort)

/-- What is read as an ending is one, or lapses. -/
theorem read_ending (hinit : myself.useMessageVersion = 0)
    (h : parseVersion myself rest = some m) : Read myself rest m := by
  match hlast : lastToken rest with
  | none =>
    unfold parseVersion at h
    rw [hlast] at h
    exact absurd h nofun
  | some last =>
    obtain ⟨front, hrest, hspace⟩ := lastToken_eq_some hlast
    have hzero : last.head? ≠ some 48 := by
      intro hzero
      unfold parseVersion at h
      rw [hlast] at h
      dsimp only at h
      rw [if_pos hzero] at h
      exact absurd h nofun
    by_cases hcrlf : crlf <:+ last
    · obtain ⟨version, rfl⟩ := hcrlf
      by_cases hone : version <+: text "1.1"
      · by_cases hknown : version = text "1.1"
        · exact read_v1_1 hinit (hknown ▸ hrest) h
        · exact .inl (hrest ▸ .shortened front (.inl rfl) hone hknown)
      · by_cases hthree : version <+: text "3.0"
        · by_cases hknown : version = text "3.0"
          · exact read_v3_0 (hknown ▸ hrest) h
          · exact .inl (hrest ▸ .shortened front (.inr rfl) hthree hknown)
        · rw [parseVersion_of_last hspace hzero hrest,
            if_neg (fun heq => hone ((isVersion_crlf (by decide) version).mp heq)),
            if_neg (fun heq => hthree ((isVersion_crlf (by decide) version).mp heq))] at h
          have hother : Other version := by
            refine ⟨fun hmem => hspace (mem_append_left _ hmem), ?_, hone, hthree⟩
            match version, hzero with
            | [], _ => exact nofun
            | b :: version, hb => exact hb
          exact .inr ⟨true, 0, .unknown, hrest ▸ .other front hother, (Option.some.inj h).symm⟩
    · exact .inl (hrest ▸ .noCrlf front hspace hcrlf)

end Endings

/-! ## lines -/

section Lines
variable {uriParse : CString → Uri} {s : CString} {m : WelcomeMessage}

theorem sameText_greeting_iff {t rest : List Byte} (h : (0 : Byte) ∉ t ++ rest) :
    sameText t.length (t ++ rest) greeting = true ↔ t <+: greeting := by
  rw [sameText_eq h, decide_eq_true_iff, take_left, prefix_iff_eq_take]

/-- A welcome line is read as the message it stands for. -/
theorem new2_line (h : Line uriParse s.bytes m) : new2 uriParse s = some m := by
  generalize hbytes : s.bytes = line at h
  obtain ⟨hdest, hsource, hpeer, hnew, hnew', hending⟩ := h
  unfold new2
  rw [hbytes, lineBytes, token_append _ (by decide)]
  dsimp only
  rw [if_neg (by rw [sameText_greeting]; decide), field_token hdest rfl]
  dsimp only
  rw [field_token hsource rfl]
  dsimp only
  rw [field_token hpeer rfl]
  dsimp only
  rw [parseVersion_ending hending rfl, hnew, hnew']

/-- What is read as a welcome line is one, or lapses. -/
theorem line_or_lapse (h : new2 uriParse s = some m) :
    Line uriParse s.bytes m ∨ Lapse uriParse s.bytes := by
  unfold new2 at h
  match htoken : token s.bytes with
  | none =>
    rw [htoken] at h
    exact absurd h nofun
  | some (t, current) =>
    obtain ⟨hsplit, hspace⟩ := token_eq_some htoken
    rw [htoken] at h
    dsimp only at h
    by_cases hbad : t = [] ∨ ¬ sameText t.length s.bytes greeting = true
    · rw [if_pos hbad] at h
      exact absurd h nofun
    · obtain ⟨hne, hsame⟩ := not_or.mp hbad
      have hbytes : (0 : Byte) ∉ t ++ space :: current := hsplit ▸ s.property
      have hprefix : t <+: greeting := by
        rw [hsplit] at hsame
        exact (sameText_greeting_iff hbytes).mp (not_not.mp hsame)
      rw [if_neg hbad] at h
      match hdest : field current with
      | none =>
        rw [hdest] at h
        exact absurd h nofun
      | some (dest, current₁) =>
        obtain ⟨hsplit₁, htoken₁⟩ := field_eq_some hdest
        rw [hdest] at h
        dsimp only at h
        match hsource : field current₁ with
        | none =>
          rw [hsource] at h
          exact absurd h nofun
        | some (source, current₂) =>
          obtain ⟨hsplit₂, htoken₂⟩ := field_eq_some hsource
          rw [hsource] at h
          dsimp only at h
          match hpeer : field current₂ with
          | none =>
            rw [hpeer] at h
            exact absurd h nofun
          | some (peerId, rest) =>
            obtain ⟨hsplit₃, htoken₃⟩ := field_eq_some hpeer
            rw [hpeer] at h
            have hline : s.bytes = lineBytes t dest source peerId rest := by
              rw [hsplit, hsplit₁, hsplit₂, hsplit₃, lineBytes]
            have hlapse : (t ≠ greeting ∨ EndpointAddress.new uriParse (.ofBuffer dest) = none ∨
                EndpointAddress.new uriParse (.ofBuffer source) = none ∨ EndingLapse rest) →
                Lapse uriParse s.bytes := fun hor =>
              ⟨t, dest, source, peerId, rest, hline, hne, hprefix, htoken₁, htoken₂, htoken₃, hor⟩
            by_cases hgreeting : t = greeting
            · match hnew : EndpointAddress.new uriParse (.ofBuffer dest),
                hnew' : EndpointAddress.new uriParse (.ofBuffer source) with
              | none, _ => exact .inr (hlapse (.inr (.inl hnew)))
              | some _, none => exact .inr (hlapse (.inr (.inr (.inl hnew'))))
              | some destAddr, some publicAddr =>
                rcases read_ending rfl h with hend | ⟨noprop, v, version, hend, rfl⟩
                · exact .inr (hlapse (.inr (.inr (.inr hend))))
                · left
                  rw [hline, hgreeting, hnew, hnew']
                  exact .mk htoken₁ htoken₂ htoken₃ hnew hnew' hend
            · exact .inr (hlapse (.inl hgreeting))

end Lines

/-- No read leaves the line. A welcome line gives the message it stands for, with all its fields,
and beside the lines that lapse no other line gives one. -/
theorem new2_lines (uriParse : CString → Uri) (s : CString) :
    ∃ r, new2At uriParse (lineOf s) = .ok r ∧ (∀ m, Line uriParse s.bytes m → r = some m) ∧
      (¬ Lapse uriParse s.bytes → ∀ m, r = some m → Line uriParse s.bytes m) :=
  ⟨new2 uriParse s, new2At_eq uriParse s, fun _ => new2_line,
    fun hlapse _ hread => (line_or_lapse hread).resolve_right hlapse⟩

/-- A line of another version. -/
def otherVersion : CString :=
  .ofBuffer (text "JXTAHELLO tcp://10.0.0.1:9701 tcp://10.0.0.1:9701 urn:jxta:uuid-1 1 2.0\r\n")

/-- A line of another version is taken, too. -/
theorem not_knownVersions : ¬ ∀ uriParse s, ∃ r, new2At uriParse (lineOf s) = .ok r ∧
    ∀ m, r = some m → Line uriParse s.bytes m ∧ m.version ≠ .unknown := by
  intro h
  obtain ⟨r, hread, hknown⟩ := h tcpUri otherVersion
  rw [new2At_eq] at hread
  have hsome : (new2 tcpUri otherVersion).map WelcomeMessage.version = some .unknown := by
    decide +kernel
  obtain ⟨m, hm, hversion⟩ := Option.map_eq_some_iff.mp hsome
  exact (hknown m ((Except.ok.inj hread).symm.trans hm)).2 hversion

end JxtaC.WelcomeMessage
