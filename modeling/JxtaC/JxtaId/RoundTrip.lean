import Mathlib.Data.List.GetD
import JxtaC.JxtaId

/-
  The strings of JXTA IDs (jxta_id.c, jxta_id_uuid.c, jxta_id_jxta.c).
  The string of an ID is read back as the same ID (`fromStr_toJString`), unless it has the bytes of a
  well-known ID of the other format; neither a constructor nor `jxta_id_from_str` gives such an ID
  (`Produced.canonical`). Hence equal strings are equal IDs.
-/

namespace JxtaC.JxtaId

open Lib List
variable {jid : JxtaId} {offset : Nat} (data : IdBytes)

/-! ## the characters of a byte -/

theorem byte_cases {P : Byte → Prop} (h : ∀ n < 256, P (UInt8.ofNat n)) (b : Byte) : P b := by
  have hb := h b.toNat b.toNat_lt
  rwa [UInt8.ofNat_toNat] at hb

/-- The two characters of a byte are read back. -/
theorem strtoul_hexByte (b : Byte) : strtoul ((hexByte b).takeWhile (· ≠ 0)) = b := by
  have h : ∀ n < 256, strtoul ((hexByte (UInt8.ofNat n)).takeWhile (· ≠ 0)) = UInt8.ofNat n := by
    decide +kernel
  exact @byte_cases (fun b => strtoul ((hexByte b).takeWhile (· ≠ 0)) = b) h b

theorem byteAt_of_getElem? {str : List Byte} {i : Nat} {b : Byte}
    (hhigh : str[i]? = some (hexDigit (b.toNat / 16)))
    (hlow : str[i + 1]? = some (hexDigit (b.toNat % 16))) : byteAt str i = b := by
  unfold byteAt
  rw [getD_eq_getElem?_getD, getD_eq_getElem?_getD, hhigh, hlow]
  exact strtoul_hexByte b

/-- The characters of a number of bytes. -/
theorem length_hexBytes (f : Nat → Byte) (n : Nat) :
    ((List.range n).flatMap fun i => hexByte (f i)).length = 2 * n := by
  induction n with
  | zero => rfl
  | succ n ih =>
    rw [range_succ, flatMap_append, length_append, ih, flatMap_singleton]
    show 2 * n + 2 = 2 * (n + 1)
    omega

theorem getElem?_hexBytes (f : Nat → Byte) (rest : List Byte) {i n : Nat} (hi : i < n) (k : Nat)
    (hk : k < 2) :
    (((List.range n).flatMap fun i => hexByte (f i)) ++ rest)[i * 2 + k]? = (hexByte (f i))[k]? := by
  induction n generalizing rest with
  | zero => omega
  | succ n ih =>
    rw [range_succ, flatMap_append, flatMap_singleton, append_assoc]
    by_cases hlast : i = n
    · subst hlast
      have hlen := length_hexBytes f i
      rw [getElem?_append_right (by omega), hlen, show i * 2 + k - 2 * i = k by omega,
        getElem?_append_left hk]
    · exact ih (hexByte (f n) ++ rest) (by omega)

/-! ## the bytes of an ID -/

section Bytes
variable (data : IdBytes)

theorem lastByte_le (n : Nat) : lastByte data n ≤ n := by
  induction n with
  | zero => exact Nat.le_refl 0
  | succ n ih =>
    rw [lastByte]
    split
    · exact Nat.le_refl _
    · omega

/-- The bytes behind the last one are zero. -/
theorem zero_of_lastByte_lt {n i : Nat} (hlow : lastByte data n < i) (hhigh : i ≤ n) :
    data (Fin.ofNat 64 i) = 0 := by
  induction n with
  | zero => omega
  | succ n ih =>
    rw [lastByte] at hlow
    split at hlow
    · omega
    · by_cases hlast : i = n + 1
      · subst hlast
        exact Decidable.not_not.mp ‹_›
      · exact ih hlow (by omega)

theorem length_hexOf : (hexOf data).length = 2 * (lastByte data 62 + 1) + 2 := by
  unfold hexOf
  rw [length_append, length_hexBytes]
  rfl

/-- The bytes are read back from their characters. -/
theorem bytesOfStr_hexOf : bytesOfStr (hexOf data) = data := by
  have hlen := length_hexOf data
  have hle := lastByte_le data 62
  funext j
  unfold bytesOfStr
  rw [hlen]
  by_cases hflag : j = flagsoffset
  · subst hflag
    have hchars : ∀ k < 2, (hexOf data)[2 * (lastByte data 62 + 1) + k]?
        = (hexByte (data flagsoffset))[k]? := by
      intro k hk
      have hlen' := length_hexBytes (fun i => data (Fin.ofNat 64 i)) (lastByte data 62 + 1)
      unfold hexOf
      rw [getElem?_append_right (by omega), hlen', Nat.add_sub_cancel_left]
    rw [if_pos rfl, Nat.add_sub_cancel]
    exact byteAt_of_getElem? (hchars 0 (by decide)) (hchars 1 (by decide))
  · have hj : j.val ≠ 63 := fun h => hflag (Fin.ext h)
    have hself : Fin.ofNat 64 j.val = j := Fin.ofNat_val_eq_self j
    rw [if_neg hflag]
    split
    · have hchars : ∀ k < 2, (hexOf data)[j.val * 2 + k]? = (hexByte (data j))[k]? := by
        intro k hk
        have hget := getElem?_hexBytes (fun i => data (Fin.ofNat 64 i)) (hexByte (data flagsoffset))
          (show j.val < lastByte data 62 + 1 by omega) k hk
        rw [hself] at hget
        exact hget
      exact byteAt_of_getElem? (hchars 0 (by decide)) (hchars 1 (by decide))
    · have hzero := @zero_of_lastByte_lt data 62 j.val (by omega) (by omega)
      rw [hself] at hzero
      exact hzero.symm

end Bytes

/-! ## the strings -/

/-- The format's name and what stands behind it are found. -/
theorem fromStr_format (name rest : List Byte) (hname : 45 ∉ name) :
    fromStr (idPrefix ++ (name ++ 45 :: rest)) =
      if isFormat (text "uuid") (name ++ 45 :: rest) name.length then uuidFromStr rest
      else if isFormat (text "jxta") (name ++ 45 :: rest) name.length then jxtaFromStr rest
      else .ok (.error .notimp) := by
  have hprefix : PacketHeader.sameName idPrefix.length (idPrefix ++ (name ++ 45 :: rest)) idPrefix
      = true := rfl
  have hoffset : (name ++ 45 :: rest).idxOf 45 = name.length := by
    rw [idxOf_append_of_notMem hname, idxOf_cons_self, Nat.add_zero]
  have hrest : (name ++ 45 :: rest).drop (name.length + 1) = rest := by
    rw [← drop_drop, drop_left]
    rfl
  unfold fromStr
  rw [if_neg (by rw [length_append]; omega), hprefix, if_neg (by decide), drop_left]
  dsimp only
  rw [hoffset, if_neg (by rw [length_append, length_cons]; omega), hrest]

theorem fromStr_uuid (rest : List Byte) :
    fromStr (idPrefix ++ (text "uuid" ++ 45 :: rest)) = uuidFromStr rest := by
  have hformat : isFormat (text "uuid") (text "uuid" ++ 45 :: rest) (text "uuid").length = true := rfl
  rw [fromStr_format (text "uuid") rest (by decide), if_pos hformat]

theorem fromStr_jxta (rest : List Byte) :
    fromStr (idPrefix ++ (text "jxta" ++ 45 :: rest)) = jxtaFromStr rest := by
  have hother : isFormat (text "uuid") (text "jxta" ++ 45 :: rest) (text "jxta").length = false := rfl
  have hformat : isFormat (text "jxta") (text "jxta" ++ 45 :: rest) (text "jxta").length = true := rfl
  rw [fromStr_format (text "jxta") rest (by decide), hother, if_neg (by decide), if_pos hformat]

/-- The ID does not have the bytes of a well-known one. -/
def Canonical (jid : JxtaId) : Prop := translateToWellKnown jid = jid

theorem canonical_jxta (uniquevalue : CString) : Canonical (.jxta uniquevalue) := by
  unfold Canonical translateToWellKnown
  rw [if_neg (fun h => by cases h), if_neg (fun h => by cases h)]

theorem canonical_translate (jid : JxtaId) : Canonical (translateToWellKnown jid) := by
  by_cases hnet : jid = .uuid defaultNetPeerGroupID
  · have htranslate : translateToWellKnown jid = defaultNetGroupID := if_pos hnet
    rw [htranslate]
    exact canonical_jxta _
  · by_cases hworld : jid = .uuid worldPeerGroupID
    · have htranslate : translateToWellKnown jid = worldNetPeerGroupID :=
        (if_neg hnet).trans (if_pos hworld)
      rw [htranslate]
      exact canonical_jxta _
    · have htranslate : translateToWellKnown jid = jid := (if_neg hnet).trans (if_neg hworld)
      rw [htranslate]
      exact htranslate

/-- The string of an ID is read back. -/
theorem fromStr_toJString (h : jid.Canonical) : fromStr jid.toJString = .ok (.ok jid) := by
  have hstring : jid.toJString = idPrefix ++ jid.getUniqueportion := rfl
  unfold getUniqueportion at hstring
  rw [show translateToWellKnown jid = jid from h] at hstring
  rw [hstring]
  cases jid with
  | uuid data =>
    have hlen := length_hexOf data
    have hle := lastByte_le data 62
    rw [fromStr_uuid]
    unfold uuidFromStr
    rw [if_neg (by omega), if_neg (by omega), bytesOfStr_hexOf]
    rw [show translateToWellKnown (.uuid data) = .uuid data from h]
  | jxta uniquevalue =>
    unfold jxtaUniqueportion
    rw [fromStr_jxta]
    unfold jxtaFromStr
    rw [CString.ofBuffer_bytes]

theorem equals_iff (a b : JxtaId) : equals a b = true ↔ a = b := by
  cases a with
  | uuid data =>
    cases b with
    | uuid data' =>
      rw [JxtaId.uuid.injEq]
      exact decide_eq_true_iff
    | jxta v => exact ⟨(fun h => by cases h), (fun h => by cases h)⟩
  | jxta v =>
    cases b with
    | uuid data => exact ⟨(fun h => by cases h), (fun h => by cases h)⟩
    | jxta v' =>
      rw [JxtaId.jxta.injEq]
      exact decide_eq_true_iff

/-! ## the IDs there are -/

/-- The IDs that the constructors and the reader give, and the well-known ones. -/
inductive Produced : JxtaId → Prop where
  | nullID : Produced nullID
  | worldNetPeerGroupID : Produced worldNetPeerGroupID
  | defaultNetGroupID : Produced defaultNetGroupID
  | peergroup {seed : List Byte} {jid : JxtaId} (h : newPeergroupid2 seed = .ok jid) : Produced jid
  | peer {pg : JxtaId} {seed : List Byte} {jid : JxtaId} (h : newPeerid2 pg seed = .ok jid) :
      Produced jid
  | pipe {pg : JxtaId} {seed : List Byte} {jid : JxtaId} (h : newPipeid2 pg seed = .ok jid) :
      Produced jid
  | codat {pg : JxtaId} {uuid : Fin 16 → Byte} {jid : JxtaId} (h : newCodatid1 pg uuid = .ok jid) :
      Produced jid
  | moduleclass {uuid : Fin 16 → Byte} {jid : JxtaId} (h : newModuleclassid1 uuid = .ok jid) :
      Produced jid
  | moduleclassOf {base : JxtaId} {uuid : Fin 16 → Byte} {jid : JxtaId}
      (h : newModuleclassid2 base uuid = .ok jid) : Produced jid
  | modulespec {mcid : JxtaId} {uuid : Fin 16 → Byte} {jid : JxtaId}
      (h : newModulespecid mcid uuid = .ok jid) : Produced jid
  | str {idStr : List Byte} {jid : JxtaId} (h : fromStr idStr = .ok (.ok jid)) : Produced jid

/-- Both well-known groups are of the type of a group. -/
theorem canonical_of_flag {data : IdBytes} (h : data flagsoffset ≠ flagPeergroupid) :
    Canonical (.uuid data) := by
  have hne : ∀ known : IdBytes, known flagsoffset = flagPeergroupid → JxtaId.uuid data ≠ .uuid known := by
    intro known hknown heq
    rw [JxtaId.uuid.inj heq] at h
    exact h hknown
  exact (if_neg (hne _ rfl)).trans (if_neg (hne _ rfl))

/-- Neither has the version of a UUID that is made of a seed. -/
theorem canonical_of_version {data : IdBytes} (h : data 6 ≠ 0x62) : Canonical (.uuid data) := by
  have hne : ∀ known : IdBytes, known 6 = 0x62 → JxtaId.uuid data ≠ .uuid known := by
    intro known hknown heq
    rw [JxtaId.uuid.inj heq] at h
    exact h hknown
  exact (if_neg (hne _ rfl)).trans (if_neg (hne _ rfl))

/-- The type of an ID is not overwritten. -/
theorem memcpy_flag {src : List Byte} (h : offset + src.length ≤ 63) :
    memcpy data offset src flagsoffset = data flagsoffset := by
  show (if offset ≤ 63 then src.getD (63 - offset) (data flagsoffset) else data flagsoffset) = _
  rw [if_pos (by omega), getD_eq_default _ _ (by omega)]

theorem setByte_ne {i j : Fin 64} (b : Byte) (h : j ≠ i) : setByte data i b j = data j := if_neg h

theorem markUuid_flag (h : offset < 53) : markUuid data offset flagsoffset = data flagsoffset := by
  have hne : ∀ i < 63, flagsoffset ≠ Fin.ofNat 64 i := by
    intro i hi heq
    have hval : 63 = i % 64 := congrArg Fin.val heq
    omega
  unfold markUuid
  rw [setByte_ne _ _ (hne _ (by omega)), setByte_ne _ _ (hne _ (by omega)),
    setByte_ne _ _ (hne _ (by omega))]

/-- The version of a group's UUID is 4. -/
theorem markUuid_version : markUuid data 0 6 ≠ 0x62 := by
  have h : ∀ n < 256, (UInt8.ofNat n &&& 0x0f) ||| 0x40 ≠ (0x62 : Byte) := by decide +kernel
  exact @byte_cases (fun b => (b &&& 0x0f) ||| 0x40 ≠ (0x62 : Byte)) h (data 6)

theorem length_groupUuid : (groupUuid data).length = 16 := by
  unfold groupUuid
  rw [length_take, length_ofFn]
  rfl

/-- What is filled in behind the group leaves the type of the ID as it is. -/
theorem canonical_newInGroup {flag : Byte} {pg : JxtaId} {fill : IdBytes → IdBytes}
    (hfill : ∀ data, fill data flagsoffset = data flagsoffset) (hflag : flag ≠ flagPeergroupid)
    (h : newInGroup flag pg fill = .ok jid) : jid.Canonical := by
  unfold newInGroup at h
  cases hpg : translateFromWellKnown pg with
  | jxta v =>
    rw [hpg] at h
    cases h
  | uuid group =>
    rw [hpg] at h
    have hlen := length_groupUuid group
    rw [← Except.ok.inj h]
    refine canonical_of_flag ?_
    rw [hfill, memcpy_flag _ (by omega)]
    exact hflag

/-- A UUID that is made of a seed, behind that of the group. -/
theorem markUuid_seed_flag (seed : List Byte) (data : IdBytes) :
    markUuid (memcpy data 16 (seed.take uuidsize)) 16 flagsoffset = data flagsoffset := by
  have hlen := length_take_le uuidsize seed
  unfold uuidsize at hlen
  rw [markUuid_flag _ (by decide)]
  unfold uuidsize
  rw [memcpy_flag _ (by omega)]

theorem memcpy_uuid_flag (uuid : Fin 16 → Byte) (data : IdBytes) (h : offset ≤ 16) :
    memcpy data offset (List.ofFn uuid) flagsoffset = data flagsoffset := by
  have hlen := @length_ofFn _ _ uuid
  exact memcpy_flag data (by omega)

theorem canonical_newInClass {flag : Byte} {base : JxtaId} {uuid : Fin 16 → Byte}
    (hflag : flag ≠ flagPeergroupid) (h : newInClass flag base uuid = .ok jid) :
    jid.Canonical := by
  unfold newInClass at h
  cases base with
  | jxta v => cases h
  | uuid cls =>
    have hlen := length_groupUuid cls
    rw [← Except.ok.inj h]
    refine canonical_of_flag ?_
    rw [memcpy_uuid_flag uuid _ (Nat.le_refl 16), memcpy_flag _ (by omega)]
    exact hflag

/-- The reader gives the well-known ID in place of its bytes. -/
theorem canonical_fromStr {idStr : List Byte} (h : fromStr idStr = .ok (.ok jid)) :
    jid.Canonical := by
  have huuid : ∀ str, uuidFromStr str = .ok (.ok jid) → jid.Canonical := by
    intro str hstr
    unfold uuidFromStr at hstr
    split at hstr
    · cases hstr
    · split at hstr
      · cases hstr
      · rw [← Except.ok.inj (Except.ok.inj hstr)]
        exact canonical_translate _
  have hjxta : ∀ str, jxtaFromStr str = .ok (.ok jid) → jid.Canonical := by
    intro str hstr
    unfold jxtaFromStr at hstr
    rw [← Except.ok.inj (Except.ok.inj hstr)]
    exact canonical_jxta _
  unfold fromStr at h
  split at h
  · cases h
  · split at h
    · cases h
    · dsimp only at h
      split at h
      · cases h
      · split at h
        · exact huuid _ h
        · split at h
          · exact hjxta _ h
          · cases h

/-- No ID that is produced has the bytes of a well-known one. -/
theorem Produced.canonical (h : Produced jid) : jid.Canonical := by
  cases h with
  | nullID => exact canonical_jxta _
  | worldNetPeerGroupID => exact canonical_jxta _
  | defaultNetGroupID => exact canonical_jxta _
  | peergroup h =>
    unfold newPeergroupid2 at h
    rw [← Except.ok.inj h]
    exact canonical_of_version (markUuid_version _)
  | @peer pg seed _ h => exact canonical_newInGroup (markUuid_seed_flag seed) (by decide) h
  | @pipe pg seed _ h => exact canonical_newInGroup (markUuid_seed_flag seed) (by decide) h
  | @codat pg uuid _ h =>
    exact canonical_newInGroup (fun data => memcpy_uuid_flag uuid data (Nat.le_refl 16)) (by decide) h
  | @moduleclass uuid _ h =>
    unfold newModuleclassid1 at h
    rw [← Except.ok.inj h]
    refine canonical_of_flag ?_
    rw [memcpy_uuid_flag uuid _ (Nat.zero_le 16)]
    decide
  | moduleclassOf h => exact canonical_newInClass (by decide) h
  | modulespec h => exact canonical_newInClass (by decide) h
  | str h => exact canonical_fromStr h

/-- Every ID is read back from its string, and IDs are equal if their strings are; equal IDs have one
    hash code. -/
theorem produced_string {a b : JxtaId} (ha : Produced a) (hb : Produced b) :
    (∃ a', fromStr a.toJString = .ok (.ok a') ∧ equals a' a = true) ∧
      (equals a b = true ↔ a.toJString = b.toJString) ∧
      (equals a b = true → hashcode a = hashcode b) := by
  have hread := fromStr_toJString ha.canonical
  have hread' := fromStr_toJString hb.canonical
  refine ⟨⟨a, hread, (equals_iff a a).mpr rfl⟩, ?_, ?_⟩
  · rw [equals_iff]
    constructor
    · intro h
      rw [h]
    · intro h
      rw [h, hread'] at hread
      exact (Except.ok.inj (Except.ok.inj hread)).symm
  · intro h
    rw [(equals_iff a b).mp h]

/-- A peer of the net group, and the net group itself. -/
theorem produced_string_peer :
    ∃ jid, newPeerid2 defaultNetGroupID [1, 2, 3, 4] = .ok jid ∧
      (∃ a', fromStr jid.toJString = .ok (.ok a') ∧ equals a' jid = true) ∧
      (equals jid defaultNetGroupID = true ↔ jid.toJString = defaultNetGroupID.toJString) ∧
      (equals jid defaultNetGroupID = true → hashcode jid = hashcode defaultNetGroupID) :=
  ⟨_, rfl, produced_string (.peer (rfl : newPeerid2 defaultNetGroupID [1, 2, 3, 4] = .ok _))
    .defaultNetGroupID⟩

end JxtaC.JxtaId
