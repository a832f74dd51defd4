import JxtaC.Message.Writer
import Mathlib.Algebra.Order.BigOperators.Group.List

/-
  The count and length fields that the writers emit.
  Each is narrowed to its width while the loop behind it runs over the whole list or string. So
  the fields are right exactly where everything fits (`FitsV1`, `FitsV2`), or where version 2
  comes upon a name that it rejects.
-/

namespace JxtaC.Message

open Lib Lib.Stream List

/-! ## what fits its fields -/

/-- No string of 2^16 bytes and no value of 2^32. -/
structure PartFits (p : Part) : Prop where
  ns : p.ns.bytes.length < 65536
  name : p.name.bytes.length < 65536
  mimeType : ∀ m ∈ p.mimeType, m.bytes.length < 65536
  value : p.value.length < 4294967296

theorem wireString_faithful_iff {s : CString} : (wireString s).Faithful ↔ s.bytes.length < 65536 :=
  Counted.faithful_of_iff

/-- The default names are short, so that the names of a table fit if those do that it is of. -/
theorem names_fit_iff {names : List CString} :
    (∀ w ∈ ((tableOf names).drop 2).map wireString, w.Faithful) ↔
      ∀ n ∈ names, n.bytes.length < 65536 := by
  have hdefault : messageEmptyNs.bytes.length < 65536 ∧ messageJxtaNs.bytes.length < 65536 := by
    decide
  rw [forall_mem_map]
  constructor
  · intro h n hn
    have hmem : n ∈ tableOf names := mem_tableOf.mpr (.inr (.inr hn))
    rw [tableOf_eq] at hmem
    rcases mem_cons.mp hmem with rfl | hmem
    · exact hdefault.1
    rcases mem_cons.mp hmem with rfl | hmem
    · exact hdefault.2
    · exact wireString_faithful_iff.mp (h n hmem)
  · intro h n hn
    apply wireString_faithful_iff.mpr
    rcases mem_tableOf.mp (mem_of_mem_drop hn) with rfl | rfl | hn
    · exact hdefault.1
    · exact hdefault.2
    · exact h n hn

theorem layoutHeader_faithful_iff {version : WireVersion} {names : List CString} {count : Nat} :
    (layoutHeader version (tableOf names) count).Faithful ↔
      (tableOf names).length - 2 < 65536 ∧ ∀ n ∈ names, n.bytes.length < 65536 := by
  have hlen : ((tableOf names).drop 2).length = (tableOf names).length - 2 := length_drop
  constructor
  · intro h
    refine ⟨?_, names_fit_iff.mp h.names⟩
    have hcount := h.count
    rw [layoutHeader, length_map, hlen] at hcount
    exact CountField.val_narrow_iff.mp hcount
  · intro h
    refine ⟨?_, names_fit_iff.mpr h.2⟩
    rw [layoutHeader, length_map, hlen]
    exact CountField.val_narrow_iff.mpr h.1

/-! ## version 1 -/

/-- The elements in the order that version 1 writes them in: by namespace, and in each namespace
    in their order. -/
def grouped (elements : List MessageElement) : List MessageElement :=
  (v1NamesTable elements).flatMap fun ns => elements.filter fun el => el.body.ns = ns

theorem reverse_elementsOfNamespace (elements : List MessageElement) (ns : CString) :
    (elementsOfNamespace elements ns).reverse = elements.filter fun el => el.body.ns = ns := by
  rw [elementsOfNamespace, filter_reverse, reverse_reverse]

theorem mem_v1NamesTable {elements : List MessageElement} {el : MessageElement}
    (h : el ∈ elements) : el.body.ns ∈ v1NamesTable elements := by
  rw [v1NamesTable_eq]
  exact mem_tableOf.mpr (.inr (.inr (mem_map_of_mem (mem_reverse.mpr h))))

/-- Grouping a list by a key loses no item and repeats none. -/
theorem flatMap_filter_perm {α κ : Type} [DecidableEq α] [DecidableEq κ] {keys : List κ}
    (hkeys : keys.Nodup) (key : α → κ) {l : List α} (hl : ∀ a ∈ l, key a ∈ keys) :
    (keys.flatMap fun k => l.filter fun a => key a = k).Perm l := by
  apply perm_iff_count.mpr
  intro a
  have hother : ∀ k, k ≠ key a → k ∈ keys →
      (List.count a ∘ fun k => l.filter fun a => key a = k) k = 0 := by
    intro k hk _
    refine count_eq_zero.mpr fun hmem => hk ?_
    have hkey := (mem_filter.mp hmem).2
    exact (of_decide_eq_true hkey).symm
  rw [count_flatMap, sum_map_eq_nsmul_single (key a) _ hother]
  by_cases ha : a ∈ l
  · rw [count_eq_one_of_mem hkeys (hl a ha), one_nsmul, Function.comp_apply,
      count_filter (by simp)]
  · rw [Function.comp_apply, count_filter (by simp), count_eq_zero.mpr ha, nsmul_zero]

section
variable (elements : List MessageElement)

theorem grouped_perm : (grouped elements).Perm elements := by
  refine flatMap_filter_perm ?_ (fun el => el.body.ns) fun el h => mem_v1NamesTable h
  rw [v1NamesTable_eq]
  exact nodup_tableOf _

theorem nodup_v1NamesTable : (v1NamesTable elements).Nodup := by
  rw [v1NamesTable_eq]
  exact nodup_tableOf _

/-- Version 1 writes the grouped elements, each with the index of its namespace. -/
theorem layoutV1Elements_eq :
    layoutV1Elements elements (v1NamesTable elements) = (grouped elements).map fun el =>
      .v1 (wireElement1 ((v1NamesTable elements).idxOf el.body.ns) el.body) := by
  have hzip : (v1NamesTable elements).zipIdx =
      (v1NamesTable elements).map fun ns => (ns, (v1NamesTable elements).idxOf ns) := by
    apply ext_getElem
    · rw [length_zipIdx, length_map]
    · intro i h h'
      rw [getElem_zipIdx, getElem_map, (nodup_v1NamesTable elements).idxOf_getElem,
        Nat.zero_add]
  rw [layoutV1Elements, hzip, flatMap_map, grouped, map_flatMap]
  congr 1
  funext ns
  rw [reverse_elementsOfNamespace]
  apply map_congr_left
  intro el hel
  rw [show el.body.ns = ns from of_decide_eq_true (mem_filter.mp hel).2]

end

/-- Everything fits the fields of version 1. -/
structure FitsV1 (elements : List MessageElement) : Prop where
  names : (v1NamesTable elements).length - 2 < 65536
  count : elements.length < 65536
  parts : ∀ el ∈ elements, PartFits el.body

theorem wireElement1_faithful_iff {nsid : Nat} {p : Part} :
    (wireElement1 nsid p).Faithful ↔ p.name.bytes.length < 65536 ∧
      (∀ m ∈ p.mimeType, m.bytes.length < 65536) ∧ p.value.length < 4294967296 := by
  constructor
  · intro h
    refine ⟨wireString_faithful_iff.mp h.name, ?_, Counted.faithful_of_iff.mp h.value⟩
    intro m hm
    exact wireString_faithful_iff.mp (h.mimeType _ (Option.mem_map_of_mem wireString hm))
  · rintro ⟨hname, hmime, hvalue⟩
    refine ⟨wireString_faithful_iff.mpr hname, ?_, Counted.faithful_of_iff.mpr hvalue⟩
    intro w hw
    obtain ⟨m, hm, rfl⟩ := Option.map_eq_some_iff.mp hw
    exact wireString_faithful_iff.mpr (hmime m hm)

theorem layoutV1_faithful_iff {elements : List MessageElement} :
    (layoutV1 elements).Faithful ↔ FitsV1 elements := by
  have hheader := @layoutHeader_faithful_iff .v1 (elements.reverse.map fun el => el.body.ns)
    elements.length
  rw [← v1NamesTable_eq] at hheader
  have hcount : (layoutV1 elements).header.elementCount.val = (layoutV1 elements).elements.length ↔
      elements.length < 65536 := by
    have hlen := congrArg List.length (layoutV1Elements_eq elements)
    rw [length_map, (grouped_perm elements).length_eq] at hlen
    show (CountField.narrow 2 elements.length).val = _ ↔ _
    rw [layoutV1, hlen]
    exact CountField.val_narrow_iff
  have helements : (∀ e ∈ (layoutV1 elements).elements, e.Faithful) ↔ ∀ el ∈ elements,
      el.body.name.bytes.length < 65536 ∧ (∀ m ∈ el.body.mimeType, m.bytes.length < 65536) ∧
        el.body.value.length < 4294967296 := by
    rw [layoutV1, layoutV1Elements_eq, forall_mem_map]
    constructor
    · exact fun h el hel =>
        wireElement1_faithful_iff.mp (h el ((grouped_perm elements).mem_iff.mpr hel))
    · exact fun h el hel =>
        wireElement1_faithful_iff.mpr (h el ((grouped_perm elements).mem_iff.mp hel))
  constructor
  · intro h
    obtain ⟨hnames, hns⟩ := hheader.mp h.header
    refine ⟨hnames, hcount.mp h.count, fun el hel => ?_⟩
    obtain ⟨hname, hmime, hvalue⟩ := helements.mp h.elements el hel
    exact ⟨hns _ (mem_map_of_mem (mem_reverse.mpr hel)), hname, hmime, hvalue⟩
  · intro h
    refine ⟨hheader.mpr ⟨h.names, ?_⟩, hcount.mpr h.count, helements.mpr fun el hel => ?_⟩
    · rw [forall_mem_map]
      exact fun el hel => (h.parts el (mem_reverse.mp hel)).ns
    · have hfits := h.parts el hel
      exact ⟨hfits.name, hfits.mimeType, hfits.value⟩

/-! ## version 2 -/

/-- Everything fits the fields of version 2. -/
structure FitsV2 (elements : List MessageElement) : Prop where
  names : (buildV2NamesTable elements).length - 2 < 65536
  count : elements.length < 65536
  parts : ∀ el ∈ elements, ∀ p ∈ el.body :: el.sigs, PartFits p

theorem firstUnregistered_eq_none_iff {table names : List CString} :
    firstUnregistered table names = none ↔ ∀ n ∈ names, Registered table n := by
  simp [firstUnregistered]

theorem Registered.mem {table : List CString} {name : CString} (h : Registered table name) :
    name ∈ table := idxOf_lt_length_iff.mp h.1

theorem wirePart_faithful_iff {table : List CString} {p : Part} {sigs : List Part}
    (hreg : ∀ n ∈ lookups p, Registered table n) :
    (wirePart table p sigs).Faithful ↔
      p.name.bytes.length < 65536 ∧ p.value.length < 4294967296 := by
  have hvalue : (wirePart table p sigs).value.Faithful ↔ p.value.length < 4294967296 := by
    refine Counted.faithful_of_iff.trans ?_
    rw [wirePart, (v2Flags_cases p sigs).2.2.2.2, show 256 ^ 4 = 4294967296 from rfl]
  constructor
  · exact fun h => ⟨wireString_faithful_iff.mp h.name, hvalue.mp h.value⟩
  · rintro ⟨hname, hval⟩
    refine ⟨?_, wireString_faithful_iff.mpr hname, ?_, hvalue.mpr hval⟩
    · rw [wirePart, wireName_of_registered (hreg _ mem_cons_self)]
      trivial
    · intro w hw
      obtain ⟨m, hm, rfl⟩ := Option.map_eq_some_iff.mp hw
      rw [wireName_of_registered (hreg m (mem_cons_of_mem _ (Option.mem_toList.mpr hm)))]
      trivial

/-- What holds of every level of a laid out chain. -/
theorem forall_wireSigs {table : List CString} {Q : WirePart → Prop} {R : Part → Prop} (p : Part)
    (sigs : List Part) (h : ∀ q ∈ p :: sigs, ∀ more, Q (wirePart table q more) ↔ R q) :
    (∀ w ∈ wirePart table p sigs :: wireSigs table sigs, Q w) ↔ ∀ q ∈ p :: sigs, R q := by
  induction sigs generalizing p with
  | nil =>
    rw [wireSigs, forall_mem_singleton, forall_mem_singleton]
    exact h p mem_cons_self []
  | cons sig sigs ih =>
    have htail := ih sig fun q hq => h q (mem_cons_of_mem p hq)
    exact forall_mem_cons.trans
      ((and_congr (h p mem_cons_self _) htail).trans forall_mem_cons.symm)

theorem mem_lookupsOf {elements : List MessageElement} {el : MessageElement} {p : Part}
    {name : CString} (hel : el ∈ elements) (hp : p ∈ el.body :: el.sigs) (hn : name ∈ lookups p) :
    name ∈ lookupsOf elements :=
  mem_flatMap.mpr ⟨el, hel, mem_flatMap.mpr ⟨p, hp, hn⟩⟩

/-- The names of version 2 are looked up later, but for the type of an element without one. -/
theorem exists_lookup_of_mem_namesOf {el : MessageElement} {name : CString}
    (hn : name ∈ namesOf el) : name = octetStream ∨ ∃ p ∈ el.body :: el.sigs, name ∈ lookups p := by
  have hpart : ∀ p ∈ el.body :: el.sigs, name ∈ [p.ns, p.getMimeType] →
      name = octetStream ∨ ∃ p ∈ el.body :: el.sigs, name ∈ lookups p := by
    intro p hp hname
    rcases mem_cons.mp hname with rfl | hname
    · exact .inr ⟨p, hp, mem_cons_self⟩
    · rw [mem_singleton.mp hname, Part.getMimeType]
      cases hm : p.mimeType with
      | none => exact .inl rfl
      | some m =>
        exact .inr ⟨p, hp, mem_cons_of_mem _ (Option.mem_toList.mpr hm)⟩
  rw [namesOf] at hn
  rcases mem_append.mp hn with hn | hn
  · exact hpart el.body mem_cons_self hn
  · cases hsigs : el.sigs with
    | nil =>
      rw [hsigs] at hn
      cases hn
    | cons sig sigs =>
      rw [hsigs] at hn hpart
      exact hpart sig (mem_cons_of_mem _ mem_cons_self) hn

theorem mem_lookups {p : Part} {name : CString} :
    name ∈ lookups p ↔ name = p.ns ∨ p.mimeType = some name := by
  rw [lookups, mem_cons, Option.mem_toList]

theorem namesOf_short {el : MessageElement}
    (h : ∀ p ∈ el.body :: el.sigs, ∀ n ∈ lookups p, n.bytes.length < 65536) {name : CString}
    (hn : name ∈ namesOf el) : name.bytes.length < 65536 := by
  rcases exists_lookup_of_mem_namesOf hn with rfl | ⟨p, hp, hname⟩
  · decide
  · exact h p hp name hname

theorem PartFits.lookups {p : Part} (h : PartFits p) :
    ∀ n ∈ lookups p, n.bytes.length < 65536 := by
  intro n hn
  rcases mem_lookups.mp hn with rfl | hm
  · exact h.ns
  · exact h.mimeType n hm

theorem layoutV2_faithful_iff {elements : List MessageElement}
    (hreg : firstUnregistered (buildV2NamesTable elements) (lookupsOf elements) = none) :
    (layoutV2 elements).Faithful ↔ FitsV2 elements := by
  have hregistered := firstUnregistered_eq_none_iff.mp hreg
  have hheader := @layoutHeader_faithful_iff .v2 (elements.reverse.flatMap namesOf)
    elements.length
  rw [← buildV2NamesTable_eq] at hheader
  have hcount : (layoutV2 elements).header.elementCount.val = (layoutV2 elements).elements.length ↔
      elements.length < 65536 := by
    show (CountField.narrow 2 elements.length).val = _ ↔ _
    rw [layoutV2, length_map]
    exact CountField.val_narrow_iff
  have helements : (∀ e ∈ (layoutV2 elements).elements, e.Faithful) ↔
      ∀ el ∈ elements, ∀ p ∈ el.body :: el.sigs,
        p.name.bytes.length < 65536 ∧ p.value.length < 4294967296 := by
    rw [layoutV2, forall_mem_map]
    exact forall₂_congr fun el hel => forall_wireSigs el.body el.sigs fun q hq more =>
      wirePart_faithful_iff fun n hn => hregistered n (mem_lookupsOf hel hq hn)
  constructor
  · intro h
    obtain ⟨hnames, hshort⟩ := hheader.mp h.header
    -- every name that is looked up is in the table
    have hlookup : ∀ n ∈ lookupsOf elements, n.bytes.length < 65536 := by
      intro n hn
      have hmem := (hregistered n hn).mem
      rw [buildV2NamesTable_eq] at hmem
      rcases mem_tableOf.mp hmem with rfl | rfl | hmem
      · decide
      · decide
      · exact hshort n hmem
    refine ⟨hnames, hcount.mp h.count, fun el hel p hp => ?_⟩
    obtain ⟨hname, hvalue⟩ := helements.mp h.elements el hel p hp
    refine ⟨hlookup _ (mem_lookupsOf hel hp mem_cons_self), hname, fun m hm => ?_, hvalue⟩
    exact hlookup m (mem_lookupsOf hel hp (mem_cons_of_mem _ (Option.mem_toList.mpr hm)))
  · intro h
    refine ⟨hheader.mpr ⟨h.names, ?_⟩, hcount.mpr h.count, helements.mpr fun el hel p hp => ?_⟩
    · intro n hn
      obtain ⟨el, hel, hn⟩ := mem_flatMap.mp hn
      exact namesOf_short (fun p hp => (h.parts el (mem_reverse.mp hel) p hp).lookups) hn
    · have hfits := h.parts el hel p hp
      exact ⟨hfits.name, hfits.value⟩

/-! ## the claim and its exact condition -/

/-- What a writer should do with a message that is laid out so: emit it with every count and
    length as it is, or return an error. -/
def FieldsFaithful (layout : WireMessage) (written : Result Byte Status Unit) : Prop :=
  (written = .ok () layout.bytes ∧ layout.Faithful) ∨
    ∃ res out, written = .exit res out ∧ res ≠ .success

/-- A `write_func` that takes everything. -/
def acceptAll : OutputStream := fun _ _ => .success

theorem acceptAll_open : acceptAll.sink.Open := fun _ _ => rfl

theorem fieldsFaithful_of_emits {stream : OutputStream} {x : Action Byte Status Unit}
    {layout : WireMessage} (h : Emits stream.sink x layout.bytes) (hl : layout.Faithful) :
    FieldsFaithful layout (x []) := by
  rcases h [] with hok | ⟨res, o, _, _, hexit, hW⟩
  · exact .inl ⟨hok, hl⟩
  · exact .inr ⟨res, o, hexit, OutputStream.refused hW⟩

theorem FieldsFaithful.of_ok {layout : WireMessage} {out : List Byte}
    (h : FieldsFaithful layout (.ok () out)) : layout.Faithful := by
  rcases h with ⟨-, hl⟩ | ⟨res, o, hexit, -⟩
  · exact hl
  · cases hexit

/-- A message that version 2 either lays out faithfully or rejects. -/
def AcceptedOrRejectedV2 (elements : List MessageElement) : Prop :=
  match firstUnregistered (buildV2NamesTable elements) (lookupsOf elements) with
  | none => FitsV2 elements
  | some name => lookupNameToken name (buildV2NamesTable elements) = .ok namesLiteralIdx

theorem messageWriteV1_faithful_iff (mimeType : Option CString) (elements : List MessageElement) :
    (∀ stream : OutputStream,
        FieldsFaithful (layoutV1 elements) (messageWriteV1 stream.sink mimeType elements [])) ↔
      (wireMimeOk mimeType = true → FitsV1 elements) := by
  constructor
  · intro h hmime
    have hfields := h acceptAll
    rw [(emits_messageWriteV1 _ hmime elements).of_open acceptAll_open] at hfields
    exact layoutV1_faithful_iff.mp hfields.of_ok
  · intro h stream
    by_cases hmime : wireMimeOk mimeType = true
    · exact fieldsFaithful_of_emits (emits_messageWriteV1 stream.sink hmime elements)
        (layoutV1_faithful_iff.mpr (h hmime))
    · refine .inr ⟨.notimp, [], ?_, by decide⟩
      rw [messageWriteV1, if_pos (by simpa using hmime)]
      rfl

theorem messageWriteV2_faithful_iff (mimeType : Option CString) (elements : List MessageElement) :
    (∀ stream : OutputStream,
        FieldsFaithful (layoutV2 elements) (messageWriteV2 stream.sink mimeType elements [])) ↔
      (wireMimeOk mimeType = true → AcceptedOrRejectedV2 elements) := by
  unfold AcceptedOrRejectedV2
  constructor
  · intro h hmime
    have hlooks := @looks_messageWriteV2 acceptAll mimeType hmime elements
    have hfields := h acceptAll
    cases hfirst : firstUnregistered (buildV2NamesTable elements) (lookupsOf elements) with
    | none =>
      rw [(hlooks.emits hfirst).of_open acceptAll_open] at hfields
      exact (layoutV2_faithful_iff hfirst).mp hfields.of_ok
    | some name =>
      have hunregistered : ¬ Registered (buildV2NamesTable elements) name := by
        simpa using find?_some hfirst
      rcases lookupNameToken_not_registered hunregistered with hlookup | hlookup
      · exact hlookup
      · rw [hlooks.hangs name hfirst hlookup acceptAll_open] at hfields
        rcases hfields with ⟨hok, -⟩ | ⟨res, o, hexit, -⟩
        · cases hok
        · cases hexit
  · intro h stream
    by_cases hmime : wireMimeOk mimeType = true
    · have hlooks := @looks_messageWriteV2 stream mimeType hmime elements
      have hcond := h hmime
      cases hfirst : firstUnregistered (buildV2NamesTable elements) (lookupsOf elements) with
      | none =>
        rw [hfirst] at hcond
        exact fieldsFaithful_of_emits (hlooks.emits hfirst)
          ((layoutV2_faithful_iff hfirst).mpr hcond)
      | some name =>
        rw [hfirst] at hcond
        exact .inr (hlooks.refuses name hfirst hcond [])
    · refine .inr ⟨.notimp, [], ?_, by decide⟩
      rw [messageWriteV2, if_pos (by simpa using hmime)]
      rfl

/-- The fields that the writers emit are right, for every `write_func`, exactly if everything
    fits them; version 2 may instead come upon a name that it rejects. -/
theorem emitted_fields_faithful_iff (mimeType : Option CString) (elements : List MessageElement) :
    ((∀ stream : OutputStream,
        FieldsFaithful (layoutV1 elements) (messageWriteV1 stream.sink mimeType elements [])) ↔
      (wireMimeOk mimeType = true → FitsV1 elements)) ∧
    ((∀ stream : OutputStream,
        FieldsFaithful (layoutV2 elements) (messageWriteV2 stream.sink mimeType elements [])) ↔
      (wireMimeOk mimeType = true → AcceptedOrRejectedV2 elements)) :=
  ⟨messageWriteV1_faithful_iff mimeType elements, messageWriteV2_faithful_iff mimeType elements⟩

/-- An element whose name has 2^16 bytes. -/
def longNamed : MessageElement :=
  ⟨⟨messageEmptyNs, ⟨List.replicate 65536 1,
    fun h => absurd (eq_of_mem_replicate h) (by decide)⟩, none, []⟩, []⟩

/-- `string_write` emits the length 0 and 65536 bytes. -/
theorem not_emitted_fields_faithful :
    ¬ ∀ (stream : OutputStream), FieldsFaithful (layoutV1 [longNamed])
      (messageWriteV1 stream.sink none [longNamed] []) := by
  intro h
  have hfits := (messageWriteV1_faithful_iff none [longNamed]).mp h rfl
  have hname := (hfits.parts longNamed mem_cons_self).name
  rw [show longNamed.body.name.bytes = List.replicate 65536 1 from rfl,
    length_replicate] at hname
  omega

end JxtaC.Message
