import JxtaC.Proffer

/-
  The documents of proffer advertisements. The group of an element holds its items, the last first
  (`mem_groups`), and is printed as one element with the text that was added first (`printGroup_eq`).
  A faithful document has the tags of the printed one (`Reading`), so that every value in it stands for
  itself (`Faithful.plain`); the other way round the printed document is the faithful one
  (`Plain.faithful`).
-/

namespace JxtaC

open Lib.XmlDocument List

namespace Proffer
variable {s : List Byte} {ns : CString} {items : List Item} {g : List ElemAttr}
variable {element : List Byte}

/-! ## groups -/

/-- What an item is stored as. -/
def Item.elemAttr (item : Item) : ElemAttr :=
  ⟨item.element.bytes, item.attr.map CString.bytes, item.value.bytes⟩

/-- The items of an element, the last first. -/
def groupOf (items : List Item) (element : List Byte) : List ElemAttr :=
  ((items.filter fun item => item.element.bytes = element).map Item.elemAttr).reverse

theorem scanName_element (h : 32 ∉ s) (element : List Byte) :
    scanName s element none = (element ++ s, none) := by
  induction s generalizing element with
  | nil => rw [scanName, append_nil]
  | cons b s ih =>
    obtain ⟨hb, hs⟩ := not_or.mp (mem_cons.not.mp h)
    rw [scanName, ih hs, append_assoc]
    · rfl
    · rintro rfl
      exact absurd rfl hb
    · rintro c t rfl
      exact absurd rfl hb

theorem scanName_attr (h : 32 ∉ s) (element attr : List Byte) :
    scanName s element (some attr) = (element, some (attr ++ s)) := by
  induction s generalizing attr with
  | nil => rw [scanName, append_nil]
  | cons b s ih =>
    obtain ⟨hb, hs⟩ := not_or.mp (mem_cons.not.mp h)
    rw [scanName, ih hs, append_assoc]
    · rfl
    · rintro rfl
      exact absurd rfl hb
    · rintro c t rfl
      exact absurd rfl hb

theorem scanName_blank (h : 32 ∉ s) (b : Byte) (t element : List Byte) :
    scanName (s ++ 32 :: b :: t) element none = scanName (b :: t) (element ++ s) (some []) := by
  induction s generalizing element with
  | nil => rw [nil_append, scanName, append_nil]
  | cons c s ih =>
    obtain ⟨hc, hs⟩ := not_or.mp (mem_cons.not.mp h)
    rw [cons_append, scanName, ih hs, append_assoc]
    · rfl
    · rintro rfl
      exact absurd rfl hc
    · rintro c t rfl
      exact absurd rfl hc

/-- The name of an item is taken apart into its parts. -/
theorem getElementAttribute_name (item : Item) :
    getElementAttribute item.name.bytes item.value.bytes = item.elemAttr := by
  have hscan : scanName item.name.bytes [] none =
      (item.element.bytes, item.attr.map CString.bytes) := by
    unfold Item.name
    split
    next hattr => rw [scanName_element item.element_blankless, nil_append, hattr, Option.map_none]
    next a hattr =>
      obtain ⟨hne, hblankless⟩ := item.attr_blankless a hattr
      obtain ⟨b, t, hbt⟩ := exists_cons_of_ne_nil hne
      show scanName (item.element.bytes ++ 32 :: a.bytes) [] none = _
      rw [hbt, scanName_blank item.element_blankless, ← hbt, scanName_attr hblankless, hattr]
      rfl
  unfold getElementAttribute
  rw [hscan]
  rfl

theorem groupOf_concat (items : List Item) (item : Item) (element : List Byte) :
    groupOf (items ++ [item]) element =
      if item.element.bytes = element then item.elemAttr :: groupOf items element
      else groupOf items element := by
  unfold groupOf
  rw [filter_append]
  split
  next h => simp [h]
  next h => simp [h]

theorem addItems_concat (ns : CString) (items : List Item) (item : Item) :
    addItems ns (items ++ [item]) = addToElemHash (addItems ns items) item.elemAttr := by
  unfold addItems
  rw [foldl_append]
  show addItem _ item.name item.value = _
  unfold addItem
  rw [getElementAttribute_name]

/-- What items leave of an advertisement. -/
theorem addItems_eq (ns : CString) (items : List Item) :
    (addItems ns items).nameSpace = ns ∧ (addItems ns items).elemVector = none ∧
      ((addItems ns items).elemHash = none ↔ items = []) ∧
      ∀ element, ((addItems ns items).elemHash.getD ∅).lookup element =
        if groupOf items element = [] then none else some (groupOf items element) := by
  induction items using List.reverseRecOn with
  | nil => exact ⟨rfl, rfl, by simp [addItems, ProfferAdvertisement.new], fun element => rfl⟩
  | append_singleton items item ih =>
    obtain ⟨hns, hvector, -, hlookup⟩ := ih
    rw [addItems_concat]
    refine ⟨hns, hvector, by simp [addToElemHash], fun element => ?_⟩
    show (((addItems ns items).elemHash.getD ∅).insert item.element.bytes
      (item.elemAttr :: (((addItems ns items).elemHash.getD ∅).lookup item.element.bytes).getD [])).lookup
        element = _
    rw [groupOf_concat]
    by_cases helement : item.element.bytes = element
    · subst helement
      rw [AList.lookup_insert, hlookup, if_pos rfl, if_neg (cons_ne_nil _ _)]
      split
      next hnil => rw [hnil, Option.getD_none]
      next => rw [Option.getD_some]
    · rw [AList.lookup_insert_ne (Ne.symm helement), hlookup, if_neg helement]

theorem mem_groups :
    g ∈ (addItems ns items).groups ↔ g ≠ [] ∧ ∃ element, g = groupOf items element := by
  obtain ⟨-, -, -, hlookup⟩ := addItems_eq ns items
  have hmem : ∀ element, (⟨element, g⟩ : Sigma fun _ : List Byte => List ElemAttr) ∈
      ((addItems ns items).elemHash.getD ∅).entries ↔ groupOf items element ≠ [] ∧
        groupOf items element = g := by
    intro element
    rw [← AList.mem_lookup_iff, hlookup]
    split
    next hnil => simp [hnil]
    next hne => simp [hne]
  unfold ProfferAdvertisement.groups
  rw [mem_map]
  constructor
  · rintro ⟨⟨element, g'⟩, hg, rfl⟩
    obtain ⟨hne, rfl⟩ := (hmem element).mp hg
    exact ⟨hne, element, rfl⟩
  · rintro ⟨hne, element, rfl⟩
    exact ⟨⟨element, _⟩, (hmem element).mpr ⟨hne, rfl⟩, rfl⟩

theorem mem_groupOf {el : ElemAttr} :
    el ∈ groupOf items element ↔ ∃ item ∈ items, item.element.bytes = element ∧
      item.elemAttr = el := by
  simp [groupOf, and_assoc]

/-! ## printing -/

/-- The attributes that are printed of a group. -/
def attsOfGroup (g : List ElemAttr) : List Attribute :=
  g.filterMap fun el => el.attr.map fun a => ⟨[32], a, raw (unmarked el.value)⟩

/-- The blank behind the attributes. -/
def spaceOf (g : List ElemAttr) : List Byte := if attsOfGroup g = [] then [] else [32]

/-- The text of a group: the last one of the list. -/
def textOf (g : List ElemAttr) : List Byte :=
  ((g.filter fun el => el.attr = none).getLast?.map fun el => unmarked el.value).getD []

/-- A group as it is printed, up to the end of its text. -/
def bodyOf (element : List Byte) (g : List ElemAttr) : List Byte :=
  tagSource element (attsOfGroup g) (spaceOf g) ++ 62 :: textOf g

/-- How an attribute is printed, with the blank behind it. -/
def spelled (a : Attribute) : List Byte := a.name ++ 61 :: 34 :: (sourceOf a.value ++ [34, 32])

theorem foldl_step (g : List ElemAttr) (hg : ∀ el ∈ g, el.element = element) (p : Printed) :
    g.foldl Printed.step p =
      { element := if g = [] then p.element else some element
        elemValue := ((g.filter fun el => el.attr = none).getLast?.map fun el =>
          unmarked el.value).or p.elemValue
        attrString := if attsOfGroup g = [] then p.attrString
          else some (p.attrString.getD [] ++ (attsOfGroup g).flatMap spelled) } := by
  induction g generalizing p with
  | nil => rfl
  | cons el g ih =>
    obtain ⟨hel, hg⟩ := forall_mem_cons.mp hg
    rw [foldl_cons, ih hg]
    unfold Printed.step
    cases hattr : el.attr with
    | none =>
      have hatts : attsOfGroup (el :: g) = attsOfGroup g := by simp [attsOfGroup, hattr]
      rw [hatts, filter_cons_of_pos (by simp [hattr]), getLast?_cons]
      cases hlast : (g.filter fun el => el.attr = none).getLast? with
      | none => simp [hel]
      | some last => simp [hel]
    | some a =>
      have hatts : attsOfGroup (el :: g) = ⟨[32], a, raw (unmarked el.value)⟩ :: attsOfGroup g := by
        simp [attsOfGroup, hattr]
      rw [hatts, filter_cons_of_neg (by simp [hattr])]
      cases hrest : attsOfGroup g with
      | nil => simp [hel, spelled]
      | cons b rest => simp [hel, spelled]

/-- Blanks in front of the attributes, and one behind the last of them. -/
theorem cons_spelled {atts : List Attribute} (h : ∀ a ∈ atts, a.space = [32]) :
    32 :: atts.flatMap spelled = atts.flatMap Attribute.source ++ [32] := by
  induction atts with
  | nil => rfl
  | cons a atts ih =>
    obtain ⟨ha, hatts⟩ := forall_mem_cons.mp h
    rw [flatMap_cons, flatMap_cons, append_assoc, ← ih hatts]
    simp [spelled, Attribute.source, ha]

theorem space_of_mem_atts {a : Attribute} (h : a ∈ attsOfGroup g) : a.space = [32] := by
  obtain ⟨el, -, hel⟩ := mem_filterMap.mp h
  obtain ⟨attr, -, rfl⟩ := Option.map_eq_some_iff.mp hel
  rfl

theorem printGroup_eq (hne : g ≠ []) (hg : ∀ el ∈ g, el.element = element) :
    printGroup g = 60 :: (bodyOf element g ++ 60 :: 47 :: (element ++ [62, 10])) := by
  unfold printGroup
  rw [foldl_step g hg, if_neg hne]
  have htext : (((g.filter fun el => el.attr = none).getLast?.map fun el =>
      unmarked el.value).or none).getD [] = textOf g := by rw [Option.or_none]; rfl
  have hspaced := cons_spelled fun a ha => space_of_mem_atts (g := g) ha
  unfold Printed.out bodyOf tagSource spaceOf
  rw [htext]
  by_cases hatts : attsOfGroup g = []
  · simp [hatts]
  · simp only [if_neg hatts, Option.getD_none, nil_append]
    rw [hspaced]
    simp

/-! ## groups of items -/

theorem element_of_mem_groupOf : ∀ el ∈ groupOf items element, el.element = element := by
  intro el hel
  obtain ⟨item, -, helement, rfl⟩ := mem_groupOf.mp hel
  exact helement

/-- A group with a text has that of one of its items. -/
theorem textOf_groupOf (items : List Item) (element : List Byte) :
    textOf (groupOf items element) = [] ∧ (∀ item ∈ items, item.element.bytes = element →
        item.attr ≠ none) ∨
      ∃ item ∈ items, item.element.bytes = element ∧ item.attr = none ∧
        textOf (groupOf items element) = item.text := by
  unfold textOf
  cases hlast : ((groupOf items element).filter fun el => el.attr = none).getLast? with
  | none =>
    refine .inl ⟨rfl, fun item hitem helement hattr => ?_⟩
    have hmem : item.elemAttr ∈ (groupOf items element).filter fun el => el.attr = none :=
      mem_filter.mpr ⟨mem_groupOf.mpr ⟨item, hitem, helement, rfl⟩, by
        simp [Item.elemAttr, hattr]⟩
    rw [getLast?_eq_none_iff.mp hlast] at hmem
    exact absurd hmem not_mem_nil
  | some el =>
    obtain ⟨hmem, hattr⟩ := mem_filter.mp (mem_of_getLast? hlast)
    obtain ⟨item, hitem, helement, rfl⟩ := mem_groupOf.mp hmem
    refine .inr ⟨item, hitem, helement, ?_, rfl⟩
    simpa [Item.elemAttr] using hattr

theorem mem_attsOfGroup {a : Attribute} :
    a ∈ attsOfGroup (groupOf items element) ↔ ∃ item ∈ items, item.element.bytes = element ∧
      ∃ attr, item.attr = some attr ∧ a = ⟨[32], attr.bytes, raw item.text⟩ := by
  unfold attsOfGroup
  rw [mem_filterMap]
  constructor
  · rintro ⟨el, hel, ha⟩
    obtain ⟨item, hitem, helement, rfl⟩ := mem_groupOf.mp hel
    obtain ⟨attr, hattr, rfl⟩ := Option.map_eq_some_iff.mp ha
    obtain ⟨attr', hattr', rfl⟩ := Option.map_eq_some_iff.mp hattr
    exact ⟨item, hitem, helement, attr', hattr', rfl⟩
  · rintro ⟨item, hitem, helement, attr, hattr, rfl⟩
    refine ⟨item.elemAttr, mem_groupOf.mpr ⟨item, hitem, helement, rfl⟩, ?_⟩
    simp [Item.elemAttr, hattr, Item.text]

/-- The attributes of a group have the names that were added, the last first. -/
theorem names_attsOfGroup (items : List Item) (element : List Byte) :
    (attsOfGroup (groupOf items element)).map Attribute.name =
      (((items.filter fun item => item.element.bytes = element).filterMap Item.attr).map
        CString.bytes).reverse := by
  unfold attsOfGroup groupOf
  rw [filterMap_reverse, map_reverse]
  congr 1
  induction items.filter fun item => item.element.bytes = element with
  | nil => rfl
  | cons item rest ih =>
    cases hattr : item.attr with
    | none => simpa [Item.elemAttr, hattr] using ih
    | some a => simpa [Item.elemAttr, hattr] using ih

/-- The declarations of the root. -/
def headAtts (ns : List Byte) : List Attribute :=
  [prefixOf ns, rangeText].map fun name =>
    ⟨[32], xmlnsText.tail ++ name, raw (jxtaText.drop 2).dropLast⟩

theorem headAtts_wellFormed {ns : List Byte} (hns : IsName ns) :
    ∀ a ∈ headAtts ns, a.WellFormed := by
  have hxmlns : ∀ b ∈ xmlnsText.tail, isNameByte b = true := by decide
  have hrange : ∀ b ∈ rangeText, isNameByte b = true := by decide
  have hname : ∀ name ∈ [prefixOf ns, rangeText], ∀ b ∈ name, isNameByte b = true := by
    intro name hname b hb
    rcases mem_cons.mp hname with rfl | hname
    · exact hns.2 b ((takeWhile_sublist _).subset hb)
    · rw [mem_singleton.mp hname] at hb
      exact hrange b hb
  have hvalue : IsValue (raw (jxtaText.drop 2).dropLast) := by
    refine ⟨?_, ?_⟩
    · rw [valueOf_raw]
      exact representable_printed (by decide)
    · unfold Free raw
      simp only [mem_map, Piece.byte.injEq, exists_eq_right]
      decide
  intro a ha
  obtain ⟨name, hmem, rfl⟩ := mem_map.mp ha
  refine ⟨by simp, by simp [IsBlank], ⟨⟨120, rfl, by decide⟩, fun b hb => ?_⟩, hvalue⟩
  rcases mem_append.mp hb with hb | hb
  · exact hxmlns b hb
  · exact hname name hmem b hb

/-- What is printed: the root around the groups, and a line end unless there are none. -/
theorem print_addItems {elements : List (List ElemAttr)}
    (horder : elements.Perm (addItems ns items).groups) : ∃ tail, IsBlank tail ∧
      print (addItems ns items) elements = 60 :: (tagSource ns.bytes (headAtts ns.bytes) [] ++
        62 :: 10 :: (elements.flatMap printGroup ++ 60 :: 47 :: (ns.bytes ++ 62 :: tail))) := by
  obtain ⟨hns, hvector, hnone, -⟩ := addItems_eq ns items
  have hhead : 60 :: (ns.bytes ++ xmlnsText ++ prefixOf ns.bytes ++ jxtaText ++ xmlnsText ++ rangeText ++
      jxtaText ++ [62, 10]) = 60 :: (tagSource ns.bytes (headAtts ns.bytes) [] ++ [62, 10]) := by
    simp [tagSource, headAtts, Attribute.source, xmlnsText, jxtaText]
  unfold print
  dsimp only
  rw [hns, hvector, hhead]
  cases hhash : (addItems ns items).elemHash with
  | none =>
    have hnil : elements = [] := by
      have hgroups : (addItems ns items).groups = [] := by
        simp [ProfferAdvertisement.groups, hhash]
      rw [hgroups] at horder
      exact perm_nil.mp horder
    refine ⟨[], by simp [IsBlank], ?_⟩
    simp [hnil]
  | some table =>
    refine ⟨[10], by simp [IsBlank], ?_⟩
    simp

/-! ## what stands in a faithful document -/

/-- A document is read as the one that is printed. -/
structure Reading (items : List Item) (elements : List (List ElemAttr)) (nodes : List Node)
    (f f' : List Byte) : Prop where
  groups : ∀ g, g ∈ elements ↔ g ≠ [] ∧ ∃ element, g = groupOf items element
  wellFormed : Node.AllWellFormed nodes
  flat : ∀ node ∈ nodes, node.Flat
  shown : ∀ item ∈ items, ∃ node ∈ nodes, item.ShownBy node
  source : Node.sources nodes ++ 60 :: 47 :: f =
    10 :: (elements.flatMap printGroup ++ 60 :: 47 :: f')
  free : 60 ∉ f
  free' : 60 ∉ f'

section Reading
variable {items : List Item} {elements : List (List ElemAttr)} {nodes : List Node} {f f' : List Byte}
variable {item : Item} {a : CString}

section
variable (h : Reading items elements nodes f f')
include h

theorem Reading.isName (hitem : item ∈ items) : IsName item.element.bytes := by
  obtain ⟨node, hnode, atts, ps, hleaf, -⟩ := h.shown item hitem
  obtain ⟨-, hname, -⟩ := leaf_source (wellFormed_of_mem h.wellFormed hnode) hleaf
  exact hname

/-- Attributes have names and values without quotation marks. -/
theorem Reading.attr (hitem : item ∈ items) (ha : item.attr = some a) :
    IsName a.bytes ∧ 34 ∉ item.text := by
  obtain ⟨node, hnode, atts, ps, hleaf, hshown⟩ := h.shown item hitem
  rw [ha] at hshown
  obtain ⟨att, hatt, hname, hvalue⟩ := hshown
  obtain ⟨-, -, hatts, -⟩ := leaf_source (wellFormed_of_mem h.wellFormed hnode) hleaf
  obtain ⟨-, -, hattname, hattvalue⟩ := hatts.1 att hatt
  refine ⟨hname ▸ hattname, fun hmem => ?_⟩
  rw [← hvalue] at hmem
  obtain ⟨piece, hpiece, hbyte⟩ := mem_map.mp hmem
  cases piece with
  | byte b =>
    obtain rfl : b = 34 := hbyte
    exact absurd (hattvalue.2 34 hpiece) (by decide)
  | lt | gt | amp => cases hbyte

theorem Reading.quoted (element : List Byte) :
    ∀ a ∈ attsOfGroup (groupOf items element), a.Quoted := by
  intro a ha
  obtain ⟨item, hitem, -, attr, hattr, rfl⟩ := mem_attsOfGroup.mp ha
  obtain ⟨hname, hquote⟩ := h.attr hitem hattr
  refine ⟨by simp, by simp [IsBlank], hname, ?_⟩
  rw [sourceOf_raw]
  exact hquote

end

theorem isBlank_spaceOf (g : List ElemAttr) : IsBlank (spaceOf g) := by
  unfold spaceOf
  split
  · decide
  · decide

section
variable (h : Reading items elements nodes f f')
include h

/-- The group of an item. -/
theorem Reading.group (hitem : item ∈ items) : groupOf items item.element.bytes ∈ elements := by
  refine (h.groups _).mpr ⟨?_, _, rfl⟩
  exact ne_nil_of_mem (mem_groupOf.mpr ⟨item, hitem, rfl, rfl⟩)

theorem Reading.exists_item {g : List ElemAttr} (hg : g ∈ elements) :
    ∃ item ∈ items, g = groupOf items item.element.bytes := by
  obtain ⟨hne, element, rfl⟩ := (h.groups g).mp hg
  obtain ⟨el, hel⟩ := exists_mem_of_ne_nil _ hne
  obtain ⟨item, hitem, rfl, -⟩ := mem_groupOf.mp hel
  exact ⟨item, hitem, rfl⟩

/-- The tag of a printed group is one of the document, so that its values have no `<` in them. -/
theorem Reading.attr_free (hitem : item ∈ items) (ha : item.attr = some a) : 60 ∉ item.text := by
  have hgroup := h.group hitem
  have hname := h.isName hitem
  generalize hg : groupOf items item.element.bytes = g at hgroup
  have hel : ∀ el ∈ g, el.element = item.element.bytes := hg ▸ element_of_mem_groupOf
  obtain ⟨before, behind, rfl⟩ := append_of_mem hgroup
  have hbody : 10 :: ((before ++ g :: behind).flatMap printGroup ++ 60 :: 47 :: f') =
      (10 :: before.flatMap printGroup) ++ 60 :: (tagSource item.element.bytes (attsOfGroup g) (spaceOf g) ++
        62 :: (textOf g ++ (60 :: 47 :: (item.element.bytes ++ [62, 10]) ++
          (behind.flatMap printGroup ++ 60 :: 47 :: f')))) := by
    rw [flatMap_append, flatMap_cons,
      printGroup_eq ((h.groups g).mp hgroup).1 hel, bodyOf]
    simp
  generalize hw : textOf g ++ (60 :: 47 :: (item.element.bytes ++ [62, 10]) ++
    (behind.flatMap printGroup ++ 60 :: 47 :: f')) = w at hbody
  obtain ⟨r, rest, hruns, htags⟩ := exists_runs h.wellFormed h.flat (t := []) (by simp) h.free
  obtain ⟨r', rest', hr'⟩ := exists_cons_of_ne_nil
    (splitOnP_ne_nil (· = 60) (tagSource item.element.bytes (attsOfGroup g) (spaceOf g) ++ 62 :: w))
  have hr' : runs (tagSource item.element.bytes (attsOfGroup g) (spaceOf g) ++ 62 :: w) = r' :: rest' := hr'
  -- the run of the tag is behind the first one
  have hmem : r' ∈ rest := by
    rw [nil_append, h.source, hbody, runs_append, hr'] at hruns
    obtain ⟨q, qs, hq⟩ := exists_cons_of_ne_nil
      (splitOnP_ne_nil (· = 60) (10 :: before.flatMap printGroup))
    have hq : runs (10 :: before.flatMap printGroup) = q :: qs := hq
    rw [hq] at hruns
    rw [← (List.cons.inj hruns).2]
    exact mem_append_right _ mem_cons_self
  obtain ⟨z, hz⟩ : ∃ z, tagSource item.element.bytes (attsOfGroup g) (spaceOf g) ++ 62 :: w = r' ++ z := by
    obtain ⟨-, ⟨heq, -⟩ | ⟨t, heq, -⟩⟩ := runs_head hr'
    · exact ⟨[], by rw [heq, append_nil]⟩
    · exact ⟨_, heq⟩
  obtain ⟨b, hb, hbname⟩ := head_tagSource hname (attsOfGroup g) (spaceOf g) (62 :: w)
  rcases htags r' hmem with hslash | ⟨name, atts, space, e, s, htname, hatts, hspace, he, rfl⟩
  · rw [hz, head?_append, hslash] at hb
    obtain rfl : 47 = b := Option.some.inj hb
    cases hbname
  · rw [append_assoc, cons_append] at hz
    obtain ⟨-, hspelled, -, -⟩ := tagSource_inj hname htname (hg ▸ h.quoted _)
      (fun a ha => (hatts.1 a ha).quoted) (isBlank_spaceOf g) hspace (.inl rfl) he hz
    have hatt : (⟨[32], a.bytes, raw item.text⟩ : Attribute) ∈ attsOfGroup g :=
      hg ▸ mem_attsOfGroup.mpr ⟨item, hitem, rfl, a, ha, rfl⟩
    obtain ⟨att, hmem, heq⟩ := mem_map.mp (hspelled ▸ mem_map_of_mem hatt)
    have hfree := (hatts.1 att hmem).2.2.2.lt_not_mem
    have hsource : sourceOf att.value = item.text :=
      (congrArg Prod.snd heq).trans (sourceOf_raw item.text)
    rwa [hsource] at hfree

end

/-- The runs of what is printed. -/
theorem mem_runs_printed {l : List (List ElemAttr)} {t r : List Byte}
    (hl : ∀ g ∈ l, g ≠ [] ∧ ∃ element, IsName element ∧ ∀ el ∈ g, el.element = element)
    (hxs : 60 ∉ t) (hhead : t.head? = some 10 ∨ t.head? = some 47) (hf : 60 ∉ f')
    (hr : r ∈ runs (t ++ (l.flatMap printGroup ++ 60 :: 47 :: f'))) :
    (r.head? = some 10 ∨ r.head? = some 47) ∨
      ∃ g ∈ l, ∃ element, (∀ el ∈ g, el.element = element) ∧ r ∈ runs (bodyOf element g) := by
  induction l generalizing t with
  | nil =>
    have hend : 60 ∉ (47 : UInt8) :: f' := by simp [hf]
    rw [flatMap_nil, nil_append, runs_append_of_not_mem hxs, runs_of_not_mem hend] at hr
    rcases mem_cons.mp hr with rfl | hr
    · exact .inl hhead
    · rw [mem_singleton.mp hr]
      exact .inl (.inr rfl)
  | cons g l ih =>
    obtain ⟨⟨hne, element, hname, hel⟩, hl⟩ := forall_mem_cons.mp hl
    have hend : 60 ∉ (47 : UInt8) :: (element ++ [62, 10]) := by simp [lt_not_mem_name hname.2]
    have hsplit : t ++ ((g :: l).flatMap printGroup ++ 60 :: 47 :: f') =
        t ++ 60 :: (bodyOf element g ++ 60 :: ((47 :: (element ++ [62, 10])) ++
          (l.flatMap printGroup ++ 60 :: 47 :: f'))) := by
      rw [flatMap_cons, printGroup_eq hne hel]
      simp
    rw [hsplit, runs_append_of_not_mem hxs, runs_append] at hr
    rcases mem_cons.mp hr with rfl | hr
    · exact .inl hhead
    · rcases mem_append.mp hr with hr | hr
      · exact .inr ⟨g, mem_cons_self, element, hel, hr⟩
      · rcases ih hl hend (.inr rfl) hr with hdone | ⟨g', hg', hrest⟩
        · exact .inl hdone
        · exact .inr ⟨g', mem_cons_of_mem _ hg', hrest⟩

/-- The tag of an element is that of the printed one, or stands inside of a longer text. -/
theorem Reading.leaf_run (h : Reading items elements nodes f f') {node : Node}
    (hnode : node ∈ nodes) {atts : List Attribute} {ps : List Piece}
    (hleaf : node.leaf = some (item.element.bytes, atts, ps)) :
    (atts.map Attribute.spelling =
        (attsOfGroup (groupOf items item.element.bytes)).map Attribute.spelling ∧
      ∃ rest, runs (textOf (groupOf items item.element.bytes)) = sourceOf ps :: rest) ∨
    ∃ item' ∈ items, item'.attr = none ∧ 60 ∈ item'.text ∧
      (sourceOf ps).length < item'.text.length := by
  obtain ⟨space, b, s, hname, hatts, hspace, htext, hends, hmem⟩ :=
    exists_run (t := []) (f := 60 :: 47 :: f) h.wellFormed hnode hleaf
  have hl : ∀ g ∈ elements, g ≠ [] ∧ ∃ element, IsName element ∧ ∀ el ∈ g, el.element = element := by
    intro g hg
    obtain ⟨other, hother, rfl⟩ := h.exists_item hg
    exact ⟨((h.groups _).mp hg).1, _, h.isName hother, element_of_mem_groupOf⟩
  rw [nil_append, h.source] at hmem
  obtain ⟨c, hc, hcname⟩ := head_tagSource hname atts space (b :: s)
  rcases mem_runs_printed (t := [10]) hl (by simp) (.inl rfl) h.free' hmem with hhead | hbody
  · rcases hhead with hhead | hhead
    · rw [hhead] at hc
      obtain rfl : 10 = c := Option.some.inj hc
      cases hcname
    · rw [hhead] at hc
      obtain rfl : 47 = c := Option.some.inj hc
      cases hcname
  · obtain ⟨g, hg, element, hel, hrun⟩ := hbody
    obtain ⟨other, hother, rfl⟩ := h.exists_item hg
    obtain rfl : element = other.element.bytes := by
      obtain ⟨el, hmem⟩ := exists_mem_of_ne_nil _ ((h.groups _).mp hg).1
      rw [← hel el hmem, element_of_mem_groupOf el hmem]
    generalize hgroup : groupOf items other.element.bytes = g at hg hrun
    have htag : 60 ∉ tagSource other.element.bytes (attsOfGroup g) (spaceOf g) ++ [62] := by
      have hfree : 60 ∉ tagSource other.element.bytes (attsOfGroup g) (spaceOf g) := by
        refine lt_not_mem_tagSource (h.isName hother) (fun a ha => ?_) (isBlank_spaceOf g)
        obtain ⟨-, hblank, haname, -⟩ := h.quoted _ a (hgroup ▸ ha)
        obtain ⟨item', hitem', -, attr, hattr, rfl⟩ := mem_attsOfGroup.mp (hgroup ▸ ha)
        exact ⟨hblank, haname, by rw [sourceOf_raw]; exact h.attr_free hitem' hattr⟩
      simp [hfree]
    obtain ⟨r, rest, hruns, hbodyruns⟩ := exists_runs_append htag (textOf g)
    have hbodyeq : bodyOf other.element.bytes g =
        (tagSource other.element.bytes (attsOfGroup g) (spaceOf g) ++ [62]) ++ textOf g := by
      simp [bodyOf]
    rw [hbodyeq, hbodyruns] at hrun
    rcases mem_cons.mp hrun with heq | hrun
    · left
      rw [append_assoc, singleton_append] at heq
      have hend : IsTagEnd b := hends.elim (fun hb => .inl hb.1) fun hb => .inr hb.1
      obtain ⟨hnames, hspelled, hb, hs⟩ := tagSource_inj hname (h.isName hother)
        (fun a ha => (hatts.1 a ha).quoted) (hgroup ▸ h.quoted _) hspace (isBlank_spaceOf g) hend
        (.inl rfl) heq
      rw [hnames, hgroup]
      refine ⟨hspelled, rest, ?_⟩
      rcases hends with ⟨-, hsource⟩ | ⟨hb', -⟩
      · rw [hruns, ← hs, hsource]
      · rw [hb] at hb'
        cases hb'
    · right
      have hlength := length_lt_of_mem_runs hruns _ hrun
      have hlt : 60 ∈ textOf g := by
        by_contra hnot
        rw [runs_of_not_mem hnot] at hruns
        rw [← (List.cons.inj hruns).2] at hrun
        exact absurd hrun not_mem_nil
      rcases textOf_groupOf items other.element.bytes with ⟨hnil, -⟩ | ⟨item', hitem', -, hattr, heq⟩
      · rw [hgroup] at hnil
        rw [hnil] at hlt
        exact absurd hlt not_mem_nil
      · rw [hgroup] at heq
        refine ⟨item', hitem', hattr, heq ▸ hlt, ?_⟩
        rw [← heq]
        have hshort : (sourceOf ps).length ≤ (tagSource item.element.bytes atts space ++ b :: s).length := by
          rcases hends with ⟨-, rfl⟩ | ⟨-, rfl⟩
          · simp only [length_append, length_cons]
            omega
          · exact Nat.zero_le _
        omega

/-- Where every bad element leads to one that is larger, there is none. -/
theorem not_of_ascent {α : Type} {l : List α} {bad : α → Prop} {m : α → Nat}
    (h : ∀ x ∈ l, bad x → ∃ y ∈ l, bad y ∧ m x < m y) : ∀ x ∈ l, ¬ bad x := by
  obtain ⟨bound, hbound⟩ : ∃ bound, ∀ x ∈ l, m x ≤ bound := by
    clear h
    induction l with
    | nil => exact ⟨0, fun x hx => absurd hx not_mem_nil⟩
    | cons a l ih =>
      obtain ⟨bound, hbound⟩ := ih
      refine ⟨max (m a) bound, fun x hx => ?_⟩
      rcases mem_cons.mp hx with rfl | hx
      · exact Nat.le_max_left _ _
      · exact Nat.le_trans (hbound x hx) (Nat.le_max_right _ _)
  have hnone : ∀ n, ∀ x ∈ l, bound ≤ m x + n → ¬ bad x := by
    intro n
    induction n with
    | zero =>
      intro x hx hle hbad
      obtain ⟨y, hy, -, hlt⟩ := h x hx hbad
      have := hbound y hy
      omega
    | succ n ih =>
      intro x hx hle hbad
      obtain ⟨y, hy, hbady, hlt⟩ := h x hx hbad
      exact ih y hy (by omega) hbady
  exact fun x hx => hnone bound x hx (by omega)

section
variable (h : Reading items elements nodes f f')
include h

/-- No text has a `<` in it: it would be written with a reference inside of a longer one. -/
theorem Reading.text_free : ∀ item ∈ items, ¬ (item.attr = none ∧ 60 ∈ item.text) := by
  refine not_of_ascent (m := fun item => item.text.length) ?_
  rintro item hitem ⟨hattr, hlt⟩
  obtain ⟨node, hnode, atts, ps, hleaf, hshown⟩ := h.shown item hitem
  rw [hattr] at hshown
  have hvalue : valueOf ps = item.text := hshown
  obtain ⟨-, -, -, -, htext, -⟩ := leaf_source (wellFormed_of_mem h.wellFormed hnode) hleaf
  have hlong : item.text.length < (sourceOf ps).length := by
    rw [← hvalue] at hlt ⊢
    obtain ⟨piece, hpiece, hbyte⟩ := mem_map.mp hlt
    refine length_valueOf_lt hpiece ?_
    rintro b rfl
    obtain rfl : b = 60 := hbyte
    exact absurd (htext.2.1 60 hpiece) (by decide)
  rcases h.leaf_run hnode hleaf with ⟨-, rest, hruns⟩ | ⟨item', hitem', hattr', hlt', hlength⟩
  · rcases textOf_groupOf items item.element.bytes with ⟨-, hnone⟩ | ⟨first, hfirst, helement, hfattr, hftext⟩
    · exact absurd hattr (hnone item hitem rfl)
    · rw [hftext] at hruns
      by_cases hflt : 60 ∈ first.text
      · refine ⟨first, hfirst, ⟨hfattr, hflt⟩, ?_⟩
        obtain ⟨-, ⟨heq, -⟩ | ⟨t, heq, -⟩⟩ := runs_head hruns
        · rw [heq]
          exact hlong
        · rw [heq, length_append]
          omega
      · -- the printed text is the whole run, and is shown by another element
        rw [runs_of_not_mem hflt] at hruns
        have hsame : first.text = sourceOf ps := (List.cons.inj hruns).1
        obtain ⟨node', hnode', atts', ps', hleaf', hshown'⟩ := h.shown first hfirst
        rw [hfattr] at hshown'
        have hvalue' : valueOf ps' = first.text := hshown'
        obtain ⟨-, -, -, -, htext', -⟩ := leaf_source (wellFormed_of_mem h.wellFormed hnode') hleaf'
        rcases h.leaf_run hnode' hleaf' with ⟨-, rest', hruns'⟩ | ⟨item', hitem', hattr', hlt', hlength⟩
        · rw [helement, hftext, runs_of_not_mem hflt] at hruns'
          have hsource : sourceOf ps' = sourceOf ps := (List.cons.inj hruns').1.symm.trans hsame
          have heq := valueOf_inj htext'.noReference htext.noReference hsource
          rw [hvalue', hvalue] at heq
          exact absurd (heq ▸ hlt) hflt
        · refine ⟨item', hitem', ⟨hattr', hlt'⟩, ?_⟩
          have hle := length_valueOf_le ps'
          rw [hvalue', hsame] at hle
          omega
  · exact ⟨item', hitem', ⟨hattr', hlt'⟩, Nat.lt_trans hlong hlength⟩

/-- Every element is the printed one of its name. -/
theorem Reading.leaf_eq {node : Node} (hnode : node ∈ nodes) {atts : List Attribute}
    {ps : List Piece} (hleaf : node.leaf = some (item.element.bytes, atts, ps)) :
    atts.map Attribute.spelling =
        (attsOfGroup (groupOf items item.element.bytes)).map Attribute.spelling ∧
      sourceOf ps = textOf (groupOf items item.element.bytes) := by
  rcases h.leaf_run hnode hleaf with ⟨hspelled, rest, hruns⟩ | ⟨item', hitem', hattr', hlt', -⟩
  · refine ⟨hspelled, ?_⟩
    have hfree : 60 ∉ textOf (groupOf items item.element.bytes) := by
      rcases textOf_groupOf items item.element.bytes with ⟨hnil, -⟩ | ⟨first, hfirst, -, hattr, heq⟩
      · rw [hnil]
        exact not_mem_nil
      · exact fun hmem => h.text_free first hfirst ⟨hattr, heq ▸ hmem⟩
    rw [runs_of_not_mem hfree] at hruns
    exact (List.cons.inj hruns).1.symm
  · exact absurd ⟨hattr', hlt'⟩ (h.text_free item' hitem')

/-- The text of an element item is the printed one, and stands for itself. -/
theorem Reading.text (hitem : item ∈ items) (hattr : item.attr = none) :
    item.text = textOf (groupOf items item.element.bytes) ∧ IsText (raw item.text) := by
  have hshows : ∀ item ∈ items, item.attr = none → ∃ ps, IsText ps ∧ valueOf ps = item.text ∧
      sourceOf ps = textOf (groupOf items item.element.bytes) := by
    intro item hitem hattr
    obtain ⟨node, hnode, atts, ps, hleaf, hshown⟩ := h.shown item hitem
    rw [hattr] at hshown
    obtain ⟨-, -, -, -, htext, -⟩ := leaf_source (wellFormed_of_mem h.wellFormed hnode) hleaf
    exact ⟨ps, htext, hshown, (h.leaf_eq hnode hleaf).2⟩
  obtain ⟨ps, htext, hvalue, hsource⟩ := hshows item hitem hattr
  rcases textOf_groupOf items item.element.bytes with ⟨-, hnone⟩ | ⟨first, hfirst, helement, hfattr, heq⟩
  · exact absurd hattr (hnone item hitem rfl)
  · obtain ⟨ps', htext', hvalue', hsource'⟩ := hshows first hfirst hfattr
    rw [helement, heq] at hsource'
    rw [heq] at hsource ⊢
    have hsame : item.text = first.text := by
      rw [← hvalue, ← hvalue', valueOf_inj htext.noReference htext'.noReference
        (hsource.trans hsource'.symm)]
    have hraw := eq_raw_of_eq (hsource'.trans hvalue'.symm)
    rw [hvalue'] at hraw
    exact ⟨hsame, by rw [hsame, ← hraw]; exact htext'⟩

/-- The attributes of an element are those that were added, each with its value. -/
theorem Reading.atts (hitem : item ∈ items) (ha : item.attr = some a) :
    ((attsOfGroup (groupOf items item.element.bytes)).map Attribute.name).Nodup ∧
      IsValue (raw item.text) := by
  obtain ⟨node, hnode, atts, ps, hleaf, hshown⟩ := h.shown item hitem
  rw [ha] at hshown
  obtain ⟨att, hatt, hname, hvalue⟩ := hshown
  obtain ⟨-, -, hatts, -⟩ := leaf_source (wellFormed_of_mem h.wellFormed hnode) hleaf
  have hspelled := (h.leaf_eq hnode hleaf).1
  have hnames := names_of_spelling hspelled
  refine ⟨hnames ▸ hatts.2, ?_⟩
  have hprinted : (a.bytes, item.text) ∈ atts.map Attribute.spelling := by
    rw [hspelled]
    refine mem_map.mpr ⟨_, mem_attsOfGroup.mpr ⟨item, hitem, rfl, a, ha, rfl⟩, ?_⟩
    exact Prod.ext rfl (sourceOf_raw item.text)
  obtain ⟨att', hatt', heq⟩ := mem_map.mp hprinted
  obtain ⟨hname', hsource'⟩ := Prod.mk.inj heq
  obtain rfl : att' = att :=
    inj_on_of_nodup_map hatts.2 hatt' hatt (hname'.trans hname.symm)
  have hraw := eq_raw_of_eq (hsource'.trans hvalue.symm)
  rw [hvalue] at hraw
  exact hraw ▸ (hatts.1 att' hatt).2.2.2

end

end Reading

theorem bytes_injective : Function.Injective CString.bytes := Subtype.val_injective

/-- A faithful document is printed for plain items only. -/
theorem Faithful.plain {elements : List (List ElemAttr)}
    (horder : elements.Perm (addItems ns items).groups)
    (h : Faithful ns items (print (addItems ns items) elements)) : Plain ns items := by
  obtain ⟨atts, space, children, tail, hdoc, htail, hwf, hshown, hknown⟩ := h
  obtain ⟨tail', htail', hprint⟩ := print_addItems horder
  obtain ⟨hns, hatts, hspace, -, hchildren⟩ := hwf
  have hhead := headAtts_wellFormed hns
  have hroot : tagSource ns.bytes atts space ++
      62 :: (Node.sources children ++ 60 :: 47 :: (ns.bytes ++ 62 :: tail)) =
      tagSource ns.bytes (headAtts ns.bytes) [] ++
        62 :: 10 :: (elements.flatMap printGroup ++ 60 :: 47 :: (ns.bytes ++ 62 :: tail')) := by
    have heq := hdoc.symm.trans hprint
    simpa [Node.source, startSource, endSource] using heq
  obtain ⟨-, hspelled, -, hsource⟩ := tagSource_inj hns hns (fun a ha => (hatts.1 a ha).quoted)
    (fun a ha => (hhead a ha).quoted) hspace (by decide) (.inl rfl) (.inl rfl) hroot
  have hfree : ∀ {t : List Byte}, IsBlank t → 60 ∉ ns.bytes ++ 62 :: t := by
    intro t ht
    simp [lt_not_mem_name hns.2, lt_not_mem_blank ht]
  have hflat : ∀ node ∈ children, node.Flat := by
    intro node hnode
    rcases hknown node hnode with ⟨ps, rfl, -⟩ | ⟨name, atts, ps, hleaf, -⟩
    · exact .inl rfl
    · exact .inr (by rw [hleaf]; rfl)
  have hreading : Reading items elements children (ns.bytes ++ 62 :: tail) (ns.bytes ++ 62 :: tail') :=
    ⟨fun g => horder.mem_iff.trans mem_groups, hchildren, hflat, hshown, hsource, hfree htail,
      hfree htail'⟩
  refine ⟨hns, fun hrange => ?_, fun item => hreading.isName, fun item hitem a ha => ?_,
    fun item hitem hattr => (hreading.text hitem hattr).2, fun item hitem item' hitem' heq hattr hattr' => ?_,
    fun element => ?_⟩
  · have hnodup := names_of_spelling hspelled ▸ hatts.2
    simp [headAtts, hrange] at hnodup
  · exact ⟨(hreading.attr hitem ha).1, (hreading.atts hitem ha).2⟩
  · rw [(hreading.text hitem hattr).1, (hreading.text hitem' hattr').1, heq]
  · by_cases hnone : ((items.filter fun item => item.element = element).filterMap Item.attr) = []
    · rw [hnone]
      exact nodup_nil
    · obtain ⟨a, ha⟩ := exists_mem_of_ne_nil _ hnone
      obtain ⟨item, hmem, hattr⟩ := mem_filterMap.mp ha
      obtain ⟨hitem, helement⟩ := mem_filter.mp hmem
      obtain rfl : item.element = element := of_decide_eq_true helement
      have hnodup := (hreading.atts hitem hattr).1
      rw [names_attsOfGroup, nodup_reverse] at hnodup
      have hfilter : (items.filter fun other => other.element.bytes = item.element.bytes) =
          items.filter fun other => other.element = item.element := by
        refine filter_congr fun other _ => ?_
        simp [bytes_injective.eq_iff]
      rw [hfilter] at hnodup
      exact List.Nodup.of_map _ hnodup

/-! ## the document of plain items -/

/-- The element that a group is printed as. -/
def nodeOf (g : List ElemAttr) : Node :=
  .element ((g.head?.map ElemAttr.element).getD []) (attsOfGroup g) (spaceOf g)
    [.chars (raw (textOf g))]

section Plain
variable {ns : CString} {items : List Item} {elements : List (List ElemAttr)}
variable {element : List Byte}

section
variable (hne : groupOf items element ≠ [])
include hne

/-- The group of an element, as a node. -/
theorem nodeOf_groupOf :
    nodeOf (groupOf items element) = .element element (attsOfGroup (groupOf items element))
      (spaceOf (groupOf items element)) [.chars (raw (textOf (groupOf items element)))] := by
  obtain ⟨el, rest, hg⟩ := exists_cons_of_ne_nil hne
  have hel : el.element = element := element_of_mem_groupOf el (hg ▸ mem_cons_self)
  unfold nodeOf
  rw [hg, head?_cons, Option.map_some, Option.getD_some, hel]

theorem printGroup_eq_source :
    printGroup (groupOf items element) = (nodeOf (groupOf items element)).source ++ [10] := by
  rw [nodeOf_groupOf hne, printGroup_eq hne element_of_mem_groupOf]
  simp [Node.source, Node.sources, startSource, endSource, bodyOf]

/-- An item of a group that is not empty. -/
theorem exists_item_of_groupOf : ∃ item ∈ items, item.element.bytes = element := by
  obtain ⟨el, hel⟩ := exists_mem_of_ne_nil _ hne
  obtain ⟨item, hitem, helement, -⟩ := mem_groupOf.mp hel
  exact ⟨item, hitem, helement⟩

end

theorem Plain.attsWellFormed (h : Plain ns items) (hne : groupOf items element ≠ []) :
    AttsWellFormed (attsOfGroup (groupOf items element)) := by
  obtain ⟨first, hfirst, rfl⟩ := exists_item_of_groupOf hne
  refine ⟨fun a ha => ?_, ?_⟩
  · obtain ⟨item, hitem, -, attr, hattr, rfl⟩ := mem_attsOfGroup.mp ha
    obtain ⟨hname, hvalue⟩ := h.attr item hitem attr hattr
    exact ⟨by simp, by simp [IsBlank], hname, hvalue⟩
  · have hfilter : (items.filter fun item => item.element.bytes = first.element.bytes) =
        items.filter fun item => item.element = first.element := by
      refine filter_congr fun item _ => ?_
      simp [bytes_injective.eq_iff]
    rw [names_attsOfGroup, hfilter, nodup_reverse]
    exact (h.distinct first.element).map bytes_injective

theorem Plain.nodeWellFormed (h : Plain ns items) (hne : groupOf items element ≠ []) :
    (nodeOf (groupOf items element)).WellFormed := by
  have hatts := h.attsWellFormed hne
  obtain ⟨first, hfirst, helement⟩ := exists_item_of_groupOf hne
  rw [nodeOf_groupOf hne]
  refine ⟨helement ▸ h.element first hfirst, hatts, isBlank_spaceOf _, isChain_singleton _, ?_,
    trivial⟩
  show IsText (raw (textOf (groupOf items element)))
  rcases textOf_groupOf items element with ⟨hnil, -⟩ | ⟨item, hitem, -, hattr, heq⟩
  · rw [hnil]
    exact isText_blank (by decide)
  · rw [heq]
    exact h.text item hitem hattr

/-- Plain items are shown by the elements of their groups. -/
theorem Plain.shownBy (h : Plain ns items) {item : Item} (hitem : item ∈ items) :
    item.ShownBy (nodeOf (groupOf items item.element.bytes)) := by
  have hne : groupOf items item.element.bytes ≠ [] :=
    ne_nil_of_mem (mem_groupOf.mpr ⟨item, hitem, rfl, rfl⟩)
  rw [nodeOf_groupOf hne]
  refine ⟨_, _, rfl, ?_⟩
  split
  next hattr =>
    rw [valueOf_raw]
    rcases textOf_groupOf items item.element.bytes with ⟨-, hnone⟩ | ⟨first, hfirst, helement, hfattr, heq⟩
    · exact absurd hattr (hnone item hitem rfl)
    · rw [heq]
      exact h.single first hfirst item hitem (bytes_injective helement) hfattr hattr
  next a hattr =>
    exact ⟨_, mem_attsOfGroup.mpr ⟨item, hitem, rfl, a, hattr, rfl⟩, rfl, valueOf_raw _⟩

theorem known_nodeOf (hne : groupOf items element ≠ []) :
    Known items (nodeOf (groupOf items element)) := by
  rw [nodeOf_groupOf hne]
  refine .inr ⟨_, _, _, rfl, fun att hatt => ?_, ?_⟩
  · obtain ⟨item, hitem, helement, attr, hattr, rfl⟩ := mem_attsOfGroup.mp hatt
    exact ⟨item, hitem, helement, by rw [hattr]; rfl, (valueOf_raw _).symm⟩
  · rw [valueOf_raw]
    rcases textOf_groupOf items element with ⟨hnil, hnone⟩ | ⟨item, hitem, helement, hattr, heq⟩
    · refine .inr ⟨hnil, ?_⟩
      obtain ⟨item, hitem, helement⟩ := exists_item_of_groupOf hne
      obtain ⟨a, ha⟩ := Option.ne_none_iff_exists'.mp (hnone item hitem helement)
      exact ne_nil_of_mem (mem_attsOfGroup.mpr ⟨item, hitem, helement, a, ha, rfl⟩)
    · exact .inl ⟨item, hitem, helement, hattr, heq.symm⟩

/-- Plain items are printed as a faithful document. -/
theorem Plain.faithful (horder : elements.Perm (addItems ns items).groups) (h : Plain ns items) :
    Faithful ns items (print (addItems ns items) elements) := by
  obtain ⟨tail, htail, hprint⟩ := print_addItems horder
  have hgroups : ∀ g ∈ elements, g ≠ [] ∧ ∃ element, g = groupOf items element :=
    fun g hg => mem_groups.mp (horder.mem_iff.mp hg)
  let fs : List (Node × List Byte) := elements.map fun g => (nodeOf g, [10])
  have hfs : ∀ node, (∃ f ∈ fs, f.1 = node) ↔ ∃ g ∈ elements, nodeOf g = node := by
    intro node
    simp [fs]
  have hmem : ∀ node ∈ fields fs, (∃ g ∈ elements, nodeOf g = node) ∨ node = .chars (raw [10]) := by
    intro node hnode
    obtain ⟨f, hf, hcase⟩ := mem_flatMap.mp hnode
    obtain ⟨g, hg, rfl⟩ := mem_map.mp hf
    rcases mem_cons.mp hcase with rfl | hcase
    · exact .inl ⟨g, hg, rfl⟩
    · exact .inr (mem_singleton.mp hcase)
  have hsources : Node.sources (fields fs) = elements.flatMap printGroup := by
    rw [sources_fields, flatMap_map]
    refine flatMap_congr fun g hg => ?_
    obtain ⟨hne, element, rfl⟩ := hgroups g hg
    exact (printGroup_eq_source hne).symm
  have hhead := headAtts_wellFormed h.nameSpace
  refine ⟨headAtts ns.bytes, [], .chars (raw [10]) :: fields fs, tail, ?_, htail,
    ⟨h.nameSpace, ⟨hhead, ?_⟩, by decide, ?_, isText_blank (by decide), ?_⟩, fun item hitem => ?_,
    fun node hnode => ?_⟩
  · rw [hprint]
    simp [Node.source, Node.sources, startSource, endSource, hsources]
  · simp [headAtts, h.unranged]
  · refine separate_fields [10] fun f hf => ?_
    obtain ⟨g, hg, rfl⟩ := mem_map.mp hf
    rfl
  · refine allWellFormed_fields fun f hf => ?_
    obtain ⟨g, hg, rfl⟩ := mem_map.mp hf
    obtain ⟨hne, element, rfl⟩ := hgroups g hg
    exact ⟨h.nodeWellFormed hne, by simp [IsBlank]⟩
  · have hgroup : groupOf items item.element.bytes ∈ elements := by
      refine horder.mem_iff.mpr (mem_groups.mpr ⟨?_, _, rfl⟩)
      exact ne_nil_of_mem (mem_groupOf.mpr ⟨item, hitem, rfl, rfl⟩)
    refine ⟨_, mem_cons_of_mem _ (mem_flatMap.mpr ⟨_, mem_map_of_mem hgroup, ?_⟩),
      h.shownBy hitem⟩
    exact mem_cons_self
  · rcases mem_cons.mp hnode with rfl | hnode
    · exact .inl ⟨_, rfl, by simp [IsBlank]⟩
    · rcases hmem node hnode with ⟨g, hg, rfl⟩ | rfl
      · obtain ⟨hne, element, rfl⟩ := hgroups g hg
        exact known_nodeOf hne
      · exact .inl ⟨_, rfl, by simp [IsBlank]⟩

/-- In whatever order the table lists the groups, the document is faithful exactly to plain items. -/
theorem documents_faithful (horder : elements.Perm (addItems ns items).groups) :
    Faithful ns items (print (addItems ns items) elements) ↔ Plain ns items :=
  ⟨Faithful.plain horder, Plain.faithful horder⟩

end Plain

/-- A namespace. -/
def exampleNs : CString := .ofBuffer (text "jxta:PA")

/-- An element `Name` with a value. -/
def nameItem (value : String) : Item where
  element := .ofBuffer (text "Name")
  attr := none
  value := .ofBuffer (text value)
  element_blankless := by decide
  attr_blankless := fun a ha => absurd ha (by simp)

theorem plain_nameItem : Plain exampleNs [nameItem "#12"] := by
  have hmem : ∀ item ∈ [nameItem "#12"], item = nameItem "#12" := fun item => mem_singleton.mp
  refine ⟨by decide, by decide, fun item hitem => ?_, fun item hitem a ha => ?_,
    fun item hitem _ => ?_, fun item hitem item' hitem' _ _ _ => ?_, fun element => ?_⟩
  · obtain rfl := hmem item hitem
    decide
  · obtain rfl := hmem item hitem
    exact absurd ha (by simp [nameItem])
  · obtain rfl := hmem item hitem
    exact isText_raw_plain (by decide)
  · rw [hmem item hitem, hmem item' hitem']
  · have hnil : ([nameItem "#12"].filter fun item => item.element = element).filterMap Item.attr = [] := by
      rw [filterMap_eq_nil_iff]
      intro item hitem
      obtain rfl := hmem item (mem_of_mem_filter hitem)
      rfl
    rw [hnil]
    exact nodup_nil

theorem documents_faithful_name : Faithful exampleNs [nameItem "#12"]
    (print (addItems exampleNs [nameItem "#12"]) (addItems exampleNs [nameItem "#12"]).groups) :=
  (documents_faithful (List.Perm.refl _)).mpr plain_nameItem

/-- Of two values of an element only the first is printed. -/
theorem not_documents_faithful : ¬ ∀ ns items elements,
    elements.Perm (addItems ns items).groups →
      Faithful ns items (print (addItems ns items) elements) := by
  intro h
  have hplain := (h exampleNs [nameItem "1", nameItem "2"] _ (List.Perm.refl _)).plain (List.Perm.refl _)
  have htext := hplain.single (nameItem "1") (by simp) (nameItem "2") (by simp) rfl rfl rfl
  cases htext

end Proffer

end JxtaC
