import JxtaC.Advertisement.ParseCalls
import JxtaC.Lib.XmlFields

/-
  What the parse functions make of the advertisement that is parsed (`Handlers.parse`), and of those
  inside it. An inner advertisement is held by the one around it; here it is put there when the one
  around it goes on, since only its own parse functions touch it until then.
  `Yields` is about a part of a document: which advertisement it makes of another, whatever stands
  around it. A document is read by its parts (`Handlers.parse_document`).
-/

namespace JxtaC.Dispatch

open Lib Lib.XmlDocument List

variable {Kind Ad : Type}

/-- The parse functions of a family of advertisements: what a call does to its advertisement, the
advertisement that it hands the parser to, and where this one is held in the end. -/
structure Handlers (Ad : Type) where
  call : Ad → ParseCall → Exec Ad
  child : Ad → ParseCall → Ad
  adopt : List Byte → Ad → Ad → Ad

/-- An advertisement that is read, with its number, and the entry that it was made for. -/
structure Open (Ad : Type) where
  number : Nat
  kwd : List Byte
  ad : Ad

/-- An entry that keeps the parser, for an element without a type. -/
theorem Dialect.opening_keep {d : Dialect Kind} {kind : Kind} {tags : List (Kwdtab Kind)}
    (htags : d.elements kind = some tags) {atts : Atts} (htype : typeAttr atts = none)
    {ename : List Byte} {k : Kwdtab Kind}
    (hk : entry (⟨text "Null", .null⟩ :: ⟨d.documentName kind, .keep⟩ :: tags) ename = some k)
    (hkeep : k.nodeparse = .keep) : d.opening kind atts ename = .keep k := by
  unfold opening dispatchTable lookup
  rw [htags, htype]
  simp [hk, hkeep]

theorem Dialect.opening_switch_of {d : Dialect Kind} {kind inner : Kind}
    {tags : List (Kwdtab Kind)} (htags : d.elements kind = some tags) {atts : Atts}
    (htype : typeAttr atts = none) {ename : List Byte} {k : Kwdtab Kind}
    (hk : entry (⟨text "Null", .null⟩ :: ⟨d.documentName kind, .keep⟩ :: tags) ename = some k)
    (hswitch : k.nodeparse = .switch inner) : d.opening kind atts ename = .switch k inner := by
  unfold opening dispatchTable lookup
  rw [htags, htype]
  simp [hk, hswitch]

/-- Without attributes there are none to handle. -/
theorem Dialect.attributes_nil (d : Dialect Kind) (kind : Kind) (n : Nat) (ename : List Byte) :
    d.attributes kind n ename [] = [] := by
  unfold attributes
  cases d.dispatchTable kind <;> rfl

namespace Handlers
variable (h : Handlers Ad)
variable {cs : List ParseCall} {a b c e : Ad} {k : Kwdtab Kind} {kind : Kind}
variable {fs : List (Node × List Byte)}

/-- The advertisement with this number goes on, and holds those inside it. -/
def settle (owner : Nat) : Open Ad → List (Open Ad) → Open Ad × List (Open Ad)
  | o, [] => (o, [])
  | o, outer :: rest =>
    if o.number = owner then (o, outer :: rest)
    else settle owner { outer with ad := h.adopt o.kwd outer.ad o.ad } rest

/-- A call of a parse function. Advertisements that are made for registered kinds are not looked at,
nor is what is inside them. -/
def onCall (s : Open Ad × List (Open Ad)) (c : ParseCall) : Exec (Open Ad × List (Open Ad)) :=
  if (s.1 :: s.2).any fun o => o.number = c.owner then do
    let (o, rest) := h.settle c.owner s.1 s.2
    let ad ← h.call o.ad c
    match c.inner with
    | none => return ({ o with ad }, rest)
    | some number => return (⟨number, c.kwd, h.child ad c⟩, { o with ad } :: rest)
  else return s

/-- The advertisement that comes of these calls. -/
def readAd (ad : Ad) (calls : List ParseCall) : Exec Ad := do
  let (o, rest) ← calls.foldlM h.onCall (⟨0, [], ad⟩, [])
  return (h.settle 0 o rest).1.ad

/-- `jxta_advertisement_parse_charbuffer` for this advertisement. -/
def parse (d : Dialect Kind) (parser : Parser) (kind : Kind) (ad : Ad) (buf : List Byte) :
    Exec (Ad × Status) := do
  let (_, calls, status) ← d.parseCharbuffer parser kind buf
  let ad ← h.readAd ad calls
  return (ad, status)

/-- These calls make an advertisement of another. -/
def Makes (cs : List ParseCall) (n : Nat) (a b : Ad) : Prop :=
  ∀ kwd rest, cs.foldlM h.onCall (⟨n, kwd, a⟩, rest) = .ok (⟨n, kwd, b⟩, rest)

theorem settle_self (n : Nat) (kwd : List Byte) (a : Ad) (rest : List (Open Ad)) :
    h.settle n ⟨n, kwd, a⟩ rest = (⟨n, kwd, a⟩, rest) := by
  cases rest with
  | nil => rfl
  | cons outer rest => exact if_pos rfl

variable {h}

theorem Makes.nil (n : Nat) (a : Ad) : h.Makes [] n a a := fun _ _ => rfl

theorem Makes.append {ds : List ParseCall} {n : Nat} (hcs : h.Makes cs n a b)
    (hds : h.Makes ds n b c) : h.Makes (cs ++ ds) n a c := by
  intro kwd rest
  rw [foldlM_append, hcs kwd rest, ok_bind, hds kwd rest]

theorem Makes.single {c : ParseCall} {n : Nat} (howner : c.owner = n) (hinner : c.inner = none)
    (hcall : h.call a c = .ok b) : h.Makes [c] n a b := by
  subst howner
  intro kwd rest
  have hstep : h.onCall (⟨c.owner, kwd, a⟩, rest) c = .ok (⟨c.owner, kwd, b⟩, rest) := by
    unfold onCall
    rw [if_pos (by simp), h.settle_self]
    dsimp only
    rw [hcall, ok_bind, hinner]
    rfl
  rw [foldlM_cons, hstep]
  rfl

/-- An inner advertisement between the two calls for its element. -/
theorem Makes.around {c c' : ParseCall} {n m : Nat} {a' b' : Ad} (howner : c.owner = n)
    (hinner : c.inner = some m) (hm : m ≠ n) (hcall : h.call a c = .ok b)
    (hchild : h.child b c = a') (hcs : h.Makes cs m a' b') (howner' : c'.owner = n)
    (hinner' : c'.inner = none) (hcall' : h.call (h.adopt c.kwd b b') c' = .ok e) :
    h.Makes (c :: (cs ++ [c'])) n a e := by
  subst howner
  intro kwd rest
  have hstart : h.onCall (⟨c.owner, kwd, a⟩, rest) c =
      .ok (⟨m, c.kwd, a'⟩, ⟨c.owner, kwd, b⟩ :: rest) := by
    unfold onCall
    rw [if_pos (by simp), h.settle_self]
    dsimp only
    rw [hcall, ok_bind, hinner, hchild]
    rfl
  have hend : h.onCall (⟨m, c.kwd, b'⟩, ⟨c.owner, kwd, b⟩ :: rest) c' =
      .ok (⟨c.owner, kwd, e⟩, rest) := by
    unfold onCall
    rw [if_pos (by simp [howner']), howner', settle, if_neg hm, h.settle_self]
    dsimp only
    rw [hcall', ok_bind, hinner']
    rfl
  rw [foldlM_cons, hstart, ok_bind, foldlM_append, hcs, ok_bind, foldlM_cons, hend]
  rfl

theorem readAd_of_makes (hcs : h.Makes cs 0 a b) : h.readAd a cs = .ok b := by
  unfold readAd
  rw [hcs, ok_bind]
  rfl

variable (h)

/-- A part of a document makes an advertisement of another, whatever was read before. -/
def Yields (content : Place Kind → Nat → Local Kind → Exec (Local Kind)) (p : Place Kind) (n : Nat)
    (a b : Ad) : Prop :=
  ∀ made : List Kind, n < made.length → ∃ made' cs, made.length ≤ made'.length ∧ h.Makes cs n a b ∧
    ∀ accum atts, ∃ accum' atts', ∀ calls,
      content p n ⟨accum, atts, made, calls⟩ = .ok ⟨accum', atts', made', calls ++ cs⟩

variable {h} {d : Dialect Kind}

theorem yields_chars (ps : List Piece) (p : Place Kind) (n : Nat) (a : Ad) :
    h.Yields (d.act (.chars ps)) p n a a := fun made _ =>
  ⟨made, [], Nat.le_refl _, .nil n a, fun accum atts => ⟨accum ++ valueOf ps, atts, fun calls => by
    rw [Dialect.act, append_nil]⟩⟩

theorem yields_nil (p : Place Kind) (n : Nat) (a : Ad) : h.Yields (d.actAll []) p n a a :=
  fun made _ => ⟨made, [], Nat.le_refl _, .nil n a, fun accum atts => ⟨accum, atts, fun calls => by
    rw [Dialect.actAll, append_nil]⟩⟩

theorem Yields.cons {node : Node} {nodes : List Node} {p : Place Kind} {n : Nat}
    (hnode : h.Yields (d.act node) p n a b) (hnodes : h.Yields (d.actAll nodes) p n b c) :
    h.Yields (d.actAll (node :: nodes)) p n a c := by
  intro made hn
  obtain ⟨made₁, cs₁, hle₁, hmakes₁, hrun₁⟩ := hnode made hn
  obtain ⟨made₂, cs₂, hle₂, hmakes₂, hrun₂⟩ := hnodes made₁ (Nat.lt_of_lt_of_le hn hle₁)
  refine ⟨made₂, cs₁ ++ cs₂, hle₁.trans hle₂, hmakes₁.append hmakes₂, fun accum atts => ?_⟩
  obtain ⟨accum₁, atts₁, hrun₁⟩ := hrun₁ accum atts
  obtain ⟨accum₂, atts₂, hrun₂⟩ := hrun₂ accum₁ atts₁
  refine ⟨accum₂, atts₂, fun calls => ?_⟩
  rw [Dialect.actAll, hrun₁, ok_bind, hrun₂, append_assoc]

theorem Yields.append : ∀ {nodes nodes' : List Node} {p : Place Kind} {n : Nat} {a b c : Ad},
    h.Yields (d.actAll nodes) p n a b → h.Yields (d.actAll nodes') p n b c →
      h.Yields (d.actAll (nodes ++ nodes')) p n a c := by
  intro nodes nodes' p n a b c hnodes hnodes' made hn
  obtain ⟨made₁, cs₁, hle₁, hmakes₁, hrun₁⟩ := hnodes made hn
  obtain ⟨made₂, cs₂, hle₂, hmakes₂, hrun₂⟩ := hnodes' made₁ (Nat.lt_of_lt_of_le hn hle₁)
  refine ⟨made₂, cs₁ ++ cs₂, hle₁.trans hle₂, hmakes₁.append hmakes₂, fun accum atts => ?_⟩
  obtain ⟨accum₁, atts₁, hrun₁⟩ := hrun₁ accum atts
  obtain ⟨accum₂, atts₂, hrun₂⟩ := hrun₂ accum₁ atts₁
  refine ⟨accum₂, atts₂, fun calls => ?_⟩
  rw [d.actAll_append, hrun₁, ok_bind, hrun₂, append_assoc]

/-! ## elements -/

variable {content : Place Kind → Nat → Local Kind → Exec (Local Kind)} {p : Place Kind} {n : Nat}
  {ename : List Byte} {atts : Atts}

section
variable (hdepth : p.depth < maxAdvDepth)
include hdepth

/-- An element whose parse function keeps the parser; it does not look at what stands between
elements. -/
theorem Yields.keep (hopen : d.opening p.kind atts ename = .keep k)
    (hatts : d.attributes p.kind n ename atts = [])
    (hstart : h.call a ⟨n, k.kwd, [], atts, none⟩ = .ok b)
    (hcontent : h.Yields content ⟨p.kind, p.depth + 1, some k⟩ n b c)
    (hend : ∀ t shown, t ≠ [] → h.call c ⟨n, k.kwd, t, shown, none⟩ = .ok e)
    (startMarkup endMarkup : List Byte) :
    h.Yields (fun p n l => d.element content p n l ename atts startMarkup endMarkup) p n a e := by
  intro made hn
  obtain ⟨made', cs, hle, hmakes, hrun⟩ := hcontent made hn
  obtain ⟨accum', shown, hrun⟩ := hrun [] atts
  refine ⟨made', ⟨n, k.kwd, [], atts, none⟩ :: (cs ++ [⟨n, k.kwd, endText accum', shown, none⟩]),
    hle, ?_, fun accum before => ⟨[], shown, fun calls => ?_⟩⟩
  · refine (Makes.single rfl rfl hstart).append (hmakes.append (.single rfl rfl ?_))
    exact hend _ _ (endText_ne_nil _)
  · dsimp only
    rw [d.element_shallow hdepth]
    simp only [hopen, hatts, append_nil, hrun, ok_bind]
    exact congrArg Except.ok (by simp [closeElement])

/-- An element with nothing but a text. -/
theorem Yields.leaf (hopen : d.opening p.kind atts ename = .keep k)
    (hatts : d.attributes p.kind n ename atts = [])
    (hstart : h.call a ⟨n, k.kwd, [], atts, none⟩ = .ok b) {ps : List Piece}
    (hend : h.call b ⟨n, k.kwd, endText (valueOf ps), atts, none⟩ = .ok c)
    (startMarkup endMarkup : List Byte) :
    h.Yields (fun p n l => d.element (d.actAll [.chars ps]) p n l ename atts startMarkup endMarkup)
      p n a c := by
  intro made hn
  refine ⟨made, [⟨n, k.kwd, [], atts, none⟩, ⟨n, k.kwd, endText (valueOf ps), atts, none⟩],
    Nat.le_refl _, ?_, fun accum before => ⟨[], atts, fun calls => ?_⟩⟩
  · exact (Makes.single rfl rfl hstart).append (.single rfl rfl hend)
  · dsimp only
    rw [d.element_shallow hdepth]
    simp only [hopen, hatts, append_nil, Dialect.actAll, Dialect.act, ok_bind]
    exact congrArg Except.ok (by simp [closeElement])

/-- An element whose parse function hands the parser on. -/
theorem Yields.switch {f : Ad} (hopen : d.opening p.kind atts ename = .switch k kind)
    (hatts : d.attributes p.kind n ename atts = [])
    (hstart : ∀ m, h.call a ⟨n, k.kwd, [], atts, some m⟩ = .ok b)
    (hchild : ∀ m, h.child b ⟨n, k.kwd, [], atts, some m⟩ = e) (endMarkup : List Byte)
    (hinner : ∀ m, h.Yields (fun p n l => d.element content p n l (d.documentName kind) atts []
      endMarkup) ⟨kind, 0, none⟩ m e f)
    (hend : h.call (h.adopt k.kwd b f) ⟨n, k.kwd, endText [], atts, none⟩ = .ok c)
    (startMarkup : List Byte) :
    h.Yields (fun p n l => d.element content p n l ename atts startMarkup endMarkup) p n a c := by
  intro made hn
  obtain ⟨made', cs, hle, hmakes, hrun⟩ := hinner made.length (made ++ [kind]) (by simp)
  obtain ⟨accum', shown, hrun⟩ := hrun [] []
  rw [length_append] at hle
  refine ⟨made', ⟨n, k.kwd, [], atts, some made.length⟩ ::
    (cs ++ [⟨n, k.kwd, endText [], atts, none⟩]), (Nat.le_add_right _ _).trans hle, ?_,
    fun accum before => ⟨[], atts, fun calls => ?_⟩⟩
  · exact .around rfl rfl (Nat.ne_of_gt hn) (hstart _) (hchild _) hmakes rfl rfl hend
  · dsimp only at hrun ⊢
    rw [d.element_shallow hdepth]
    simp only [hopen, hatts, append_nil, hrun, ok_bind]
    exact congrArg Except.ok (by simp [closeElement])

end

theorem act_element (name space : List Byte) (atts : List Attribute) (children : List Node) :
    d.act (.element name atts space children) = fun p n l =>
      d.element (d.actAll children) p n l name (attsOf atts) (startSource name atts space)
        (endSource name) := by
  funext p n l
  rw [Dialect.act]

theorem act_empty (name space : List Byte) (atts : List Attribute) :
    d.act (.empty name atts space) = fun p n l =>
      d.element (fun _ _ l => .ok l) p n l name (attsOf atts) (emptySource name atts space) [] := by
  funext p n l
  rw [Dialect.act]

theorem yields_nothing (p : Place Kind) (n : Nat) (a : Ad) :
    h.Yields (fun _ _ l => .ok l) p n a a := fun made _ =>
  ⟨made, [], Nat.le_refl _, .nil n a, fun accum atts => ⟨accum, atts, fun calls => by
    rw [append_nil]⟩⟩

/-- A whole document. -/
theorem parse_document {parser : Parser} (hparser : Conforms parser) {doc : Document}
    (hdoc : doc.WellFormed) (hroot : h.Yields (d.act doc.root) ⟨kind, 0, none⟩ 0 a b) :
    h.parse d parser kind a doc.source = .ok (b, .success) := by
  obtain ⟨front, back, cs, hcs, hflat⟩ := hparser doc hdoc
  obtain ⟨made', calls, -, hmakes, hrun⟩ := hroot [kind] Nat.one_pos
  obtain ⟨accum', shown, hrun⟩ := hrun front []
  have hrun : d.run (initial kind) cs = .ok ⟨[], made', calls⟩ := by
    have hroot : doc.root.isChars = false := rfl
    rw [d.run_root kind hroot hflat, hrun, ok_bind, nil_append]
  have hsource : doc.source ≠ [] := by
    unfold Document.source xmlDeclaration
    simp
  unfold parse Dialect.parseCharbuffer
  rw [if_neg hsource, hcs]
  rw [hrun, ok_bind]
  simp only [if_true, pure_bind, readAd_of_makes hmakes, ok_bind]
  rfl


/-! ## documents of fields -/

theorem yields_fields_nil (p : Place Kind) (n : Nat) (a : Ad) :
    h.Yields (d.actAll (fields [])) p n a a := yields_nil p n a

theorem Yields.field {f : Node × List Byte} {p : Place Kind} {n : Nat}
    (hf : h.Yields (d.act f.1) p n a b) (hfs : h.Yields (d.actAll (fields fs)) p n b c) :
    h.Yields (d.actAll (fields (f :: fs))) p n a c :=
  hf.cons ((yields_chars _ p n b).cons hfs)

theorem Yields.fields_append {gs : List (Node × List Byte)} {p : Place Kind} {n : Nat}
    (hfs : h.Yields (d.actAll (fields fs)) p n a b)
    (hgs : h.Yields (d.actAll (fields gs)) p n b c) :
    h.Yields (d.actAll (fields (fs ++ gs))) p n a c := by
  unfold fields
  rw [flatMap_append]
  exact hfs.append hgs

/-- A text between tags, for a parse function that is called at the end only. -/
theorem yields_leafNode {p : Place Kind} {n : Nat} {name : List Byte} {ps : List Piece}
    (hdepth : p.depth < maxAdvDepth) (hopen : d.opening p.kind [] name = .keep k)
    (hstart : h.call a ⟨n, k.kwd, [], [], none⟩ = .ok a)
    (hend : h.call a ⟨n, k.kwd, endText (valueOf ps), [], none⟩ = .ok b) :
    h.Yields (d.act (leafNode name ps)) p n a b := by
  unfold leafNode
  rw [act_element]
  exact .leaf hdepth hopen (d.attributes_nil p.kind n name) hstart hend _ _

/-- A whole document of fields, whose root element is the document's. -/
theorem yields_fieldsDocument {name : List Byte} {spaces : List Byte × List Byte × List Byte}
    {space : List Byte} (hopen : d.opening kind [] name = .keep k)
    (hstart : h.call a ⟨0, k.kwd, [], [], none⟩ = .ok a)
    (hfs : h.Yields (d.actAll (fields fs)) ⟨kind, 1, some k⟩ 0 a b)
    (hend : ∀ t shown, t ≠ [] → h.call b ⟨0, k.kwd, t, shown, none⟩ = .ok b) :
    h.Yields (d.act (fieldsDocument name spaces space fs).root) ⟨kind, 0, none⟩ 0 a b := by
  unfold fieldsDocument Document.root
  rw [act_element]
  exact .keep (Nat.succ_pos 31) hopen (d.attributes_nil kind 0 name) hstart
    ((yields_chars _ _ _ _).cons hfs) hend _ _

end Handlers

end JxtaC.Dispatch
