import JxtaC.Advertisement.Documents

/-
  The calls of parse functions that are meant for a document (`reads`): two for each element of a
  dispatch table, one at its start without text and one at its end with its text, and both see the
  attributes of the element.
  `Proper` says that the handlers of the parser make these calls and no others, in whatever chunks
  the characters come, and that they leave an advertisement as they found it. They do where a
  document is `sound` (`proper_iff_sound`): no element has the name or the type `Null`, none of a
  registered kind stands inside a dispatched one, and behind the last element inside a dispatched
  one its own attributes are in sight.
-/

namespace JxtaC.Dispatch

open Lib Lib.XmlDocument List

variable {Kind : Type}
variable (n : Nat)

/-- The text between the tags of an element without elements in it. -/
def textAll : List Node → List Byte
  | [] => []
  | .chars ps :: nodes => valueOf ps ++ textAll nodes
  | _ :: nodes => textAll nodes

def leafText (children : List Node) : Option (List Byte) :=
  if children.all Node.isChars then some (textAll children) else none

/-- A text for the call at the end of an element: it is not empty, and the text of a leaf. -/
def EndText (leaf : Option (List Byte)) (s : List Byte) : Prop :=
  s ≠ [] ∧ ∀ t, leaf = some t → s = endText t

/-- The calls for something at a place in an advertisement with a number, and the advertisements
that were made before and behind. -/
abbrev Reading (Kind : Type) := Place Kind → Nat → List Kind → List ParseCall → List Kind → Prop

/-- No calls. -/
def readsNothing : Reading Kind := fun _ _ made cs made' => cs = [] ∧ made' = made

namespace Dialect
variable (d : Dialect Kind)

/-- The calls for an element with this content. What is handed on is a document inside the
element; what is too deep, or unknown, has no calls of its own. -/
inductive ReadsElement (content : Reading Kind) (leaf : Option (List Byte)) :
    Place Kind → Nat → List Byte → Atts → List Kind → List ParseCall → List Kind → Prop where
  | deep {p n ename atts made cs made'} (hdepth : ¬ p.depth < maxAdvDepth)
      (hcontent : content { p with depth := p.depth + 1 } n made cs made') :
      ReadsElement content leaf p n ename atts made cs made'
  | keep {p n ename atts made cs made' k s} (hdepth : p.depth < maxAdvDepth)
      (hopen : d.opening p.kind atts ename = .keep k)
      (hcontent : content ⟨p.kind, p.depth + 1, some k⟩ n made cs made') (hend : EndText leaf s) :
      ReadsElement content leaf p n ename atts made (d.attributes p.kind n ename atts ++
        ⟨n, k.kwd, [], atts, none⟩ :: (cs ++ [⟨n, k.kwd, s, atts, none⟩])) made'
  | switch {p n ename atts made cs made' k kind s} (hdepth : p.depth < maxAdvDepth)
      (hopen : d.opening p.kind atts ename = .switch k kind)
      (hinner : ReadsElement content leaf ⟨kind, 0, none⟩ made.length (d.documentName kind) atts
        (made ++ [kind]) cs made')
      (hend : EndText leaf s) :
      ReadsElement content leaf p n ename atts made (d.attributes p.kind n ename atts ++
        ⟨n, k.kwd, [], atts, some made.length⟩ :: (cs ++ [⟨n, k.kwd, s, atts, none⟩])) made'
  | global {p n ename atts made cs made' kind} (hdepth : p.depth < maxAdvDepth)
      (hopen : d.opening p.kind atts ename = .global kind)
      (hinner : ReadsElement content leaf ⟨kind, 0, none⟩ made.length (d.documentName kind) atts
        (made ++ [kind]) cs made') :
      ReadsElement content leaf p n ename atts made (d.attributes p.kind n ename atts ++ cs) made'
  | unknown {p n ename atts made cs made'} (hdepth : p.depth < maxAdvDepth)
      (hopen : d.opening p.kind atts ename = .unknown)
      (hcontent : content ⟨p.kind, p.depth + 1, none⟩ n made cs made') :
      ReadsElement content leaf p n ename atts made (d.attributes p.kind n ename atts ++ cs) made'
  | base {p n ename atts made cs made'} (hdepth : p.depth < maxAdvDepth)
      (hopen : d.opening p.kind atts ename = .base)
      (hcontent : content ⟨p.kind, p.depth + 1, p.curr⟩ n made cs made') :
      ReadsElement content leaf p n ename atts made (d.attributes p.kind n ename atts ++ cs) made'

mutual
/-- The calls that are meant for a part of a document. -/
def reads : Node → Reading Kind
  | .chars _ => readsNothing
  | .element name atts _ children => fun p n =>
    d.ReadsElement (readsAll children) (leafText children) p n name (attsOf atts)
  | .empty name atts _ => fun p n => d.ReadsElement readsNothing (some []) p n name (attsOf atts)

def readsAll : List Node → Reading Kind
  | [] => readsNothing
  | node :: nodes => fun p n made cs made' => ∃ cs₁ made₁ cs₂,
    reads node p n made cs₁ made₁ ∧ readsAll nodes p n made₁ cs₂ made' ∧ cs = cs₁ ++ cs₂
end

/-- What the handlers are for: the calls that are meant for the document, whatever the chunks of its
characters. Every part of a document ends with the advertisement that had the parser before, at the
same depth, and with the same handler. -/
structure Proper (kind : Kind) (root : Node) : Prop where
  called : ∃ calls made, d.reads root ⟨kind, 0, none⟩ 0 [kind] calls made ∧
    ∀ front back cs, Delivers cs front root back →
      d.run (initial kind) cs = .ok ⟨[], made, calls⟩
  back : ∀ (node : Node) (cs : List Call) (f : Frame Kind) (parents : List (Frame Kind))
    (made : List Kind) (calls : List ParseCall) (s : State Kind), 0 < f.depth →
      flat cs = flat node.calls → d.run ⟨f :: parents, made, calls⟩ cs = .ok s →
        ∃ g, s.frames = g :: parents ∧ g.kind = f.kind ∧ g.number = f.number ∧
          g.depth = f.depth ∧ g.currHandler = f.currHandler

/-! ## sound documents -/

/-- The attributes that an element leaves in sight: those of the last one that was started. -/
def shownElement (content : Kind → Nat → Atts → Atts) (kind : Kind) (depth : Nat)
    (ename : List Byte) (own before : Atts) : Atts :=
  if depth < maxAdvDepth then
    match d.opening kind own ename with
    | .keep _ | .unknown | .base => content kind (depth + 1) own
    | _ => own
  else content kind (depth + 1) before

mutual
def shown : Node → Kind → Nat → Atts → Atts
  | .chars _, _, _, before => before
  | .element name atts _ children, kind, depth, before =>
    d.shownElement (shownAll children) kind depth name (attsOf atts) before
  | .empty name atts _, kind, depth, before =>
    d.shownElement (fun _ _ before => before) kind depth name (attsOf atts) before

def shownAll : List Node → Kind → Nat → Atts → Atts
  | [], _, _, before => before
  | node :: nodes, kind, depth, before => shownAll nodes kind depth (shown node kind depth before)
end

/-- An element that the handlers read as it is meant. An advertisement without a table never has a
current handler. -/
inductive SoundElement (shown : Kind → Nat → Atts → Atts) (content : Place Kind → Prop)
    (leaf : Option (List Byte)) : Place Kind → List Byte → Atts → Prop where
  | deep {p ename atts} (hdepth : ¬ p.depth < maxAdvDepth)
      (hcontent : content { p with depth := p.depth + 1 }) :
      SoundElement shown content leaf p ename atts
  | keep {p ename atts k} (hdepth : p.depth < maxAdvDepth)
      (hopen : d.opening p.kind atts ename = .keep k)
      (hcontent : content ⟨p.kind, p.depth + 1, some k⟩)
      (hshown : shown p.kind (p.depth + 1) atts = atts) :
      SoundElement shown content leaf p ename atts
  | switch {p ename atts k kind} (hdepth : p.depth < maxAdvDepth)
      (hopen : d.opening p.kind atts ename = .switch k kind)
      (hinner : SoundElement shown content leaf ⟨kind, 0, none⟩ (d.documentName kind) atts)
      (hleaf : ∀ t, leaf = some t → endText t = text " ") :
      SoundElement shown content leaf p ename atts
  | global {p ename atts kind} (hdepth : p.depth < maxAdvDepth)
      (hopen : d.opening p.kind atts ename = .global kind) (hcurr : p.curr = none)
      (hinner : SoundElement shown content leaf ⟨kind, 0, none⟩ (d.documentName kind) atts) :
      SoundElement shown content leaf p ename atts
  | unknown {p ename atts} (hdepth : p.depth < maxAdvDepth)
      (hopen : d.opening p.kind atts ename = .unknown)
      (hcontent : content ⟨p.kind, p.depth + 1, none⟩) :
      SoundElement shown content leaf p ename atts
  | base {p ename atts} (hdepth : p.depth < maxAdvDepth)
      (hopen : d.opening p.kind atts ename = .base) (hcurr : p.curr = none)
      (hcontent : content ⟨p.kind, p.depth + 1, p.curr⟩) :
      SoundElement shown content leaf p ename atts

mutual
def sound : Node → Place Kind → Prop
  | .chars _, _ => True
  | .element name atts _ children, p =>
    d.SoundElement (d.shownAll children) (soundAll children) (leafText children) p name
      (attsOf atts)
  | .empty name atts _, p =>
    d.SoundElement (fun _ _ before => before) (fun _ => True) (some []) p name (attsOf atts)

def soundAll : List Node → Place Kind → Prop
  | [], _ => True
  | node :: nodes, p => sound node p ∧ soundAll nodes p
end

end Dialect

/-! ## what the handlers do to a part of a document -/

/-- The attributes that are left in sight. -/
def Shows (content : Place Kind → Nat → Local Kind → Exec (Local Kind))
    (shown : Kind → Nat → Atts → Atts) : Prop :=
  ∀ p n l l', content p n l = .ok l' → l'.atts = shown p.kind p.depth l.atts

/-- Where it is sound, the calls that are meant are made, whatever was accumulated before. -/
def Covers (content : Place Kind → Nat → Local Kind → Exec (Local Kind)) (reads : Reading Kind)
    (sound : Place Kind → Prop) : Prop :=
  ∀ p n made, sound p → ∃ cs made', reads p n made cs made' ∧ ∀ accum atts, ∃ accum' atts',
    ∀ calls, content p n ⟨accum, atts, made, calls⟩ = .ok ⟨accum', atts', made', calls ++ cs⟩

/-- There are never fewer calls than are meant; and where they are the same it is sound. -/
def Bounds (content : Place Kind → Nat → Local Kind → Exec (Local Kind)) (reads : Reading Kind)
    (sound : Place Kind → Prop) : Prop :=
  ∀ p n l l' cs made', content p n l = .ok l' → reads p n l.made cs made' →
    l'.made = made' ∧ ∃ s, l'.calls = l.calls ++ s ∧ cs.length ≤ s.length ∧ (s = cs → sound p)

/-- The text of a leaf is accumulated. -/
def Accumulates (content : Place Kind → Nat → Local Kind → Exec (Local Kind))
    (leaf : Option (List Byte)) : Prop :=
  ∀ t, leaf = some t → ∀ p n l, content p n l = .ok { l with accum := l.accum ++ t }

theorem endText_ne_nil (s : List Byte) : endText s ≠ [] := by
  unfold endText
  split
  · decide
  · assumption

@[simp] theorem closeElement_made (handler : Option (Kwdtab Kind)) (markup : List Byte)
    (l : Local Kind) : (closeElement n handler markup l).made = l.made := by
  cases handler <;> rfl

@[simp] theorem closeElement_atts (handler : Option (Kwdtab Kind)) (markup : List Byte)
    (l : Local Kind) : (closeElement n handler markup l).atts = l.atts := by
  cases handler <;> rfl

theorem closeElement_some_calls (k : Kwdtab Kind) (markup : List Byte) (l : Local Kind) :
    (closeElement n (some k) markup l).calls =
      l.calls ++ [⟨n, k.kwd, endText l.accum, l.atts, none⟩] := rfl

theorem closeElement_none_calls (markup : List Byte) (l : Local Kind) :
    (closeElement n none markup l).calls = l.calls := rfl

namespace Dialect
variable {d : Dialect Kind} {content : Place Kind → Nat → Local Kind → Exec (Local Kind)}
variable {visible : Kind → Nat → Atts → Atts} {sound : Place Kind → Prop}

theorem element_shows (h : Shows content visible) (ename : List Byte) (own : Atts)
    (startMarkup endMarkup : List Byte) :
    Shows (fun p n l => d.element content p n l ename own startMarkup endMarkup)
      fun kind depth before => d.shownElement visible kind depth ename own before := by
  intro p n l l' hrun
  dsimp only at hrun ⊢
  unfold shownElement
  by_cases hdepth : p.depth < maxAdvDepth
  · rw [element_shallow d hdepth] at hrun
    rw [if_pos hdepth]
    cases hopen : d.opening p.kind own ename with
    | null => simp [hopen] at hrun
    | keep k | unknown | base =>
      simp only [hopen] at hrun
      obtain ⟨l₁, hcontent, hl'⟩ := bind_eq_ok.mp hrun
      rw [← Except.ok.inj hl', closeElement_atts]
      exact h _ _ _ _ hcontent
    | switch k kind | global kind =>
      simp only [hopen] at hrun
      obtain ⟨sub, -, hl'⟩ := bind_eq_ok.mp hrun
      rw [← Except.ok.inj hl', closeElement_atts]
  · rw [element_deep d hdepth] at hrun
    rw [if_neg hdepth]
    exact h _ _ _ _ hrun

/-- An element that is sound: the calls of its content stand between its own. -/
theorem element_covers {reads : Reading Kind} {leaf : Option (List Byte)}
    (hshows : Shows content visible) (hcovers : Covers content reads sound)
    (hleaf : Accumulates content leaf) (endMarkup : List Byte) {p : Place Kind}
    {ename : List Byte} {own : Atts} (hsound : d.SoundElement visible sound leaf p ename own)
    (startMarkup : List Byte) (n : Nat) (made : List Kind) :
    ∃ cs made', d.ReadsElement reads leaf p n ename own made cs made' ∧
      ∀ accum atts, ∃ accum' atts', ∀ calls,
        d.element content p n ⟨accum, atts, made, calls⟩ ename own startMarkup endMarkup =
          .ok ⟨accum', atts', made', calls ++ cs⟩ := by
  induction hsound generalizing startMarkup n made with
  | @deep p ename own hdepth hcontent =>
    obtain ⟨cs, made', hreads, hrun⟩ := hcovers _ n made hcontent
    refine ⟨cs, made', .deep hdepth hreads, fun accum atts => ?_⟩
    obtain ⟨accum', atts', hrun⟩ := hrun accum atts
    refine ⟨accum', atts', fun calls => ?_⟩
    rw [element_deep d hdepth, hrun]
  | @keep p ename own k hdepth hopen hcontent hshown =>
    obtain ⟨cs, made', hreads, hrun⟩ := hcovers _ n made hcontent
    obtain ⟨accum', atts', hrun⟩ := hrun [] own
    have hatts : atts' = own := (hshows _ _ _ _ (hrun [])).trans hshown
    have hend : EndText leaf (endText accum') := by
      refine ⟨endText_ne_nil _, fun t ht => congrArg endText ?_⟩
      have htext := (hrun []).symm.trans (hleaf t ht _ _ _)
      exact congrArg Local.accum (Except.ok.inj htext)
    refine ⟨_, made', .keep hdepth hopen hreads hend, fun accum atts => ⟨[], own, fun calls => ?_⟩⟩
    rw [element_shallow d hdepth]
    simp only [hopen, hrun, hatts, ok_bind]
    exact congrArg Except.ok (by simp [closeElement])
  | @switch p ename own k kind hdepth hopen _ hblank ih =>
    obtain ⟨cs, made', hreads, hrun⟩ := ih [] made.length (made ++ [kind])
    obtain ⟨accum', atts', hrun⟩ := hrun [] []
    have hend : EndText leaf (endText []) :=
      ⟨endText_ne_nil _, fun t ht => (hblank t ht).symm⟩
    refine ⟨_, made', .switch hdepth hopen hreads hend,
      fun accum atts => ⟨[], own, fun calls => ?_⟩⟩
    rw [element_shallow d hdepth]
    simp only [hopen, hrun, ok_bind]
    exact congrArg Except.ok (by simp [closeElement])
  | @global p ename own kind hdepth hopen hcurr _ ih =>
    obtain ⟨cs, made', hreads, hrun⟩ := ih [] made.length (made ++ [kind])
    obtain ⟨accum', atts', hrun⟩ := hrun [] []
    refine ⟨_, made', .global hdepth hopen hreads,
      fun accum atts => ⟨accum ++ endMarkup, own, fun calls => ?_⟩⟩
    rw [element_shallow d hdepth]
    simp only [hopen, hrun, hcurr, ok_bind]
    exact congrArg Except.ok (by simp [closeElement])
  | @unknown p ename own hdepth hopen hcontent =>
    obtain ⟨cs, made', hreads, hrun⟩ := hcovers _ n made hcontent
    refine ⟨_, made', .unknown hdepth hopen hreads, fun accum atts => ?_⟩
    obtain ⟨accum', atts', hrun⟩ := hrun (accum ++ startMarkup) own
    refine ⟨accum' ++ endMarkup, atts', fun calls => ?_⟩
    rw [element_shallow d hdepth]
    simp only [hopen, hrun, ok_bind]
    exact congrArg Except.ok (by simp [closeElement])
  | @base p ename own hdepth hopen hcurr hcontent =>
    obtain ⟨cs, made', hreads, hrun⟩ := hcovers _ n made hcontent
    refine ⟨_, made', .base hdepth hopen hreads, fun accum atts => ?_⟩
    obtain ⟨accum', atts', hrun⟩ := hrun accum own
    rw [hcurr] at hrun
    refine ⟨accum' ++ endMarkup, atts', fun calls => ?_⟩
    rw [element_shallow d hdepth]
    simp only [hopen, hrun, hcurr, ok_bind]
    exact congrArg Except.ok (by simp [closeElement])

/-- An element where no call is missing: there are others only where it is not sound. -/
theorem element_bounds {reads : Reading Kind} {leaf : Option (List Byte)}
    (hshows : Shows content visible) (hbounds : Bounds content reads sound) (endMarkup : List Byte)
    {p : Place Kind} {n : Nat} {ename : List Byte} {own : Atts} {made made' : List Kind}
    {cs : List ParseCall} (hreads : d.ReadsElement reads leaf p n ename own made cs made')
    (startMarkup : List Byte) {l l' : Local Kind} (hmade : l.made = made)
    (hrun : d.element content p n l ename own startMarkup endMarkup = .ok l') :
    l'.made = made' ∧ ∃ s, l'.calls = l.calls ++ s ∧ cs.length ≤ s.length ∧
      (s = cs → d.SoundElement visible sound leaf p ename own) := by
  induction hreads generalizing startMarkup l l' with
  | @deep p n ename own made cs made' hdepth hcontent =>
    rw [element_deep d hdepth] at hrun
    obtain ⟨hmade', s, hs, hlen, hsound⟩ := hbounds _ _ _ _ _ _ hrun (hmade ▸ hcontent)
    exact ⟨hmade', s, hs, hlen, fun heq => .deep hdepth (hsound heq)⟩
  | @keep p n ename own made cs made' k t hdepth hopen hcontent hend =>
    rw [element_shallow d hdepth] at hrun
    simp only [hopen] at hrun
    obtain ⟨l₁, hinner, hl'⟩ := bind_eq_ok.mp hrun
    obtain ⟨hmade', s, hs, hlen, hsound⟩ := hbounds _ _ _ _ _ _ hinner (hmade ▸ hcontent)
    cases hl'
    have hatts := hshows _ _ _ _ hinner
    refine ⟨by rw [closeElement_made, hmade'], d.attributes p.kind n ename own ++
      ⟨n, k.kwd, [], own, none⟩ :: (s ++ [⟨n, k.kwd, endText l₁.accum, l₁.atts, none⟩]), ?_, ?_, ?_⟩
    · rw [closeElement_some_calls, hs]
      simp
    · simp only [length_append, length_cons]
      omega
    · intro heq
      have hrest := (List.cons.inj (append_cancel_left heq)).2
      obtain ⟨hcs, hlast⟩ := append_inj' hrest rfl
      have hshown : l₁.atts = own := (by simpa using hlast : _ ∧ l₁.atts = own).2
      exact .keep hdepth hopen (hsound hcs) (hatts.symm.trans hshown)
  | @switch p n ename own made cs made' k kind t hdepth hopen _ hend ih =>
    rw [element_shallow d hdepth] at hrun
    simp only [hopen] at hrun
    obtain ⟨sub, hinner, hl'⟩ := bind_eq_ok.mp hrun
    obtain ⟨hmade', s, hs, hlen, hsound⟩ := ih [] rfl (hmade ▸ hinner)
    cases hl'
    refine ⟨by rw [closeElement_made, hmade'], d.attributes p.kind n ename own ++
      ⟨n, k.kwd, [], own, some made.length⟩ :: (s ++ [⟨n, k.kwd, text " ", own, none⟩]), ?_, ?_, ?_⟩
    · rw [closeElement_some_calls, hs]
      simp [endText]
    · simp only [length_append, length_cons]
      omega
    · intro heq
      have hrest := (List.cons.inj (append_cancel_left heq)).2
      obtain ⟨hcs, hlast⟩ := append_inj' hrest rfl
      have ht : text " " = t := by simpa using hlast
      exact .switch hdepth hopen (hsound hcs) fun text hleaf => (hend.2 text hleaf).symm.trans ht.symm
  | @global p n ename own made cs made' kind hdepth hopen _ ih =>
    rw [element_shallow d hdepth] at hrun
    simp only [hopen] at hrun
    obtain ⟨sub, hinner, hl'⟩ := bind_eq_ok.mp hrun
    obtain ⟨hmade', s, hs, hlen, hsound⟩ := ih [] rfl (hmade ▸ hinner)
    cases hl'
    refine ⟨by rw [closeElement_made, hmade'], ?_⟩
    cases hcurr : p.curr with
    | none =>
      refine ⟨d.attributes p.kind n ename own ++ s, ?_, ?_, fun heq => ?_⟩
      · rw [closeElement_none_calls, hs]
        simp
      · simp only [length_append]
        omega
      · exact .global hdepth hopen hcurr (hsound (append_cancel_left heq))
    | some k =>
      -- the handler of the element around it is called once more
      refine ⟨d.attributes p.kind n ename own ++
        (s ++ [⟨n, k.kwd, endText l.accum, own, none⟩]), ?_, ?_, fun heq => ?_⟩
      · rw [closeElement_some_calls, hs]
        simp
      · simp only [length_append]
        omega
      · have hlong := congrArg List.length (append_cancel_left heq)
        rw [length_append, length_singleton] at hlong
        omega
  | @unknown p n ename own made cs made' hdepth hopen hcontent =>
    rw [element_shallow d hdepth] at hrun
    simp only [hopen] at hrun
    obtain ⟨l₁, hinner, hl'⟩ := bind_eq_ok.mp hrun
    obtain ⟨hmade', s, hs, hlen, hsound⟩ := hbounds _ _ _ _ _ _ hinner (hmade ▸ hcontent)
    cases hl'
    refine ⟨by rw [closeElement_made, hmade'], d.attributes p.kind n ename own ++ s, ?_, ?_, ?_⟩
    · rw [closeElement_none_calls, hs]
      simp
    · simp only [length_append]
      omega
    · exact fun heq => .unknown hdepth hopen (hsound (append_cancel_left heq))
  | @base p n ename own made cs made' hdepth hopen hcontent =>
    rw [element_shallow d hdepth] at hrun
    simp only [hopen] at hrun
    obtain ⟨l₁, hinner, hl'⟩ := bind_eq_ok.mp hrun
    obtain ⟨hmade', s, hs, hlen, hsound⟩ := hbounds _ _ _ _ _ _ hinner (hmade ▸ hcontent)
    cases hl'
    refine ⟨by rw [closeElement_made, hmade'], ?_⟩
    cases hcurr : p.curr with
    | none =>
      refine ⟨d.attributes p.kind n ename own ++ s, ?_, ?_, fun heq => ?_⟩
      · rw [closeElement_none_calls, hs]
        simp
      · simp only [length_append]
        omega
      · exact .base hdepth hopen hcurr (hsound (append_cancel_left heq))
    | some k =>
      refine ⟨d.attributes p.kind n ename own ++
        (s ++ [⟨n, k.kwd, endText l₁.accum, l₁.atts, none⟩]), ?_, ?_, fun heq => ?_⟩
      · rw [closeElement_some_calls, hs]
        simp
      · simp only [length_append]
        omega
      · have hlong := congrArg List.length (append_cancel_left heq)
        rw [length_append, length_singleton] at hlong
        omega

theorem shows_nil : Shows (fun (_ : Place Kind) _ l => .ok l) fun _ _ before => before :=
  fun _ _ _ _ hrun => congrArg Local.atts (Except.ok.inj hrun).symm

theorem covers_nil : Covers (fun (_ : Place Kind) _ l => .ok l) readsNothing fun _ => True :=
  fun _ _ made _ => ⟨[], made, ⟨rfl, rfl⟩, fun accum atts => ⟨accum, atts, fun calls => by
    rw [append_nil]⟩⟩

theorem bounds_nil (h : ∀ p, sound p) :
    Bounds (fun (_ : Place Kind) _ l => .ok l) readsNothing sound := by
  rintro p n l l' cs made' hrun ⟨rfl, rfl⟩
  cases hrun
  exact ⟨rfl, [], (append_nil _).symm, Nat.le_refl 0, fun _ => h p⟩

theorem accumulates_nil : Accumulates (fun (_ : Place Kind) _ l => .ok l) (some []) := by
  rintro t ⟨rfl⟩ p n l
  rw [append_nil]

variable (d)

theorem actAll_chars : ∀ nodes : List Node, nodes.all Node.isChars = true → ∀ p n l,
    d.actAll nodes p n l = .ok { l with accum := l.accum ++ textAll nodes }
  | [], _, p, n, l => by rw [actAll, textAll, append_nil]
  | .chars ps :: nodes, h, p, n, l => by
    rw [actAll, act, ok_bind, actAll_chars nodes h, textAll, append_assoc]
  | .element .. :: _, h, _, _, _ => absurd h (by simp [Node.isChars])
  | .empty .. :: _, h, _, _, _ => absurd h (by simp [Node.isChars])

theorem accumulates_actAll (children : List Node) :
    Accumulates (d.actAll children) (leafText children) := by
  intro t ht p n l
  unfold leafText at ht
  split at ht
  next hchars =>
    cases ht
    exact d.actAll_chars children hchars p n l
  next => cases ht

mutual
theorem act_shows : ∀ node : Node, Shows (d.act node) (d.shown node)
  | .chars ps => fun p n l l' hrun => by
    rw [act] at hrun
    rw [shown, ← Except.ok.inj hrun]
  | .element name atts space children => by
    intro p n l l' hrun
    rw [act] at hrun
    rw [shown]
    exact element_shows (actAll_shows children) name (attsOf atts) _ _ p n l l' hrun
  | .empty name atts space => by
    intro p n l l' hrun
    rw [act] at hrun
    rw [shown]
    exact element_shows shows_nil name (attsOf atts) _ _ p n l l' hrun

theorem actAll_shows : ∀ nodes : List Node, Shows (d.actAll nodes) (d.shownAll nodes)
  | [] => fun p n l l' hrun => by
    rw [actAll] at hrun
    rw [shownAll, ← Except.ok.inj hrun]
  | node :: nodes => fun p n l l' hrun => by
    rw [actAll] at hrun
    obtain ⟨l₁, hnode, hnodes⟩ := bind_eq_ok.mp hrun
    rw [shownAll, ← act_shows node p n l l₁ hnode]
    exact actAll_shows nodes p n l₁ l' hnodes
end

mutual
theorem act_covers : ∀ node : Node, Covers (d.act node) (d.reads node) (d.sound node)
  | .chars ps => fun p n made _ => ⟨[], made, ⟨rfl, rfl⟩, fun accum atts =>
    ⟨accum ++ valueOf ps, atts, fun calls => by rw [act, append_nil]⟩⟩
  | .element name atts space children => by
    intro p n made hsound
    rw [sound] at hsound
    obtain ⟨cs, made', hreads, hrun⟩ := element_covers (d.actAll_shows children)
      (actAll_covers children) (d.accumulates_actAll children) (endSource name) hsound
      (startSource name atts space) n made
    refine ⟨cs, made', by rwa [reads], fun accum shown => ?_⟩
    obtain ⟨accum', atts', hrun⟩ := hrun accum shown
    exact ⟨accum', atts', fun calls => by rw [act, hrun]⟩
  | .empty name atts space => by
    intro p n made hsound
    rw [sound] at hsound
    obtain ⟨cs, made', hreads, hrun⟩ := element_covers shows_nil covers_nil accumulates_nil []
      hsound (emptySource name atts space) n made
    refine ⟨cs, made', by rwa [reads], fun accum shown => ?_⟩
    obtain ⟨accum', atts', hrun⟩ := hrun accum shown
    exact ⟨accum', atts', fun calls => by rw [act, hrun]⟩

theorem actAll_covers : ∀ nodes : List Node,
    Covers (d.actAll nodes) (d.readsAll nodes) (d.soundAll nodes)
  | [] => fun p n made _ => ⟨[], made, ⟨rfl, rfl⟩, fun accum atts =>
    ⟨accum, atts, fun calls => by rw [actAll, append_nil]⟩⟩
  | node :: nodes => fun p n made hsound => by
    rw [soundAll] at hsound
    obtain ⟨cs₁, made₁, hreads₁, hrun₁⟩ := act_covers node p n made hsound.1
    obtain ⟨cs₂, made₂, hreads₂, hrun₂⟩ := actAll_covers nodes p n made₁ hsound.2
    refine ⟨cs₁ ++ cs₂, made₂, ?_, fun accum atts => ?_⟩
    · rw [readsAll]
      exact ⟨cs₁, made₁, cs₂, hreads₁, hreads₂, rfl⟩
    · obtain ⟨accum₁, atts₁, hrun₁⟩ := hrun₁ accum atts
      obtain ⟨accum₂, atts₂, hrun₂⟩ := hrun₂ accum₁ atts₁
      refine ⟨accum₂, atts₂, fun calls => ?_⟩
      rw [actAll, hrun₁, ok_bind, hrun₂, append_assoc]
end

mutual
theorem act_bounds : ∀ node : Node, Bounds (d.act node) (d.reads node) (d.sound node)
  | .chars ps => by
    intro p n l l' cs made' hrun hreads
    rw [act] at hrun
    rw [reads] at hreads
    obtain ⟨rfl, rfl⟩ := hreads
    cases hrun
    exact ⟨rfl, [], (append_nil _).symm, Nat.le_refl 0, fun _ => by rw [sound]; trivial⟩
  | .element name atts space children => by
    intro p n l l' cs made' hrun hreads
    rw [act] at hrun
    rw [reads] at hreads
    rw [sound]
    exact element_bounds (d.actAll_shows children) (actAll_bounds children) _ hreads _ rfl hrun
  | .empty name atts space => by
    intro p n l l' cs made' hrun hreads
    rw [act] at hrun
    rw [reads] at hreads
    rw [sound]
    exact element_bounds shows_nil (bounds_nil fun _ => trivial) _ hreads _ rfl hrun

theorem actAll_bounds : ∀ nodes : List Node,
    Bounds (d.actAll nodes) (d.readsAll nodes) (d.soundAll nodes)
  | [] => by
    intro p n l l' cs made' hrun hreads
    rw [actAll] at hrun
    rw [readsAll] at hreads
    rw [soundAll]
    exact bounds_nil (fun _ => trivial) p n l l' cs made' hrun hreads
  | node :: nodes => by
    intro p n l l' cs made' hrun hreads
    rw [actAll] at hrun
    rw [readsAll] at hreads
    obtain ⟨cs₁, made₁, cs₂, hreads₁, hreads₂, rfl⟩ := hreads
    obtain ⟨l₁, hnode, hnodes⟩ := bind_eq_ok.mp hrun
    obtain ⟨hmade₁, s₁, hs₁, hlen₁, hsound₁⟩ := act_bounds node p n l l₁ cs₁ made₁ hnode hreads₁
    obtain ⟨hmade', s₂, hs₂, hlen₂, hsound₂⟩ :=
      actAll_bounds nodes p n l₁ l' cs₂ made' hnodes (hmade₁ ▸ hreads₂)
    refine ⟨hmade', s₁ ++ s₂, by rw [hs₂, hs₁, append_assoc], ?_, fun heq => ?_⟩
    · simp only [length_append]
      omega
    · -- neither part has fewer calls than are meant, so both have as many
      have hlen := congrArg List.length heq
      simp only [length_append] at hlen
      obtain ⟨rfl, rfl⟩ := append_inj heq (by omega)
      rw [soundAll]
      exact ⟨hsound₁ rfl, hsound₂ rfl⟩
end

/-! ## whole documents -/

/-- A part of a document leaves the advertisement that reads it as it found it. -/
theorem back (node : Node) {cs : List Call} {f : Frame Kind} {parents : List (Frame Kind)}
    {made : List Kind} {calls : List ParseCall} {s : State Kind} (hdepth : 0 < f.depth)
    (hflat : flat cs = flat node.calls) (hrun : d.run ⟨f :: parents, made, calls⟩ cs = .ok s) :
    ∃ g, s.frames = g :: parents ∧ g.kind = f.kind ∧ g.number = f.number ∧ g.depth = f.depth ∧
      g.currHandler = f.currHandler := by
  obtain ⟨stk, -, hact⟩ := d.acts_node node f parents made calls hdepth
  rw [d.run_flat_congr hflat, hact] at hrun
  obtain ⟨l, -, hs⟩ := bind_eq_ok.mp hrun
  cases hs
  exact ⟨_, rfl, rfl, rfl, rfl, rfl⟩

theorem delivers_calls (root : Node) : Delivers root.calls [] root [] := by
  unfold Delivers
  simp

/-- The handlers make the calls that are meant for a document just where it is sound. -/
theorem proper_iff_sound (kind : Kind) {root : Node} (hroot : root.isChars = false) :
    d.Proper kind root ↔ d.sound root ⟨kind, 0, none⟩ := by
  constructor
  · rintro ⟨⟨calls, made, hreads, hrun⟩, -⟩
    have hdelivers := delivers_calls root
    have hact := (hrun [] [] root.calls hdelivers).symm.trans (d.run_root kind hroot hdelivers)
    obtain ⟨l, hl, hs⟩ := bind_eq_ok.mp hact.symm
    obtain ⟨rfl, rfl⟩ : l.made = made ∧ l.calls = calls := by simpa using hs
    obtain ⟨-, s, hcalls, -, hsound⟩ := d.act_bounds root _ _ _ _ _ _ hl hreads
    exact hsound hcalls.symm
  · intro hsound
    obtain ⟨calls, made, hreads, hrun⟩ := d.act_covers root _ 0 [kind] hsound
    refine ⟨⟨calls, made, hreads, fun front back cs hdelivers => ?_⟩,
      fun node cs f parents made calls s hdepth hflat hs => d.back node hdepth hflat hs⟩
    obtain ⟨accum, atts, hrun⟩ := hrun front []
    rw [d.run_root kind hroot hdelivers, hrun, ok_bind, nil_append]

end Dialect

/-! ## router messages -/

/-- Router messages (jxta_rm.c) and the access points in them (jxta_apa.c). -/
inductive RouterKind where
  | erm
  | apa
  deriving DecidableEq

/-- `EndpointRouterMessage_tags`, `Jxta_AccessPointAdvertisement_tags`. -/
def routerElements : RouterKind → List (Kwdtab RouterKind)
  | .erm => [⟨text "Src", .keep⟩, ⟨text "Dest", .keep⟩, ⟨text "Last", .keep⟩,
      ⟨text "Fwd", .switch .apa⟩, ⟨text "Rvs", .switch .apa⟩]
  | .apa => [⟨text "PID", .keep⟩, ⟨text "EA", .keep⟩]

/-- Of the kinds that are registered globally only access points are of use here. -/
def routerDialect : Dialect RouterKind where
  documentName
    | .erm => text "jxta:ERM"
    | .apa => text "jxta:APA"
  elements kind := some (routerElements kind)
  globalHandler name := if name = text "jxta:APA" then some .apa else none
  rank
    | .erm => 1
    | .apa => 0
  rank_lt {kind tags k inner} htags hmem hparse := by
    cases htags
    cases kind with
    | erm => cases inner with
      | erm => exact absurd hparse (by revert k; decide)
      | apa => decide
    | apa => exact absurd hparse (by cases inner <;> revert k <;> decide)
  switch_table _ _ _ := rfl
  global_table _ := rfl

/-- `<jxta:ERM><Src>a</Src><Fwd><EA>b</EA></Fwd></jxta:ERM>`. -/
def routerRoot : Node :=
  .element (text "jxta:ERM") [] [] [.element (text "Src") [] [] [.chars [.byte 97]],
    .element (text "Fwd") [] [] [.element (text "EA") [] [] [.chars [.byte 98]]]]

theorem proper_iff_sound_router : routerDialect.Proper .erm routerRoot := by
  refine (routerDialect.proper_iff_sound .erm rfl).mpr ?_
  have hdepth : ∀ n, n < 3 → n < maxAdvDepth := fun n hn => Nat.lt_of_lt_of_le hn (by decide)
  refine .keep (hdepth 0 (by decide)) rfl ⟨?_, ?_, trivial⟩ rfl
  · exact .keep (hdepth 1 (by decide)) rfl ⟨trivial, trivial⟩ rfl
  · refine .switch (hdepth 1 (by decide)) rfl ?_ (by simp [leafText, Node.isChars])
    refine .keep (hdepth 0 (by decide)) rfl ⟨?_, trivial⟩ rfl
    exact .keep (hdepth 1 (by decide)) rfl ⟨trivial, trivial⟩ rfl

/-- `<jxta:ERM type="Null"/>` calls the parse function that there is none of. -/
theorem not_proper : ¬ routerDialect.Proper .erm
    (.empty (text "jxta:ERM") [⟨text " ", text "type", (text "Null").map .byte⟩] []) := by
  rintro ⟨⟨calls, made, -, hrun⟩, -⟩
  have hdelivers := Dialect.delivers_calls
    (.empty (text "jxta:ERM") [⟨text " ", text "type", (text "Null").map .byte⟩] [])
  have h := hrun _ _ _ hdelivers
  have hopen : routerDialect.opening .erm [(text "type", text "Null")] (text "jxta:ERM") = .null :=
    rfl
  have hatts : attsOf [⟨text " ", text "type", (text "Null").map .byte⟩] =
      [(text "type", text "Null")] := by decide
  rw [routerDialect.run_root .erm rfl hdelivers, Dialect.act, hatts,
    Dialect.element_shallow _ (by decide)] at h
  simp [hopen] at h

end JxtaC.Dispatch
