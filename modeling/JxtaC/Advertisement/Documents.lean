import JxtaC.Advertisement.Dispatch

/-
  What the handlers of the parser make of a whole document: `run_root`. `act` follows the tree
  of the document instead of the calls of the parser, so that a proof about a document is an
  induction on it.
-/

namespace JxtaC.Dispatch

open Lib Lib.XmlDocument

variable {Kind : Type}

/-- Where an element stands in its advertisement: the depth, and the entry of the element around
it. -/
structure Place (Kind : Type) where
  kind : Kind
  depth : Nat
  curr : Option (Kwdtab Kind)

/-- What changes while an advertisement is read. -/
structure Local (Kind : Type) where
  accum : List Byte
  atts : Atts
  made : List Kind
  calls : List ParseCall

/-- The end of an element in its advertisement. -/
def closeElement (number : Nat) (handler : Option (Kwdtab Kind)) (markup : List Byte)
    (l : Local Kind) : Local Kind :=
  match handler with
  | some k => { l with
      accum := []
      calls := l.calls ++ [⟨number, k.kwd, endText l.accum, l.atts, none⟩] }
  | none => { l with accum := l.accum ++ markup }

/-- The calls of a parser for a document with this root, in any chunks: around the root there are
characters. -/
def Delivers (cs : List Call) (front : List Byte) (root : Node) (back : List Byte) : Prop :=
  flat cs = flat [.chars front] ++ flat root.calls ++ flat [.chars back]

namespace Dialect
variable (d : Dialect Kind)
variable {cs : List Call} {inner : Place Kind → Nat → Local Kind → Exec (Local Kind)}
variable {f : Frame Kind} (s : State Kind) (kind : Kind)

/-- What comes of an element with this content. -/
def element (inner : Place Kind → Nat → Local Kind → Exec (Local Kind))
    (p : Place Kind) (number : Nat) (l : Local Kind) (ename : List Byte) (atts : Atts)
    (startMarkup endMarkup : List Byte) : Exec (Local Kind) :=
  if p.depth < maxAdvDepth then
    let l := { l with atts, calls := l.calls ++ d.attributes p.kind number ename atts }
    match hopen : d.opening p.kind atts ename with
    | .null => .error .nullPointer
    | .keep k => do
      let l ← inner ⟨p.kind, p.depth + 1, some k⟩ number
        { l with accum := [], calls := l.calls ++ [⟨number, k.kwd, [], atts, none⟩] }
      return closeElement number (some k) endMarkup l
    | .switch k kind => do
      let calls := l.calls ++ [⟨number, k.kwd, [], atts, some l.made.length⟩]
      let sub ← element inner ⟨kind, 0, none⟩ l.made.length ⟨[], [], l.made ++ [kind], calls⟩
        (d.documentName kind) atts [] endMarkup
      return closeElement number (some k) endMarkup ⟨[], atts, sub.made, sub.calls⟩
    | .global kind => do
      let sub ← element inner ⟨kind, 0, none⟩ l.made.length ⟨[], [], l.made ++ [kind], l.calls⟩
        (d.documentName kind) atts [] endMarkup
      return closeElement number p.curr endMarkup
        { l with made := sub.made, calls := sub.calls }
    | .unknown => do
      let l ← inner ⟨p.kind, p.depth + 1, none⟩ number { l with accum := l.accum ++ startMarkup }
      return closeElement number none endMarkup l
    | .base => do
      let l ← inner ⟨p.kind, p.depth + 1, p.curr⟩ number l
      return closeElement number p.curr endMarkup l
  else inner { p with depth := p.depth + 1 } number l
termination_by d.startMeasure p.kind ename
decreasing_by
  · exact d.startMeasure_switch hopen
  · exact d.startMeasure_global hopen

mutual
/-- What comes of a part of a document. -/
def act : Node → Place Kind → Nat → Local Kind → Exec (Local Kind)
  | .chars ps, _, _, l => .ok { l with accum := l.accum ++ valueOf ps }
  | .element name atts space children, p, number, l =>
    d.element (actAll children) p number l name (attsOf atts) (startSource name atts space)
      (endSource name)
  | .empty name atts space, p, number, l =>
    d.element (fun _ _ l => .ok l) p number l name (attsOf atts) (emptySource name atts space) []

def actAll : List Node → Place Kind → Nat → Local Kind → Exec (Local Kind)
  | [], _, _, l => .ok l
  | node :: nodes, p, number, l => do
    let l ← act node p number l
    actAll nodes p number l
end

theorem actAll_append (nodes nodes' : List Node) (p : Place Kind) (number : Nat) (l : Local Kind) :
    d.actAll (nodes ++ nodes') p number l =
      (d.actAll nodes p number l >>= d.actAll nodes' p number) := by
  induction nodes generalizing l with
  | nil => rw [List.nil_append, actAll, ok_bind]
  | cons node nodes ih =>
    rw [List.cons_append, actAll, actAll, bind_assoc]
    exact bind_congr fun l => ih l

/-! ## the calls of the parser -/

/-- Inside of its document, the calls of the parser do to the advertisement that has it what `inner`
says. Slots of the handler stack behind its depth are of no use. -/
def Acts (cs : List Call) (inner : Place Kind → Nat → Local Kind → Exec (Local Kind)) : Prop :=
  ∀ (f : Frame Kind) (parents : List (Frame Kind)) (made : List Kind) (calls : List ParseCall),
    0 < f.depth → ∃ stk : Fin maxAdvDepth → Option (Kwdtab Kind),
      (∀ i : Fin maxAdvDepth, i.val < f.depth → stk i = f.handlerStk i) ∧
        d.run ⟨f :: parents, made, calls⟩ cs = (do
          let l ← inner ⟨f.kind, f.depth, f.currHandler⟩ f.number ⟨f.accum, f.atts, made, calls⟩
          return ⟨{ f with handlerStk := stk, accum := l.accum, atts := l.atts } :: parents,
            l.made, l.calls⟩)

/-- What `advertisement_end_element` goes on with, where an element at this depth ended. -/
def goOn (markup : List Byte) (f : Frame Kind) (parents : List (Frame Kind))
    (calls : List ParseCall) : Exec (List (Frame Kind) × List ParseCall) :=
  if f.depth = 0 then if parents = [] then .ok ([], calls) else endElement markup parents calls
  else .ok (f :: parents, calls)

theorem run_append (cs ds : List Call) :
    d.run s (cs ++ ds) = (d.run s cs >>= fun s => d.run s ds) := List.foldlM_append

theorem acts_nil : d.Acts [] fun _ _ l => .ok l := fun f _ _ _ _ =>
  ⟨f.handlerStk, fun _ _ => rfl, rfl⟩

theorem Acts.append {d : Dialect Kind} {ds : List Call}
    {inner' : Place Kind → Nat → Local Kind → Exec (Local Kind)} (h : d.Acts cs inner)
    (h' : d.Acts ds inner') :
    d.Acts (cs ++ ds) fun p number l => inner p number l >>= inner' p number := by
  intro f parents made calls hdepth
  obtain ⟨stk, hstk, hrun⟩ := h f parents made calls hdepth
  cases hinner : inner ⟨f.kind, f.depth, f.currHandler⟩ f.number ⟨f.accum, f.atts, made, calls⟩ with
  | error e =>
    refine ⟨f.handlerStk, fun _ _ => rfl, ?_⟩
    rw [run_append, hrun]
    dsimp only
    rw [hinner]
    rfl
  | ok l =>
    obtain ⟨stk', hstk', hrun'⟩ := h' { f with handlerStk := stk, accum := l.accum, atts := l.atts }
      parents l.made l.calls hdepth
    refine ⟨stk', fun i hi => (hstk' i hi).trans (hstk i hi), ?_⟩
    rw [run_append, hrun]
    dsimp only
    rw [hinner]
    exact hrun'

theorem acts_chars (s : List Byte) :
    d.Acts [.chars s] fun _ _ l => .ok { l with accum := l.accum ++ s } := fun f _ _ _ _ =>
  ⟨f.handlerStk, fun _ _ => rfl, rfl⟩

/-- The end of an element that is not too deep. -/
theorem endElement_shallow (markup : List Byte) {n : Nat} (hdepth : f.depth = n + 1)
    (hn : n < maxAdvDepth) (parents : List (Frame Kind)) (made : List Kind)
    (calls : List ParseCall) :
    let l := closeElement f.number f.currHandler markup ⟨f.accum, f.atts, made, calls⟩
    endElement markup (f :: parents) calls =
      goOn markup { f with
        depth := n, currHandler := f.handlerStk ⟨n, hn⟩, accum := l.accum } parents l.calls := by
  have hdepth' : (if f.depth = 0 then uintMod - 1 else f.depth - 1) = n := by
    rw [hdepth, if_neg (Nat.succ_ne_zero n), Nat.add_sub_cancel]
  intro l
  rw [endElement]
  simp only [hdepth', hn, dif_pos]
  unfold goOn
  cases hcurr : f.currHandler with
  | some k =>
    simp only [l, hcurr, closeElement]
  | none =>
    simp only [l, hcurr, closeElement]

/-- Below the last slot of the handler stack elements are only counted. -/
theorem endElement_deep (markup : List Byte) {n : Nat} (hdepth : f.depth = n + 1)
    (hn : ¬ n < maxAdvDepth) (parents : List (Frame Kind)) (calls : List ParseCall) :
    endElement markup (f :: parents) calls = .ok ({ f with depth := n } :: parents, calls) := by
  have hdepth' : (if f.depth = 0 then uintMod - 1 else f.depth - 1) = n := by
    rw [hdepth, if_neg (Nat.succ_ne_zero n), Nat.add_sub_cancel]
  rw [endElement]
  simp only [hdepth', hn, dif_neg, not_false_eq_true]

/-- The content of an element, and its end. -/
def runToEnd (cs : List Call) (endMarkup : List Byte) (s : State Kind) : Exec (State Kind) := do
  let s ← d.run s cs
  let (frames, calls) ← endElement endMarkup s.frames s.calls
  return { s with frames, calls }

theorem run_element_eq (f : Frame Kind) (parents : List (Frame Kind)) (made : List Kind)
    (calls : List ParseCall) (ename : List Byte) (atts : Atts) (cs : List Call)
    (startMarkup endMarkup : List Byte) :
    d.run ⟨f :: parents, made, calls⟩
        (.start ename atts startMarkup :: (cs ++ [.finish ename endMarkup])) =
      (d.startElement f parents made calls ename atts startMarkup >>=
        d.runToEnd cs endMarkup) := by
  unfold runToEnd
  show (d.startElement f parents made calls ename atts startMarkup >>= fun s =>
    d.run s (cs ++ [.finish ename endMarkup])) = _
  congr 1
  funext s
  rw [run_append]
  congr 1
  funext s
  show (d.onCall s (.finish ename endMarkup) >>= pure) = _
  rw [bind_pure]
  rfl

/-- The advertisement at the start of an element, below the last slot of its stack. -/
def push (f : Frame Kind) (h : f.depth < maxAdvDepth) (atts : Atts) : Frame Kind :=
  { f with
    handlerStk := fun i => if i = ⟨f.depth, h⟩ then f.currHandler else f.handlerStk i
    depth := f.depth + 1
    atts }

theorem startElement_shallow (h : f.depth < maxAdvDepth) (parents : List (Frame Kind))
    (made : List Kind) (calls : List ParseCall) (ename : List Byte) (atts : Atts)
    (markup : List Byte) :
    d.startElement f parents made calls ename atts markup =
      let g := push f h atts
      let calls := calls ++ d.attributes f.kind f.number ename atts
      match d.opening f.kind atts ename with
      | .null => .error .nullPointer
      | .keep k => .ok ⟨{ g with currHandler := some k, accum := [] } :: parents, made,
          calls ++ [⟨f.number, k.kwd, [], atts, none⟩]⟩
      | .switch k inner =>
        d.startElement (setHandlers inner made.length)
          ({ g with currHandler := some k, accum := [] } :: parents) (made ++ [inner])
          (calls ++ [⟨f.number, k.kwd, [], atts, some made.length⟩]) (d.documentName inner) atts []
      | .global inner =>
        d.startElement (setHandlers inner made.length) (g :: parents) (made ++ [inner]) calls
          (d.documentName inner) atts []
      | .unknown =>
        .ok ⟨{ g with currHandler := none, accum := f.accum ++ markup } :: parents, made, calls⟩
      | .base => .ok ⟨g :: parents, made, calls⟩ := by
  rw [startElement, dif_pos h]
  dsimp only [push]
  split <;> next hopen => rw [hopen]

theorem startElement_deep (h : ¬ f.depth < maxAdvDepth) (parents : List (Frame Kind))
    (made : List Kind) (calls : List ParseCall) (ename : List Byte) (atts : Atts)
    (markup : List Byte) :
    d.startElement f parents made calls ename atts markup =
      .ok ⟨{ f with depth := f.depth + 1 } :: parents, made, calls⟩ := by
  rw [startElement, dif_neg h]

theorem element_shallow {p : Place Kind} (h : p.depth < maxAdvDepth)
    (inner : Place Kind → Nat → Local Kind → Exec (Local Kind)) (number : Nat) (l : Local Kind)
    (ename : List Byte) (atts : Atts) (startMarkup endMarkup : List Byte) :
    d.element inner p number l ename atts startMarkup endMarkup =
      let l := { l with atts, calls := l.calls ++ d.attributes p.kind number ename atts }
      match d.opening p.kind atts ename with
      | .null => .error .nullPointer
      | .keep k => do
        let l ← inner ⟨p.kind, p.depth + 1, some k⟩ number
          { l with accum := [], calls := l.calls ++ [⟨number, k.kwd, [], atts, none⟩] }
        return closeElement number (some k) endMarkup l
      | .switch k kind => do
        let calls := l.calls ++ [⟨number, k.kwd, [], atts, some l.made.length⟩]
        let sub ← d.element inner ⟨kind, 0, none⟩ l.made.length
          ⟨[], [], l.made ++ [kind], calls⟩ (d.documentName kind) atts [] endMarkup
        return closeElement number (some k) endMarkup ⟨[], atts, sub.made, sub.calls⟩
      | .global kind => do
        let sub ← d.element inner ⟨kind, 0, none⟩ l.made.length
          ⟨[], [], l.made ++ [kind], l.calls⟩ (d.documentName kind) atts [] endMarkup
        return closeElement number p.curr endMarkup
          { l with made := sub.made, calls := sub.calls }
      | .unknown => do
        let l ← inner ⟨p.kind, p.depth + 1, none⟩ number { l with accum := l.accum ++ startMarkup }
        return closeElement number none endMarkup l
      | .base => do
        let l ← inner ⟨p.kind, p.depth + 1, p.curr⟩ number l
        return closeElement number p.curr endMarkup l := by
  rw [element, if_pos h]
  split <;> next hopen => rw [hopen]

theorem element_deep {p : Place Kind} (h : ¬ p.depth < maxAdvDepth)
    (inner : Place Kind → Nat → Local Kind → Exec (Local Kind)) (number : Nat) (l : Local Kind)
    (ename : List Byte) (atts : Atts) (startMarkup endMarkup : List Byte) :
    d.element inner p number l ename atts startMarkup endMarkup =
      inner { p with depth := p.depth + 1 } number l := by
  rw [element, if_neg h]

/-- What is left where the element at the top of the frames ended like this. -/
def finished (f : Frame Kind) (parents : List (Frame Kind)) (markup : List Byte)
    (stk : Fin maxAdvDepth → Option (Kwdtab Kind)) (l : Local Kind) : Exec (State Kind) := do
  let (frames, calls) ← goOn markup { f with handlerStk := stk, accum := l.accum, atts := l.atts }
    parents l.calls
  return ⟨frames, l.made, calls⟩

variable {d}

/-- From the content of an element to its end, in its own advertisement. -/
theorem runToEnd_shallow (h : d.Acts cs inner) (hdepth : f.depth < maxAdvDepth) (atts : Atts)
    (handler : Option (Kwdtab Kind)) (accum : List Byte) (parents : List (Frame Kind))
    (made : List Kind) (calls : List ParseCall) (endMarkup : List Byte) :
    ∃ stk : Fin maxAdvDepth → Option (Kwdtab Kind),
      (∀ i : Fin maxAdvDepth, i.val < f.depth → stk i = f.handlerStk i) ∧
        d.runToEnd cs endMarkup
          ⟨{ push f hdepth atts with currHandler := handler, accum } :: parents, made, calls⟩ =
            (inner ⟨f.kind, f.depth + 1, handler⟩ f.number ⟨accum, atts, made, calls⟩ >>= fun l =>
              finished f parents endMarkup stk (closeElement f.number handler endMarkup l)) := by
  obtain ⟨stk, hstk, hrun⟩ := h { push f hdepth atts with currHandler := handler, accum } parents made
    calls (Nat.succ_pos _)
  have hslot : stk ⟨f.depth, hdepth⟩ = f.currHandler :=
    (hstk ⟨f.depth, hdepth⟩ (Nat.lt_succ_self _)).trans (if_pos rfl)
  refine ⟨stk, fun i hi => ?_, ?_⟩
  · have hne : i ≠ ⟨f.depth, hdepth⟩ := fun heq => absurd (congrArg Fin.val heq) (Nat.ne_of_lt hi)
    exact (hstk i (Nat.lt_succ_of_lt hi)).trans (if_neg hne)
  · unfold runToEnd
    rw [hrun]
    cases hinner : inner ⟨f.kind, f.depth + 1, handler⟩ f.number ⟨accum, atts, made, calls⟩ with
    | error e =>
      dsimp only [push]
      rw [hinner]
      rfl
    | ok l =>
      dsimp only [push]
      rw [hinner]
      have hend := endElement_shallow endMarkup (f := ⟨f.kind, f.number, stk, f.depth + 1, handler,
        l.atts, l.accum⟩) rfl hdepth parents l.made l.calls
      simp only [ok_bind, pure_bind]
      rw [hend]
      dsimp only
      rw [hslot]
      cases handler with
      | some k => rfl
      | none => rfl

/-- The end of an element whose content was read by another advertisement. -/
theorem endElement_around (hdepth : f.depth < maxAdvDepth) (atts : Atts)
    (handler : Option (Kwdtab Kind)) (accum : List Byte) (parents : List (Frame Kind))
    (made : List Kind) (calls : List ParseCall) (endMarkup : List Byte) :
    let stk := (push f hdepth atts).handlerStk
    (∀ i : Fin maxAdvDepth, i.val < f.depth → stk i = f.handlerStk i) ∧
      (do
        let (frames, calls) ← endElement endMarkup
          ({ push f hdepth atts with currHandler := handler, accum } :: parents) calls
        return (⟨frames, made, calls⟩ : State Kind)) =
          finished f parents endMarkup stk
            (closeElement f.number handler endMarkup ⟨accum, atts, made, calls⟩) := by
  intro stk
  have hslot : stk ⟨f.depth, hdepth⟩ = f.currHandler := if_pos rfl
  refine ⟨fun i hi => ?_, ?_⟩
  · exact if_neg fun heq => absurd (congrArg Fin.val heq) (Nat.ne_of_lt hi)
  · have hend := endElement_shallow endMarkup (f := ⟨f.kind, f.number, stk, f.depth + 1, handler,
      atts, accum⟩) rfl hdepth parents made calls
    dsimp only [push]
    dsimp only [push, stk] at hend hslot ⊢
    rw [hend, hslot]
    cases handler with
    | some k => rfl
    | none => rfl

/-- Where the document of an inner advertisement ended, the one around it has to end the element. -/
theorem finished_inner (number : Nat) (g : Frame Kind) (parents : List (Frame Kind))
    (endMarkup : List Byte) (stk : Fin maxAdvDepth → Option (Kwdtab Kind)) (sub : Local Kind) :
    finished (setHandlers kind number) (g :: parents) endMarkup stk sub = (do
      let (frames, calls) ← endElement endMarkup (g :: parents) sub.calls
      return (⟨frames, sub.made, calls⟩ : State Kind)) := by
  have hgo : goOn endMarkup { setHandlers kind number with
      handlerStk := stk, accum := sub.accum, atts := sub.atts } (g :: parents) sub.calls =
        endElement endMarkup (g :: parents) sub.calls :=
    (if_pos rfl).trans (if_neg (List.cons_ne_nil _ _))
  unfold finished
  rw [hgo]

/-- The calls for an element do what `element` says of it. -/
theorem startElement_runs (h : d.Acts cs inner) (f : Frame Kind) (parents : List (Frame Kind))
    (made : List Kind) (calls : List ParseCall) (ename : List Byte) (atts : Atts)
    (startMarkup endMarkup : List Byte) :
    ∃ stk : Fin maxAdvDepth → Option (Kwdtab Kind),
      (∀ i : Fin maxAdvDepth, i.val < f.depth → stk i = f.handlerStk i) ∧
        (d.startElement f parents made calls ename atts startMarkup >>=
          d.runToEnd cs endMarkup) =
            (d.element inner ⟨f.kind, f.depth, f.currHandler⟩ f.number
              ⟨f.accum, f.atts, made, calls⟩ ename atts startMarkup endMarkup >>=
                finished f parents endMarkup stk) := by
  by_cases hdepth : f.depth < maxAdvDepth
  · have hplace : (⟨f.kind, f.depth, f.currHandler⟩ : Place Kind).depth < maxAdvDepth := hdepth
    rw [startElement_shallow d hdepth, element_shallow d hplace]
    cases hopen : d.opening f.kind atts ename with
    | null => exact ⟨f.handlerStk, fun _ _ => rfl, rfl⟩
    | keep k =>
      obtain ⟨stk, hstk, hrun⟩ := runToEnd_shallow h hdepth atts (some k) [] parents made
        (calls ++ d.attributes f.kind f.number ename atts ++ [⟨f.number, k.kwd, [], atts, none⟩])
        endMarkup
      refine ⟨stk, hstk, ?_⟩
      rw [ok_bind, hrun, bind_assoc]
      rfl
    | unknown =>
      obtain ⟨stk, hstk, hrun⟩ := runToEnd_shallow h hdepth atts none (f.accum ++ startMarkup) parents
        made (calls ++ d.attributes f.kind f.number ename atts) endMarkup
      refine ⟨stk, hstk, ?_⟩
      rw [ok_bind, hrun, bind_assoc]
      rfl
    | base =>
      obtain ⟨stk, hstk, hrun⟩ := runToEnd_shallow h hdepth atts f.currHandler f.accum parents
        made (calls ++ d.attributes f.kind f.number ename atts) endMarkup
      refine ⟨stk, hstk, ?_⟩
      have hframe : push f hdepth atts =
          { push f hdepth atts with currHandler := f.currHandler, accum := f.accum } := rfl
      rw [ok_bind, hframe, hrun, bind_assoc]
      rfl
    | switch k kind =>
      let g := { push f hdepth atts with currHandler := some k, accum := [] }
      obtain ⟨stk, -, hrun⟩ := startElement_runs h (setHandlers kind made.length) (g :: parents)
        (made ++ [kind]) (calls ++ d.attributes f.kind f.number ename atts ++
          [⟨f.number, k.kwd, [], atts, some made.length⟩]) (d.documentName kind) atts [] endMarkup
      refine ⟨g.handlerStk, (endElement_around hdepth atts (some k) [] parents made calls
        endMarkup).1, ?_⟩
      rw [hrun, bind_assoc]
      refine bind_congr fun sub => ?_
      exact (finished_inner kind made.length g parents endMarkup stk sub).trans
        (endElement_around hdepth atts (some k) [] parents sub.made sub.calls endMarkup).2
    | global kind =>
      let g := push f hdepth atts
      obtain ⟨stk, -, hrun⟩ := startElement_runs h (setHandlers kind made.length) (g :: parents)
        (made ++ [kind]) (calls ++ d.attributes f.kind f.number ename atts)
          (d.documentName kind) atts [] endMarkup
      refine ⟨g.handlerStk, (endElement_around hdepth atts f.currHandler f.accum parents made calls
        endMarkup).1, ?_⟩
      rw [hrun, bind_assoc]
      refine bind_congr fun sub => ?_
      exact (finished_inner kind made.length g parents endMarkup stk sub).trans
        (endElement_around hdepth atts f.currHandler f.accum parents sub.made sub.calls endMarkup).2
  · have hplace : ¬ (⟨f.kind, f.depth, f.currHandler⟩ : Place Kind).depth < maxAdvDepth := hdepth
    rw [startElement_deep d hdepth, element_deep d hplace]
    obtain ⟨stk, hstk, hrun⟩ := h { f with depth := f.depth + 1 } parents made calls
      (Nat.succ_pos _)
    refine ⟨stk, fun i hi => hstk i (Nat.lt_succ_of_lt hi), ?_⟩
    have hne : f.depth ≠ 0 := fun hzero => hdepth (hzero ▸ (by decide))
    rw [ok_bind]
    unfold runToEnd
    rw [hrun]
    cases hinner : inner ⟨f.kind, f.depth + 1, f.currHandler⟩ f.number
        ⟨f.accum, f.atts, made, calls⟩ with
    | error e =>
      rfl
    | ok l =>
      have hend := endElement_deep endMarkup (f := ⟨f.kind, f.number, stk, f.depth + 1, f.currHandler,
        l.atts, l.accum⟩) rfl hdepth parents l.calls
      simp only [ok_bind, pure_bind]
      rw [hend]
      simp only [finished, goOn, hne, if_false, ok_bind]
termination_by d.startMeasure f.kind ename
decreasing_by
  · exact d.startMeasure_switch hopen
  · exact d.startMeasure_global hopen

theorem acts_element (h : d.Acts cs inner) (ename : List Byte) (atts : Atts)
    (startMarkup endMarkup : List Byte) :
    d.Acts (.start ename atts startMarkup :: (cs ++ [.finish ename endMarkup]))
      fun p number l => d.element inner p number l ename atts startMarkup endMarkup := by
  intro f parents made calls hdepth
  obtain ⟨stk, hstk, hrun⟩ := startElement_runs h f parents made calls ename atts startMarkup
    endMarkup
  refine ⟨stk, hstk, ?_⟩
  rw [run_element_eq, hrun]
  refine bind_congr fun l => ?_
  have hne : f.depth ≠ 0 := Nat.pos_iff_ne_zero.mp hdepth
  simp only [finished, goOn, hne, if_false, ok_bind]

variable (d)

mutual
theorem acts_node : ∀ node : Node, d.Acts node.calls (d.act node)
  | .chars ps => by
    rw [Node.calls]
    exact acts_chars d (valueOf ps)
  | .element name atts space children => by
    rw [Node.calls]
    exact acts_element (acts_nodes children) name (attsOf atts) _ _
  | .empty name atts space => by
    rw [Node.calls]
    exact acts_element (acts_nil d) name (attsOf atts) _ _

theorem acts_nodes : ∀ nodes : List Node, d.Acts (Node.allCalls nodes) (d.actAll nodes)
  | [] => acts_nil d
  | node :: nodes => by
    rw [Node.allCalls]
    exact (acts_node node).append (acts_nodes nodes)
end

/-! ## chunks -/

theorem run_chars (cd : List Byte) :
    d.run s (cd.map fun b => .chars [b]) = .ok { s with frames := charData cd s.frames } := by
  induction cd generalizing s with
  | nil =>
    obtain ⟨frames, made, calls⟩ := s
    cases frames with
    | nil => rfl
    | cons f parents => simp [run, charData]; rfl
  | cons b cd ih =>
    have hstep : d.run s (.chars [b] :: cd.map fun b => .chars [b]) =
        d.run { s with frames := charData [b] s.frames } (cd.map fun b => .chars [b]) := rfl
    rw [List.map_cons, hstep, ih]
    obtain ⟨frames, made, calls⟩ := s
    cases frames with
    | nil => rfl
    | cons f parents => simp [charData]

/-- The chunks of the characters do not matter. -/
theorem run_flat (cs : List Call) : d.run s (flat cs) = d.run s cs := by
  induction cs generalizing s with
  | nil => rfl
  | cons c cs ih =>
    have hcons : d.run s (c :: cs) = (d.onCall s c >>= fun s => d.run s cs) := rfl
    cases c with
    | start ename atts markup =>
      rw [flat_start, hcons]
      exact bind_congr fun s => ih s
    | chars cd =>
      rw [flat_chars, run_append, run_chars, ok_bind, ih]
      rfl
    | finish ename markup =>
      rw [flat_finish, hcons]
      exact bind_congr fun s => ih s

theorem run_flat_congr {ds : List Call} (h : flat cs = flat ds) (s : State Kind) :
    d.run s cs = d.run s ds := by
  rw [← run_flat, h, run_flat]

/-! ## whole documents -/

/-- The element at the root of a document. -/
theorem run_element_root {inner : List Call}
    {content : Place Kind → Nat → Local Kind → Exec (Local Kind)} (h : d.Acts inner content)
    (front back ename : List Byte) (atts : Atts) (startMarkup endMarkup : List Byte)
    (hflat : flat cs = flat [.chars front] ++
      flat (.start ename atts startMarkup :: (inner ++ [.finish ename endMarkup])) ++
        flat [.chars back]) :
    d.run (initial kind) cs =
      (d.element content ⟨kind, 0, none⟩ 0 ⟨front, [], [kind], []⟩ ename atts startMarkup endMarkup >>=
        fun l => .ok ⟨[], l.made, l.calls⟩) := by
  let f : Frame Kind := { setHandlers kind 0 with accum := front }
  obtain ⟨stk, -, hrun⟩ := startElement_runs h f [] [kind] [] ename atts startMarkup endMarkup
  have hfront : d.run (initial kind) [.chars front] = .ok ⟨[f], [kind], []⟩ := rfl
  have hcalls : d.run (initial kind) cs = d.run (initial kind) ([.chars front] ++
      .start ename atts startMarkup :: (inner ++ [.finish ename endMarkup]) ++ [.chars back]) := by
    apply run_flat_congr
    rw [hflat, flat_append, flat_append]
  rw [hcalls, run_append, run_append, hfront, ok_bind, run_element_eq, hrun, bind_assoc]
  refine bind_congr fun l => ?_
  have hgo : finished f [] endMarkup stk l = .ok ⟨[], l.made, l.calls⟩ := rfl
  rw [hgo, ok_bind]
  rfl

/-- The root of a document, as `jxta_advertisement_set_handlers` left the advertisement. -/
theorem run_root {root : Node} (hroot : root.isChars = false) {front back : List Byte}
    (h : Delivers cs front root back) :
    d.run (initial kind) cs = (d.act root ⟨kind, 0, none⟩ 0 ⟨front, [], [kind], []⟩ >>= fun l =>
      .ok ⟨[], l.made, l.calls⟩) := by
  unfold Delivers at h
  cases root with
  | chars ps => exact absurd hroot (by simp [Node.isChars])
  | element name atts space children =>
    rw [Node.calls] at h
    rw [act]
    exact d.run_element_root kind (acts_nodes d children) front back name _ _ _ h
  | empty name atts space =>
    rw [Node.calls] at h
    rw [act]
    exact d.run_element_root kind (acts_nil d) front back name _ _ _ h

end Dialect

end JxtaC.Dispatch
