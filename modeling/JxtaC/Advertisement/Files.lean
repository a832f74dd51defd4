import JxtaC.Base.Status
import JxtaC.Lib.Exec

/-
  Advertisements from a buffer and from a file (jxta_advertisement.c), over an XML parser that does
  not see how its bytes are cut. Both loops start the parser anew behind a document, from where it
  found junk; a new start loses the handlers, the place is wrong in a block behind the first, and a
  file without a rest behind its blocks is never finished (`parse_lawful_iff`).
-/

namespace JxtaC

open Lib List

/-- What `XML_Parse` says; junk behind a document begins at this index. -/
inductive Verdict where
  | ok
  | junk (index : Nat)
  | error
  deriving DecidableEq

/-- An XML parser, by the bytes since it was created or reset and whether these are all: what
`XML_Parse` says, and the calls of the handlers. -/
structure Expat (Call : Type) where
  verdict : List Byte → Bool → Verdict
  calls : List Byte → Bool → List Call

/-- `XML_Parser`: the bytes since its start, whether it has handlers, and their calls. -/
structure ExpatParser (Call : Type) where
  fed : List Byte
  handlers : Bool
  calls : List Call

namespace ExpatParser
variable {Call : Type}

/-- `XML_ParserCreate`, with `jxta_advertisement_set_handlers`. -/
def create : ExpatParser Call := ⟨[], true, []⟩

/-- `XML_ParserReset`, which clears the handlers. -/
def reset (parser : ExpatParser Call) : ExpatParser Call :=
  { parser with fed := [], handlers := false }

end ExpatParser

namespace Expat
variable {Call : Type} (E : Expat Call)

/-! ## the functions -/

/-- `XML_Parse`. -/
def xmlParse (parser : ExpatParser Call) (s : List Byte) (isFinal : Bool) :
    ExpatParser Call × Verdict :=
  let fed := parser.fed ++ s
  let new := (E.calls fed isFinal).drop (E.calls parser.fed false).length
  ({ parser with fed, calls := parser.calls ++ if parser.handlers then new else [] },
    E.verdict fed isFinal)

/-- The loop over a buffer, which is the same in both functions; `res` need not be set. -/
def parseLoop (buf : List Byte) (done : Bool) : (fuel offset : Nat) → ExpatParser Call →
    Option Status → Exec (ExpatParser Call × Option Status)
  | 0, _, _, _ => .error .neverReturns
  | fuel + 1, offset, parser, res =>
    if offset < buf.length then
      match E.xmlParse parser (buf.drop offset) done with
      | (parser, .ok) => .ok (parser, some .success)
      | (parser, .error) => .ok (parser, some .invalidArgument)
      | (parser, .junk index) => parseLoop buf done fuel (offset + index) parser.reset res
    else .ok (parser, res)

/-- `jxta_advertisement_parse_charbuffer`. -/
def parseCharbuffer (buf : List Byte) : Exec (ExpatParser Call × Option Status) :=
  if buf = [] then .ok (.create, some .invalidArgument)
  else E.parseLoop buf true (buf.length + 1) 0 .create none

/-- `BUFSIZ`. -/
def bufsiz : Nat := 8192

/-- The loop over what is left of a file. -/
def fileLoop : (fuel : Nat) → List Byte → ExpatParser Call → Option Status →
    Exec (ExpatParser Call × Option Status)
  | 0, _, _, _ => .error .neverReturns
  | fuel + 1, instream, parser, res => do
    let buf := instream.take bufsiz
    let done := decide (buf.length < bufsiz)
    let (parser, res) ← E.parseLoop buf done (buf.length + 1) 0 parser res
    if done then return (parser, res) else fileLoop fuel (instream.drop bufsiz) parser res

/-- `jxta_advertisement_parse_file`. -/
def parseFile (instream : List Byte) : Exec (ExpatParser Call × Option Status) :=
  E.fileLoop (instream.length + 1) instream .create none

/-! ## documents -/

/-- The bytes of one whole document. -/
def WellFormed (d : List Byte) : Prop := E.verdict d true = .ok

/-- What is relied on. Calls are only added; behind an error nothing changes; junk begins behind a
whole document, and what can stand in front of a document can stand behind one. -/
structure Documented : Prop where
  empty : ¬E.WellFormed []
  nothing : E.calls [] false = []
  grows : ∀ s t final, E.calls s false <+: E.calls (s ++ t) final
  persists : ∀ s t final, E.verdict s false ≠ .ok →
    E.verdict (s ++ t) final = E.verdict s false ∧ E.calls (s ++ t) final = E.calls s false
  junk : ∀ s final i, E.verdict s final = .junk i → 0 < i ∧ i < s.length ∧
    E.WellFormed (s.take i) ∧ E.calls s final = E.calls (s.take i) true
  shown : ∀ d, E.WellFormed d → E.calls d true ≠ []
  next : ∀ d e, E.WellFormed d → E.WellFormed e → ∃ i < e.length,
    E.WellFormed (e.drop i) ∧ ∀ t, E.verdict (d ++ (e ++ t)) true = .junk (d.length + i)

/-- One whole document or more, one behind the other. -/
inductive Sequence : List Byte → Prop
  | single {d : List Byte} : E.WellFormed d → Sequence d
  | cons {d s : List Byte} : E.WellFormed d → Sequence s → Sequence (d ++ s)

/-- The documents of a sequence, each as far as the parser goes. -/
inductive Splits : List Byte → List (List Byte) → Prop
  | single {d : List Byte} : E.WellFormed d → Splits d [d]
  | cons {s : List Byte} {i : Nat} {ds : List (List Byte)} : E.verdict s true = .junk i →
    Splits (s.drop i) ds → Splits s (s.take i :: ds)

/-- Buffer and file come to the same, which is success for a sequence of documents and nothing else;
then all of its documents are dispatched. -/
def Lawful (s : List Byte) : Prop :=
  ∃ parser parser' res, E.parseCharbuffer s = .ok (parser, some res) ∧
    E.parseFile s = .ok (parser', some res) ∧ parser'.calls = parser.calls ∧
    (res = .success ↔ E.Sequence s) ∧
    (res = .success → ∀ ds, E.Splits s ds → parser.calls = ds.flatMap (E.calls · true))

/-- The document that is under way at the end of a loop. -/
def underWay (done : Bool) : (fuel : Nat) → List Byte → List Byte
  | 0, s => s
  | fuel + 1, s =>
    match E.verdict s done with
    | .junk i => underWay done fuel (s.drop i)
    | _ => s

/-- The document that is under way at the end of the first block, and all that follows. -/
def lastBegun (s : List Byte) : List Byte :=
  E.underWay (decide ((s.take bufsiz).length < bufsiz)) (s.take bufsiz).length (s.take bufsiz) ++
    s.drop bufsiz

/-- There are bytes, and the document under way at the end of the first block is the last. A whole
one is the only one; where the last block is full it needs no finish, to be reported in full or to
be found malformed. -/
structure Careful (s : List Byte) : Prop where
  nonempty : s ≠ []
  last : ∀ i, E.verdict (E.lastBegun s) true ≠ .junk i
  whole : E.WellFormed (E.lastBegun s) →
    E.lastBegun s = s ∧ (s.length % bufsiz = 0 → E.calls s false = E.calls s true)
  malformed : E.verdict (E.lastBegun s) true = .error → s.length % bufsiz = 0 →
    E.verdict (E.lastBegun s) false = .error

/-! ## the loop over a buffer -/

/-- The status for what the parser says at the end. -/
def statusOf : Verdict → Status
  | .ok => .success
  | _ => .invalidArgument

variable {E} {s : List Byte} {done : Bool}

theorem statusOf_eq_success {v : Verdict} : statusOf v = .success ↔ v = .ok := by
  cases v <;> simp [statusOf]

theorem underWay_junk {i : Nat} (h : E.verdict s done = .junk i) (n : Nat) :
    E.underWay done (n + 1) s = E.underWay done n (s.drop i) := by
  rw [underWay, h]

theorem underWay_self (h : ∀ i, E.verdict s done ≠ .junk i) (n : Nat) :
    E.underWay done n s = s := by
  cases n with
  | zero => rfl
  | succ n =>
    rw [underWay]
    split
    next i hjunk => exact absurd hjunk (h i)
    next => rfl

/-- Some junk, or none. -/
theorem junk_or (v : Verdict) : (∃ i, v = .junk i) ∨ ∀ i, v ≠ .junk i := by
  cases v with
  | junk i => exact .inl ⟨i, rfl⟩
  | ok => exact .inr nofun
  | error => exact .inr nofun

section
variable (hE : E.Documented)
include hE

theorem length_drop_lt {i n : Nat} (h : E.verdict s done = .junk i) (hn : s.length ≤ n + 1) :
    (s.drop i).length ≤ n := by
  obtain ⟨hpos, hlt, -⟩ := hE.junk s done i h
  rw [length_drop]
  omega

/-- No junk follows the document under way. -/
theorem underWay_last (n : Nat) (hn : s.length ≤ n) (i : Nat) :
    E.verdict (E.underWay done n s) done ≠ .junk i := by
  induction n generalizing s with
  | zero =>
    intro h
    have hlt := (hE.junk s done i h).2.1
    omega
  | succ n ih =>
    rcases junk_or (E.verdict s done) with ⟨j, hj⟩ | hnone
    · rw [underWay_junk hj]
      exact ih (length_drop_lt hE hj hn)
    · rw [underWay_self hnone]
      exact hnone i

/-- The document under way is shorter than all once there was another. -/
theorem underWay_ne {i : Nat} (h : E.verdict s done = .junk i) (n : Nat) (hn : s.length ≤ n) :
    E.underWay done n s ≠ s := by
  intro heq
  exact underWay_last hE n hn i (heq.symm ▸ h)

/-- The loop ends, whatever is in the buffer. -/
theorem parseLoop_ends (buf : List Byte) (fuel offset : Nat) (parser : ExpatParser Call)
    (res : Option Status) (h : buf.length ≤ fuel + offset) :
    ∃ r, E.parseLoop buf done (fuel + 1) offset parser res = .ok r := by
  induction fuel generalizing offset parser with
  | zero =>
    unfold parseLoop
    rw [if_neg (by omega)]
    exact ⟨_, rfl⟩
  | succ fuel ih =>
    unfold parseLoop
    by_cases hlt : offset < buf.length
    · rw [if_pos hlt]
      cases hv : E.verdict (parser.fed ++ buf.drop offset) done with
      | ok => exact ⟨_, by simp only [xmlParse, hv]; rfl⟩
      | error => exact ⟨_, by simp only [xmlParse, hv]; rfl⟩
      | junk i =>
        have hpos := (hE.junk _ done i hv).1
        simp only [xmlParse, hv]
        exact ih (offset + i) _ (by omega)
    · rw [if_neg hlt]
      exact ⟨_, rfl⟩

/-- The loop over a buffer for a parser that starts with it: all is reported of its first document
alone, and the status is that of the last. -/
theorem parseLoop_eq {buf : List Byte} (n fuel offset : Nat) (parser : ExpatParser Call)
    (res : Option Status) (hfed : parser.fed = []) (hlt : offset < buf.length)
    (hfuel : buf.length < fuel + offset) (hn : (buf.drop offset).length ≤ n) :
    ∃ parser', E.parseLoop buf done fuel offset parser res =
        .ok (parser', some (statusOf (E.verdict (E.underWay done n (buf.drop offset)) done))) ∧
      parser'.fed = E.underWay done n (buf.drop offset) ∧
      (parser'.handlers = true ↔ parser.handlers = true ∧
        E.underWay done n (buf.drop offset) = buf.drop offset) ∧
      parser'.calls = parser.calls ++
        if parser.handlers then E.calls (buf.drop offset) done else [] := by
  induction n generalizing fuel offset parser with
  | zero =>
    rw [length_drop] at hn
    omega
  | succ n ih =>
    obtain ⟨fuel, rfl⟩ := Nat.exists_eq_add_one.mpr (show 0 < fuel by omega)
    have hall : parser.fed ++ buf.drop offset = buf.drop offset := by rw [hfed, nil_append]
    have hnew : (E.calls (buf.drop offset) done).drop (E.calls parser.fed false).length =
        E.calls (buf.drop offset) done := by
      rw [hfed, hE.nothing, length_nil, drop_zero]
    unfold parseLoop
    rw [if_pos hlt]
    simp only [xmlParse, hall, hnew]
    rcases junk_or (E.verdict (buf.drop offset) done) with ⟨i, hi⟩ | hnone
    · obtain ⟨hpos, hlen, -⟩ := hE.junk _ done i hi
      have hrest : (buf.drop offset).drop i = buf.drop (offset + i) := drop_drop
      rw [length_drop] at hlen
      simp only [hi]
      rw [underWay_junk hi, hrest]
      obtain ⟨parser', hloop, hfed', hhandlers, hcalls⟩ := ih fuel (offset + i)
        (ExpatParser.reset ⟨buf.drop offset, parser.handlers, parser.calls ++
          if parser.handlers then E.calls (buf.drop offset) done else []⟩) rfl (by omega)
        (by omega) (hrest ▸ length_drop_lt hE hi hn)
      refine ⟨parser', hloop, hfed', iff_of_false (fun h => ?_) fun h => ?_, ?_⟩
      · exact absurd (hhandlers.mp h).1 (by simp [ExpatParser.reset])
      · refine underWay_ne hE hi (n + 1) hn ?_
        rw [underWay_junk hi, hrest]
        exact h.2
      · rw [hcalls]
        simp [ExpatParser.reset]
    · rw [underWay_self hnone]
      have hself : ∀ v, v = E.verdict (buf.drop offset) done → ∀ q : ExpatParser Call,
          (match (q, v) with
          | (parser, .ok) => Except.ok (parser, some Status.success)
          | (parser, .error) => .ok (parser, some .invalidArgument)
          | (parser, .junk index) => E.parseLoop buf done fuel (offset + index) parser.reset res) =
            .ok (q, some (statusOf v)) := by
        intro v hv q
        cases v with
        | ok => rfl
        | error => rfl
        | junk i => exact absurd hv.symm (hnone i)
      exact ⟨_, hself _ rfl _, rfl, by simp, rfl⟩

/-! ## the blocks of a file -/

/-- The calls that are left, behind those that were made. -/
theorem calls_append (s t : List Byte) (final : Bool) :
    E.calls s false ++ (E.calls (s ++ t) final).drop (E.calls s false).length =
      E.calls (s ++ t) final := by
  obtain ⟨new, hnew⟩ := hE.grows s t final
  rw [← hnew, drop_left]

/-- A block without junk in it. -/
theorem parseLoop_block {buf : List Byte} (parser : ExpatParser Call) (res : Option Status)
    (hne : buf ≠ []) (hnone : ∀ i, E.verdict (parser.fed ++ buf) done ≠ .junk i)
    (hcalls : parser.handlers = true → parser.calls = E.calls parser.fed false) :
    E.parseLoop buf done (buf.length + 1) 0 parser res =
      .ok (⟨parser.fed ++ buf, parser.handlers,
        if parser.handlers then E.calls (parser.fed ++ buf) done else parser.calls⟩,
        some (statusOf (E.verdict (parser.fed ++ buf) done))) := by
  have hnew : parser.calls ++ (if parser.handlers = true then
      (E.calls (parser.fed ++ buf) done).drop (E.calls parser.fed false).length else []) =
        if parser.handlers then E.calls (parser.fed ++ buf) done else parser.calls := by
    split
    next h => rw [hcalls h, calls_append hE]
    next => rw [append_nil]
  unfold parseLoop
  rw [if_pos (length_pos_iff.mpr hne), drop_zero]
  simp only [xmlParse, hnew]
  cases hv : E.verdict (parser.fed ++ buf) done with
  | ok => rfl
  | error => rfl
  | junk i => exact absurd hv (hnone i)

/-- What is found behind the first block, of a document that is the last. -/
theorem fileLoop_eq (fuel : Nat) (rest : List Byte) (parser : ExpatParser Call)
    (hfuel : rest.length < fuel) (hnone : ∀ i, E.verdict (parser.fed ++ rest) true ≠ .junk i)
    (hcalls : parser.handlers = true → parser.calls = E.calls parser.fed false) :
    ∃ parser', E.fileLoop fuel rest parser (some (statusOf (E.verdict parser.fed false))) =
        .ok (parser', some (statusOf
          (E.verdict (parser.fed ++ rest) (decide (rest.length % bufsiz ≠ 0))))) ∧
      parser'.calls = if parser.handlers then
          E.calls (parser.fed ++ rest) (decide (rest.length % bufsiz ≠ 0))
        else parser.calls := by
  induction fuel generalizing rest parser with
  | zero => omega
  | succ fuel ih =>
    have hbuf : 0 < bufsiz := by decide
    unfold fileLoop
    by_cases hlast : rest.length < bufsiz
    · have htake : rest.take bufsiz = rest := take_of_length_le (by omega)
      simp only [htake, hlast, decide_true, Nat.mod_eq_of_lt hlast]
      by_cases hnil : rest = []
      · subst hnil
        refine ⟨parser, ?_, ?_⟩
        · simp [parseLoop]
        · simp only [append_nil, length_nil]
          split
          next h => exact hcalls h
          next => rfl
      · have hpos : rest.length ≠ 0 := fun h => hnil (length_eq_zero_iff.mp h)
        rw [parseLoop_block hE parser _ hnil hnone hcalls, decide_eq_true hpos]
        exact ⟨_, rfl, rfl⟩
    · have hlen : (rest.take bufsiz).length = bufsiz := length_take_of_le (Nat.le_of_not_lt hlast)
      have hne : rest.take bufsiz ≠ [] := by
        intro hnil
        rw [hnil] at hlen
        cases hlen
      have hfed : (parser.fed ++ rest.take bufsiz) ++ rest.drop bufsiz = parser.fed ++ rest := by
        rw [append_assoc, take_append_drop]
      have hfirst : ∀ i, E.verdict (parser.fed ++ rest.take bufsiz) false ≠ .junk i := by
        intro i hi
        have hpersists := (hE.persists _ (rest.drop bufsiz) true (by rw [hi]; simp)).1
        rw [hfed, hi] at hpersists
        exact hnone i hpersists
      have hblock := @parseLoop_block _ E false hE _ parser
        (some (statusOf (E.verdict parser.fed false))) hne hfirst hcalls
      have hmod : (rest.drop bufsiz).length % bufsiz = rest.length % bufsiz := by
        rw [length_drop, ← Nat.mod_eq_sub_mod (Nat.le_of_not_lt hlast)]
      obtain ⟨parser', hloop, hcalls'⟩ := ih (rest.drop bufsiz)
        ⟨parser.fed ++ rest.take bufsiz, parser.handlers,
          if parser.handlers then E.calls (parser.fed ++ rest.take bufsiz) false
          else parser.calls⟩ (by rw [length_drop]; omega) (hfed.symm ▸ hnone)
        (fun h => if_pos h)
      rw [hfed, hmod] at hloop hcalls'
      have hfull : ¬ (rest.take bufsiz).length < bufsiz := by omega
      refine ⟨parser', ?_, ?_⟩
      · simp only [decide_eq_false hfull, hblock, ok_bind]
        exact hloop
      · rw [hcalls']
        split
        next => rfl
        next => rfl

/-- Junk in the first block is junk of the whole. -/
theorem underWay_append (n m : Nat) (b rest : List Byte) (hn : b.length ≤ n)
    (hm : (b ++ rest).length ≤ m)
    (hnone : ∀ i, E.verdict (E.underWay false n b ++ rest) true ≠ .junk i) :
    E.underWay true m (b ++ rest) = E.underWay false n b ++ rest := by
  induction n generalizing m b with
  | zero => exact underWay_self hnone m
  | succ n ih =>
    rcases junk_or (E.verdict b false) with ⟨i, hi⟩ | hself
    · obtain ⟨hpos, hlt, -⟩ := hE.junk b false i hi
      have hall : E.verdict (b ++ rest) true = .junk i :=
        (hE.persists b rest true (by rw [hi]; simp)).1.trans hi
      have hdrop : (b ++ rest).drop i = b.drop i ++ rest :=
        drop_append_of_le_length (Nat.le_of_lt hlt)
      rw [length_append] at hm
      obtain ⟨m, rfl⟩ := Nat.exists_eq_add_one.mpr (show 0 < m by omega)
      rw [underWay_junk hi] at hnone ⊢
      rw [underWay_junk hall, hdrop]
      refine ih m (b.drop i) (length_drop_lt hE hi hn) ?_ hnone
      rw [length_append, length_drop]
      omega
    · rw [underWay_self hself] at hnone ⊢
      exact underWay_self hnone m

/-- What comes of a buffer. -/
theorem parseCharbuffer_eq (hs : s ≠ []) : ∃ parser, E.parseCharbuffer s =
      .ok (parser, some (statusOf (E.verdict (E.underWay true s.length s) true))) ∧
    parser.calls = E.calls s true := by
  obtain ⟨parser, hloop, -, -, hcalls⟩ := @parseLoop_eq _ E true hE s s.length
    (s.length + 1) 0 .create none rfl (length_pos_iff.mpr hs) (by omega) (Nat.le_refl _)
  exact ⟨parser, (if_neg hs).trans hloop, hcalls⟩

/-- What comes of a file, whose last document is under way at the end of the first block. -/
theorem parseFile_eq (hs : s ≠ []) (hnone : ∀ i, E.verdict (E.lastBegun s) true ≠ .junk i) :
    E.underWay true s.length s = E.lastBegun s ∧ ∃ parser, E.parseFile s =
      .ok (parser,
        some (statusOf (E.verdict (E.lastBegun s) (decide (s.length % bufsiz ≠ 0))))) ∧
      parser.calls = if E.lastBegun s = s then E.calls s (decide (s.length % bufsiz ≠ 0))
        else E.calls s true := by
  have hbuf : 0 < bufsiz := by decide
  have hpos : 0 < s.length := length_pos_iff.mpr hs
  unfold parseFile fileLoop
  by_cases hlast : s.length < bufsiz
  · have htake : s.take bufsiz = s := take_of_length_le (by omega)
    have hbegun : E.lastBegun s = E.underWay true s.length s := by
      unfold lastBegun
      rw [htake, decide_eq_true hlast, drop_of_length_le (by omega), append_nil]
    have hrest : decide (s.length % bufsiz ≠ 0) = true := by
      rw [Nat.mod_eq_of_lt hlast]
      exact decide_eq_true (by omega)
    obtain ⟨parser, hloop, -, -, hcalls⟩ := @parseLoop_eq _ E true hE s s.length
      (s.length + 1) 0 .create none rfl hpos (by omega) (Nat.le_refl _)
    refine ⟨hbegun.symm, parser, ?_, ?_⟩
    · simp only [htake, hlast, decide_true]
      rw [hloop, hrest, hbegun]
      rfl
    · rw [hrest, hcalls, ite_self]
      rfl
  · have hlen : (s.take bufsiz).length = bufsiz := length_take_of_le (Nat.le_of_not_lt hlast)
    have hfull : ¬ (s.take bufsiz).length < bufsiz := by omega
    have hcut : s.take bufsiz ++ s.drop bufsiz = s := take_append_drop bufsiz s
    have hbegun : E.lastBegun s =
        E.underWay false (s.take bufsiz).length (s.take bufsiz) ++ s.drop bufsiz := by
      unfold lastBegun
      rw [decide_eq_false hfull]
    rw [hbegun] at hnone ⊢
    have hwhole := underWay_append hE _ s.length (s.take bufsiz) (s.drop bufsiz) (Nat.le_refl _)
      (by rw [hcut]) hnone
    rw [hcut] at hwhole
    obtain ⟨first, hfirst, hfed, hhandlers, hcalls⟩ := @parseLoop_eq _ E false hE
      (s.take bufsiz) (s.take bufsiz).length ((s.take bufsiz).length + 1) 0 .create none rfl
      (by omega) (by omega) (Nat.le_refl _)
    rw [drop_zero] at hfirst hfed hhandlers hcalls
    have hsame : first.handlers = true ↔
        E.underWay false (s.take bufsiz).length (s.take bufsiz) ++ s.drop bufsiz = s := by
      rw [hhandlers]
      refine ⟨fun h => by rw [h.2, hcut], fun h => ⟨rfl, ?_⟩⟩
      exact append_cancel_right (h.trans hcut.symm)
    have hmod : (s.drop bufsiz).length % bufsiz = s.length % bufsiz := by
      rw [length_drop, ← Nat.mod_eq_sub_mod (Nat.le_of_not_lt hlast)]
    obtain ⟨parser, hloop, hparser⟩ := fileLoop_eq hE s.length (s.drop bufsiz) first
      (by rw [length_drop]; omega) (hfed ▸ hnone) (fun h => by
        rw [hcalls, hfed, (hhandlers.mp h).2]
        rfl)
    rw [hfed, hmod] at hloop hparser
    refine ⟨hwhole, parser, ?_, ?_⟩
    · simp only [decide_eq_false hfull, hfirst, ok_bind]
      exact hloop
    · rw [hparser]
      by_cases hone : E.underWay false (s.take bufsiz).length (s.take bufsiz) ++ s.drop bufsiz = s
      · rw [if_pos (hsame.mpr hone), if_pos hone, hone]
      · rw [if_neg fun h => hone (hsame.mp h), if_neg hone, hcalls]
        rcases junk_or (E.verdict (s.take bufsiz) false) with ⟨i, hi⟩ | hself
        · have hjunk := (hE.persists (s.take bufsiz) (s.drop bufsiz) true (by rw [hi]; simp)).2
          rw [hcut] at hjunk
          rw [hjunk]
          rfl
        · rw [underWay_self hself, hcut] at hone
          exact absurd rfl hone

/-! ## sequences -/

/-- A document in front of a sequence is followed by junk, from where a sequence begins. -/
theorem Sequence.junk {d : List Byte} (h : E.Sequence s) (hd : E.WellFormed d) :
    ∃ i, E.verdict (d ++ s) true = .junk i ∧ E.Sequence ((d ++ s).drop i) := by
  have hdrop : ∀ (s : List Byte) (i : Nat), (d ++ s).drop (d.length + i) = s.drop i := by
    intro s i
    rw [← drop_drop, drop_left]
  cases h with
  | single he =>
    obtain ⟨i, -, hrest, hjunk⟩ := hE.next d s hd he
    have hnil := hjunk []
    rw [append_nil] at hnil
    exact ⟨_, hnil, (hdrop s i).symm ▸ .single hrest⟩
  | @cons e t he ht =>
    obtain ⟨i, hlt, hrest, hjunk⟩ := hE.next d e hd he
    refine ⟨_, hjunk t, ?_⟩
    rw [hdrop, drop_append_of_le_length (Nat.le_of_lt hlt)]
    exact .cons hrest ht

theorem Sequence.ne_nil (h : E.Sequence s) : s ≠ [] := by
  induction h with
  | single hd => exact fun hnil => hE.empty (hnil ▸ hd)
  | cons _ _ ih => exact fun hnil => ih (append_eq_nil_iff.mp hnil).2

/-- Bytes are a sequence if and only if the document under way at their end is whole. -/
theorem sequence_iff (n : Nat) (hn : s.length ≤ n) :
    E.Sequence s ↔ E.WellFormed (E.underWay true n s) := by
  induction n generalizing s with
  | zero =>
    obtain rfl := length_eq_zero_iff.mp (Nat.le_zero.mp hn)
    exact iff_of_false (fun h => Sequence.ne_nil hE h rfl) hE.empty
  | succ n ih =>
    rcases junk_or (E.verdict s true) with ⟨i, hi⟩ | hnone
    · rw [underWay_junk hi, ← ih (length_drop_lt hE hi hn)]
      constructor
      · intro h
        cases h with
        | single hd => exact absurd (hi.symm.trans hd) (by simp)
        | cons hd ht =>
          obtain ⟨j, hj, hrest⟩ := Sequence.junk hE ht hd
          obtain rfl := Verdict.junk.inj (hi.symm.trans hj)
          exact hrest
      · intro h
        rw [← take_append_drop i s]
        exact .cons (hE.junk s true i hi).2.2.1 h
    · rw [underWay_self hnone]
      refine ⟨fun h => ?_, .single⟩
      cases h with
      | single hd => exact hd
      | cons hd ht =>
        obtain ⟨j, hj, -⟩ := Sequence.junk hE ht hd
        exact absurd hj (hnone j)

theorem exists_splits (n : Nat) (hn : s.length ≤ n) (h : E.Sequence s) : ∃ ds, E.Splits s ds := by
  induction n generalizing s with
  | zero => exact ⟨[s], .single ((sequence_iff hE 0 hn).mp h)⟩
  | succ n ih =>
    have hwhole := (sequence_iff hE (n + 1) hn).mp h
    rcases junk_or (E.verdict s true) with ⟨i, hi⟩ | hnone
    · rw [underWay_junk hi] at hwhole
      have hlen := length_drop_lt hE hi hn
      obtain ⟨ds, hds⟩ := ih hlen ((sequence_iff hE n hlen).mpr hwhole)
      exact ⟨_, .cons hi hds⟩
    · rw [underWay_self hnone] at hwhole
      exact ⟨[s], .single hwhole⟩

/-- No sequence goes without calls. -/
theorem Splits.shown {ds : List (List Byte)} (h : E.Splits s ds) :
    ds.flatMap (E.calls · true) ≠ [] := by
  cases h with
  | single hd => simpa using hE.shown _ hd
  | cons hi _ =>
    rw [flatMap_cons]
    exact fun hnil => hE.shown _ (hE.junk _ _ _ hi).2.2.1 (append_eq_nil_iff.mp hnil).1

/-- Of a sequence that is dispatched in full there is one document. -/
theorem one_of_dispatched (hs : E.Sequence s)
    (h : ∀ ds, E.Splits s ds → E.calls s true = ds.flatMap (E.calls · true)) (i : Nat) :
    E.verdict s true ≠ .junk i := by
  intro hi
  obtain ⟨ds, hds⟩ := exists_splits hE s.length (Nat.le_refl _) hs
  have hall := h ds hds
  cases hds with
  | single hd => exact absurd (hi.symm.trans hd) (by simp)
  | cons hj hrest =>
    obtain rfl := Verdict.junk.inj (hi.symm.trans hj)
    rw [flatMap_cons, (hE.junk s true _ hi).2.2.2] at hall
    exact Splits.shown hE hrest (append_right_eq_self.mp hall.symm)

/-! ## both functions -/

/-- Both functions return. -/
theorem parse_ends (s : List Byte) :
    (∃ r, E.parseCharbuffer s = .ok r) ∧ ∃ r, E.parseFile s = .ok r := by
  constructor
  · unfold parseCharbuffer
    split
    next => exact ⟨_, rfl⟩
    next => exact parseLoop_ends hE s s.length 0 _ none (by omega)
  · have hfile : ∀ fuel (s : List Byte) parser res, s.length < fuel →
        ∃ r, E.fileLoop fuel s parser res = .ok r := by
      intro fuel
      induction fuel with
      | zero => exact fun s _ _ h => absurd h (Nat.not_lt_zero _)
      | succ fuel ih =>
        intro s parser res hlt
        unfold fileLoop
        obtain ⟨⟨parser', res'⟩, hloop⟩ := @parseLoop_ends _ E
          (decide ((s.take bufsiz).length < bufsiz)) hE (s.take bufsiz) (s.take bufsiz).length 0
          parser res (by omega)
        dsimp only
        rw [hloop, ok_bind]
        split
        next => exact ⟨_, rfl⟩
        next hfull =>
          refine ih (s.drop bufsiz) parser' res' ?_
          have hlen : (s.take bufsiz).length = min bufsiz s.length := length_take
          have hbuf : 0 < bufsiz := by decide
          rw [decide_eq_true_iff] at hfull
          rw [length_drop]
          omega
    exact hfile _ s .create none (Nat.lt_succ_self _)

/-- The only document is under way from the start. -/
theorem lastBegun_self (hnone : ∀ i, E.verdict s true ≠ .junk i) : E.lastBegun s = s := by
  have hcut : s.take bufsiz ++ s.drop bufsiz = s := take_append_drop bufsiz s
  have hfirst : ∀ i, E.verdict (s.take bufsiz)
      (decide ((s.take bufsiz).length < bufsiz)) ≠ .junk i := by
    intro i hi
    by_cases hlast : (s.take bufsiz).length < bufsiz
    · rw [length_take] at hlast
      rw [take_of_length_le (by omega), decide_eq_true (by omega)] at hi
      exact hnone i hi
    · rw [decide_eq_false hlast] at hi
      have hall := (hE.persists _ (s.drop bufsiz) true (by rw [hi]; simp)).1
      rw [hcut, hi] at hall
      exact hnone i hall
  unfold lastBegun
  rw [underWay_self hfirst, hcut]

/-- What is found without a finish is found with it. -/
theorem finish (h : E.verdict s false ≠ .ok) :
    E.verdict s true = E.verdict s false ∧ E.calls s true = E.calls s false := by
  have hall := hE.persists s [] true h
  rwa [append_nil] at hall

theorem Careful.lawful (h : E.Careful s) : E.Lawful s := by
  obtain ⟨hs, hlast, hwhole, hmalformed⟩ := h
  obtain ⟨parser, hbuffer, hcalls⟩ := parseCharbuffer_eq hE hs
  obtain ⟨hbegun, parser', hfile, hcalls'⟩ := parseFile_eq hE hs hlast
  have hseq := sequence_iff hE s.length (Nat.le_refl _)
  rw [hbegun] at hbuffer hseq
  have hsame : E.verdict (E.lastBegun s) (decide (s.length % bufsiz ≠ 0)) =
      E.verdict (E.lastBegun s) true ∧ parser'.calls = E.calls s true := by
    by_cases hfull : s.length % bufsiz = 0
    · rw [decide_eq_false (not_not.mpr hfull)] at hcalls' ⊢
      by_cases hv : E.verdict (E.lastBegun s) false = .ok
      · have htrue : E.verdict (E.lastBegun s) true = .ok := by
          cases hv' : E.verdict (E.lastBegun s) true with
          | ok => rfl
          | junk i => exact absurd hv' (hlast i)
          | error => exact absurd (hv.symm.trans (hmalformed hv' hfull)) (by simp)
        obtain ⟨hself, hreport⟩ := hwhole htrue
        rw [if_pos hself] at hcalls'
        exact ⟨hv.trans htrue.symm, hcalls'.trans (hreport hfull)⟩
      · refine ⟨(finish hE hv).1.symm, hcalls'.trans ?_⟩
        split
        next hself => exact ((finish hE (hself ▸ hv)).2).symm
        next => rfl
    · rw [decide_eq_true hfull] at hcalls' ⊢
      exact ⟨rfl, hcalls'.trans (ite_self _)⟩
  rw [hsame.1] at hfile
  refine ⟨parser, parser', _, hbuffer, hfile, hsame.2.trans hcalls.symm,
    statusOf_eq_success.trans hseq.symm, fun hres ds hds => ?_⟩
  have hv := statusOf_eq_success.mp hres
  have hself := (hwhole hv).1
  rw [hself] at hv
  cases hds with
  | single _ => rw [hcalls, flatMap_singleton]
  | cons hi _ => exact absurd (hi.symm.trans hv) (by simp)

theorem Lawful.careful (h : E.Lawful s) : E.Careful s ∨
    (∃ i, E.verdict (E.lastBegun s) true = .junk i) ∧ ¬E.Sequence s := by
  obtain ⟨parser, parser', res, hbuffer, hfile, hsame, hseq, hall⟩ := h
  have hs : s ≠ [] := by
    rintro rfl
    have hnil : E.parseFile [] = .ok (.create, none) := rfl
    exact absurd (Except.ok.inj (hnil.symm.trans hfile)) (by simp)
  obtain ⟨q, hbuffer', hcalls⟩ := parseCharbuffer_eq hE hs
  obtain ⟨rfl, hres⟩ := Prod.mk.inj (Except.ok.inj (hbuffer'.symm.trans hbuffer))
  have hone : E.Sequence s → E.lastBegun s = s := fun hs => lastBegun_self hE <|
    one_of_dispatched hE hs fun ds hds => hcalls.symm.trans (hall (hseq.mpr hs) ds hds)
  rcases junk_or (E.verdict (E.lastBegun s) true) with ⟨i, hi⟩ | hlast
  · refine .inr ⟨⟨i, hi⟩, fun hs => ?_⟩
    have hself := hone hs
    rw [hself] at hi
    exact one_of_dispatched hE hs
      (fun ds hds => hcalls.symm.trans (hall (hseq.mpr hs) ds hds)) i hi
  · obtain ⟨hbegun, q', hfile', hcalls'⟩ := parseFile_eq hE hs hlast
    obtain ⟨rfl, hres'⟩ := Prod.mk.inj (Except.ok.inj (hfile'.symm.trans hfile))
    have hiff := sequence_iff hE s.length (Nat.le_refl _)
    rw [hbegun] at hres hiff
    refine .inl ⟨hs, hlast, fun hwhole => ?_, fun herror hfull => ?_⟩
    · have hself := hone (hiff.mpr hwhole)
      refine ⟨hself, fun hfull => ?_⟩
      rw [if_pos hself, decide_eq_false (not_not.mpr hfull)] at hcalls'
      exact hcalls'.symm.trans (hsame.trans hcalls)
    · rw [decide_eq_false (not_not.mpr hfull)] at hres'
      have hstatus := Option.some.inj (hres'.trans hres.symm)
      rw [herror] at hstatus
      refine ((finish hE fun hok => ?_).1.symm).trans herror
      rw [hok] at hstatus
      cases hstatus

end

/-! ## a parser of one document -/

/-- Of all documents it knows the tag `<a/>`. -/
def tagParser : Expat Unit where
  verdict s isFinal :=
    if text "<a/>" <+: s then if s = text "<a/>" then .ok else .junk 4
    else if isFinal = false ∧ s <+: text "<a/>" then .ok else .error
  calls s _ := if text "<a/>" <+: s then [()] else []

theorem tagParser_wellFormed {d : List Byte} : tagParser.WellFormed d ↔ d = text "<a/>" := by
  constructor
  · intro h
    have hv : (if text "<a/>" <+: d then if d = text "<a/>" then Verdict.ok else .junk 4
      else if true = false ∧ d <+: text "<a/>" then .ok else .error) = .ok := h
    split at hv
    next =>
      split at hv
      next hd => exact hd
      next => cases hv
    next =>
      rw [if_neg (fun h => absurd h.1 (by decide))] at hv
      cases hv
  · rintro rfl
    exact (by decide : tagParser.verdict (text "<a/>") true = .ok)

theorem tagParser_documented : tagParser.Documented where
  empty h := absurd (tagParser_wellFormed.mp h) (by decide)
  nothing := rfl
  grows s t final := by
    unfold tagParser
    dsimp only
    by_cases hs : text "<a/>" <+: s
    · simp only [if_pos hs, if_pos (hs.trans (prefix_append s t)), prefix_rfl]
    · rw [if_neg hs]
      exact List.nil_prefix
  persists s t final h := by
    have hst : s <+: s ++ t := prefix_append s t
    unfold tagParser at h ⊢
    dsimp only at h ⊢
    by_cases hs : text "<a/>" <+: s
    · rw [if_pos hs] at h ⊢
      have hne : s ≠ text "<a/>" := fun heq => h (if_pos heq)
      have hne' : s ++ t ≠ text "<a/>" :=
        fun heq => hne ((heq ▸ hst).eq_of_length_le hs.length_le)
      rw [if_pos (hs.trans hst), if_neg hne', if_pos hs, if_pos (hs.trans hst), if_neg hne]
      exact ⟨rfl, rfl⟩
    · rw [if_neg hs] at h ⊢
      have hpre : ¬ s <+: text "<a/>" := fun hpre => h (if_pos ⟨rfl, hpre⟩)
      have hs' : ¬ text "<a/>" <+: s ++ t := fun hno =>
        (List.prefix_or_prefix_of_prefix hst hno).elim hpre hs
      rw [if_neg hs', if_neg (fun hno => hpre (hst.trans hno.2)), if_neg hs, if_neg hs',
        if_neg (fun hno => hpre hno.2)]
      exact ⟨rfl, rfl⟩
  junk s final i h := by
    unfold tagParser at h
    dsimp only at h
    split at h
    next hs =>
      obtain ⟨t, rfl⟩ := hs
      split at h
      next => cases h
      next hne =>
        cases h
        have ht : t ≠ [] := fun hnil => hne (by rw [hnil, append_nil])
        have hlen : (text "<a/>").length = 4 := rfl
        refine ⟨by decide, ?_, tagParser_wellFormed.mpr (take_left' hlen), ?_⟩
        · rw [length_append, hlen]
          exact Nat.lt_add_of_pos_right (length_pos_iff.mpr ht)
        · rw [take_left' hlen]
          unfold tagParser
          dsimp only
          rw [if_pos (prefix_append _ t)]
          rfl
    next =>
      split at h
      next => cases h
      next => cases h
  shown d hd := by
    obtain rfl := tagParser_wellFormed.mp hd
    decide
  next d e hd he := by
    obtain rfl := tagParser_wellFormed.mp hd
    obtain rfl := tagParser_wellFormed.mp he
    refine ⟨0, by decide, tagParser_wellFormed.mpr rfl, fun t => ?_⟩
    unfold tagParser
    dsimp only
    have hne : text "<a/>" ++ (text "<a/>" ++ t) ≠ text "<a/>" := fun heq =>
      absurd (append_right_eq_self.mp heq) (by simp [text])
    rw [if_pos (prefix_append _ _), if_neg hne]
    rfl

end Expat

end JxtaC
