import JxtaC.Lib.XmlScanner

/-
  Documents without a prolog: an element, with white space behind it at most. What a parser does
  with those is not said by `Conforms`, which is about documents with a declaration.
  Nothing here depends on the modelled code.
-/

namespace JxtaC.Lib.XmlDocument

/-- What every parser does with a well-formed element that has no declaration in front of it: the
calls for it, with the characters in any chunks, and behind them calls for the text behind it. -/
def ConformsBare (parser : Parser) : Prop :=
  ∀ (root : Node) (blank : List UInt8), root.isChars = false → root.WellFormed → IsBlank blank →
    ∃ back : List UInt8, ∃ cs : List Call, parser (root.source ++ blank) = (cs, true) ∧
      flat cs = flat root.calls ++ flat [.chars back]

theorem scan_conformsBare : ConformsBare scan := by
  intro root blank _ hroot hblank
  have hnone : NoReference [] := fun b hb => absurd hb List.not_mem_nil
  obtain ⟨calls, qs, hfold, hqs, hflat⟩ := (extends_node root hroot ⟨[], [], .text⟩ [] hnone).append
    fun t qs hqs => extends_blank hqs hblank
  dsimp only at hfold hflat
  refine ⟨blank, calls ++ [.chars (valueOf qs)], ?_, ?_⟩
  · rw [sourceOf_nil] at hfold
    unfold scan
    rw [hfold]
    dsimp only
    rw [decode_sourceOf hqs]
  · have hempty : flat [.chars (valueOf [])] = [] := rfl
    rw [hflat, List.nil_append, flat_append, hempty, List.nil_append, flat_append]

/-- A tag stands at the front of an element. -/
theorem source_ne_nil {root : Node} (hroot : root.isChars = false) : root.source ≠ [] := by
  cases root with
  | chars ps => exact absurd hroot (by simp [Node.isChars])
  | element name atts space children => simp [Node.source, startSource, tagSource]
  | empty name atts space => simp [Node.source, emptySource, tagSource]

end JxtaC.Lib.XmlDocument
