import SchemaTypes.Proofs.Derive.NormalForm
import SchemaTypes.Proofs.Schema.Rearrangement

namespace SchemaTypes

/-- Rearranged schemas have equal types, level by level. The shape of the one is
    the shape of the other with its parts rearranged in turn, and the operations
    that build types from their parts do not see the order of these. -/
theorem Schema.alike_typeWithin_of_rearranged (levels : Option Nat) {schema schema' : Json}
    (h : Rearranged .schema schema schema') (hschema : schema.NamesDistinct) :
    (typeWithin levels schema).Alike (typeWithin levels schema') := by
  -- No part changes its depth, so that on both sides the levels run out at the same parts.
  induction schema using partInduction generalizing levels schema' with
  | step schema ih =>
    by_cases hlevels : levels = some 0
    · rw [typeWithin, typeWithin, if_pos hlevels, if_pos hlevels]
      exact .refl .any
    · rw [typeWithin_of_ne_zero hlevels, typeWithin_of_ne_zero hlevels]
      have hschema' := h.namesDistinct hschema
      apply Ty.alike_ofShape
      · apply (similar_classify h hschema).map
        intro part hpart part' _ hparts
        exact ih part hpart _ hparts (hschema.of_below (below_of_mem_nested hpart))
      · exact (wellFormed_classify hschema).map _
      · exact (wellFormed_classify hschema').map _

namespace Deriver

/-- Derivation does not depend on order: rearranging a schema gives the same type,
    whatever each of the two derivations has kept of the schemas it saw before.
    The order of entries, of alternatives, of enumerated values and of required
    names may change, at every depth. Only the order of types in a union and of
    fields may then differ. -/
theorem derive_same_of_rearranged {deriver deriver' : Deriver} (hderiver : deriver.Reachable)
    (hderiver' : deriver'.Reachable) (hoptions : deriver.options = deriver'.options)
    {schema schema' : Json} (hschema : schema.NamesDistinct)
    (h : Schema.Rearranged .schema schema schema') :
    (deriver.derive schema).1.same (deriver'.derive schema').1 = true := by
  rw [derive_eq hderiver.sound, derive_eq hderiver'.sound, hoptions]
  exact (Schema.alike_typeWithin_of_rearranged _ h hschema).same

/-- Two alternatives turned around, of which one is a constant whose entries are
    turned around as well. The second schema is derived after the first, with what
    was kept of it. -/
theorem derive_same_of_rearranged_members :
    let string := Json.obj [("type", .str "string")]
    let pair := Json.obj [("const", .obj [("x", .null), ("y", .bool true)])]
    let pair' := Json.obj [("const", .obj [("y", .bool true), ("x", .null)])]
    let deriver : Deriver := { options := ⟨some 2, true⟩ }
    let schema := Json.obj [("oneOf", .arr [string, pair])]
    let schema' := Json.obj [("oneOf", .arr [pair', string])]
    (deriver.derive schema).1.same ((deriver.derive schema).2.derive schema').1 = true := by
  intro string pair pair' deriver schema schema'
  have hpair : Schema.Rearranged .schema pair pair' := .entry [] [] (.entries (.swap _ _ _))
  have hmembers : Schema.Rearranged .schema (.arr [string, pair]) (.arr [pair', string]) :=
    .trans (.item [string] [] hpair) (.items rfl (.swap _ _ _))
  apply derive_same_of_rearranged (.new _) (.derive (.new _) schema) rfl
  · simp [schema, string, pair, Entries.names]
  · exact .entry [] [] hmembers

-- A list inside a literal is read in order.
example :
    (typeOf (.obj [("const", .arr [.null, .bool true])])).same
      (typeOf (.obj [("const", .arr [.bool true, .null])])) = false := by decide +kernel

end Deriver

end SchemaTypes
