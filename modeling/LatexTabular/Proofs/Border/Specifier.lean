import LatexTabular.Proofs.Outline.Bare

/-!
# Specifiers with all rules and with none

Giving a specifier of letters and bars its rules, or taking them away, reaches a normal form:
the second time nothing changes (`Specifier.addRules_addRules`,
`Specifier.removeRules_removeRules`).
-/

namespace LatexTabular

open Text

namespace Heading

/-- A heading with one bar in front and one behind each letter. -/
def ruled (heading : Heading) : Heading where
  bars := 1
  letters := heading.letters.map fun letter => { letter with bars := 1 }

variable {heading : Heading}

theorem WellFormed.ruled (wellFormed : heading.WellFormed) : heading.ruled.WellFormed := by
  refine ⟨by simpa [Heading.ruled] using wellFormed.nonempty, fun letter member => ?_⟩
  obtain ⟨other, isLetter, rfl⟩ := List.mem_map.mp member
  exact wellFormed.letters other isLetter

/-- Rules are added to a specifier by writing one bar at every place. -/
theorem addRules_text (wellFormed : heading.WellFormed) :
    Specifier.addRules heading.text = heading.ruled.text := by
  obtain ⟨bars, letters⟩ := heading
  cases letters with
  | nil => exact absurd rfl wellFormed.nonempty
  | cons first rest =>
      have others : (rest.map (Letter.column 0)).mapIdx (fun index column =>
            { column with leftRules := if index + 1 = 0 then 1 else 0, rightRules := 1 })
          = (rest.map fun letter => { letter with bars := 1 }).map (Letter.column 0) := by
        refine List.ext_getElem (by simp) fun index _ _ => ?_
        simp [Letter.column]
      rw [Specifier.addRules, columns_text wellFormed, ← render_columns _ wellFormed.ruled.nonempty]
      refine congrArg Specifier.render ?_
      rw [columns, List.mapIdx_cons, others]
      rfl

end Heading

namespace Specifier

variable {text : Text}

/-- A specifier that has its rules stays as it is. -/
theorem addRules_addRules (barred : text.IsBarred) : addRules (addRules text) = addRules text := by
  by_cases none : text.countP isLetter = 0
  · have noColumns : Specifier.columns text = [] :=
      List.length_eq_zero_iff.mp ((columns_of_isBarred barred).2.trans none)
    have empty : addRules text = [] := by
      rw [addRules, noColumns]
      rfl
    rw [empty]
    rfl
  · have wellFormed := Heading.wellFormed_ofText barred none
    have added := Heading.addRules_text wellFormed
    rw [Heading.text_ofText] at added
    rw [added, Heading.addRules_text wellFormed.ruled]
    simp [Heading.ruled, Function.comp_def]

/-- A specifier without rules stays as it is. -/
theorem removeRules_removeRules (barred : text.IsBarred) :
    removeRules (removeRules text) = removeRules text := by
  rw [removeRules_of_isBarred (isBarred_removeRules barred).1, removeRules_of_isBarred barred,
    List.filter_filter]
  simp

/-- No bar is left of the rules. -/
theorem notMem_removeRules (barred : text.IsBarred) : '|' ∉ removeRules text := by
  rw [removeRules_of_isBarred barred]
  simp

end Specifier

end LatexTabular
