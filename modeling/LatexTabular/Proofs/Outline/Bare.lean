import LatexTabular.Command.Style
import LatexTabular.Proofs.Outline.Heading

/-!
# Specifiers of letters and bars

The columns of a specifier of letters and bars have no markup but their letter
(`Specifier.columns_of_isBarred`), and such columns are written as letters and bars again,
one letter for each (`Specifier.isBarred_render`).
-/

namespace LatexTabular

open Text

/-- A column without markup besides its letter. -/
def Column.IsBare (column : Column) : Prop :=
  ∃ letter, isLetter letter = true ∧ column.markup = [letter]

namespace Specifier

variable {text : Text} {columns : List Column}

theorem marks_of_isBarred (barred : text.IsBarred) :
    marks 0 text = text.map fun character => ⟨character, false⟩ := by
  refine marks_of_forall fun character member => ?_
  rcases barred character member with letter | rfl
  · constructor <;>
    · rintro rfl
      exact absurd letter (by decide)
  · decide

/-- What is read of letters and bars: bare columns, and no markup that waits. -/
structure Reading.IsBare (reading : Reading) : Prop where
  columns : ∀ column ∈ reading.columns, column.IsBare
  markup : reading.markup = []

theorem Reading.IsBare.take {reading : Reading} (bare : reading.IsBare) {character : Char}
    (barred : isLetter character = true ∨ character = '|') :
    (reading.take ⟨character, false⟩).IsBare ∧
      (reading.take ⟨character, false⟩).columns.length
        = reading.columns.length + if isLetter character then 1 else 0 := by
  obtain ⟨columns, rules, markup⟩ := reading
  obtain ⟨bareColumns, rfl⟩ := bare
  rcases barred with letter | rfl
  · have taken : Reading.take ⟨columns, rules, []⟩ ⟨character, false⟩
        = ⟨⟨.ofLetter character, rules, 0, [character]⟩ :: columns, 0, []⟩ := by
      simp [Reading.take, Mark.makesColumn, letter]
    rw [taken]
    refine ⟨⟨fun column member => ?_, rfl⟩, by simp [letter]⟩
    rcases List.mem_cons.mp member with rfl | member
    · exact ⟨character, letter, rfl⟩
    · exact bareColumns column member
  · have noLetter : isLetter '|' = false := by decide
    rw [noLetter]
    cases columns with
    | nil => exact ⟨⟨bareColumns, rfl⟩, rfl⟩
    | cons last earlier =>
        cases rules with
        | zero =>
            refine ⟨⟨fun column member => ?_, rfl⟩, rfl⟩
            rcases List.mem_cons.mp member with rfl | member
            · exact bareColumns last List.mem_cons_self
            · exact bareColumns column (List.mem_cons_of_mem _ member)
        | succ rules => exact ⟨⟨bareColumns, rfl⟩, rfl⟩

theorem foldl_take_of_isBarred {reading : Reading} (bare : reading.IsBare)
    (barred : text.IsBarred) :
    ((text.map fun character => (⟨character, false⟩ : Mark)).foldl Reading.take reading).IsBare ∧
      ((text.map fun character => (⟨character, false⟩ : Mark)).foldl Reading.take
        reading).columns.length = reading.columns.length + text.countP isLetter := by
  induction text generalizing reading with
  | nil => exact ⟨bare, rfl⟩
  | cons head tail ih =>
      obtain ⟨bareHead, length⟩ := bare.take (barred head List.mem_cons_self)
      obtain ⟨bareAll, lengthAll⟩ :=
        ih bareHead fun character member => barred character (List.mem_cons_of_mem _ member)
      refine ⟨bareAll, lengthAll.trans ?_⟩
      rw [length, List.countP_cons]
      omega

theorem columns_of_isBarred (barred : text.IsBarred) :
    (∀ column ∈ Specifier.columns text, column.IsBare) ∧
      (Specifier.columns text).length = text.countP isLetter := by
  obtain ⟨⟨bare, noMarkup⟩, length⟩ :=
    @foldl_take_of_isBarred text .start ⟨by simp [Reading.start], rfl⟩ barred
  rw [Specifier.columns, marks_of_isBarred barred]
  generalize (text.map fun character => (⟨character, false⟩ : Mark)).foldl Reading.take .start
    = reading at bare noMarkup length
  rw [Reading.start, List.length_nil, Nat.zero_add] at length
  obtain ⟨columns, rules, markup⟩ := reading
  subst noMarkup
  cases columns with
  | nil => exact ⟨by simp [Reading.finish], length⟩
  | cons last earlier =>
      refine ⟨fun column member => ?_, by simpa [Reading.finish] using length⟩
      simp only [Reading.finish, List.append_nil, List.mem_reverse] at member
      rcases List.mem_cons.mp member with rfl | member
      · exact bare last List.mem_cons_self
      · exact bare column (List.mem_cons_of_mem _ member)

/-- Bare columns are written as letters and bars, with one letter for each. -/
theorem isBarred_render (bare : ∀ column ∈ columns, column.IsBare) :
    (render columns).IsBarred ∧ (render columns).countP isLetter = columns.length := by
  have noLetter : isLetter '|' = false := by decide
  induction columns with
  | nil => exact ⟨by simp [render, IsBarred], rfl⟩
  | cons column rest ih =>
      obtain ⟨barred, count⟩ := ih fun other member => bare other (List.mem_cons_of_mem _ member)
      obtain ⟨letter, isLetter, markup⟩ := bare column List.mem_cons_self
      have bars (length : Nat) : (List.replicate length '|').countP Text.isLetter = 0 := by
        simp [List.countP_replicate, noLetter]
      have split : render (column :: rest) = column.render ++ render rest := rfl
      rw [split]
      constructor
      · intro character member
        rcases List.mem_append.mp member with inColumn | inRest
        · simp only [Column.render, markup, List.mem_append, List.mem_replicate,
            List.mem_singleton] at inColumn
          rcases inColumn with (⟨-, rfl⟩ | rfl) | ⟨-, rfl⟩
          · exact Or.inr rfl
          · exact Or.inl isLetter
          · exact Or.inr rfl
        · exact barred character inRest
      · simp only [List.countP_append, Column.render, markup, bars, count, List.length_cons]
        simp [isLetter, Nat.add_comm]

/-- So does giving them rules. -/
theorem isBarred_addRules (barred : text.IsBarred) :
    (addRules text).IsBarred ∧ (addRules text).countP isLetter = text.countP isLetter := by
  obtain ⟨bare, length⟩ := columns_of_isBarred barred
  have ruled : ∀ column ∈ (Specifier.columns text).mapIdx (fun index column =>
      { column with leftRules := if index = 0 then 1 else 0, rightRules := 1 }),
      column.IsBare := by
    intro column member
    obtain ⟨index, inside, rfl⟩ := List.mem_mapIdx.mp member
    exact bare (Specifier.columns text)[index] (List.getElem_mem inside)
  obtain ⟨rendered, count⟩ := isBarred_render ruled
  exact ⟨rendered, by rw [addRules, count, ← length, List.length_mapIdx]⟩

/-- Letters without their bars. -/
theorem removeRules_of_isBarred (barred : text.IsBarred) :
    removeRules text = text.filter (· != '|') := by
  rw [removeRules, marks_of_isBarred barred, List.filter_map, List.map_map]
  have same : (fun mark : Mark => !mark.isRule) ∘ (fun character => (⟨character, false⟩ : Mark))
      = (· != '|') := by
    funext character
    simp [Mark.isRule, bne]
  rw [same]
  exact List.map_id' _

/-- So does taking their rules away. -/
theorem isBarred_removeRules (barred : text.IsBarred) :
    (removeRules text).IsBarred ∧ (removeRules text).countP isLetter = text.countP isLetter := by
  have noLetter : isLetter '|' = false := by decide
  rw [removeRules_of_isBarred barred]
  refine ⟨fun character member => barred character (List.mem_filter.mp member).1, ?_⟩
  rw [List.countP_filter]
  refine List.countP_congr fun character member => ?_
  by_cases isBar : character = '|'
  · simp [isBar, noLetter]
  · simp [isBar]

end Specifier

end LatexTabular
