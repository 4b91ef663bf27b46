import LatexTabular.Proofs.Specifier.Normal

/-!
# Rules given and taken away

Taking the rules of a specifier away changes its columns in nothing else
(`Specifier.columns_removeRules`), since the rules have no say in which column markup belongs to.
Giving it rules depends on nothing else of its columns, and is read back as them with one rule on
each side (`Specifier.columns_addRules`).
-/

namespace LatexTabular.Specifier

/-! ## Reading without rules -/

namespace Reading

/-- What is read without rules. -/
def unruled (reading : Reading) : Reading :=
  ⟨reading.columns.map Column.unruled, 0, reading.markup⟩

/-- Rules wait only in front of the first column and behind markup. -/
def RulesStand (reading : Reading) : Prop :=
  reading.IsWaiting → reading.columns = [] ∨ reading.markup ≠ []

variable {reading : Reading} {mark : Mark}

theorem RulesStand.take (stand : reading.RulesStand) (mark : Mark) :
    (reading.take mark).RulesStand := by
  cases noColumn : mark.makesColumn with
  | true =>
      intro isWaiting
      simp [Reading.take, noColumn, IsWaiting] at isWaiting
  | false =>
      cases notSpace : mark.isSpace with
      | true => simpa [Reading.take, noColumn, notSpace] using stand
      | false =>
          rcases reading.isWaiting_or_eq with isWaiting | ⟨last, earlier, rfl⟩
          · intro _
            rw [take_of_isWaiting isWaiting noColumn notSpace]
            split
            · exact stand isWaiting
            · exact Or.inr (List.append_ne_nil_of_right_ne_nil _ (List.cons_ne_nil _ _))
          · cases grouped : mark.grouped <;> cases isRule : mark.isRule <;>
              simp [RulesStand, IsWaiting, Reading.take, noColumn, notSpace, grouped, isRule]

/-- A rule has no part in what is read without rules. -/
theorem unruled_take_of_isRule (isRule : mark.isRule = true) :
    (reading.take mark).unruled = reading.unruled := by
  obtain ⟨character, grouped⟩ := mark
  obtain ⟨rfl, rfl⟩ : grouped = false ∧ character = '|' := by
    simpa [Mark.isRule] using isRule
  rw [take_symbol (by decide) (by decide), if_pos rfl]
  split <;> rfl

/-- Nor has it a part in how other marks are taken. -/
theorem unruled_take (stand : reading.RulesStand) (noRule : mark.isRule = false) :
    (reading.take mark).unruled = reading.unruled.take mark := by
  cases noColumn : mark.makesColumn with
  | true => simp [take, noColumn, unruled, Column.unruled]
  | false =>
      cases notSpace : mark.isSpace with
      | true => simp [take, noColumn, notSpace]
      | false =>
          rcases reading.isWaiting_or_eq with isWaiting | ⟨last, earlier, rfl⟩
          -- Rules never wait alone behind a column, so the others wait without them as well.
          · have alsoWaiting : reading.unruled.IsWaiting :=
              (stand isWaiting).imp List.map_eq_nil_iff.mpr Or.inr
            rw [take_of_isWaiting isWaiting noColumn notSpace,
              take_of_isWaiting alsoWaiting noColumn notSpace, noRule]
            rfl
          · cases grouped : mark.grouped <;>
              simp [take, noColumn, notSpace, noRule, grouped, unruled, Column.unruled]

/-- Without rules, marks are read as those that are no rules. -/
theorem unruled_foldl_take (stand : reading.RulesStand) (all : List Mark) :
    (all.foldl take reading).unruled
      = (all.filter (!·.isRule)).foldl take reading.unruled := by
  induction all generalizing reading with
  | nil => rfl
  | cons mark rest ih =>
      rw [List.foldl_cons, ih (stand.take mark)]
      cases isRule : mark.isRule with
      | true => rw [unruled_take_of_isRule isRule, List.filter_cons_of_neg (by simp [isRule])]
      | false =>
          rw [unruled_take stand isRule, List.filter_cons_of_pos (by simp [isRule]),
            List.foldl_cons]

theorem finish_unruled (reading : Reading) :
    reading.unruled.finish = reading.finish.map Column.unruled := by
  obtain ⟨columns, rules, markup⟩ := reading
  cases columns with
  | nil => rfl
  | cons last earlier => simp [finish, unruled, Column.unruled]

end Reading

/-- The columns of a specifier without its rules are its columns without their rules. -/
theorem columns_removeRules (specifier : Text) :
    columns (removeRules specifier) = (columns specifier).map Column.unruled := by
  have stand : Reading.start.RulesStand := fun _ => Or.inl rfl
  rw [columns, columns, marks_removeRules, ← Reading.finish_unruled,
    Reading.unruled_foldl_take stand]
  rfl

/-! ## Ruled columns -/

/-- Columns with one rule in front of the first and one behind each. -/
def ruled (columns : List Column) : List Column :=
  columns.mapIdx fun index column =>
    { column with leftRules := if index = 0 then 1 else 0, rightRules := 1 }

theorem addRules_eq (specifier : Text) : addRules specifier = render (ruled (columns specifier)) :=
  rfl

/-- The rules that columns had do not matter. -/
theorem ruled_congr {left right : List Column}
    (same : left.map Column.unruled = right.map Column.unruled) : ruled left = ruled right := by
  have unruled (columns : List Column) : ruled (columns.map Column.unruled) = ruled columns :=
    List.ext_getElem (by simp [ruled]) fun index _ _ => by simp [ruled, Column.unruled]
  rw [← unruled left, same, unruled]

theorem map_unruled_ruled (columns : List Column) :
    (ruled columns).map Column.unruled = columns.map Column.unruled :=
  List.ext_getElem (by simp [ruled]) fun index _ _ => by simp [ruled, Column.unruled]

theorem addRules_removeRules (specifier : Text) :
    addRules (removeRules specifier) = addRules specifier := by
  rw [addRules_eq, addRules_eq, columns_removeRules]
  refine congrArg render (ruled_congr ?_)
  simp [Function.comp_def, Column.unruled]

/-- Ruled columns are settled: only the first has a bar in front. -/
theorem settle_ruled (columns : List Column) : settle (ruled columns) = ruled columns := by
  refine List.ext_getElem ?_ fun index within before => ?_
  · simpa using congrArg List.length (map_unruled_settle (ruled columns))
  · have noneBehind : (ruled columns)[index + 1]?.elim 0 (·.leftRules) = 0 := by
      rw [ruled, List.getElem?_mapIdx]
      cases columns[index + 1]? <;> rfl
    rw [getElem_settle _ _ within before, noneBehind]
    simp [ruled]

/-- Fields whose columns are ruled. -/
def ruleFields (fields : List Field) : List Field :=
  fields.mapIdx fun index field => field.withBars (if index = 0 then 1 else 0) 1

theorem map_column_ruleFields (fields : List Field) :
    (ruleFields fields).map Field.column = ruled (fields.map Field.column) :=
  List.ext_getElem (by simp [ruleFields, ruled]) fun index _ _ => by
    simp [ruleFields, ruled, Field.column, Field.withBars]

theorem ink_ruleFields (fields : List Field) :
    ink ((ruleFields fields).flatMap Field.pieces) = ink (fields.flatMap Field.pieces) := by
  have each : (ruleFields fields).map (fun field => ink field.pieces)
      = fields.map fun field => ink field.pieces :=
    List.ext_getElem (by simp [ruleFields]) fun index _ _ => by
      simp [ruleFields, Field.ink_pieces_withBars]
  rw [ink, ink, List.filter_flatMap, List.filter_flatMap, List.flatMap_def, List.flatMap_def]
  exact congrArg List.flatten each

/-- Fields stay linked with other bars. -/
theorem linked_ruleFields {fields : List Field} (linked : Linked fields) :
    Linked (ruleFields fields) := by
  constructor
  · intro field member
    obtain ⟨index, within, rfl⟩ := List.mem_mapIdx.mp member
    exact (linked.isProper _ (List.getElem_mem within)).withBars _ _
  · refine List.isChain_iff_getElem.mpr fun index within => ?_
    have inFields : index + 1 < fields.length := by simpa [ruleFields] using within
    obtain ⟨settle, stands⟩ := List.isChain_iff_getElem.mp linked.isChain index inFields
    have isProper := linked.isProper _ (List.getElem_mem inFields)
    simp only [ruleFields, List.getElem_mapIdx]
    refine ⟨fun piece inBack => ?_, head?_ink_of_stands isProper.front stands⟩
    rcases List.mem_append.mp inBack with inInk | inBars
    · exact settle piece (List.mem_of_mem_filter inInk)
    · exact settles_of_mem_bars inBars

/-- A specifier with its rules is read as the columns that were ruled. -/
theorem columns_addRules {specifier : Text} (closed : Closed specifier) :
    columns (addRules specifier) = ruled (columns specifier) := by
  have linked := linked_ruleFields (linked_fields closed)
  rw [addRules_eq, columns_eq_map_column closed, ← map_column_ruleFields, columns_render linked,
    map_column_ruleFields, settle_ruled]

/-- What holds of a specifier after another was given its rules. -/
structure GainsRules (specifier updated : Text) : Prop where
  alignments : (columns updated).map (·.alignment) = (columns specifier).map (·.alignment)
  markups : (columns updated).map (·.markup) = (columns specifier).map (·.markup)
  leftRules : ∀ index (within : index < (columns updated).length),
    (columns updated)[index].leftRules = if index = 0 then 1 else 0
  rightRules : ∀ index (within : index < (columns updated).length),
    (columns updated)[index].rightRules = 1

theorem gainsRules_of_columns_eq {specifier updated : Text}
    (areRuled : columns updated = ruled (columns specifier)) : GainsRules specifier updated := by
  have unruled : (columns updated).map Column.unruled = (columns specifier).map Column.unruled := by
    rw [areRuled, map_unruled_ruled]
  obtain ⟨alignments, markups⟩ := Column.map_of_map_unruled unruled
  refine ⟨alignments, markups, fun index within => ?_, fun index within => ?_⟩
  · simp [areRuled, ruled]
  · simp [areRuled, ruled]

/-- The rules that a specifier has make no difference to giving it rules.  If its braces are
closed, the same columns are read again with one rule on each side, and giving rules a second
time changes nothing. -/
theorem gainsRules_addRules (specifier : Text) :
    addRules (removeRules specifier) = addRules specifier ∧
      (Closed specifier →
        addRules (addRules specifier) = addRules specifier ∧
          GainsRules specifier (addRules specifier)) := by
  refine ⟨addRules_removeRules specifier, fun closed => ?_⟩
  have areRuled := columns_addRules closed
  refine ⟨?_, gainsRules_of_columns_eq areRuled⟩
  calc addRules (addRules specifier)
      = render (ruled (columns (addRules specifier))) := addRules_eq _
    _ = render (ruled (ruled (columns specifier))) := by rw [areRuled]
    _ = render (ruled (columns specifier)) := by rw [ruled_congr (map_unruled_ruled _)]
    _ = addRules specifier := (addRules_eq specifier).symm

theorem gainsRules_addRules_adorned :
    addRules (removeRules adorned) = addRules adorned ∧
      addRules (addRules adorned) = addRules adorned ∧ GainsRules adorned (addRules adorned) := by
  obtain ⟨unruled, closed⟩ := gainsRules_addRules adorned
  exact ⟨unruled, closed (by decide)⟩

/-! ## Markup of ruled columns -/

/-- Written columns are not spaced, so that they are their markup up to bars. -/
theorem removeRules_render {fields : List Field} (linked : Linked fields) :
    removeRules (render (fields.map Field.column))
      = textOf (ink (fields.flatMap Field.pieces)) := by
  rw [removeRules_eq, ← ink_pieces_render_map linked, ink]
  refine congrArg textOf (List.filter_congr fun piece member => ?_)
  rw [pieces_render linked] at member
  obtain ⟨field, isField, inField⟩ := List.mem_flatMap.mp member
  obtain ⟨other, isOther, rfl⟩ := List.mem_map.mp isField
  have notBlank := (linked.isProper other isOther).written.isSpace_eq_false piece inField
  simp [Piece.isInk, notBlank]

section Closed

variable {specifier : Text} (closed : Closed specifier)
include closed

theorem removeRules_addRules (nonempty : columns specifier ≠ []) :
    removeRules (addRules specifier) = removeSpaces (removeRules specifier) := by
  have linked := linked_ruleFields (linked_fields closed)
  rw [addRules_eq, columns_eq_map_column closed, ← map_column_ruleFields,
    removeRules_render linked, ink_ruleFields,
    flatMap_pieces_fields (fields_ne_nil closed nonempty), ink_shown, removeSpaces_removeRules]

/-- Giving rules to a specifier and taking them away leaves its markup exactly if it has a column
letter, or no markup at all.  Without a column, nothing is written. -/
theorem removeRules_addRules_iff :
    (removeRules (addRules specifier) = removeSpaces (removeRules specifier) ↔
        (∃ mark ∈ marks 0 specifier, mark.makesColumn = true) ∨
          removeSpaces (removeRules specifier) = []) ∧
      ((∀ mark ∈ marks 0 specifier, mark.makesColumn = false) → addRules specifier = []) := by
  have written_of_none (none : columns specifier = []) : addRules specifier = [] := by
    rw [addRules_eq, none]
    rfl
  refine ⟨⟨fun same => ?_, ?_⟩, fun noLetter => written_of_none ?_⟩
  · by_cases none : columns specifier = []
    · rw [written_of_none none] at same
      exact Or.inr same.symm
    · exact Or.inl (columns_ne_nil_iff.mp none)
  · rintro (lettered | noMarkup)
    · exact removeRules_addRules closed (columns_ne_nil_iff.mpr lettered)
    · by_cases none : columns specifier = []
      · rw [written_of_none none, noMarkup]
        rfl
      · exact removeRules_addRules closed none
  · by_contra nonempty
    obtain ⟨mark, isMark, makesColumn⟩ := columns_ne_nil_iff.mp nonempty
    exact absurd makesColumn (by simp [noLetter mark isMark])

end Closed

/-- Columns that are described by a repetition, with their letter in a group. -/
def repetition : Text := "*\x7b2\x7d\x7bc\x7d".toList

/-- Nothing is left of a repetition that is given rules. -/
theorem removeRules_addRules_iff_repetition :
    addRules repetition = [] ∧
      removeRules (addRules repetition) ≠ removeSpaces (removeRules repetition) := by
  have closed : Closed repetition := by decide
  obtain ⟨keeps, written⟩ := removeRules_addRules_iff closed
  refine ⟨written (by decide), fun same => ?_⟩
  exact absurd (keeps.mp same) (by decide)

end LatexTabular.Specifier
