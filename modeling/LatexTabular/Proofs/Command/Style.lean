import LatexTabular.Command.Style
import LatexTabular.Proofs.Edit.Batch
import LatexTabular.Proofs.Table.Layout

/-!
# Where borders and alignment are edited

Borders touch the column specifier, the horizontal rules and the specifiers of
merged cells, all of which stand apart.  New rules go between rows, where no
merged cell is.
-/

namespace LatexTabular

theorem Batch.Within.revision {document : Text} {span : Span} {start stop : Nat}
    (fits : span.Fits document) (begins : start ≤ span.start) (ends : span.stop ≤ stop)
    (current updated : Text) :
    Batch.Within document start stop (Edit.revision span current updated) := by
  unfold Edit.revision
  split
  · exact .nil
  · exact .singleton fits begins ends

/-- Of two rows, neither end of the one lies within the other. -/
theorem RowsLaid.apart_of_mem {document : Text} {start stop : Nat} {rows : List Row}
    (laid : RowsLaid document start rows stop) {row other : Row} (isRow : row ∈ rows)
    (isOther : other ∈ rows) {offset : Nat}
    (atEnd : offset = row.span.start ∨ offset = row.span.stop) :
    offset ≤ other.span.start ∨ other.span.stop ≤ offset := by
  by_cases same : row = other
  · subst same
    omega
  · have symmetric : Std.Symm fun first second : Row =>
        first.span.stop ≤ second.span.start ∨ second.span.stop ≤ first.span.start :=
      ⟨fun _ _ => Or.symm⟩
    have related : rows.Pairwise fun first second =>
        first.span.stop ≤ second.span.start ∨ second.span.stop ≤ first.span.start :=
      laid.pairwise.imp Or.inl
    have apart := related.forall isRow isOther same
    have ordered := (laid.of_mem isRow).1.span.ordered
    omega

namespace Plan

variable {document : Text} {start stop : Nat}

theorem within_leadingRule {row : Row} (laidOut : row.LaidOut document) (options : Options) :
    Batch.Within document row.span.start row.span.start (leadingRule options row) := by
  unfold leadingRule
  dsimp only
  split
  · exact .nil
  · exact .singleton laidOut.span.point_start (Nat.le_refl _) (Nat.le_refl _)

theorem within_trailingRule {row : Row} (laidOut : row.LaidOut document) (options : Options) :
    Batch.Within document row.span.stop row.span.stop (trailingRule options row) := by
  unfold trailingRule
  dsimp only
  split
  · exact .nil
  · exact .singleton laidOut.span.point_stop (Nat.le_refl _) (Nat.le_refl _)

/-- New horizontal rules stand at the ends of rows. -/
theorem within_rulesForRows {rows : List Row} (laid : RowsLaid document start rows stop)
    (options : Options) :
    Batch.Within document start stop (rulesForRows options rows) ∧
      ∀ edit ∈ rulesForRows options rows, ∃ row ∈ rows,
        edit.span = .point row.span.start ∨ edit.span = .point row.span.stop := by
  induction laid with
  | nil => exact ⟨.nil, by simp [rulesForRows]⟩
  | @cons row rest stop first others ih =>
      have ordered := first.span.ordered
      have leading := within_leadingRule first options
      have behind := others.start_le_stop
      cases rest with
      | nil =>
          have trailing := within_trailingRule first options
          refine ⟨leading.append_of_le (trailing.mono (Nat.le_refl _) behind) ordered ordered
            (Nat.le_trans ordered behind), ?_⟩
          intro edit member
          rcases List.mem_append.mp member with inLeading | inTrailing
          · exact ⟨row, List.mem_cons_self, Or.inl (leading.eq_point inLeading)⟩
          · exact ⟨row, List.mem_cons_self, Or.inr (trailing.eq_point inTrailing)⟩
      | cons next rest =>
          refine ⟨leading.append_of_le ih.1 ordered ordered (Nat.le_trans ordered behind), ?_⟩
          intro edit member
          rcases List.mem_append.mp member with inLeading | inOthers
          · exact ⟨row, List.mem_cons_self, Or.inl (leading.eq_point inLeading)⟩
          · obtain ⟨other, isRow, atEnd⟩ := ih.2 edit inOthers
            exact ⟨other, List.mem_cons_of_mem _ isRow, atEnd⟩

section Table

variable {table : Table} {bodyStart bodyStop : Nat}

/-- The horizontal edits of a theme stand in the body, apart from all merges. -/
theorem within_horizontal (laidOut : table.LaidOut bodyStart bodyStop) (theme : BorderTheme)
    (options : Options) :
    let horizontal : List Edit :=
      match theme with
      | .noBorders => table.rows.flatMap fun row => row.rules.map Edit.deletion
      | .fullyBordered => rulesForRows options table.rows
    Batch.Within table.document bodyStart bodyStop horizontal ∧
      ∀ edit ∈ horizontal, ∀ merge ∈ table.merges,
        edit.span.stop ≤ merge.span.start ∨ merge.span.stop ≤ edit.span.start := by
  cases theme with
  | noBorders =>
      dsimp only
      rw [← List.map_flatMap]
      refine ⟨⟨?_, ?_, ?_⟩, ?_⟩
      · intro edit member
        obtain ⟨rule, isRule, rfl⟩ := List.mem_map.mp member
        exact (laidOut.rule rule isRule).1
      · exact List.Pairwise.map Edit.deletion (fun _ _ ordered => Or.inl ordered) laidOut.rules
      · intro edit member
        obtain ⟨rule, isRule, rfl⟩ := List.mem_map.mp member
        exact (laidOut.rule rule isRule).2
      · intro edit member merge isMerge
        obtain ⟨rule, isRule, rfl⟩ := List.mem_map.mp member
        exact laidOut.rule_merge rule isRule merge isMerge
  | fullyBordered =>
      obtain ⟨within, atEnds⟩ := within_rulesForRows laidOut.rows options
      refine ⟨within, ?_⟩
      intro edit member merge isMerge
      obtain ⟨row, isRow, atEnd⟩ := atEnds edit member
      obtain ⟨other, isOther, -, begins, ends⟩ := laidOut.exists_row_of_mem_merges isMerge
      have atStart := laidOut.rows.apart_of_mem isRow isOther (Or.inl rfl)
      have atStop := laidOut.rows.apart_of_mem isRow isOther (Or.inr rfl)
      rcases atEnd with atEnd | atEnd
      · rw [atEnd]
        simp only [Span.point]
        omega
      · rw [atEnd]
        simp only [Span.point]
        omega

theorem within_mergeSpecifier {merge : Merge} (placed : merge.Placed document)
    (current updated : Text) :
    Batch.Within document merge.span.start merge.span.stop
      (Edit.revision merge.specifier current updated) := by
  exact .revision placed.specifier placed.specifier_within.1 placed.specifier_within.2 _ _

theorem within_mergeSpecifiers (laidOut : table.LaidOut bodyStart bodyStop)
    (current updated : Merge → Text) :
    Batch.Within table.document bodyStart bodyStop
      (table.merges.flatMap fun merge =>
        Edit.revision merge.specifier (current merge) (updated merge)) :=
  .flatMap laidOut.pairwise_merges (fun _ member => (laidOut.of_mem_merges member).2)
    (fun _ member => within_mergeSpecifier (laidOut.of_mem_merges member).1 _ _)

/-- The edits of a theme stand between the column specifier and the end of the
body. -/
theorem within_setBorders (laidOut : table.LaidOut bodyStart bodyStop) (theme : BorderTheme)
    (options : Options) :
    Batch.Within table.document table.specifierSpan.start bodyStop
      (setBorders table theme options) := by
  have specifierOrdered := laidOut.specifier.ordered
  have beforeBody := laidOut.specifier_lt_body
  have body := laidOut.rows.start_le_stop
  obtain ⟨horizontal, apart⟩ := within_horizontal laidOut theme options
  refine .append (.append_of_le ?specifier horizontal (Nat.le_of_lt beforeBody) (by omega)
    (by omega)) ((within_mergeSpecifiers laidOut _ _).mono (by omega) (Nat.le_refl _)) ?between
  case specifier => exact .revision laidOut.specifier (Nat.le_refl _) (Nat.le_refl _) _ _
  case between =>
    intro edit member other otherMember
    obtain ⟨merge, isMerge, inMerge⟩ := List.mem_flatMap.mp otherMember
    obtain ⟨placed, begins, ends⟩ := laidOut.of_mem_merges isMerge
    have bounds := (within_mergeSpecifier placed _ _).bounds other inMerge
    rcases List.mem_append.mp member with inSpecifier | inHorizontal
    · have := (Batch.Within.revision laidOut.specifier (Nat.le_refl _) (Nat.le_refl _) _ _).bounds
        edit inSpecifier
      exact Or.inl (by omega)
    · rcases apart edit inHorizontal merge isMerge with before | behind
      · exact Or.inl (by omega)
      · exact Or.inr (by omega)

theorem mem_merges_of_merge? {selection : Selection} {merge : Merge}
    (found : selection.merge? table = some merge) : merge ∈ table.merges := by
  simp only [Selection.merge?, Option.bind_eq_bind] at found
  split at found
  · obtain ⟨row, isRow, found⟩ := Option.bind_eq_some_iff.mp found
    obtain ⟨first, -, found⟩ := Option.bind_eq_some_iff.mp found
    obtain ⟨last, -, found⟩ := Option.bind_eq_some_iff.mp found
    split at found
    · obtain ⟨cell, isCell, merged⟩ := Option.bind_eq_some_iff.mp found
      exact List.mem_flatMap.mpr ⟨row, List.mem_of_getElem? isRow,
        List.mem_filterMap.mpr ⟨cell, List.mem_of_getElem? isCell, merged⟩⟩
    · simp at found
  · simp at found

theorem within_realign {span : Span} (fits : span.Fits document) (begins : start ≤ span.start)
    (ends : span.stop ≤ stop) (picked : Nat → Bool) (alignment : Alignment) :
    Batch.Within document start stop (realign table span picked alignment) := by
  unfold realign
  dsimp only
  split
  · exact .nil
  · exact .revision fits begins ends _ _

/-- Alignment revises one specifier. -/
theorem within_setAlignment (laidOut : table.LaidOut bodyStart bodyStop)
    (selection : Selection) (alignment : Alignment) :
    Batch.Within table.document table.specifierSpan.start bodyStop
      (setAlignment table selection alignment) := by
  have specifierOrdered := laidOut.specifier.ordered
  have beforeBody := laidOut.specifier_lt_body
  have body := laidOut.rows.start_le_stop
  unfold setAlignment
  split
  next merge found =>
    obtain ⟨placed, begins, ends⟩ := laidOut.of_mem_merges (mem_merges_of_merge? found)
    have inMerge := placed.specifier_within
    exact within_realign placed.specifier (by omega) (by omega) _ _
  next => exact within_realign laidOut.specifier (Nat.le_refl _) (by omega) _ _

end Table

end Plan

end LatexTabular
