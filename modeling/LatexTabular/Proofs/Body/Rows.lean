import LatexTabular.Proofs.Body.Placement

/-!
# Where rows stand

The rows of a body are laid out from its start to its end (`rowsLaid_rowsOf`).
Their rules are lexemes of the body in its order.
-/

namespace LatexTabular

/-- Cells may be followed by more text than they need. -/
theorem CellsLaid.mono {document : Text} {start stop wider : Nat} {cells : List Cell}
    {separators : List Span} (laid : CellsLaid document start cells separators stop)
    (le : stop ≤ wider) : CellsLaid document start cells separators wider := by
  induction laid with
  | last placed begins ends filled => exact .last placed begins (Nat.le_trans ends le) filled
  | next placed begins ends fits laid ih => exact .next placed begins ends fits (ih le)

/-- Rules that stand behind the last row may be counted among its own. -/
theorem Row.LaidOut.withRules {document : Text} {row : Row} (laidOut : row.LaidOut document)
    (rules : List Span) : Row.LaidOut document { row with rules := rules } :=
  ⟨laidOut.span, laidOut.cells, laidOut.terminator⟩

namespace Body

/-! ## Rows one behind the other -/

/-- What a terminator closes is a row in front of the others. -/
theorem rowsFrom_cons {start : Nat} {lexemes last : List Lexeme} {terminator : Lexeme}
    {closed : List (List Lexeme × Lexeme)} (others : rowsFrom terminator.stop closed last ≠ []) :
    rowsFrom start ((lexemes, terminator) :: closed) last
      = rowOf start lexemes (some terminator) :: rowsFrom terminator.stop closed last := by
  cases closed with
  | cons part closed => rfl
  | nil =>
      have makes : makesRow last = true := by
        by_contra none
        exact others (if_neg none)
      simp only [rowsFrom, makes, if_true]

theorem rowsFrom_cons_ne_nil (start : Nat) (part : List Lexeme × Lexeme)
    (closed : List (List Lexeme × Lexeme)) (last : List Lexeme) :
    rowsFrom start (part :: closed) last ≠ [] := by
  unfold rowsFrom
  cases closed with
  | cons next closed => exact List.cons_ne_nil _ _
  | nil =>
      dsimp only
      split <;> exact List.cons_ne_nil _ _

/-- Induction on the parts that terminators close.  Behind the last of them stands a row, or
nothing but the rules of the row in front. -/
@[elab_as_elim]
theorem rowsFrom_induction (last : List Lexeme)
    {motive : (start : Nat) → (closed : List (List Lexeme × Lexeme)) → Prop}
    (row : ∀ start, makesRow last = true → rowsFrom start [] last = [rowOf start last none] →
      motive start [])
    (nothing : ∀ start, makesRow last = false → rowsFrom start [] last = [] → motive start [])
    (rules : ∀ start lexemes terminator, makesRow last = false →
      rowsFrom start [(lexemes, terminator)] last
        = [{ rowOf start lexemes (some terminator) with
            rules := (rowOf start lexemes (some terminator)).rules
              ++ (rulesOf last).map Lexeme.span }] →
      motive start [(lexemes, terminator)])
    (cons : ∀ start lexemes terminator rest, rowsFrom terminator.stop rest last ≠ [] →
      rowsFrom start ((lexemes, terminator) :: rest) last
        = rowOf start lexemes (some terminator) :: rowsFrom terminator.stop rest last →
      motive terminator.stop rest → motive start ((lexemes, terminator) :: rest))
    (start : Nat) (closed : List (List Lexeme × Lexeme)) : motive start closed := by
  have ofNil (start : Nat) : motive start [] := by
    cases makes : makesRow last with
    | true => exact row start makes (by rw [rowsFrom, if_pos makes])
    | false => exact nothing start makes (by simp [rowsFrom, makes])
  induction closed generalizing start with
  | nil => exact ofNil start
  | cons part rest ih =>
      obtain ⟨lexemes, terminator⟩ := part
      cases rest with
      | cons next others =>
          have some := rowsFrom_cons_ne_nil terminator.stop next others last
          exact cons start lexemes terminator _ some (rowsFrom_cons some) (ih _)
      | nil =>
          cases makes : makesRow last with
          | true =>
              have some : rowsFrom terminator.stop [] last ≠ [] := by simp [rowsFrom, makes]
              exact cons start lexemes terminator [] some (rowsFrom_cons some) (ofNil _)
          | false => exact rules start lexemes terminator makes (by simp [rowsFrom, makes])

variable {document : Text} {start stop : Nat} {closed : List (List Lexeme × Lexeme)}
  {lexemes last : List Lexeme}

theorem cellsLaid_cellsOf
    (chain : Chain start (closed.flatMap (fun part => part.1 ++ [part.2]) ++ last) stop)
    (sound : ∀ lexeme ∈ closed.flatMap (fun part => part.1 ++ [part.2]) ++ last,
      lexeme.Sound document)
    (boundary : document.isBoundary start = true) :
    CellsLaid document start (cellsOf start closed last) (closed.map (·.2.span)) stop := by
  induction closed generalizing start with
  | nil =>
      obtain ⟨placed, begins, ends⟩ := placed_cellOf chain sound boundary
      exact .last placed begins ends (by simp)
  | cons part rest ih =>
      obtain ⟨inCell, separator⟩ := part
      simp only [List.flatMap_cons, List.append_assoc, List.cons_append, List.nil_append]
        at chain sound
      obtain ⟨middle, cellChain, begins, others⟩ := Chain.append_iff.mp chain
      have separatorFits := (sound separator (by simp)).fits
      obtain ⟨placed, atStart, atStop⟩ := placed_cellOf cellChain
        (fun lexeme member => sound lexeme (List.mem_append_left _ member)) boundary
      have atSeparator : (cellOf start inCell).extent.stop ≤ separator.start := by
        rw [begins]
        exact atStop
      refine .next placed atStart atSeparator separatorFits (ih others ?_ ?_)
      · intro lexeme member
        exact sound lexeme (List.mem_append_right _ (List.mem_cons_of_mem _ member))
      · exact separatorFits.stopBoundary

/-- A row with its terminator reaches to the end of the terminator. -/
theorem laidOut_rowOf_some {terminator : Lexeme}
    (chain : Chain start (lexemes ++ [terminator]) stop)
    (sound : ∀ lexeme ∈ lexemes ++ [terminator], lexeme.Sound document)
    (boundary : document.isBoundary start = true) :
    (rowOf start lexemes (some terminator)).LaidOut document := by
  have ordered := chain.start_le_stop
  obtain ⟨middle, cells, begins, rfl⟩ := Chain.append_iff.mp chain
  have terminatorSound := sound terminator (by simp)
  rw [← segments_flatten (·.kind == .separator) lexemes] at cells
  have laid := cellsLaid_cellsOf cells (fun lexeme member => sound lexeme (by
    rw [segments_flatten] at member
    exact List.mem_append_left _ member)) boundary
  refine ⟨⟨ordered, boundary, terminatorSound.fits.stopBoundary⟩, laid.mono ?_, ?_⟩
  · rw [← begins]
    exact Nat.le_of_lt terminatorSound.start_lt_stop
  · rintro span ⟨⟩ cell isCell
    exact Nat.le_trans (laid.of_mem isCell).2.2 (Nat.le_of_eq begins.symm)

/-- A row without a terminator reaches to the end of its last cell. -/
theorem laidOut_rowOf_none (chain : Chain start lexemes stop)
    (sound : ∀ lexeme ∈ lexemes, lexeme.Sound document)
    (boundary : document.isBoundary start = true) :
    (rowOf start lexemes none).LaidOut document ∧
      (rowOf start lexemes none).span.stop ≤ stop := by
  rw [← segments_flatten (·.kind == .separator) lexemes] at chain
  have laid := cellsLaid_cellsOf chain (fun lexeme member => sound lexeme (by
    rwa [segments_flatten] at member)) boundary
  obtain ⟨final, isLast⟩ : ∃ final, (rowOf start lexemes none).cells.getLast? = some final :=
    ⟨_, List.getLast?_eq_some_getLast laid.ne_nil⟩
  have stopEq : (rowOf start lexemes none).span = ⟨start, final.extent.stop⟩ := by
    simpa [rowOf] using congrArg (fun cell => ((cell.map (·.extent.stop)).getD start)) isLast
  obtain ⟨placed, begins, ends⟩ := laid.of_mem (List.mem_of_mem_getLast? isLast)
  have cellOrdered := placed.extent.ordered
  rw [stopEq]
  refine ⟨⟨?_, ?_, nofun⟩, ends⟩
  · rw [stopEq]
    exact ⟨Nat.le_trans begins cellOrdered, boundary, placed.extent.stopBoundary⟩
  · rw [stopEq]
    exact laid.tighten isLast

/-- A part of a chain with its closing lexeme ends where that lexeme ends. -/
theorem Chain.of_cons {part : List Lexeme × Lexeme}
    (chain : Chain start ((part :: closed).flatMap (fun part => part.1 ++ [part.2]) ++ last) stop) :
    Chain start (part.1 ++ [part.2]) part.2.stop ∧
      Chain part.2.stop (closed.flatMap (fun part => part.1 ++ [part.2]) ++ last) stop := by
  rw [List.flatMap_cons, List.append_assoc] at chain
  obtain ⟨middle, front, others⟩ := append_iff.mp chain
  obtain ⟨_, inPart, begins, rfl⟩ := append_iff.mp front
  exact ⟨append_iff.mpr ⟨_, inPart, begins, rfl⟩, others⟩

/-- The first row of a body is laid out, and what follows it is sound. -/
theorem laidOut_of_cons {part : List Lexeme × Lexeme}
    (chain : Chain start ((part :: closed).flatMap (fun part => part.1 ++ [part.2]) ++ last) stop)
    (sound : ∀ lexeme ∈ (part :: closed).flatMap (fun part => part.1 ++ [part.2]) ++ last,
      lexeme.Sound document)
    (boundary : document.isBoundary start = true) :
    (rowOf start part.1 (some part.2)).LaidOut document ∧
      document.isBoundary part.2.stop = true ∧
      ∀ lexeme ∈ closed.flatMap (fun part => part.1 ++ [part.2]) ++ last,
        lexeme.Sound document := by
  rw [List.flatMap_cons, List.append_assoc] at sound
  refine ⟨?_, (sound part.2 (by simp)).fits.stopBoundary, ?_⟩
  · exact laidOut_rowOf_some chain.of_cons.1
      (fun lexeme member => sound lexeme (List.mem_append_left _ member)) boundary
  · exact fun lexeme member => sound lexeme (List.mem_append_right _ member)

/-- The rows of a body are laid out one behind the other. -/
theorem rowsLaid_rowsFrom
    (chain : Chain start (closed.flatMap (fun part => part.1 ++ [part.2]) ++ last) stop)
    (sound : ∀ lexeme ∈ closed.flatMap (fun part => part.1 ++ [part.2]) ++ last,
      lexeme.Sound document)
    (boundary : document.isBoundary start = true) :
    RowsLaid document start (rowsFrom start closed last) stop := by
  induction start, closed using rowsFrom_induction last with
  | row start isRow rowsEq =>
      obtain ⟨laidOut, ends⟩ := laidOut_rowOf_none chain sound boundary
      rw [rowsEq]
      exact .cons laidOut (.nil ends)
  | nothing start noRow rowsEq =>
      rw [rowsEq]
      exact .nil chain.start_le_stop
  | rules start lexemes terminator noRow rowsEq =>
      obtain ⟨laidOut, -, -⟩ := laidOut_of_cons chain sound boundary
      rw [rowsEq]
      exact .cons (laidOut.withRules _) (.nil chain.of_cons.2.start_le_stop)
  | cons start lexemes terminator rest _ rowsEq ih =>
      obtain ⟨laidOut, behind, soundRest⟩ := laidOut_of_cons chain sound boundary
      rw [rowsEq]
      exact .cons laidOut (ih chain.of_cons.2 soundRest behind)

theorem rulesOf_append (left right : List Lexeme) :
    rulesOf (left ++ right) = rulesOf left ++ rulesOf right :=
  List.filter_append ..

/-- The rules of the rows are rules of the body, in its order. -/
theorem rules_rowsFrom_sublist (start : Nat) (closed : List (List Lexeme × Lexeme))
    (last : List Lexeme) :
    ((rowsFrom start closed last).flatMap (·.rules)).Sublist
      ((rulesOf (closed.flatMap (fun part => part.1 ++ [part.2]) ++ last)).map Lexeme.span) := by
  induction start, closed using rowsFrom_induction last with
  | row start isRow rowsEq => simp [rowsEq, rowOf]
  | nothing start noRow rowsEq => simp [rowsEq]
  | rules start lexemes terminator noRow rowsEq =>
      simp only [rowsEq, rowOf, List.flatMap_cons, List.flatMap_nil, List.append_nil,
        rulesOf_append, List.map_append, List.append_assoc]
      exact (List.sublist_append_right _ _).append_left _
  | cons start lexemes terminator rest _ rowsEq ih =>
      simp only [rowsEq, rowOf, List.flatMap_cons, rulesOf_append, List.map_append,
        List.append_assoc]
      refine List.Sublist.append_left ?_ _
      rw [← List.map_append, ← rulesOf_append]
      exact ih.trans (List.sublist_append_right _ _)

theorem rowsLaid_rowsOf (chain : Chain start lexemes stop)
    (sound : ∀ lexeme ∈ lexemes, lexeme.Sound document)
    (boundary : document.isBoundary start = true) :
    RowsLaid document start (rowsOf start lexemes) stop := by
  rw [← segments_flatten (·.kind == .terminator) lexemes] at chain sound
  exact rowsLaid_rowsFrom chain sound boundary

theorem rules_rowsOf_sublist (start : Nat) (lexemes : List Lexeme) :
    ((rowsOf start lexemes).flatMap (·.rules)).Sublist
      ((rulesOf lexemes).map Lexeme.span) := by
  have isPart := rules_rowsFrom_sublist start
    (segments (·.kind == .terminator) lexemes).1 (segments (·.kind == .terminator) lexemes).2
  rwa [segments_flatten] at isPart

end Body

end LatexTabular
