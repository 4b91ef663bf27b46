import LatexTabular.Proofs.Body.Chain
import LatexTabular.Proofs.Table.Declaration

/-!
# The body of a tabular

A tabular that can be read has its body between the closing brace of its column
specifier and its closing delimiter, and its rows are made of the lexemes of the body
(`Table.exists_body_of_ofTabular`).
-/

namespace LatexTabular

open Markup Body

/-- A reading succeeds where a part of its result can be evaluated. -/
theorem exists_eq_ok_of_map {ε α β : Type} {reading : Except ε α} {part : α → β} {value : β}
    (evaluated : reading.map part = .ok value) :
    ∃ result, reading = .ok result ∧ part result = value := by
  cases reading with
  | error error => exact absurd evaluated (by simp [Except.map])
  | ok result => exact ⟨result, rfl, Except.ok.inj evaluated⟩

namespace Table

/-- The lexemes that the body of a tabular is cut into. -/
def lexemes (document : Text) (environments : List Environment) (tabular : Environment) :
    Except EditError (List Lexeme) := do
  let interior := tabular.interior
  let declaration ← Declaration.read interior.start (document.slice interior)
  let nested := (environments.map Environment.span).filter fun span =>
    declaration.bodyStart ≤ span.start && span.stop ≤ interior.stop
  return lex nested declaration.bodyStart .start declaration.body

/-- The environments within the body of a table, which ends at `bodyStop`. -/
def nested (table : Table) (bodyStop : Nat) : List Span :=
  ((environments table.document).map Environment.span).filter fun span =>
    table.specifierSpan.stop + 1 ≤ span.start && span.stop ≤ bodyStop

/-- What a table that was read has to do with the body of its tabular. -/
structure HasBody (table : Table) (tabular : Environment) (lexemes : List Lexeme) : Prop where
  span : table.span = tabular.span
  spells : ∃ text, table.document.Spells table.span text
  specifier : table.specifierSpan.Fits table.document
  start_lt_specifier : table.span.start < table.specifierSpan.start
  closing_lt_stop : tabular.closing.start < table.span.stop
  lexed : ∃ body,
    table.document.Spells ⟨table.specifierSpan.stop + 1, tabular.closing.start⟩ body ∧
      lexemes = lex (table.nested tabular.closing.start) (table.specifierSpan.stop + 1) .start body
  rows : table.rows
    = (rowsOf (table.specifierSpan.stop + 1) lexemes).map (Row.padded table.columnCount)

namespace HasBody

variable {table : Table} {tabular : Environment} {lexemes : List Lexeme}

theorem chain (hasBody : table.HasBody tabular lexemes) :
    Chain (table.specifierSpan.stop + 1) lexemes tabular.closing.start := by
  obtain ⟨body, spells, rfl⟩ := hasBody.lexed
  have chain := chain_lex (table.nested tabular.closing.start) (table.specifierSpan.stop + 1)
    .start body
  rwa [← spells.stop_eq] at chain

theorem span_fits (hasBody : table.HasBody tabular lexemes) : table.span.Fits table.document := by
  obtain ⟨_, spells⟩ := hasBody.spells
  exact spells.fits

theorem sound (hasBody : table.HasBody tabular lexemes) :
    ∀ lexeme ∈ lexemes, lexeme.Sound table.document := by
  obtain ⟨body, ⟨front, back, documentEq, spanEq⟩, rfl⟩ := hasBody.lexed
  have sound := sound_of_mem_lex (table.nested tabular.closing.start) .start front body back
  rwa [← documentEq, ← (Span.mk.inj spanEq).1] at sound

theorem boundary (hasBody : table.HasBody tabular lexemes) :
    table.document.isBoundary (table.specifierSpan.stop + 1) = true := by
  obtain ⟨_, bodySpells, _⟩ := hasBody.lexed
  exact bodySpells.fits.startBoundary

end HasBody

/-- The rows of a tabular that can be read are made of the lexemes of its body. -/
theorem exists_body_of_ofTabular {document : Text} {tabular : Environment} {table : Table}
    (member : tabular ∈ environments document)
    (found : ofTabular document (environments document) tabular = .ok table) :
    table.document = document ∧
      table.float = Captioning.ofTabular? document (environments document) tabular.span ∧
      ∃ body, lexemes document (environments document) tabular = .ok body ∧
        table.HasBody tabular body := by
  obtain ⟨opening, interior, closing, openingBegins, closingBegins, openingSpells,
    interiorSpells, closingSpells⟩ := exists_spells_of_mem_environments member
  simp only [ofTabular, lexemes, interiorSpells.slice_eq] at found ⊢
  cases readEq : Declaration.read tabular.interior.start interior with
  | error error => simp [readEq, bind, Except.bind] at found
  | ok declaration =>
      simp only [readEq, bind, Except.bind, pure, Except.pure, Except.ok.injEq] at found ⊢
      subst found
      obtain ⟨lead, interiorEq, startEq⟩ := Declaration.exists_front_of_read readEq
      have openingSize := Text.size_pos_of_head? openingBegins
      have closingSize := Text.size_pos_of_head? closingBegins
      have brace : '}'.utf8Size = 1 := by decide
      have specifierSpells := interiorSpells.middle interiorEq
      rw [← startEq] at specifierSpells
      have tabularSpells : document.Spells tabular.span (opening ++ interior ++ closing) :=
        (openingSpells.append interiorSpells).append closingSpells
      have bodyStartEq : declaration.bodyStart
          = tabular.interior.start + (lead ++ declaration.specifier ++ ['}']).size := by
        simp only [Declaration.bodyStart, Declaration.specifierSpan, startEq, Text.size_append,
          Text.size_cons, Text.size_nil, brace]
        omega
      have bodyParts : interior
          = (lead ++ declaration.specifier ++ ['}']) ++ declaration.body ++ [] := by
        simp [interiorEq]
      have bodyStop : declaration.bodyStart + declaration.body.size = tabular.closing.start := by
        have stopEq : tabular.closing.start = tabular.interior.start + interior.size :=
          interiorSpells.stop_eq
        rw [bodyStartEq, stopEq, bodyParts]
        simp only [Text.size_append, Text.size_nil]
        omega
      have bodySpells := interiorSpells.middle bodyParts
      rw [← bodyStartEq, bodyStop] at bodySpells
      refine ⟨rfl, rfl, _, rfl, rfl, ⟨_, tabularSpells⟩, specifierSpells.fits, ?_, ?_,
        ⟨_, bodySpells, rfl⟩, ?_⟩
      · have openingStop : tabular.interior.start = tabular.opening.start + opening.size :=
          openingSpells.stop_eq
        simp only [Environment.span, Declaration.specifierSpan, startEq]
        omega
      · have closingStop := closingSpells.stop_eq
        simp only [Environment.span]
        omega
      · have specifierEq : document.slice declaration.specifierSpan = declaration.specifier :=
          specifierSpells.slice_eq
        simp only [columnCount, columns, specifier, slice, specifierEq]
        rfl

section Read

variable {document : Text} {table : Table}

theorem exists_tabular_of_readFirst (found : readFirst document = .ok table) :
    ∃ tabular ∈ tabulars (environments document),
      ofTabular document (environments document) tabular = .ok table := by
  simp only [readFirst] at found
  split at found
  next tabular isFirst => exact ⟨tabular, List.mem_of_mem_head? isFirst, found⟩
  next => simp at found

/-- A table that was read around an offset is one of the tabulars. -/
theorem exists_tabular_of_readAt {offset : Nat} (found : readAt document offset = .ok table) :
    ∃ tabular ∈ tabulars (environments document),
      ofTabular document (environments document) tabular = .ok table := by
  simp only [readAt] at found
  split at found
  next tabular isLast =>
    exact ⟨tabular, (List.mem_filter.mp (List.mem_of_mem_getLast? isLast)).1, found⟩
  next => simp at found

theorem exists_tabular_of_readAll {tables : List Table} (found : readAll document = .ok tables)
    (member : table ∈ tables) :
    ∃ tabular ∈ tabulars (environments document),
      ofTabular document (environments document) tabular = .ok table := by
  simp only [readAll] at found
  generalize tabulars (environments document) = remaining at found ⊢
  induction remaining generalizing tables with
  | nil =>
      obtain rfl : [] = tables := by simpa [pure, Except.pure] using found
      simp at member
  | cons tabular rest ih =>
      simp only [List.mapM_cons, bind, Except.bind, pure, Except.pure] at found
      split at found
      · simp at found
      next first readEq =>
        split at found
        · simp at found
        next others othersEq =>
          obtain rfl := Except.ok.inj found
          rcases List.mem_cons.mp member with rfl | inOthers
          · exact ⟨tabular, List.mem_cons_self, readEq⟩
          · obtain ⟨other, isOther, read⟩ := ih inOthers othersEq
            exact ⟨other, List.mem_cons_of_mem _ isOther, read⟩

/-- However a table is read, it is one of the tabulars. -/
theorem exists_tabular_of_read
    (found : readFirst document = .ok table ∨ (∃ offset, readAt document offset = .ok table) ∨
      ∃ tables, readAll document = .ok tables ∧ table ∈ tables) :
    ∃ tabular ∈ tabulars (environments document),
      ofTabular document (environments document) tabular = .ok table := by
  rcases found with first | ⟨offset, around⟩ | ⟨tables, all, member⟩
  · exact exists_tabular_of_readFirst first
  · exact exists_tabular_of_readAt around
  · exact exists_tabular_of_readAll all member

end Read

end Table

end LatexTabular
