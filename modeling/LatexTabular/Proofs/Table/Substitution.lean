import LatexTabular.Proofs.Markup.Moving
import LatexTabular.Proofs.Table.Agreement
import LatexTabular.Proofs.Table.Consistency
import LatexTabular.Proofs.Markup.Lookahead

/-!
# Tables behind a change of their bodies

Where a part of the body of a tabular is replaced and the environments stay, the table is read
from the changed body, and from its environments where they have moved
(`Table.exists_read_substituted`).
-/

namespace LatexTabular

open Markup Body

namespace Declaration

variable {offset : Nat} {text : Text} {declaration : Declaration}

/-- A specifier is read in front of any body. -/
theorem exists_front_readSpecifier (found : readSpecifier offset text = .ok declaration) :
    ∃ gap inner, (∀ character ∈ gap, isSpace character = true) ∧
      text = gap ++ '{' :: inner ++ declaration.body ∧
      declaration.bodyStart = offset + Text.size (gap ++ '{' :: inner) ∧
      ∀ body, readSpecifier offset (gap ++ '{' :: inner ++ body)
        = .ok { declaration with body } := by
  have whole := spaces_append_dropWhile text
  simp only [readSpecifier, drop_spaces] at found
  split at found
  next rest opened =>
    split at found
    next specifier closed =>
      obtain rfl := Except.ok.inj found
      obtain ⟨body, rfl⟩ := untilClosed?_isPrefix closed
      have space : ∀ character ∈ spaces text, isSpace character = true :=
        fun character member => isSpace_of_mem_spaces member
      have dropped (body : Text) :
          (specifier ++ '}' :: body).drop (specifier.length + 1) = body := by
        rw [← List.drop_drop, List.drop_left]
        rfl
      have widths : '{'.utf8Size = 1 ∧ '}'.utf8Size = 1 := by decide
      refine ⟨spaces text, specifier ++ ['}'], space, ?_, ?_, fun body' => ?_⟩
      · conv => lhs; rw [← whole, opened]
        simp [dropped]
      · simp only [bodyStart, specifierSpan, Text.size_append, Text.size_cons, Text.size_nil,
          widths]
        omega
      · have parts : spaces text ++ '{' :: (specifier ++ ['}']) ++ body'
            = spaces text ++ '{' :: (specifier ++ '}' :: body') := by simp
        obtain ⟨gapEq, -⟩ := spaces_append (specifier ++ '}' :: body') space
          (show isSpace '{' = false by decide)
        rw [parts]
        simp only [readSpecifier, gapEq, List.drop_left, untilClosed?_behind closed, dropped]
    next => simp at found
  next => simp at found

/-- What stands in front of a body is read in front of any other one. -/
theorem exists_front_read (found : read offset text = .ok declaration) :
    ∃ front, text = front ++ declaration.body ∧
      declaration.bodyStart = offset + front.size ∧
      ∀ body, read offset (front ++ body) = .ok { declaration with body } := by
  have whole := spaces_append_dropWhile text
  have space : ∀ character ∈ spaces text, isSpace character = true :=
    fun character member => isSpace_of_mem_spaces member
  simp only [read, drop_spaces] at found
  split at found
  next rest bracketed =>
    split at found
    next position grouped =>
      obtain ⟨behind, positionEq⟩ := optionalGroup?_isPrefix grouped
      rw [← positionEq, List.drop_left] at found
      obtain ⟨gap, inner, -, behindEq, startEq, again⟩ := exists_front_readSpecifier found
      obtain ⟨next, others, positionShape⟩ := List.exists_cons_of_ne_nil
        (List.ne_nil_of_length_pos (optionalGroup?_length_pos grouped).1)
      obtain rfl : next = '[' := by
        rw [positionShape] at positionEq
        exact (List.cons.inj positionEq).1
      refine ⟨spaces text ++ (position ++ (gap ++ '{' :: inner)), ?_, ?_, fun body => ?_⟩
      · conv => lhs; rw [← whole, bracketed, ← positionEq, behindEq]
        simp
      · rw [startEq]
        simp only [Text.size_append]
        omega
      · have parts : spaces text ++ (position ++ (gap ++ '{' :: inner)) ++ body
            = spaces text ++ '[' :: (others ++ (gap ++ '{' :: inner ++ body)) := by
          simp [positionShape]
        obtain ⟨gapEq, -⟩ := spaces_append (others ++ (gap ++ '{' :: inner ++ body)) space
          (show isSpace '[' = false by decide)
        have groupedAgain := optionalGroup?_behind grouped (gap ++ '{' :: inner ++ body)
        have dropped : (position ++ (gap ++ '{' :: inner ++ body)).drop position.length
            = gap ++ '{' :: inner ++ body := List.drop_left
        rw [positionShape, List.cons_append] at groupedAgain dropped
        rw [← positionShape] at groupedAgain dropped
        rw [parts]
        simp only [read, gapEq, List.drop_left, groupedAgain, dropped, again]
    next => simp at found
  next notBracketed =>
    obtain ⟨gap, inner, spaceGap, textEq, startEq, again⟩ := exists_front_readSpecifier found
    refine ⟨gap ++ '{' :: inner, textEq, startEq, fun body => ?_⟩
    have parts : gap ++ '{' :: inner ++ body = gap ++ '{' :: (inner ++ body) := by simp
    obtain ⟨gapEq, -⟩ := spaces_append (inner ++ body) spaceGap (show isSpace '{' = false by decide)
    rw [← again, parts]
    simp only [read, gapEq, List.drop_left]
    rfl

end Declaration

namespace Table

variable {document : Text} {tabular : Environment} {table : Table}

/-- At the start of a tabular that one is read. -/
theorem readAt_start (isTabular : tabular ∈ tabulars (environments document)) :
    readAt document tabular.span.start
      = ofTabular document (environments document) tabular := by
  have starts := (pairwise_start_environments document).sublist (sublist_tabulars document)
  have ordered := (span_of_mem_environments
    ((sublist_tabulars document).subset isTabular)).1.ordered
  obtain ⟨front, back, tabularsEq⟩ := List.append_of_mem isTabular
  rw [tabularsEq] at starts
  have none : back.filter (fun other => decide (other.span.start ≤ tabular.span.start)
      && decide (tabular.span.start ≤ other.span.stop)) = [] := by
    refine List.filter_eq_nil_iff.mpr fun other member => ?_
    have behind := (List.pairwise_cons.mp (List.pairwise_append.mp starts).2.1).1 other member
    simp [Nat.not_le.mpr behind]
  simp [readAt, tabularsEq, none, ordered]

/-- What is read from a tabular whose text in front of its body is known. -/
theorem ofTabular_eq {interior : Text} {all : List Environment} {declaration : Declaration}
    (spells : document.Spells tabular.interior interior)
    (read : Declaration.read tabular.interior.start interior = .ok declaration) :
    ofTabular document all tabular = .ok
      { document
        span := tabular.span
        specifierSpan := declaration.specifierSpan
        rows := (rowsOf declaration.bodyStart (lex
          ((all.map Environment.span).filter fun span =>
            declaration.bodyStart ≤ span.start && span.stop ≤ tabular.closing.start)
          declaration.bodyStart .start declaration.body)).map
            (Row.padded (Specifier.columns declaration.specifier).length)
        float := Captioning.ofTabular? document all tabular.span } := by
  simp only [ofTabular, spells.slice_eq, read, bind, Except.bind, pure, Except.pure]
  rfl

/-- The environments within a body move with it. -/
theorem filter_map_moved {all : List Environment} {place old new start stop : Nat}
    (outside : ∀ environment ∈ all, ∀ span ∈ environment.delimiterSpans, span.Outside place old)
    (inFront : start ≤ place) (behind : place + old ≤ stop) :
    ((all.map (Environment.moved (movedBehind place old new))).map Environment.span).filter
        (fun span => start ≤ span.start && span.stop ≤ movedBehind place old new stop)
      = ((all.map Environment.span).filter
        fun span => start ≤ span.start && span.stop ≤ stop).map
          (Span.moved (movedBehind place old new)) := by
  have spans : (all.map (Environment.moved (movedBehind place old new))).map Environment.span
      = (all.map Environment.span).map (Span.moved (movedBehind place old new)) := by
    simp only [List.map_map]
    rfl
  rw [spans, List.filter_map]
  congr 1
  refine List.filter_congr fun span isSpan => ?_
  obtain ⟨environment, member, rfl⟩ := List.mem_map.mp isSpan
  have opening := outside environment member environment.opening
    (by simp [Environment.delimiterSpans])
  have closing := outside environment member environment.closing
    (by simp [Environment.delimiterSpans])
  unfold Span.Outside at opening closing
  have starts : start ≤ movedBehind place old new environment.opening.start
      ↔ start ≤ environment.opening.start := by
    unfold movedBehind
    split <;> omega
  have stops : movedBehind place old new environment.closing.stop ≤ movedBehind place old new stop
      ↔ environment.closing.stop ≤ stop := by
    unfold movedBehind
    split <;> split <;> omega
  exact congrArg₂ (· && ·) (decide_eq_decide.mpr starts) (decide_eq_decide.mpr stops)

/-- Behind the interior of an environment the closing delimiter begins. -/
theorem head?_behind_interior (isEnvironment : tabular ∈ environments document)
    {front interior back : Text} (documentEq : document = front ++ interior ++ back)
    (stopEq : tabular.closing.start = front.size + interior.size) : back.head? = some '\\' := by
  obtain ⟨-, -, closing, -, closes, -, -, before, after, documentEq', spanEq⟩ :=
    exists_spells_of_mem_environments isEnvironment
  have beforeSize : tabular.closing.start = before.size := (Span.mk.inj spanEq).1
  have parts : (front ++ interior) ++ back = before ++ (closing ++ after) := by
    rw [← documentEq, documentEq', List.append_assoc]
  have sizes : Text.size (front ++ interior) = before.size := by
    rw [← beforeSize, stopEq, Text.size_append]
  rw [(Text.eq_of_append_eq_of_size_eq parts sizes).2, List.head?_append, closes]
  rfl

/-- The columns of a declaration are those of its specifier in the document. -/
theorem length_columns_specifier {interior : Text} {declaration : Declaration}
    (spells : document.Spells tabular.interior interior)
    (read : Declaration.read tabular.interior.start interior = .ok declaration) :
    (Specifier.columns declaration.specifier).length
      = (Specifier.columns (document.slice declaration.specifierSpan)).length := by
  obtain ⟨lead, specifierEq, startEq⟩ := Declaration.exists_front_of_read read
  have specifierSpells := spells.middle specifierEq
  rw [← startEq] at specifierSpells
  rw [Declaration.specifierSpan, specifierSpells.slice_eq]

/-- Where the environments have moved behind the opening of a tabular, it is read there. -/
theorem readAt_moved {document' interior : Text} {declaration : Declaration} {move : Nat → Nat}
    (isTabular : tabular ∈ tabulars (environments document))
    (moved : environments document' = (environments document).map (Environment.moved move))
    (openingStart : move tabular.opening.start = tabular.opening.start)
    (openingStop : move tabular.opening.stop = tabular.opening.stop)
    (spells : document'.Spells ⟨tabular.opening.stop, move tabular.closing.start⟩ interior)
    (read : Declaration.read tabular.interior.start interior = .ok declaration) :
    ∃ table, readAt document' tabular.span.start = .ok table ∧
      table.rows = (rowsOf declaration.bodyStart (lex
        (((environments document').map Environment.span).filter fun span =>
          declaration.bodyStart ≤ span.start && span.stop ≤ move tabular.closing.start)
        declaration.bodyStart .start declaration.body)).map
          (Row.padded (Specifier.columns declaration.specifier).length) := by
  have isMoved : tabular.moved move ∈ tabulars (environments document') := by
    rw [moved]
    exact List.mem_filter.mpr ⟨List.mem_map_of_mem (List.mem_filter.mp isTabular).1,
      (List.mem_filter.mp isTabular).2⟩
  have spellsMoved : document'.Spells (tabular.moved move).interior interior := by
    rw [← openingStop] at spells
    exact spells
  have interiorStart : (tabular.moved move).interior.start = tabular.interior.start := openingStop
  rw [← interiorStart] at read
  have spanStart : (tabular.moved move).span.start = tabular.span.start := openingStart
  rw [← spanStart, readAt_start isMoved, ofTabular_eq spellsMoved read]
  exact ⟨_, rfl, rfl⟩

/-- The lexemes of a body are cut from what is written there. -/
theorem HasBody.eq_lex {lexemes : List Lexeme} {front body back : Text}
    (hasBody : table.HasBody tabular lexemes)
    (documentEq : table.document = front ++ (body ++ back))
    (frontSize : front.size = table.specifierSpan.stop + 1)
    (bodySize : front.size + body.size = tabular.closing.start) :
    lexemes = lex (table.nested tabular.closing.start) front.size .start body := by
  obtain ⟨body', spells', rfl⟩ := hasBody.lexed
  have spells := Text.Spells.of_append front body back
  rw [List.append_assoc, ← documentEq] at spells
  rw [← frontSize, ← bodySize] at spells'
  rw [← frontSize, ← spells'.slice_eq, spells.slice_eq]

/-- Where the body of a tabular is replaced and the environments move with it, the table is read
from the new body. -/
theorem exists_read_moved (isTabular : tabular ∈ tabulars (environments document))
    (found : ofTabular document (environments document) tabular = .ok table) :
    ∃ front body back, document = front ++ (body ++ back) ∧
      front.size = table.specifierSpan.stop + 1 ∧
      front.size + body.size = tabular.closing.start ∧
      front.getLast? = some '}' ∧ back.head? = some '\\' ∧
      table.rows = (rowsOf front.size
        (lex (table.nested tabular.closing.start) front.size .start body)).map
          (Row.padded table.columnCount) ∧
      ∀ (move : Nat → Nat) body', (∀ offset ≤ front.size, move offset = offset) →
        move tabular.closing.start = front.size + body'.size →
        environments (front ++ (body' ++ back))
          = (environments document).map (Environment.moved move) →
        ∃ changed, readAt (front ++ (body' ++ back)) table.span.start = .ok changed ∧
          changed.rows = (rowsOf front.size (lex
            ((((environments document).map (Environment.moved move)).map Environment.span).filter
              fun span => front.size ≤ span.start && span.stop ≤ move tabular.closing.start)
            front.size .start body')).map (Row.padded table.columnCount) := by
  have isEnvironment := (sublist_tabulars document).subset isTabular
  obtain ⟨-, interior, -, -, -, -, interiorSpells, -⟩ :=
    exists_spells_of_mem_environments isEnvironment
  cases readEq : Declaration.read tabular.interior.start interior with
  | error error => simp [ofTabular, interiorSpells.slice_eq, readEq, bind, Except.bind] at found
  | ok declaration =>
      rw [ofTabular_eq interiorSpells readEq] at found
      obtain rfl := Except.ok.inj found
      have columnCount := length_columns_specifier interiorSpells readEq
      obtain ⟨head, interiorEq, bodyStartEq, again⟩ := Declaration.exists_front_read readEq
      obtain ⟨lead, specifierEq, -⟩ := Declaration.exists_front_of_read readEq
      obtain ⟨front, back, documentEq, spanEq⟩ := interiorSpells
      obtain ⟨startEq, stopEq⟩ := Span.mk.inj spanEq
      have startEq : tabular.opening.stop = front.size := startEq
      have stopEq : tabular.closing.start = front.size + interior.size := stopEq
      have opens := head?_behind_interior isEnvironment documentEq stopEq
      subst interiorEq
      have frontSize : (front ++ head).size = declaration.bodyStart := by
        rw [bodyStartEq, Text.size_append]
        exact congrArg (· + head.size) startEq.symm
      have closingEq : (front ++ head).size + declaration.body.size = tabular.closing.start := by
        rw [stopEq]
        simp only [Text.size_append]
        omega
      have closes : (front ++ head).getLast? = some '}' := by
        have headEq : head ++ declaration.body
            = lead ++ declaration.specifier ++ ['}'] ++ declaration.body := by
          rw [specifierEq]
          simp
        rw [List.append_cancel_right headEq, ← List.append_assoc, List.getLast?_concat]
      refine ⟨front ++ head, declaration.body, back, by simp [documentEq], frontSize, closingEq,
        closes, opens, ?_, ?_⟩
      · rw [frontSize, columnCount]
        rfl
      intro move body' stays closingMoved moved
      have ordered := ordered_of_mem_environments isEnvironment
      have inFront : tabular.opening.stop ≤ (front ++ head).size := by
        rw [startEq, Text.size_append]
        omega
      obtain ⟨changed, read, rowsEq⟩ := readAt_moved isTabular moved
        (stays _ (by omega)) (stays _ inFront)
        ⟨front, back, by simp, congrArg₂ Span.mk startEq (by
          rw [closingMoved]
          simp only [Text.size_append]
          omega)⟩ (again body')
      refine ⟨changed, read, ?_⟩
      rw [frontSize, rowsEq, moved]
      dsimp only
      rw [columnCount]
      rfl

/-- A table is read from a changed body as it is. -/
theorem exists_read_substituted (isTabular : tabular ∈ tabulars (environments document))
    (found : ofTabular document (environments document) tabular = .ok table) :
    ∃ front body back, document = front ++ (body ++ back) ∧
      front.size = table.specifierSpan.stop + 1 ∧
      front.size + body.size = tabular.closing.start ∧ back.head? = some '\\' ∧
      table.rows = (rowsOf front.size
        (lex (table.nested tabular.closing.start) front.size .start body)).map
          (Row.padded table.columnCount) ∧
      ∀ lead old behind new, body = lead ++ (old ++ behind) → old ≠ [] →
        (∀ environment ∈ environments document, ∀ span ∈ environment.delimiterSpans,
          span.Outside (front ++ lead).size old.size) →
        environments (front ++ (lead ++ (new ++ behind) ++ back))
          = (environments document).map
            (Environment.moved (movedBehind (front ++ lead).size old.size new.size)) →
        ∃ changed, readAt (front ++ (lead ++ (new ++ behind) ++ back)) table.span.start
            = .ok changed ∧
          changed.rows = (rowsOf front.size
            (lex ((table.nested tabular.closing.start).map
              (Span.moved (movedBehind (front ++ lead).size old.size new.size))) front.size .start
                (lead ++ (new ++ behind)))).map (Row.padded table.columnCount) := by
  have sameDocument := (exists_body_of_ofTabular ((sublist_tabulars document).subset isTabular)
    found).1
  obtain ⟨front, body, back, documentEq, frontSize, closingEq, -, opens, rowsEq, changes⟩ :=
    exists_read_moved isTabular found
  refine ⟨front, body, back, documentEq, frontSize, closingEq, opens, rowsEq, ?_⟩
  intro lead old behind new bodyEq nonempty outside moved
  have placeEq : (front ++ lead).size = front.size + lead.size := Text.size_append _ _
  have bodySize : body.size = lead.size + (old.size + behind.size) := by
    rw [bodyEq]
    simp only [Text.size_append]
  have closingMoved : movedBehind (front ++ lead).size old.size new.size tabular.closing.start
      = front.size + Text.size (lead ++ (new ++ behind)) := by
    have place : tabular.closing.start = (front ++ lead).size + old.size + behind.size := by omega
    rw [place, movedBehind_add (Text.size_pos_of_ne_nil nonempty), placeEq]
    simp only [Text.size_append]
    omega
  obtain ⟨changed, read, changedRows⟩ := changes _ _
    (fun offset within => movedBehind_of_le (by omega)) closingMoved moved
  refine ⟨changed, read, ?_⟩
  rw [changedRows, filter_map_moved outside (by omega) (by omega), nested, sameDocument, frontSize]

end Table

end LatexTabular
