import LatexTabular.Proofs.Body.Chain

/-!
# What is read as what

Every lexeme of a body is what `readPart` reads somewhere in it
(`exists_readPart_of_mem_lex`).  So the texts of white space, comments and separators
are known, and an environment within the body is one lexeme (`span_of_mem_lex`).
-/

namespace LatexTabular.Body

open Markup

/-- Whether a lexeme is more than white space or a comment. -/
def Kind.isMarked : Kind → Bool
  | .space | .comment => false
  | _ => true

variable {lexeme : Lexeme} {nested : List Span} {offset : Nat} {context : Context} {head : Char}
  {rest body : Text}

/-- Every lexeme is what is read somewhere in the body. -/
theorem exists_readPart_of_mem_lex (member : lexeme ∈ lex nested offset context body) :
    ∃ (front : Text) (head : Char) (rest : Text) (context : Context),
      body = front ++ head :: rest ∧
        lexeme = ⟨offset + front.size, (readPart nested (offset + front.size) context head rest).1,
          head :: (readPart nested (offset + front.size) context head rest).2⟩ := by
  fun_induction lex nested offset context body with
  | case1 => simp at member
  | case2 offset context head rest part first ih =>
      rcases List.mem_cons.mp member with rfl | inRest
      · exact ⟨[], head, rest, context, rfl, rfl⟩
      · obtain ⟨front, head', rest', context', restEq, lexemeEq⟩ := ih inRest
        have whole := List.prefix_iff_eq_append.mp
          (readPart_isPrefix nested offset context head rest)
        have startEq : first.stop + front.size = offset + Text.size (first.text ++ front) := by
          rw [Text.size_append, ← Nat.add_assoc]
          rfl
        rw [startEq] at lexemeEq
        refine ⟨first.text ++ front, head', rest', context', ?_, lexemeEq⟩
        rw [List.append_assoc, ← restEq]
        exact congrArg (head :: ·) whole.symm

/-- Every lexeme is read in one of the ways somewhere in the body. -/
theorem exists_readsAs_of_mem_lex (member : lexeme ∈ lex nested offset context body) :
    ∃ (front : Text) (head : Char) (rest : Text) (context : Context) (taken : Text),
      body = front ++ head :: rest ∧ lexeme.start = offset + front.size ∧
        lexeme.text = head :: taken ∧
        ReadsAs nested (offset + front.size) context head rest lexeme.kind taken := by
  obtain ⟨front, head, rest, context, bodyEq, rfl⟩ := exists_readPart_of_mem_lex member
  exact ⟨front, head, rest, context, _, bodyEq, rfl, rfl, readPart_eq_iff.mp rfl⟩

/-- White space is one character. -/
theorem space_of_mem_lex (member : lexeme ∈ lex nested offset context body)
    (kindEq : lexeme.kind = .space) : ∃ space, isSpace space = true ∧ lexeme.text = [space] := by
  obtain ⟨front, head, rest, context, taken, -, -, textEq, reads⟩ :=
    exists_readsAs_of_mem_lex member
  rw [kindEq] at reads
  cases reads with
  | space isBlank => exact ⟨head, isBlank, textEq⟩
  | control _ _ read =>
      obtain ⟨taken, takes, -⟩ := readControl_eq_iff.mp read
      cases takes

/-- A separator is an ampersand. -/
theorem separator_of_mem_lex (member : lexeme ∈ lex nested offset context body)
    (kindEq : lexeme.kind = .separator) : lexeme.text = ['&'] := by
  obtain ⟨front, head, rest, context, taken, -, -, textEq, reads⟩ :=
    exists_readsAs_of_mem_lex member
  rw [kindEq] at reads
  cases reads with
  | separator isAmpersand outside => rw [textEq, isAmpersand]
  | control _ _ read =>
      obtain ⟨taken, takes, -⟩ := readControl_eq_iff.mp read
      cases takes

/-- A comment reaches from a percent sign to the end of its line or of the body. -/
theorem comment_of_mem_lex (member : lexeme ∈ lex nested offset context body)
    (kindEq : lexeme.kind = .comment) :
    ∃ front line back : Text, body = front ++ lexeme.text ++ back ∧
      lexeme.start = offset + front.size ∧ lexeme.text = '%' :: line ∧ '\n' ∉ line ∧
      ∀ next ∈ back.head?, next = '\n' := by
  obtain ⟨front, head, rest, context, taken, rfl, startEq, textEq, reads⟩ :=
    exists_readsAs_of_mem_lex member
  rw [kindEq] at reads
  cases reads with
  | comment isPercent =>
      subst isPercent
      refine ⟨front, Text.firstLine rest, rest.dropWhile (· != '\n'), ?_, startEq, textEq, ?_, ?_⟩
      · have whole : Text.firstLine rest ++ rest.dropWhile (· != '\n') = rest :=
          List.takeWhile_append_dropWhile
        simp [textEq, whole]
      · intro inLine
        simpa using List.mem_takeWhile_imp inLine
      · intro next isNext
        have stops := List.head?_dropWhile_not (· != '\n') rest
        simpa [Option.mem_def.mp isNext] using stops
  | control _ _ read =>
      obtain ⟨taken, takes, -⟩ := readControl_eq_iff.mp read
      cases takes

/-- A cut of a part of a text that the whole text allows has the wanted length. -/
theorem size_takeBytes_of_isBoundary {front rest : Text} (back : Text) {offset : Nat}
    (behind : front.size ≤ offset) (before : offset ≤ Text.size (front ++ rest))
    (boundary : Text.isBoundary (front ++ rest ++ back) offset = true) :
    (rest.takeBytes (offset - front.size)).size = offset - front.size := by
  have whole : Text.takeBytes (front ++ rest ++ back) offset
      = front ++ rest.takeBytes (offset - front.size) := by
    rw [Text.takeBytes_append_of_ge _ before, Text.takeBytes_append_of_le _ behind]
  have sizes : Text.size (Text.takeBytes (front ++ rest ++ back) offset) = offset := by
    simpa [Text.isBoundary] using boundary
  rw [whole, Text.size_append] at sizes
  omega

/-- An environment within a body is one lexeme: reading does not stop inside it, and no
character is split at its end. -/
theorem span_of_mem_lex {document : Text} {stop : Nat}
    (bodySpells : document.Spells ⟨offset, stop⟩ body)
    (fits : ∀ environment ∈ nested, environment.stop ≤ stop ∧
      document.isBoundary environment.stop = true ∧ environment.start < environment.stop ∧
      document.Spells ⟨environment.start, environment.start + 1⟩ ['\\'])
    (member : lexeme ∈ lex nested offset context body)
    (begins : ∃ environment ∈ nested, environment.start = lexeme.start) :
    lexeme.span ∈ nested := by
  obtain ⟨front, head, rest, context, bodyEq, rfl⟩ := exists_readPart_of_mem_lex member
  obtain ⟨environment, isNested, startEq⟩ := begins
  dsimp only at startEq
  obtain ⟨found, foundEq⟩ : ∃ found, nested.find? (·.start == offset + front.size) = some found := by
    refine Option.isSome_iff_exists.mp (List.find?_isSome.mpr ⟨environment, isNested, ?_⟩)
    simp [startEq]
  have foundIn := List.mem_of_find?_eq_some foundEq
  have foundStart : found.start = offset + front.size := by
    simpa using List.find?_some foundEq
  obtain ⟨ends, boundary, nonempty, backslash⟩ := fits found foundIn
  have headSpells := bodySpells.middle (show body = front ++ [head] ++ rest by simp [bodyEq])
  obtain rfl : '\\' = head := backslash.head_eq headSpells foundStart
  have read : readPart nested (offset + front.size) context '\\' rest
      = (.content, rest.takeBytes (found.stop - (offset + front.size) - 1)) :=
    readPart_eq_iff.mpr (.environment rfl foundEq)
  obtain ⟨docFront, docBack, rfl, spanEq⟩ := bodySpells
  obtain ⟨rfl, rfl⟩ := Span.mk.inj spanEq
  have width : '\\'.utf8Size = 1 := by decide
  have frontSize : Text.size (docFront ++ front ++ ['\\']) = docFront.size + front.size + 1 := by
    simp [Text.size_append, width, Nat.add_assoc]
  have taken : (rest.takeBytes (found.stop - (docFront.size + front.size + 1))).size
      = found.stop - (docFront.size + front.size + 1) := by
    rw [← frontSize]
    refine size_takeBytes_of_isBoundary docBack ?_ ?_ ?_
    · omega
    · simp only [bodyEq, Text.size_append, Text.size_cons, Text.size_nil] at ends ⊢
      omega
    · simpa [bodyEq] using boundary
  have spanEq : Lexeme.span ⟨docFront.size + front.size, .content,
      '\\' :: rest.takeBytes (found.stop - (docFront.size + front.size) - 1)⟩ = found := by
    rw [Nat.sub_sub]
    simp only [Lexeme.span, Lexeme.stop, Text.size_cons, width, taken]
    rw [← foundStart]
    congr
    omega
  simpa only [read, spanEq] using foundIn

end LatexTabular.Body
