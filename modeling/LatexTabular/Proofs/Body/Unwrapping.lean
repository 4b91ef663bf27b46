import LatexTabular.Proofs.Body.Splitting

/-!
# Lexemes of a merge without its command

Where the command of a merge is taken away from its content, and separators are put behind it, the
lexemes of the content and the separators take the place of the merge, and the others stay
(`exists_lex_unwrapped`).
-/

namespace LatexTabular.Body

open Markup

section Filled

/-- White space behind texts that end with something else is no part of them. -/
theorem eq_of_append_isSpace {front other back rest : Text} (same : front ++ back = other ++ rest)
    (space : back.IsSpace) (space' : rest.IsSpace)
    (inked : ∀ last ∈ front.getLast?, isSpace last = false)
    (inked' : ∀ last ∈ other.getLast?, isSpace last = false) : front = other := by
  have ends (text white : Text) (space : white.IsSpace)
      (inked : ∀ last ∈ text.getLast?, isSpace last = false) :
      (text ++ white).rdropWhile isSpace = text := by
    rw [List.rdropWhile, List.reverse_append, List.dropWhile_append_of_pos
      fun character member => space character (List.mem_reverse.mp member)]
    cases reversed : text.reverse with
    | nil => simpa using reversed.symm
    | cons last others =>
        have isLast : text.getLast? = some last := by
          rw [List.getLast?_eq_head?_reverse, reversed]
          rfl
        rw [List.dropWhile_cons_of_neg (by simp [inked last isLast]), ← reversed,
          List.reverse_reverse]
  rw [← ends front back space inked, same, ends other rest space' inked']

/-- White space in front of texts that begin with something else is no part of them. -/
theorem eq_of_isSpace_append {front other back rest : Text} (same : front ++ back = other ++ rest)
    (space : front.IsSpace) (space' : other.IsSpace)
    (inked : ∀ first ∈ back.head?, isSpace first = false)
    (inked' : ∀ first ∈ rest.head?, isSpace first = false) : back = rest := by
  have begins (text white : Text) (space : white.IsSpace)
      (inked : ∀ first ∈ text.head?, isSpace first = false) :
      (white ++ text).dropWhile isSpace = text := by
    rw [List.dropWhile_append_of_pos space]
    cases text with
    | nil => rfl
    | cons head others => exact List.dropWhile_cons_of_neg (by simp [inked head rfl])
  rw [← begins back front space inked, same, begins rest other space' inked']

theorem isSpace_textOf {lexemes : List Lexeme} (plain : ∀ lexeme ∈ lexemes, lexeme.IsPlain)
    (empty : ∀ lexeme ∈ lexemes, lexeme.kind.fillsCell = false) : (textOf lexemes).IsSpace := by
  intro character member
  obtain ⟨lexeme, isLexeme, inText⟩ := List.mem_flatMap.mp member
  rcases plain lexeme isLexeme with ⟨-, space⟩ | ⟨kindEq, -⟩
  · exact space character inText
  · have unfilled := empty lexeme isLexeme
    simp [kindEq, Kind.fillsCell] at unfilled

/-- What fills a cell of plain lexemes is nothing, or begins and ends with something else than white
space unless it ends with a control space. -/
theorem filledText_cases {inner : List Lexeme} (plain : ∀ lexeme ∈ inner, lexeme.IsPlain) :
    filledText inner = [] ∨
      (∃ first ∈ (filledText inner).head?, isSpace first = false) ∧
        ∀ last ∈ (filledText inner).getLast?, isSpace last = true →
          ∃ front, filledText inner = front ++ ['\\', last] := by
  have isContent (lexeme : Lexeme) (member : lexeme ∈ filledPart inner)
      (fills : lexeme.kind.fillsCell = true) :
      (∃ first ∈ lexeme.text.head?, isSpace first = false) ∧
        ∀ last ∈ lexeme.text.getLast?, isSpace last = true → lexeme.text = ['\\', last] := by
    rcases plain lexeme ((filledPart_isInfix inner).subset member) with ⟨kindEq, -⟩ | isContent
    · simp [kindEq, Kind.fillsCell] at fills
    · exact isContent.2
  cases isFirst : (filledPart inner).head? with
  | none =>
      refine Or.inl ?_
      rw [filledText, List.head?_eq_none_iff.mp isFirst]
      rfl
  | some first =>
      refine Or.inr ⟨?_, fun last isLast isSpaceLast => ?_⟩
      · obtain ⟨rest, filledEq⟩ := List.head?_eq_some_iff.mp isFirst
        obtain ⟨character, isHead, inked⟩ := (isContent first (List.mem_of_mem_head? isFirst)
          (fillsCell_of_head? isFirst)).1
        refine ⟨character, ?_, inked⟩
        rw [filledText, filledEq, List.flatMap_cons, List.head?_append, isHead]
        rfl
      · obtain ⟨final, isFinal⟩ : ∃ final, (filledPart inner).getLast? = some final := by
          obtain ⟨rest, filledEq⟩ := List.head?_eq_some_iff.mp isFirst
          rw [filledEq]
          exact ⟨_, List.getLast?_eq_some_getLast (List.cons_ne_nil _ _)⟩
        obtain ⟨front, filledEq⟩ := List.getLast?_eq_some_iff.mp isFinal
        obtain ⟨⟨character, isHead, -⟩, ends⟩ := isContent final
          (List.mem_of_mem_getLast? isFinal) (fillsCell_of_getLast? isFinal)
        have textEq : filledText inner = textOf front ++ final.text := by
          simp [filledText, filledEq, textOf]
        have notNil : final.text ≠ [] := List.ne_nil_of_mem (List.mem_of_mem_head? isHead)
        rw [textEq, List.getLast?_append_of_ne_nil _ notNil] at isLast
        exact ⟨textOf front, by rw [textEq, ends last isLast isSpaceLast]⟩

/-- White space that begins with something else is empty. -/
theorem eq_nil_of_isSpace {text : Text} (space : text.IsSpace)
    (inked : ∀ first ∈ text.head?, isSpace first = false) : text = [] := by
  cases text with
  | nil => rfl
  | cons first rest =>
      have isSpaceFirst := space first List.mem_cons_self
      simp [inked first rfl] at isSpaceFirst

/-- White space around what fills a cell and around a text that begins with no white space is the
same in front of both. -/
theorem filledText_append_eq {inner : List Lexeme} {front back left content right : Text}
    (plain : ∀ lexeme ∈ inner, lexeme.IsPlain)
    (texts : front ++ (filledText inner ++ back) = left ++ (content ++ right))
    (spaceFront : front.IsSpace) (spaceBack : back.IsSpace) (spaceLeft : left.IsSpace)
    (spaceRight : right.IsSpace) (inked : ∀ first ∈ content.head?, isSpace first = false) :
    filledText inner = [] ∧ content = [] ∨ filledText inner ++ back = content ++ right := by
  rcases filledText_cases plain with nothing | ⟨⟨first, isFirst, inkedFirst⟩, -⟩
  · refine Or.inl ⟨nothing, eq_nil_of_isSpace (fun character isContent => ?_) inked⟩
    have member : character ∈ front ++ (filledText inner ++ back) := by simp [texts, isContent]
    rw [nothing, List.nil_append] at member
    exact (List.mem_append.mp member).elim (spaceFront character) (spaceBack character)
  · have notNil : content ≠ [] := by
      rintro rfl
      have member : first ∈ left ++ ([] ++ right) := by
        rw [← texts]
        simp [List.mem_of_mem_head? isFirst]
      rw [List.nil_append] at member
      have isSpaceFirst : isSpace first = true :=
        (List.mem_append.mp member).elim (spaceLeft first) (spaceRight first)
      simp [inkedFirst] at isSpaceFirst
    refine Or.inr (eq_of_isSpace_append texts spaceFront spaceLeft (fun head isHead => ?_)
      fun head isHead => ?_)
    · rw [List.head?_append, isFirst] at isHead
      obtain rfl : first = head := by simpa using isHead
      exact inkedFirst
    · rw [List.head?_append_of_ne_nil _ notNil] at isHead
      exact inked head isHead

/-- What fills a cell is its text without the white space at its ends. -/
theorem filledText_of_isPlain {inner : List Lexeme} {left content right : Text}
    (plain : ∀ lexeme ∈ inner, lexeme.IsPlain)
    (textEq : textOf inner = left ++ (content ++ right)) (space : left.IsSpace)
    (space' : right.IsSpace) (inkedFirst : ∀ first ∈ content.head?, isSpace first = false)
    (inkedLast : ∀ last ∈ content.getLast?, isSpace last = false ∧ last ≠ '\\') :
    filledText inner = content := by
  obtain ⟨front, back, whole, empty⟩ := exists_around_filledPart inner
  have spaceFront : (textOf front).IsSpace := isSpace_textOf
    (fun lexeme member => plain lexeme (by rw [whole]; simp [member]))
    (fun lexeme member => empty lexeme (by simp [member]))
  have spaceBack : (textOf back).IsSpace := isSpace_textOf
    (fun lexeme member => plain lexeme (by rw [whole]; simp [member]))
    (fun lexeme member => empty lexeme (by simp [member]))
  have texts : textOf front ++ (filledText inner ++ textOf back) = left ++ (content ++ right) := by
    rw [← textEq]
    conv => rhs; rw [whole]
    simp [filledText, textOf]
  rcases filledText_append_eq plain texts spaceFront spaceBack space space' inkedFirst with
    ⟨nothing, nothing'⟩ | behind
  · rw [nothing, nothing']
  rcases filledText_cases plain with nothing | ⟨-, ends⟩
  · rw [nothing, List.nil_append] at behind
    rw [nothing]
    refine (eq_nil_of_isSpace (fun character isContent => ?_) inkedFirst).symm
    exact spaceBack character (by simp [behind, isContent])
  by_cases endsWithSpace : ∃ last ∈ (filledText inner).getLast?, isSpace last = true
  · -- A control space at the end is no white space that the content could lose.
    obtain ⟨last, isLast, isSpaceLast⟩ := endsWithSpace
    obtain ⟨written, filledEq⟩ := ends last isLast isSpaceLast
    have split : (written ++ ['\\']) ++ (last :: textOf back) = content ++ right := by
      rw [← behind, filledEq]
      simp
    have same := eq_of_append_isSpace split (List.forall_mem_cons.mpr ⟨isSpaceLast, spaceBack⟩)
      space' (fun character isBackslash => by
        obtain rfl : '\\' = character := by simpa using isBackslash
        decide)
      (fun character isLast => (inkedLast character isLast).1)
    have noBackslash := (inkedLast '\\' (by simp [← same])).2
    exact absurd rfl noBackslash
  · refine eq_of_append_isSpace behind spaceBack space' (fun last isLast => ?_)
      (fun last isLast => (inkedLast last isLast).1)
    by_contra isSpaceLast
    exact endsWithSpace ⟨last, isLast, by simpa using isSpaceLast⟩

end Filled

section Unwrapped

variable {nested nested' : List Span} {offset : Nat} {context : Context}

theorem size_replicate_separator (count : Nat) : Text.size (List.replicate count '&') = count := by
  have width : '&'.utf8Size = 1 := by decide
  induction count with
  | zero => rfl
  | succ count ih => rw [List.replicate_succ, Text.size_cons, ih, width, Nat.add_comm]

/-- Ampersands outside all groups are separators. -/
theorem exists_cuts_separators (nested : List Span) (offset : Nat) (blank : Bool) (count : Nat)
    (rest : Text) :
    ∃ separators blank', Cuts nested offset ⟨0, blank⟩ (List.replicate count '&' ++ rest) separators
        ⟨0, blank'⟩ rest ∧
      separators.length = count ∧ ∀ lexeme ∈ separators, lexeme.kind = .separator := by
  induction count generalizing offset blank with
  | zero => exact ⟨[], blank, .nil, rfl, by simp⟩
  | succ count ih =>
      obtain ⟨separators, blank', cuts, length, kinds⟩ := ih (offset + Text.size ['&']) true
      have read : readPart nested offset ⟨0, blank⟩ '&' ([] ++ (List.replicate count '&' ++ rest))
          = (.separator, []) := readPart_eq_iff.mpr (.separator rfl rfl)
      exact ⟨⟨offset, .separator, ['&']⟩ :: separators, blank', .cons read cuts, by simp [length],
        List.forall_mem_cons.mpr ⟨rfl, kinds⟩⟩

/-- A merge is read in front of a blank cell, and its content closes its groups. -/
theorem of_readPart_merge {head : Char} {rest written : Text} {parts : MergeText}
    (read : readPart nested offset context head rest = (.merge parts, written)) :
    context = ⟨0, true⟩ ∧ head :: written = parts.text ∧
      ∀ more, untilClosed? 0 (parts.content ++ '}' :: more) = some parts.content := by
  obtain ⟨contextEq, textEq, behind, found⟩ := exists_of_readPart_merge read
  exact ⟨contextEq, textEq, (read?_eq_some_iff.mp found).1.content⟩

/-- The first character of what stays blank is no letter. -/
theorem notLetter_of_staysBlank {text : Text}
    (stays : StaysBlank (lex nested offset context text)) :
    ∀ character ∈ text.head?, Text.isLetter character = false := by
  intro character isHead
  obtain ⟨rest, rfl⟩ := List.head?_eq_some_iff.mp isHead
  rw [lex_cons] at stays
  have empty := stays.1
  generalize partEq : readPart nested offset context character rest = part at empty
  obtain ⟨kind, written⟩ := part
  cases readPart_eq_iff.mp partEq with
  | comment isPercent => rw [isPercent]; decide
  | environment isBackslash => rw [isBackslash]; decide
  | control isBackslash => rw [isBackslash]; decide
  | separator isAmpersand => rw [isAmpersand]; decide
  | space isBlank => exact Text.isLetter_eq_false_of_isBlank (isBlank_of_isSpace isBlank)
  | content => exact absurd empty (by simp [Kind.fillsCell])

/-- A merge is cut from the text between the lexemes in front of it and those behind it. -/
theorem exists_cut_merge {body : Text} {lead behind : List Lexeme} {place : Nat}
    {parts : MergeText}
    (lexed : lex nested offset .start body
      = lead ++ ⟨place, .merge parts, parts.text⟩ :: behind) :
    ∃ back, Cuts nested offset .start body lead ⟨0, true⟩ (parts.text ++ back) ∧
      place = offset + (textOf lead).size ∧
      lex nested (place + parts.text.size) ⟨0, false⟩ back = behind ∧
      untilClosed? 0 (parts.content ++ ['}']) = some parts.content := by
  obtain ⟨context', rest, cuts, lexedRest⟩ := exists_cuts lexed
  cases rest with
  | nil => simp at lexedRest
  | cons head tail =>
      rw [lex_cons] at lexedRest
      obtain ⟨back, tailEq⟩ :=
        readPart_isPrefix nested (offset + (textOf lead).size) context' head tail
      generalize partEq : readPart nested (offset + (textOf lead).size) context' head tail = part
        at lexedRest tailEq
      obtain ⟨kind, written⟩ := part
      dsimp only at lexedRest tailEq
      subst tailEq
      rw [List.drop_left] at lexedRest
      obtain ⟨first, lexedBack⟩ := List.cons.inj lexedRest
      obtain ⟨rfl, rfl, textEq⟩ := Lexeme.mk.inj first
      obtain ⟨rfl, -, closed⟩ := of_readPart_merge partEq
      have headEq : head = '\\' := (List.cons.inj (textEq.trans
        (rfl : parts.text = '\\' :: parts.text.tail))).1
      rw [← List.cons_append, textEq] at cuts
      refine ⟨back, cuts, rfl, ?_, closed []⟩
      rw [← lexedBack, ← textEq, headEq]
      rfl

/-- The content of a merge and separators are cut in front of what stays blank. -/
theorem exists_cuts_unwrapped {content back : Text} {place : Nat} (count : Nat)
    (closed : untilClosed? 0 (content ++ ['}']) = some content) (free : IsFree content)
    (unnested : ∀ inside, place ≤ inside → inside < place + content.size →
      nested.find? (·.start == inside) = none)
    (noLetter : ∀ character ∈ back.head?, Text.isLetter character = false) :
    ∃ inner separators blank, Cuts nested place ⟨0, true⟩
        (content ++ (List.replicate count '&' ++ back)) (inner ++ separators) ⟨0, blank⟩ back ∧
      textOf inner = content ∧ textOf separators = List.replicate count '&' ∧
      (∀ lexeme ∈ inner, lexeme.IsPlain) ∧ separators.length = count ∧
      ∀ lexeme ∈ separators, lexeme.kind = .separator := by
  have ends : ∀ character ∈ (List.replicate count '&' ++ back).head?,
      Text.isLetter character = false := by
    cases count with
    | zero => exact noLetter
    | succ count =>
        intro character isHead
        obtain rfl : '&' = character := by simpa [List.replicate_succ] using isHead
        decide
  obtain ⟨inner, blank, cutsInner, plain⟩ := exists_cuts_of_free
    (List.replicate count '&' ++ back) closed free ends unnested true
  obtain ⟨separators, blank', cutsSeparators, length, kinds⟩ := exists_cuts_separators nested
    (place + (textOf inner).size) blank count back
  exact ⟨inner, separators, blank', cutsInner.append cutsSeparators,
    (List.append_cancel_right cutsInner.text_eq).symm,
    (List.append_cancel_right cutsSeparators.text_eq).symm, plain, length, kinds⟩

/-- Where a merge gives way to its content and separators, their lexemes take its place. -/
theorem exists_lex_unwrapped {body : Text} {lead behind : List Lexeme} {place : Nat}
    {parts : MergeText}
    (lexed : lex nested offset .start body
      = lead ++ ⟨place, .merge parts, parts.text⟩ :: behind)
    (stays : StaysBlank behind) (uncommented : '%' ∉ body)
    (whole : ∀ lexeme ∈ lead, ∀ environment,
      nested.find? (·.start == lexeme.start) = some environment → environment.stop = lexeme.stop) :
    ∃ back, body = textOf lead ++ (parts.text ++ back) ∧ place = offset + (textOf lead).size ∧
      lex nested (place + parts.text.size) ⟨0, false⟩ back = behind ∧
      ∀ count, IsFree parts.content → Undisturbed (textOf lead) (parts.text ++ back)
          (parts.content ++ (List.replicate count '&' ++ back)) →
        (∀ lexeme ∈ lead,
          nested'.find? (·.start == lexeme.start) = nested.find? (·.start == lexeme.start)) →
        (∀ inside, place ≤ inside → inside < place + parts.content.size →
          nested'.find? (·.start == inside) = none) →
        NestedAlike nested nested' (place + parts.text.size) (place + parts.content.size + count) →
        ∃ inner separators behind',
          lex nested' offset .start
              (textOf lead ++ (parts.content ++ (List.replicate count '&' ++ back)))
            = lead ++ (inner ++ (separators ++ behind')) ∧
          textOf inner = parts.content ∧ (∀ lexeme ∈ inner, lexeme.IsPlain) ∧
          separators.length = count ∧ (∀ lexeme ∈ separators, lexeme.kind = .separator) ∧
          behind'.map Lexeme.token = behind.map Lexeme.token := by
  obtain ⟨back, cuts, rfl, rfl, closed⟩ := exists_cut_merge lexed
  have bodyEq := cuts.text_eq
  refine ⟨back, bodyEq, rfl, rfl, fun count free undisturbed lookup unnested alike => ?_⟩
  have closes : ∀ character, closesGroup character = true →
      character ∈ parts.content ++ (List.replicate count '&' ++ back) →
        character ∈ parts.text ++ back := by
    intro character isClose member
    simp only [List.mem_append, List.mem_replicate] at member ⊢
    rcases member with inContent | ⟨-, rfl⟩ | inBack
    · exact Or.inl (by simp [MergeText.text, inContent])
    · exact absurd isClose (by decide)
    · exact Or.inr inBack
  have leadAgain := cuts.before_change rfl lookup whole
    (fun member => uncommented (by simp [bodyEq, member])) (by simp [MergeText.text]) closes
    undisturbed
  obtain ⟨inner, separators, blank, cutsBehind, innerEq, separatorsEq, plain, length, kinds⟩ :=
    exists_cuts_unwrapped count closed free unnested (notLetter_of_staysBlank stays)
  have cutsAll := leadAgain.append cutsBehind
  have sizes : offset + (textOf (lead ++ (inner ++ separators))).size
      = offset + (textOf lead).size + parts.content.size + count := by
    rw [textOf_append, textOf_append, Text.size_append, Text.size_append, innerEq, separatorsEq,
      size_replicate_separator]
    omega
  refine ⟨inner, separators, lex nested' (offset + (textOf lead).size + parts.content.size
    + count) ⟨0, blank⟩ back, ?_, innerEq, plain, length, kinds, ?_⟩
  · rw [cutsAll.lex_eq, sizes, List.append_assoc, List.append_assoc]
  · exact map_token_lex back alike rfl (Or.inr ⟨rfl, stays⟩)

end Unwrapped

end LatexTabular.Body
