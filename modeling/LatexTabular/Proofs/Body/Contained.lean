import LatexTabular.Proofs.Body.Cutting

/-!
# The content of a merge without its command

The content of a merge closes all groups that it opens.  If it holds no token of a table, it is
cut into content and white space wherever it stands (`exists_cuts_of_free`).
-/

namespace LatexTabular.Body

open Markup

/-- Whether the name of a control sequence is neither that of a terminator nor that of a rule or a
merge. -/
def IsInert (name : Text) : Prop :=
  name ≠ ['\\'] ∧ ruleCommands.lookup name = none ∧ name ≠ MergeText.name

/-- Whether no token of a table stands in a text. -/
structure IsFree (text : Text) : Prop where
  separator : '&' ∉ text
  comment : '%' ∉ text
  controls : ∀ front rest, text = front ++ '\\' :: rest → IsInert (controlName rest)

theorem IsFree.of_append {front rest : Text} (free : IsFree (front ++ rest)) : IsFree rest where
  separator member := free.separator (List.mem_append_right front member)
  comment member := free.comment (List.mem_append_right front member)
  controls before behind restEq :=
    free.controls (front ++ before) behind (by rw [restEq, List.append_assoc])

/-- Whether a lexeme is white space, or content that begins and ends with something else unless it
is a control space. -/
def Lexeme.IsPlain (lexeme : Lexeme) : Prop :=
  (lexeme.kind = .space ∧ lexeme.text.IsSpace) ∨
    lexeme.kind = .content ∧ (∃ first ∈ lexeme.text.head?, isSpace first = false) ∧
      ∀ last ∈ lexeme.text.getLast?, isSpace last = true → lexeme.text = ['\\', last]

theorem Lexeme.IsPlain.kind {lexeme : Lexeme} (plain : lexeme.IsPlain) :
    lexeme.kind = .space ∨ lexeme.kind = .content :=
  plain.imp (·.1) (·.1)

section UntilClosed

variable {depth : Nat} {head : Char} {content more : Text}

/-- Letters neither open nor close a group. -/
theorem untilClosed?_of_ordinary {front : Text}
    (ordinary : ∀ character ∈ front, character ≠ '\\' ∧ character ≠ '{' ∧ character ≠ '}')
    (closed : untilClosed? depth (front ++ content ++ '}' :: more) = some (front ++ content)) :
    untilClosed? depth (content ++ '}' :: more) = some content := by
  induction front with
  | nil => exact closed
  | cons head front ih =>
      have first := ordinary head List.mem_cons_self
      rw [List.cons_append, List.cons_append,
        untilClosed?_cons_ordinary _ first.1 first.2.1 first.2.2] at closed
      obtain ⟨inner, found, innerEq⟩ := Option.map_eq_some_iff.mp closed
      obtain rfl := (List.cons.inj innerEq).2
      exact ih (fun character member => ordinary character (List.mem_cons_of_mem _ member)) found

end UntilClosed

theorem ordinary_of_isLetter {character : Char} (letter : Text.isLetter character = true) :
    character ≠ '\\' ∧ character ≠ '{' ∧ character ≠ '}' := by
  refine ⟨?_, ?_, ?_⟩ <;>
  · rintro rfl
    exact absurd letter (by decide)

/-- A control sequence without a meaning is its name. -/
theorem readControl_of_isInert {context : Context} {text : Text}
    (inert : IsInert (controlName text)) :
    readControl context text = (.content, controlName text) := by
  obtain ⟨noTerminator, noRule, noMerge⟩ := inert
  exact readControl_eq_iff.mpr ⟨[], .plain noTerminator noRule fun isMerge => absurd isMerge noMerge,
    (List.append_nil _).symm⟩

/-- Content is read from a backslash with the name behind it. -/
theorem eq_controlName_of_content {context : Context} {text written : Text}
    (read : readControl context text = (.content, written)) : written = controlName text := by
  obtain ⟨taken, takes, rfl⟩ := readControl_eq_iff.mp read
  cases takes <;> exact List.append_nil _

/-- A control sequence ends with white space only if it is a control space. -/
theorem eq_of_isSpace_getLast?_controlName {text : Text} {last : Char}
    (isLast : ('\\' :: controlName text).getLast? = some last) (isSpaceLast : isSpace last = true) :
    '\\' :: controlName text = ['\\', last] := by
  cases text with
  | nil =>
      obtain rfl : '\\' = last := by simpa [controlName] using isLast
      exact absurd isSpaceLast (by decide)
  | cons head rest =>
      rcases @controlName_cases (head :: rest) (List.cons_ne_nil _ _) with
        ⟨first, others, -, -, named⟩ | ⟨name, others, -, notNil, letters, -, named⟩
      · rw [named] at isLast ⊢
        obtain rfl : first = last := by simpa using isLast
        rfl
      · rw [named, List.getLast?_cons_of_ne_nil notNil] at isLast
        have letter := List.all_eq_true.mp letters last (List.mem_of_mem_getLast? isLast)
        rw [Text.isLetter_eq_false_of_isBlank (isBlank_of_isSpace isSpaceLast)] at letter
        exact absurd letter Bool.false_ne_true

/-- White space and content outside environments are plain. -/
theorem isPlain_of_readPart {nested : List Span} {offset : Nat} {context : Context} {head : Char}
    {rest tail : Text} {kind : Kind} (unnested : nested.find? (·.start == offset) = none)
    (read : readPart nested offset context head rest = (kind, tail))
    (isKind : kind = .space ∨ kind = .content) :
    Lexeme.IsPlain ⟨offset, kind, head :: tail⟩ := by
  cases readPart_eq_iff.mp read with
  | comment => simp at isKind
  | environment _ found => simp [unnested] at found
  | control isBackslash _ ofControl =>
      subst isBackslash
      rcases isKind with rfl | rfl
      · obtain ⟨taken, takes, -⟩ := readControl_eq_iff.mp ofControl
        cases takes
      · obtain rfl := eq_controlName_of_content ofControl
        refine Or.inr ⟨rfl, ⟨'\\', rfl, by decide⟩, fun last isLast isSpaceLast => ?_⟩
        exact eq_of_isSpace_getLast?_controlName isLast isSpaceLast
  | separator => simp at isKind
  | space isBlank => exact Or.inl ⟨rfl, by simpa [Text.IsSpace] using isBlank⟩
  | content _ _ _ noSpace =>
      refine Or.inr ⟨rfl, ⟨head, rfl, noSpace⟩, fun last isLast isSpaceLast => ?_⟩
      obtain rfl : head = last := by simpa using isLast
      simp [noSpace] at isSpaceLast

section First

variable {nested : List Span} {depth offset : Nat} {head : Char} {tail more : Text} (rest : Text)

/-- The control sequence at the front of free text is content, and what is behind it closes the
groups that are open. -/
theorem exists_control_of_free
    (closed : untilClosed? depth ('\\' :: tail ++ '}' :: more) = some ('\\' :: tail))
    (free : IsFree ('\\' :: tail))
    (ends : ∀ character ∈ rest.head?, Text.isLetter character = false)
    (context : Context) :
    ∃ name others, tail = name ++ others ∧
      readControl context (name ++ (others ++ rest)) = (.content, name) ∧
      untilClosed? depth (others ++ '}' :: more) = some others := by
  cases tail with
  | nil =>
      simp only [List.cons_append, List.nil_append, untilClosed?] at closed
      obtain ⟨inner, -, innerEq⟩ := Option.map_eq_some_iff.mp closed
      simp at innerEq
  | cons hidden tail =>
      simp only [List.cons_append, untilClosed?] at closed
      obtain ⟨inner, found, innerEq⟩ := Option.map_eq_some_iff.mp closed
      obtain rfl : inner = tail := by simpa using innerEq
      have inert := free.controls [] (hidden :: inner) rfl
      rcases @controlName_cases (hidden :: inner) (List.cons_ne_nil _ _) with
        ⟨first, others, textEq, noLetter, named⟩ |
        ⟨name, others, textEq, notNil, letters, stops, named⟩
      · obtain ⟨rfl, rfl⟩ := List.cons.inj textEq
        have named' : controlName (hidden :: (inner ++ rest)) = [hidden] := by
          simp [controlName, noLetter]
        refine ⟨[hidden], inner, rfl, ?_, found⟩
        rw [named, ← named'] at inert
        rw [List.singleton_append, readControl_of_isInert inert, named']
      · obtain ⟨first, name, rfl⟩ := List.exists_cons_of_ne_nil notNil
        obtain ⟨rfl, rfl⟩ := List.cons.inj textEq
        have named' : controlName (hidden :: name ++ (others ++ rest)) = hidden :: name := by
          refine controlName_of_letters notNil letters fun character isHead => ?_
          cases others with
          | nil => exact ends character isHead
          | cons next others => exact stops character isHead
        rw [List.all_eq_true] at letters
        refine ⟨hidden :: name, others, rfl, ?_, untilClosed?_of_ordinary (fun character member =>
          ordinary_of_isLetter (letters character (List.mem_cons_of_mem _ member))) found⟩
        rw [named, ← named'] at inert
        rw [readControl_of_isInert inert, named']

/-- The first lexeme of free text is content or white space, and what is behind it closes the
groups that are open then. -/
theorem exists_first_of_free
    (closed : untilClosed? depth (head :: tail ++ '}' :: more) = some (head :: tail))
    (free : IsFree (head :: tail))
    (ends : ∀ character ∈ rest.head?, Text.isLetter character = false)
    (unnested : nested.find? (·.start == offset) = none) (blank : Bool) :
    ∃ name others kind, tail = name ++ others ∧ (kind = .space ∨ kind = .content) ∧
      readPart nested offset ⟨depth, blank⟩ head (name ++ (others ++ rest)) = (kind, name) ∧
      untilClosed? ((⟨depth, blank⟩ : Context).after head kind).depth (others ++ '}' :: more)
        = some others := by
  have notComment : head ≠ '%' := fun equal => free.comment (by simp [equal])
  have notSeparator : head ≠ '&' := fun equal => free.separator (by simp [equal])
  by_cases isBackslash : head = '\\'
  · subst isBackslash
    obtain ⟨name, others, tailEq, read, closedBehind⟩ :=
      exists_control_of_free rest closed free ends ⟨depth, blank⟩
    refine ⟨name, others, .content, tailEq, Or.inr rfl, ?_, closedBehind⟩
    exact readPart_eq_iff.mpr (.control rfl unnested read)
  obtain ⟨kind, isKind, reads⟩ : ∃ kind, (kind = .space ∨ kind = .content) ∧
      ReadsAs nested offset ⟨depth, blank⟩ head (tail ++ rest) kind [] := by
    by_cases space : isSpace head = true
    · exact ⟨.space, Or.inl rfl, .space space⟩
    · exact ⟨.content, Or.inr rfl, .content notComment isBackslash
        (fun isAmpersand => absurd isAmpersand notSeparator) (by simpa using space)⟩
  refine ⟨[], tail, kind, rfl, isKind, readPart_eq_iff.mpr reads, ?_⟩
  rw [List.cons_append] at closed
  have found {other : Option Text} (closed : other.map (head :: ·) = some (head :: tail)) :
      other = some tail := by
    obtain ⟨inner, found, innerEq⟩ := Option.map_eq_some_iff.mp closed
    rw [found, (List.cons.inj innerEq).2]
  by_cases isOpening : head = '{'
  · subst isOpening
    exact found closed
  by_cases isClosing : head = '}'
  · subst isClosing
    cases depth with
    | zero => simp [untilClosed?] at closed
    | succ depth => exact found closed
  rw [untilClosed?_cons_ordinary _ isBackslash isOpening isClosing] at closed
  simp only [Context.after, isOpening, isClosing, if_false]
  exact found closed

end First

/-- The content of a merge is cut into content and white space, and closes its groups. -/
theorem exists_cuts_of_free {nested : List Span} {depth offset : Nat} {content more : Text}
    (rest : Text) (closed : untilClosed? depth (content ++ '}' :: more) = some content)
    (free : IsFree content) (ends : ∀ character ∈ rest.head?, Text.isLetter character = false)
    (unnested : ∀ place, offset ≤ place → place < offset + content.size →
      nested.find? (·.start == place) = none) (blank : Bool) :
    ∃ lexemes blank', Cuts nested offset ⟨depth, blank⟩ (content ++ rest) lexemes ⟨0, blank'⟩ rest ∧
      ∀ lexeme ∈ lexemes, lexeme.IsPlain := by
  induction lengthEq : content.length using Nat.strong_induction_on
    generalizing content depth offset blank with
  | _ length ih =>
      cases content with
      | nil =>
          cases depth with
          | zero => exact ⟨[], blank, .nil, by simp⟩
          | succ depth => simp [untilClosed?] at closed
      | cons head tail =>
          have positive := head.utf8Size_pos
          obtain ⟨name, others, kind, rfl, isKind, read, closedBehind⟩ := exists_first_of_free rest
            closed free ends (unnested offset (Nat.le_refl _) (by rw [Text.size_cons]; omega)) blank
          have shorter : others.length < length := by
            rw [← lengthEq, List.length_cons, List.length_append]
            omega
          have freeBehind : IsFree others :=
            @IsFree.of_append (head :: name) others (by simpa using free)
          have unnestedBehind : ∀ place, offset + Text.size (head :: name) ≤ place →
              place < offset + Text.size (head :: name) + others.size →
              nested.find? (·.start == place) = none := by
            intro place begins stops
            refine unnested place (by omega) ?_
            rw [Text.size_cons, Text.size_append]
            rw [Text.size_cons] at stops
            omega
          obtain ⟨lexemes, blank', cuts, kinds⟩ := ih others.length shorter closedBehind freeBehind
            unnestedBehind ((⟨depth, blank⟩ : Context).after head kind).cellIsBlank rfl
          refine ⟨⟨offset, kind, head :: name⟩ :: lexemes, blank', ?_,
            List.forall_mem_cons.mpr ⟨isPlain_of_readPart
              (unnested offset (Nat.le_refl _) (by rw [Text.size_cons]; omega)) read isKind, kinds⟩⟩
          rw [List.cons_append, List.append_assoc]
          exact .cons read cuts

end LatexTabular.Body
