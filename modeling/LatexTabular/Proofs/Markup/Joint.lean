import LatexTabular.Proofs.Markup.Environment

/-!
# Delimiters where texts are joined

A delimiter is written as a command, blank characters and a name in braces
(`delimiter?_eq_some_iff`).  It ends at its closing brace and holds neither a separator nor another
backslash, so it does not reach across such a character (`delimitersFrom_append_fence`), and a
text without a closing brace adds no delimiter to the text in front of it
(`delimitersFrom_append_of_noBrace`).
-/

namespace LatexTabular.Markup

open Text

/-- The names of environments: letters with an optional star. -/
def IsName (name : Text) : Prop :=
  ∃ letters, letters ≠ [] ∧ letters.all isLetter = true ∧
    (name = letters ∨ name = letters ++ ['*'])

/-- A delimiter with blank characters between its command and its name. -/
def delimiterOf (opens : Bool) (gap name : Text) : Text :=
  '\\' :: ((if opens then "begin".toList else "end".toList) ++ (gap ++ '{' :: (name ++ ['}'])))

theorem bracedName?_eq_some_iff {text name : Text} :
    bracedName? text = some name ↔ IsName name ∧ ∃ rest, text = '{' :: (name ++ '}' :: rest) := by
  constructor
  · intro found
    obtain ⟨⟨rest, textEq⟩, -⟩ := eq_append_of_bracedName? found
    refine ⟨?_, rest, by simpa using textEq⟩
    unfold bracedName? at found
    split at found
    next inside =>
      have letters : (inside.takeWhile isLetter).all isLetter = true :=
        List.all_takeWhile
      generalize inside.takeWhile isLetter = word at found letters
      split at found
      next => simp at found
      next nonempty =>
        split at found
        next => exact ⟨_, nonempty, letters, Or.inl (Option.some.inj found).symm⟩
        next => exact ⟨_, nonempty, letters, Or.inr (Option.some.inj found).symm⟩
        next => simp at found
    next => simp at found
  · rintro ⟨⟨letters, nonempty, areLetters, nameEq⟩, rest, rfl⟩
    have closes : isLetter '}' = false := by decide
    have star : isLetter '*' = false := by decide
    have taken (next : Char) (others : Text) (ends : isLetter next = false) :
        (letters ++ next :: others).takeWhile isLetter = letters := by
      rw [List.takeWhile_append_of_pos (List.all_eq_true.mp areLetters),
        List.takeWhile_cons_of_neg (by simp [ends]), List.append_nil]
    rcases nameEq with rfl | rfl
    · simp only [bracedName?, taken '}' rest closes, List.drop_left]
    · rw [List.append_assoc, List.singleton_append]
      simp only [bracedName?, taken '*' ('}' :: rest) star, List.drop_left]

/-- What is read behind a command of a delimiter. -/
theorem named_eq_some_iff {text name gap : Text} :
    gap = text.takeWhile isBlank ∧ bracedName? (text.drop gap.length) = some name ↔
      allBlank gap = true ∧ IsName name ∧ ∃ rest, text = gap ++ '{' :: (name ++ '}' :: rest) := by
  have opens : isBlank '{' = false := by decide
  constructor
  · rintro ⟨rfl, named⟩
    obtain ⟨isName, rest, behind⟩ := bracedName?_eq_some_iff.mp named
    refine ⟨List.all_takeWhile, isName, rest, ?_⟩
    rw [← behind]
    exact (List.prefix_iff_eq_append.mp (List.takeWhile_prefix _)).symm
  · rintro ⟨blank, isName, rest, rfl⟩
    have taken : (gap ++ '{' :: (name ++ '}' :: rest)).takeWhile isBlank = gap := by
      rw [List.takeWhile_append_of_pos (List.all_eq_true.mp blank),
        List.takeWhile_cons_of_neg (by simp [opens]), List.append_nil]
    refine ⟨taken.symm, ?_⟩
    rw [List.drop_left]
    exact bracedName?_eq_some_iff.mpr ⟨isName, rest, rfl⟩

theorem size_delimiterOf (opens : Bool) (gap name : Text) :
    (delimiterOf opens gap name).size
      = Text.size (if opens then "\\begin".toList else "\\end".toList) + gap.size + name.size
        + 2 := by
  have opened : '{'.utf8Size = 1 := by decide
  have closed : Text.size ['}'] = 1 := by decide
  have command : Text.size (if opens then "\\begin".toList else "\\end".toList)
      = '\\'.utf8Size + Text.size (if opens then "begin".toList else "end".toList) := by
    cases opens <;> rfl
  rw [delimiterOf, Text.size_cons, Text.size_append, Text.size_append, Text.size_cons,
    Text.size_append, opened, closed, command]
  omega

/-- A delimiter is read where one is written. -/
theorem delimiter?_eq_some_iff {offset : Nat} {text : Text} {delimiter : Delimiter} :
    delimiter? offset text = some delimiter ↔
      ∃ opens gap name rest, allBlank gap = true ∧ IsName name ∧
        text = delimiterOf opens gap name ++ rest ∧
        delimiter = ⟨opens, name, ⟨offset, offset + (delimiterOf opens gap name).size⟩⟩ := by
  have command (opens : Bool) (gap name rest : Text) : delimiterOf opens gap name ++ rest
      = (if opens then "\\begin".toList else "\\end".toList)
        ++ (gap ++ '{' :: (name ++ '}' :: rest)) := by
    cases opens <;> simp [delimiterOf]
  constructor
  · intro found
    simp only [delimiter?, Option.orElse_eq_or, Option.or_eq_some_iff, Option.bind_eq_bind,
      Option.bind_eq_some_iff, Option.pure_def, Option.some.injEq] at found
    rcases found with ⟨rest, isBegin, name, named, rfl⟩ | ⟨-, rest, isEnd, name, named, rfl⟩
    · obtain ⟨blank, isName, behind, restEq⟩ := named_eq_some_iff.mp ⟨rfl, named⟩
      refine ⟨true, _, name, behind, blank, isName, ?_, ?_⟩
      · rw [command, ← restEq]
        exact eq_append_of_after? isBegin
      · rw [size_delimiterOf]
        simp only [if_true, Nat.add_assoc]
    · obtain ⟨blank, isName, behind, restEq⟩ := named_eq_some_iff.mp ⟨rfl, named⟩
      refine ⟨false, _, name, behind, blank, isName, ?_, ?_⟩
      · rw [command, ← restEq]
        exact eq_append_of_after? isEnd
      · rw [size_delimiterOf]
        simp only [Bool.false_eq_true, if_false, Nat.add_assoc]
  · rintro ⟨opens, gap, name, rest, blank, isName, rfl, rfl⟩
    obtain ⟨gapEq, named⟩ := named_eq_some_iff.mpr ⟨blank, isName, rest, rfl⟩
    have read := after?_append (if opens then "\\begin".toList else "\\end".toList)
      (gap ++ '{' :: (name ++ '}' :: rest))
    rw [command, size_delimiterOf]
    cases opens with
    | true =>
        simp only [if_true] at read
        simp only [delimiter?, if_true, read, Option.bind_eq_bind, Option.bind_some, ← gapEq, named]
        simp only [Option.pure_def, Option.orElse_some, Nat.add_assoc]
    | false =>
        have noBegin : Text.after? "\\begin".toList
            ("\\end".toList ++ (gap ++ '{' :: (name ++ '}' :: rest))) = none := by
          simp [Text.after?]
        simp only [Bool.false_eq_true, if_false] at read
        simp only [delimiter?, Bool.false_eq_true, if_false, noBegin, read, Option.bind_eq_bind,
          Option.bind_some, Option.bind_none, ← gapEq, named]
        simp only [Option.pure_def, Option.orElse_none, Nat.add_assoc]

/-- A delimiter ends at its only closing brace. -/
theorem exists_delimiterOf_eq (opens : Bool) {gap name : Text} (blank : allBlank gap = true)
    (isName : IsName name) : ∃ init, delimiterOf opens gap name = '\\' :: (init ++ ['}']) ∧
      ∀ character ∈ init, character ≠ '}' ∧ character ≠ '&' ∧ character ≠ '\\' := by
  refine ⟨(if opens then "begin".toList else "end".toList) ++ (gap ++ '{' :: name),
    by simp [delimiterOf], fun character member => ?_⟩
  have ofClass {accepts : Char → Bool} (accepted : accepts character = true)
      (apart : accepts '}' = false ∧ accepts '&' = false ∧ accepts '\\' = false) :
      character ≠ '}' ∧ character ≠ '&' ∧ character ≠ '\\' := by
    refine ⟨?_, ?_, ?_⟩ <;>
    · rintro rfl
      simp [accepted] at apart
  rcases List.mem_append.mp member with inCommand | member
  · have letters : ∀ letter ∈ (if opens then "begin".toList else "end".toList),
        isLetter letter = true :=
      List.all_eq_true.mp (by cases opens <;> decide)
    exact ofClass (letters character inCommand) (by decide)
  rcases List.mem_append.mp member with inGap | member
  · exact ofClass (List.all_eq_true.mp blank character inGap) (by decide)
  rcases List.mem_cons.mp member with rfl | inName
  · decide
  obtain ⟨letters, -, areLetters, nameEq⟩ := isName
  have letterOrStar : isLetter character = true ∨ character = '*' := by
    rcases nameEq with rfl | rfl
    · exact Or.inl (List.all_eq_true.mp areLetters character inName)
    · rcases List.mem_append.mp inName with inLetters | isStar
      · exact Or.inl (List.all_eq_true.mp areLetters character inLetters)
      · exact Or.inr (List.mem_singleton.mp isStar)
  rcases letterOrStar with letter | rfl
  · exact ofClass letter (by decide)
  · decide

/-- What lies at the front of two texts joined lies in the first of them or reaches into the
second. -/
theorem isPrefix_or_reaches {front rest part : Text} (isPart : part <+: front ++ rest) :
    part <+: front ∨ ∃ inside, inside ≠ [] ∧ part = front ++ inside ∧ inside <+: rest := by
  obtain ⟨behind, joined⟩ := isPart
  rcases List.append_eq_append_iff.mp joined with ⟨between, rfl, -⟩ | ⟨inside, rfl, rfl⟩
  · exact Or.inl ⟨between, rfl⟩
  · cases inside with
    | nil => exact Or.inl ⟨[], by simp⟩
    | cons head tail => exact Or.inr ⟨_, List.cons_ne_nil _ _, rfl, behind, rfl⟩

/-- A delimiter is read at the front of any text that goes on behind it. -/
theorem delimiter?_congr {offset : Nat} {text text' : Text}
    (same : ∀ opens gap name, allBlank gap = true → IsName name →
      (delimiterOf opens gap name <+: text ↔ delimiterOf opens gap name <+: text')) :
    delimiter? offset text = delimiter? offset text' := by
  have transfer {from' to' : Text} (keeps : ∀ opens gap name, allBlank gap = true → IsName name →
      delimiterOf opens gap name <+: from' → delimiterOf opens gap name <+: to')
      {delimiter : Delimiter} (found : delimiter? offset from' = some delimiter) :
      delimiter? offset to' = some delimiter := by
    obtain ⟨opens, gap, name, rest, blank, isName, rfl, rfl⟩ := delimiter?_eq_some_iff.mp found
    obtain ⟨behind, rfl⟩ := keeps opens gap name blank isName ⟨rest, rfl⟩
    exact delimiter?_eq_some_iff.mpr ⟨opens, gap, name, behind, blank, isName, rfl, rfl⟩
  refine Option.ext fun delimiter => ⟨transfer ?_, transfer ?_⟩
  · exact fun opens gap name blank isName => (same opens gap name blank isName).mp
  · exact fun opens gap name blank isName => (same opens gap name blank isName).mpr

/-- A text without a closing brace ends no delimiter. -/
theorem delimiter?_append_of_noBrace (offset : Nat) (front : Text) {rest : Text}
    (noBrace : '}' ∉ rest) : delimiter? offset (front ++ rest) = delimiter? offset front := by
  refine delimiter?_congr fun opens gap name blank isName => ⟨fun isPart => ?_, fun isPart => ?_⟩
  · rcases isPrefix_or_reaches isPart with inFront | ⟨inside, nonempty, textEq, inRest⟩
    · exact inFront
    · obtain ⟨init, written, -⟩ := exists_delimiterOf_eq opens blank isName
      rw [written] at textEq
      have last := congrArg List.getLast? textEq
      rw [← List.cons_append, List.getLast?_concat, List.getLast?_append_of_ne_nil _ nonempty]
        at last
      exact absurd (inRest.subset (List.mem_of_getLast? last.symm)) noBrace
  · exact isPart.trans (List.prefix_append front rest)

theorem delimitersFrom_append_of_noBrace (offset : Nat) (front : Text) {rest : Text}
    (noBrace : '}' ∉ rest) :
    delimitersFrom offset (front ++ rest) = delimitersFrom offset front := by
  induction front generalizing offset with
  | nil =>
      induction rest generalizing offset with
      | nil => rfl
      | cons head tail ih =>
          have unread : delimiter? offset (head :: tail) = none :=
            delimiter?_append_of_noBrace offset [] noBrace
          have others := ih (fun member => noBrace (List.mem_cons_of_mem _ member))
            (offset + head.utf8Size)
          rw [List.nil_append] at others ⊢
          simp only [delimitersFrom, unread, others]
  | cons head front ih =>
      have first := delimiter?_append_of_noBrace offset (head :: front) noBrace
      rw [List.cons_append] at first ⊢
      rw [delimitersFrom, delimitersFrom, first, ih]

/-- The characters that stand in a delimiter at its ends only. -/
def isFence (character : Char) : Bool := character == '}' || character == '&' || character == '\\'

/-- No delimiter that starts in front of a fence reaches over it. -/
theorem delimiter?_append_fence (offset : Nat) {front : Text} (nonempty : front ≠ [])
    {fence : Char} (isFenced : isFence fence = true) (rest : Text) :
    delimiter? offset (front ++ fence :: rest) = delimiter? offset (front ++ [fence]) := by
  have shorter : front ++ [fence] <+: front ++ fence :: rest :=
    ⟨rest, by rw [List.append_assoc, List.singleton_append]⟩
  refine delimiter?_congr fun opens gap name blank isName => ⟨fun isPart => ?_, fun isPart => ?_⟩
  · rcases isPrefix_or_reaches isPart with inFront | ⟨inside, notNil, textEq, inRest⟩
    · exact inFront.trans (List.prefix_append front [fence])
    · obtain ⟨init, written, inner⟩ := exists_delimiterOf_eq opens blank isName
      obtain ⟨head, tail, rfl⟩ := List.exists_cons_of_ne_nil nonempty
      obtain ⟨first, others, rfl⟩ := List.exists_cons_of_ne_nil notNil
      obtain rfl : first = fence := (List.cons_prefix_cons.mp inRest).1
      rw [textEq]
      cases others with
      | nil => exact List.prefix_rfl
      | cons next others =>
          -- The fence stands inside the delimiter.
          rw [written, List.cons_append] at textEq
          have inInit : first ∈ init := by
            have dropped := congrArg List.dropLast (List.cons.inj textEq).2
            rw [List.dropLast_concat, List.dropLast_append_of_ne_nil (List.cons_ne_nil _ _),
              List.dropLast_cons_of_ne_nil (List.cons_ne_nil _ _)] at dropped
            simp [dropped]
          have special := inner first inInit
          simp only [isFence, Bool.or_eq_true, beq_iff_eq] at isFenced
          tauto
  · exact isPart.trans shorter

/-- The delimiters around a fence are those in front of it and those behind it. -/
theorem delimitersFrom_append_fence (offset : Nat) (front : Text) {fence : Char}
    (isFenced : isFence fence = true) (rest : Text) :
    delimitersFrom offset (front ++ fence :: rest)
      = delimitersFrom offset (front ++ [fence])
        ++ delimitersFrom (offset + front.size) (fence :: rest) := by
  induction front generalizing offset with
  | nil =>
      have unread : delimiter? offset [fence] = none := by
        refine Option.eq_none_iff_forall_ne_some.mpr fun delimiter found => ?_
        obtain ⟨opens, gap, name, rest, -, -, textEq, -⟩ := delimiter?_eq_some_iff.mp found
        have sizes := congrArg List.length textEq
        simp [delimiterOf] at sizes
      have alone : delimitersFrom offset [fence] = [] := by
        simp only [delimitersFrom, unread]
      rw [List.nil_append, List.nil_append, alone]
      rfl
  | cons head front ih =>
      have first := delimiter?_append_fence offset (List.cons_ne_nil head front) isFenced rest
      rw [List.cons_append, List.cons_append] at first
      rw [List.cons_append, List.cons_append, delimitersFrom, delimitersFrom, first, ih,
        Text.size_cons, Nat.add_assoc]
      cases delimiter? offset (head :: (front ++ [fence])) <;> rfl

end LatexTabular.Markup
