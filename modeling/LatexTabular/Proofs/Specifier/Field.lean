import LatexTabular.Proofs.Specifier.Piece
import Mathlib.Data.List.Chain

/-!
# Fields of specifiers

A column is described by a letter and by the pieces around it.  Between two letters, the bars
and groups directly behind the first belong to its column, and what stands there from the first
other character on belongs to the next (`Field.Precedes`).  `Specifier.fields` cuts a specifier
accordingly, and its columns are those of its fields (`Specifier.columns_eq_map_column`).
-/

namespace LatexTabular.Specifier

/-- The number of bars among pieces. -/
def ruleCount (pieces : List Piece) : Nat := pieces.countP Piece.isRule

/-- The pieces that are markup. -/
def ink (pieces : List Piece) : List Piece := pieces.filter Piece.isInk

@[simp] theorem ruleCount_nil : ruleCount [] = 0 := rfl

@[simp] theorem ink_nil : ink [] = [] := rfl

@[simp] theorem ruleCount_append (left right : List Piece) :
    ruleCount (left ++ right) = ruleCount left + ruleCount right := List.countP_append

@[simp] theorem ink_append (left right : List Piece) :
    ink (left ++ right) = ink left ++ ink right := List.filter_append ..

theorem ruleCount_cons (piece : Piece) (rest : List Piece) :
    ruleCount (piece :: rest) = ruleCount [piece] + ruleCount rest :=
  ruleCount_append [piece] rest

theorem ink_cons (piece : Piece) (rest : List Piece) :
    ink (piece :: rest) = ink [piece] ++ ink rest := ink_append [piece] rest

@[simp] theorem ruleCount_symbol (character : Char) :
    ruleCount [.symbol character] = if character = '|' then 1 else 0 := by
  simp [ruleCount, List.countP_cons, Piece.isRule]

@[simp] theorem ruleCount_group (text : Text) : ruleCount [.group text] = 0 := rfl

@[simp] theorem ink_symbol (character : Char) :
    ink [.symbol character]
      = if character = '|' ∨ Text.isBlank character then [] else [.symbol character] := by
  by_cases bar : character = '|' <;> cases blank : Text.isBlank character <;>
    simp [ink, Piece.isInk, Piece.isRule, Piece.isSpace, bar, blank]

@[simp] theorem ink_group (text : Text) : ink [.group text] = [.group text] := rfl

namespace Piece

theorem letter?_eq_some {piece : Piece} {letter : Char} :
    piece.letter? = some letter ↔ piece = .symbol letter ∧ Text.isLetter letter := by
  cases piece with
  | symbol character =>
      by_cases isLetter : Text.isLetter character
      · simp only [letter?, if_pos isLetter, Option.some.injEq, symbol.injEq]
        exact ⟨fun equal => ⟨equal, equal ▸ isLetter⟩, And.left⟩
      · simp only [letter?, if_neg isLetter, reduceCtorEq, false_iff, symbol.injEq]
        rintro ⟨rfl, letter⟩
        exact isLetter letter
  | group text => simp [letter?]

/-- Whether a piece directly behind a letter belongs to its column. -/
def settles (piece : Piece) : Bool := piece.isRule || piece.isGroup

/-- A whole piece that is neither a letter nor blank. -/
structure IsBeside (piece : Piece) : Prop where
  whole : piece.IsWhole
  noLetter : piece.letter? = none
  notBlank : piece.isSpace = false

theorem IsBeside.not_isLetter {character : Char} (isBeside : (symbol character).IsBeside) :
    Text.isLetter character = false := by
  simpa [letter?] using isBeside.noLetter

theorem IsBeside.not_isBlank {character : Char} (isBeside : (symbol character).IsBeside) :
    Text.isBlank character = false := isBeside.notBlank

theorem IsBeside.ink_eq {piece : Piece} (isBeside : piece.IsBeside)
    (noRule : piece.isRule = false) : ink [piece] = [piece] := by
  simp [ink, isInk, noRule, isBeside.notBlank]

end Piece

/-! ## Reading pieces beside letters -/

namespace Reading

variable {beside : List Piece}

/-- A character that is neither a letter nor blank waits, or is a bar behind a letter. -/
theorem take_symbol {character : Char} (noLetter : Text.isLetter character = false)
    (notBlank : Text.isBlank character = false) (reading : Reading) :
    reading.take ⟨character, false⟩
      = if character = '|' then
          match reading with
          | ⟨last :: earlier, 0, []⟩ =>
              ⟨{ last with rightRules := last.rightRules + 1 } :: earlier, 0, []⟩
          | _ => { reading with rules := reading.rules + 1 }
        else { reading with markup := reading.markup ++ [character] } := by
  obtain ⟨columns, rules, markup⟩ := reading
  by_cases bar : character = '|'
  · subst bar
    simp only [take, Mark.makesColumn, Mark.isSpace, Mark.isRule, noLetter, notBlank]
    rcases columns with _ | ⟨last, earlier⟩ <;> rcases rules with _ | rules <;>
      rcases markup with _ | ⟨head, markup⟩ <;> rfl
  · simp only [take, Mark.makesColumn, Mark.isSpace, Mark.isRule, noLetter, notBlank, bar]
    rcases columns with _ | ⟨last, earlier⟩ <;> rcases rules with _ | rules <;>
      rcases markup with _ | ⟨head, markup⟩ <;> simp [bar]

theorem takePiece_of_isWaiting {reading : Reading} (isWaiting : reading.IsWaiting)
    {piece : Piece} (isBeside : piece.IsBeside) :
    reading.takePiece piece
      = ⟨reading.columns, reading.rules + ruleCount [piece],
          reading.markup ++ textOf (ink [piece])⟩ := by
  obtain ⟨columns, rules, markup⟩ := reading
  simp only [IsWaiting] at isWaiting
  cases piece with
  | symbol character =>
      rw [takePiece, take_symbol isBeside.not_isLetter isBeside.not_isBlank]
      split
      next bar =>
        subst bar
        split
        next equal =>
          obtain ⟨rfl, rfl, rfl⟩ := Reading.mk.inj equal
          simp at isWaiting
        next => simp
      next noBar => simp [noBar, isBeside.not_isBlank]
  | group text =>
      simp only [takePiece]
      split
      next equal =>
        obtain ⟨rfl, rfl, rfl⟩ := Reading.mk.inj equal
        simp at isWaiting
      next => simp

theorem takePiece_of_settles (last : Column) (earlier : List Column) {piece : Piece}
    (settles : piece.settles) :
    takePiece ⟨last :: earlier, 0, []⟩ piece
      = ⟨{ last with
            rightRules := last.rightRules + ruleCount [piece]
            markup := last.markup ++ textOf (ink [piece]) } :: earlier, 0, []⟩ := by
  cases piece with
  | symbol character =>
      obtain rfl : character = '|' := by
        simpa [Piece.settles, Piece.isRule, Piece.isGroup] using settles
      rw [takePiece, take_symbol (by decide) (by decide)]
      simp
  | group text => simp [takePiece]

theorem takePiece_of_not_settles (last : Column) (earlier : List Column) {piece : Piece}
    (isBeside : piece.IsBeside) (stands : piece.settles = false) :
    takePiece ⟨last :: earlier, 0, []⟩ piece
      = ⟨last :: earlier, ruleCount [piece], textOf (ink [piece])⟩ := by
  cases piece with
  | symbol character =>
      have noBar : character ≠ '|' := by
        rintro rfl
        exact absurd stands (by decide)
      rw [takePiece, take_symbol isBeside.not_isLetter isBeside.not_isBlank]
      simp [noBar, isBeside.not_isBlank]
  | group text => exact absurd stands (by simp [Piece.settles, Piece.isGroup])

/-- What stands in front of a letter waits for it. -/
theorem foldl_takePiece_of_isWaiting {reading : Reading} (isWaiting : reading.IsWaiting)
    (areBeside : ∀ piece ∈ beside, piece.IsBeside) :
    beside.foldl takePiece reading
      = ⟨reading.columns, reading.rules + ruleCount beside,
          reading.markup ++ textOf (ink beside)⟩ := by
  induction beside generalizing reading with
  | nil => simp
  | cons piece rest ih =>
      obtain ⟨isBeside, others⟩ := List.forall_mem_cons.mp areBeside
      have first := takePiece_of_isWaiting isWaiting isBeside
      have stillWaiting : (reading.takePiece piece).IsWaiting := by
        rw [first]
        rcases isWaiting with none | barred | marked
        · exact Or.inl none
        · exact Or.inr (Or.inl (Nat.ne_of_gt (Nat.add_pos_left (Nat.pos_of_ne_zero barred) _)))
        · exact Or.inr (Or.inr (List.append_ne_nil_of_left_ne_nil marked _))
      rw [List.foldl_cons, ih stillWaiting others, first, ruleCount_cons piece rest,
        ink_cons piece rest]
      simp only [textOf_append, Nat.add_assoc, List.append_assoc]

/-- What settles behind a letter is added to its column. -/
theorem foldl_takePiece_of_settles (last : Column) (earlier : List Column)
    (settle : ∀ piece ∈ beside, piece.settles) :
    beside.foldl takePiece ⟨last :: earlier, 0, []⟩
      = ⟨{ last with
            rightRules := last.rightRules + ruleCount beside
            markup := last.markup ++ textOf (ink beside) } :: earlier, 0, []⟩ := by
  induction beside generalizing last with
  | nil => simp
  | cons piece rest ih =>
      obtain ⟨settles, others⟩ := List.forall_mem_cons.mp settle
      rw [List.foldl_cons, takePiece_of_settles last earlier settles, ih _ others,
        ruleCount_cons piece rest, ink_cons piece rest]
      simp only [textOf_append, Nat.add_assoc, List.append_assoc]

/-- What does not settle behind a letter waits for the next. -/
theorem foldl_takePiece_of_not_settles (last : Column) (earlier : List Column)
    (areBeside : ∀ piece ∈ beside, piece.IsBeside)
    (stands : ∀ piece ∈ beside.head?, piece.settles = false) :
    beside.foldl takePiece ⟨last :: earlier, 0, []⟩
      = ⟨last :: earlier, ruleCount beside, textOf (ink beside)⟩ := by
  cases beside with
  | nil => rfl
  | cons piece rest =>
      obtain ⟨isBeside, others⟩ := List.forall_mem_cons.mp areBeside
      have piece_stands := stands piece rfl
      have noRule : piece.isRule = false := by
        simp only [Piece.settles, Bool.or_eq_false_iff] at piece_stands
        exact piece_stands.1
      have marked : textOf (ink [piece]) ≠ [] := by
        rw [isBeside.ink_eq noRule]
        simpa using isBeside.whole.1
      rw [List.foldl_cons, takePiece_of_not_settles last earlier isBeside piece_stands,
        foldl_takePiece_of_isWaiting (Or.inr (Or.inr marked)) others,
        ruleCount_cons piece rest, ink_cons piece rest, textOf_append]

/-- All that stands behind the last letter belongs to its column. -/
theorem finish_foldl_takePiece (last : Column) (earlier : List Column)
    (areBeside : ∀ piece ∈ beside, piece.IsBeside) :
    (beside.foldl takePiece ⟨last :: earlier, 0, []⟩).finish
      = ({ last with
            rightRules := last.rightRules + ruleCount beside
            markup := last.markup ++ textOf (ink beside) } :: earlier).reverse := by
  have settled : ∀ piece ∈ beside.takeWhile Piece.settles, piece.settles :=
    fun piece member => List.mem_takeWhile_imp member
  have standing : ∀ piece ∈ beside.dropWhile Piece.settles, piece.IsBeside :=
    fun piece member => areBeside piece ((List.dropWhile_sublist _).subset member)
  have stands : ∀ piece ∈ (beside.dropWhile Piece.settles).head?, piece.settles = false :=
    fun piece isHead => by
      have := List.head?_dropWhile_not Piece.settles beside
      rw [isHead] at this
      simpa using this
  have parted := List.takeWhile_append_dropWhile (p := Piece.settles) (l := beside)
  generalize beside.takeWhile Piece.settles = front at settled parted
  generalize beside.dropWhile Piece.settles = rest at standing stands parted
  subst parted
  rw [List.foldl_append, foldl_takePiece_of_settles last earlier settled,
    foldl_takePiece_of_not_settles _ earlier standing stands]
  simp [finish, Nat.add_assoc]

end Reading

/-! ## Fields -/

/-- A column letter with the pieces that are read with it. -/
structure Field where
  /-- What waits for the letter. -/
  front : List Piece
  letter : Char
  /-- What settles behind the letter; behind the last letter, all that follows. -/
  back : List Piece
  deriving DecidableEq, Repr

namespace Field

def pieces (field : Field) : List Piece := field.front ++ .symbol field.letter :: field.back

/-- The column that a field describes. -/
def column (field : Field) : Column where
  alignment := .ofLetter field.letter
  leftRules := ruleCount field.front
  rightRules := ruleCount field.back
  markup := textOf (ink field.front) ++ field.letter :: textOf (ink field.back)

structure IsProper (field : Field) : Prop where
  letter : Text.isLetter field.letter
  front : ∀ piece ∈ field.front, piece.IsBeside
  back : ∀ piece ∈ field.back, piece.IsBeside

/-- What is between two letters is shared out as it is read. -/
def Precedes (first second : Field) : Prop :=
  (∀ piece ∈ first.back, piece.settles) ∧ ∀ piece ∈ second.front.head?, piece.settles = false

theorem IsProper.isWhole {field : Field} (isProper : field.IsProper) :
    ∀ piece ∈ field.pieces, piece.IsWhole := by
  intro piece member
  rcases List.mem_append.mp member with inFront | inRest
  · exact (isProper.front piece inFront).whole
  · rcases List.mem_cons.mp inRest with rfl | inBack
    · refine Piece.isWhole_symbol ?_
      rintro brace
      have letter := isProper.letter
      rw [brace] at letter
      exact absurd letter (by decide)
    · exact (isProper.back piece inBack).whole

theorem IsProper.isSpace_eq_false {field : Field} (isProper : field.IsProper) :
    ∀ piece ∈ field.pieces, piece.isSpace = false := by
  intro piece member
  rcases List.mem_append.mp member with inFront | inRest
  · exact (isProper.front piece inFront).notBlank
  · rcases List.mem_cons.mp inRest with rfl | inBack
    · cases isSpace : (Piece.symbol field.letter).isSpace with
      | false => rfl
      | true =>
          have noLetter := Text.isLetter_eq_false_of_isBlank isSpace
          exact absurd isProper.letter (by simp [noLetter])
    · exact (isProper.back piece inBack).notBlank

end Field

/-- Fields that can stand side by side in a specifier. -/
structure Linked (fields : List Field) : Prop where
  isProper : ∀ field ∈ fields, field.IsProper
  isChain : fields.IsChain Field.Precedes

theorem Linked.tail {first : Field} {rest : List Field} (linked : Linked (first :: rest)) :
    Linked rest :=
  ⟨fun field member => linked.isProper field (List.mem_cons_of_mem _ member),
    linked.isChain.tail⟩

theorem Linked.isWhole {fields : List Field} (linked : Linked fields) :
    ∀ piece ∈ fields.flatMap Field.pieces, piece.IsWhole := by
  intro piece member
  obtain ⟨field, isField, inField⟩ := List.mem_flatMap.mp member
  exact (linked.isProper field isField).isWhole piece inField

/-- A letter closes what waits for it. -/
theorem Reading.takePiece_letter {letter : Char} (isLetter : Text.isLetter letter)
    (reading : Reading) :
    reading.takePiece (.symbol letter)
      = ⟨⟨.ofLetter letter, reading.rules, 0, reading.markup ++ [letter]⟩ :: reading.columns,
          0, []⟩ := by
  simp [takePiece, take, Mark.makesColumn, isLetter]

/-- From a letter on, linked fields are read as their columns. -/
theorem finish_foldl_fields {first : Field} {rest : List Field} (linked : Linked (first :: rest))
    (earlier : List Column) :
    ((first.back ++ rest.flatMap Field.pieces).foldl Reading.takePiece
        ⟨⟨.ofLetter first.letter, ruleCount first.front, 0,
          textOf (ink first.front) ++ [first.letter]⟩ :: earlier, 0, []⟩).finish
      = earlier.reverse ++ (first :: rest).map Field.column := by
  induction rest generalizing first earlier with
  | nil =>
      have isProper := linked.isProper first List.mem_cons_self
      rw [List.flatMap_nil, List.append_nil, Reading.finish_foldl_takePiece _ _ isProper.back]
      simp [Field.column]
  | cons next later ih =>
      obtain ⟨⟨settle, stands⟩, -⟩ := List.isChain_cons_cons.mp linked.isChain
      have isProper := linked.tail.isProper next List.mem_cons_self
      have spread : first.back ++ (next :: later).flatMap Field.pieces
          = first.back ++ (next.front
            ++ .symbol next.letter :: (next.back ++ later.flatMap Field.pieces)) := by
        simp [Field.pieces]
      rw [spread, List.foldl_append, Reading.foldl_takePiece_of_settles _ _ settle,
        List.foldl_append, Reading.foldl_takePiece_of_not_settles _ _ isProper.front stands,
        List.foldl_cons, Reading.takePiece_letter isProper.letter, ih linked.tail]
      simp [Field.column]

/-- Linked fields are read as their columns. -/
theorem columns_textOf {fields : List Field} (linked : Linked fields) :
    columns (textOf (fields.flatMap Field.pieces)) = fields.map Field.column := by
  rw [columns_eq_foldl_takePiece, pieces_textOf linked.isWhole]
  cases fields with
  | nil => rfl
  | cons first rest =>
      have isProper := linked.isProper first List.mem_cons_self
      rw [List.flatMap_cons, Field.pieces, List.append_assoc, List.foldl_append,
        Reading.foldl_takePiece_of_isWaiting (Or.inl rfl) isProper.front, List.cons_append,
        List.foldl_cons, Reading.takePiece_letter isProper.letter]
      have read := finish_foldl_fields linked []
      simpa [Reading.start] using read

/-! ## The fields of a specifier -/

/-- The pieces in front of the first letter, and each letter with the pieces behind it. -/
def parted : List Piece → List Piece × List (Char × List Piece)
  | [] => ([], [])
  | piece :: rest =>
      match piece.letter? with
      | some letter => ([], (letter, (parted rest).1) :: (parted rest).2)
      | none => (piece :: (parted rest).1, (parted rest).2)

/-- The fields of letters with the pieces behind them, where `front` waits for the first. -/
def fieldsFrom (front : List Piece) : List (Char × List Piece) → List Field
  | [] => []
  | [(letter, behind)] => [⟨front, letter, behind⟩]
  | (letter, behind) :: next :: later =>
      ⟨front, letter, behind.takeWhile Piece.settles⟩
        :: fieldsFrom (behind.dropWhile Piece.settles) (next :: later)

variable {all : List Piece}

theorem parted_pieces (all : List Piece) :
    (parted all).1 ++ (parted all).2.flatMap (fun part => .symbol part.1 :: part.2) = all := by
  induction all with
  | nil => rfl
  | cons piece rest ih =>
      rw [parted]
      split
      next letter isLetter =>
        obtain ⟨rfl, -⟩ := Piece.letter?_eq_some.mp isLetter
        rw [List.nil_append, List.flatMap_cons, List.cons_append, ih]
      next => rw [List.cons_append, ih]

theorem isLetter_of_mem_parted {part : Char × List Piece} (member : part ∈ (parted all).2) :
    Text.isLetter part.1 := by
  induction all with
  | nil => exact absurd member List.not_mem_nil
  | cons piece rest ih =>
      rw [parted] at member
      split at member
      next letter isLetter =>
        rcases List.mem_cons.mp member with rfl | later
        · exact (Piece.letter?_eq_some.mp isLetter).2
        · exact ih later
      next => exact ih member

/-- No letter is among the pieces beside the letters. -/
theorem letter?_of_parted (all : List Piece) :
    (∀ piece ∈ (parted all).1, piece.letter? = none) ∧
      ∀ part ∈ (parted all).2, ∀ piece ∈ part.2, piece.letter? = none := by
  induction all with
  | nil => exact ⟨fun _ member => absurd member List.not_mem_nil,
      fun _ member => absurd member List.not_mem_nil⟩
  | cons piece rest ih =>
      rw [parted]
      split
      next => exact ⟨nofun, List.forall_mem_cons.mpr ih⟩
      next noLetter => exact ⟨List.forall_mem_cons.mpr ⟨noLetter, ih.1⟩, ih.2⟩

theorem flatMap_pieces_fieldsFrom (front : List Piece) {parts : List (Char × List Piece)}
    (nonempty : parts ≠ []) :
    (fieldsFrom front parts).flatMap Field.pieces
      = front ++ parts.flatMap fun part => .symbol part.1 :: part.2 := by
  fun_induction fieldsFrom front parts with
  | case1 => exact absurd rfl nonempty
  | case2 => simp [Field.pieces]
  | case3 front letter behind next later ih =>
      have whole := List.takeWhile_append_dropWhile (p := Piece.settles) (l := behind)
      calc (⟨front, letter, behind.takeWhile Piece.settles⟩ :: fieldsFrom
              (behind.dropWhile Piece.settles) (next :: later)).flatMap Field.pieces
          = front ++ .symbol letter :: (behind.takeWhile Piece.settles
              ++ behind.dropWhile Piece.settles
              ++ (next :: later).flatMap fun part => .symbol part.1 :: part.2) := by
            rw [List.flatMap_cons, ih (List.cons_ne_nil _ _)]
            simp only [Field.pieces, List.append_assoc, List.cons_append]
        _ = front ++ ((letter, behind) :: next :: later).flatMap
              fun part => .symbol part.1 :: part.2 := by
            rw [whole]
            simp

theorem fieldsFrom_eq_nil {front : List Piece} {parts : List (Char × List Piece)} :
    fieldsFrom front parts = [] ↔ parts = [] := by
  unfold fieldsFrom
  split <;> simp

/-- What waits for the first of some letters is the front of their first field. -/
theorem front_of_fieldsFrom {front : List Piece} {parts : List (Char × List Piece)} {first : Field}
    (isHead : first ∈ (fieldsFrom front parts).head?) : first.front = front := by
  unfold fieldsFrom at isHead
  split at isHead <;> simp at isHead <;> rw [← isHead]

theorem linked_fieldsFrom {front : List Piece} {parts : List (Char × List Piece)}
    (areLetters : ∀ part ∈ parts, Text.isLetter part.1)
    (inFront : ∀ piece ∈ front, piece.IsBeside)
    (behind : ∀ part ∈ parts, ∀ piece ∈ part.2, piece.IsBeside) :
    Linked (fieldsFrom front parts) := by
  fun_induction fieldsFrom front parts with
  | case1 => exact ⟨fun _ member => absurd member List.not_mem_nil, .nil⟩
  | case2 front letter back =>
      refine ⟨fun field member => ?_, .singleton _⟩
      obtain rfl := List.mem_singleton.mp member
      exact ⟨areLetters _ List.mem_cons_self, inFront, behind _ List.mem_cons_self⟩
  | case3 front letter back next later ih =>
      obtain ⟨isLetter, otherLetters⟩ := List.forall_mem_cons.mp areLetters
      obtain ⟨areBeside, others⟩ := List.forall_mem_cons.mp behind
      have linked := ih otherLetters
        (fun piece member => areBeside piece ((List.dropWhile_sublist _).subset member)) others
      refine ⟨List.forall_mem_cons.mpr ⟨?_, linked.isProper⟩, List.isChain_cons.mpr
        ⟨fun second isHead => ⟨fun piece => List.mem_takeWhile_imp, ?_⟩, linked.isChain⟩⟩
      · exact ⟨isLetter, inFront,
          fun piece member => areBeside piece ((List.takeWhile_sublist _).subset member)⟩
      · rw [front_of_fieldsFrom isHead]
        intro piece isFirst
        have := List.head?_dropWhile_not Piece.settles back
        rw [isFirst] at this
        simpa using this

/-- The pieces of a specifier that are not blank. -/
def shown (specifier : Text) : List Piece := (pieces specifier).filter (!·.isSpace)

/-- The fields of a specifier. -/
def fields (specifier : Text) : List Field :=
  fieldsFrom (parted (shown specifier)).1 (parted (shown specifier)).2

section Closed

variable {specifier : Text}

theorem mem_shown {piece : Piece} :
    piece ∈ shown specifier ↔ piece ∈ pieces specifier ∧ piece.isSpace = false := by
  simp [shown]

/-- The pieces of a specifier are shared out to its fields. -/
theorem flatMap_pieces_fields (nonempty : fields specifier ≠ []) :
    (fields specifier).flatMap Field.pieces = shown specifier := by
  rw [fields, flatMap_pieces_fieldsFrom _ (fun none => nonempty (fieldsFrom_eq_nil.mpr none)),
    parted_pieces]

theorem linked_fields (closed : Closed specifier) : Linked (fields specifier) := by
  have isBeside {piece : Piece} (isShown : piece ∈ shown specifier)
      (noLetter : piece.letter? = none) : piece.IsBeside :=
    ⟨closed.isWhole piece (mem_shown.mp isShown).1, noLetter, (mem_shown.mp isShown).2⟩
  have all := parted_pieces (shown specifier)
  obtain ⟨leading, behind⟩ := letter?_of_parted (shown specifier)
  refine linked_fieldsFrom (fun part => isLetter_of_mem_parted) (fun piece member => ?_)
    fun part isPart piece member => ?_
  · exact isBeside (all ▸ List.mem_append_left _ member) (leading piece member)
  · refine isBeside (all ▸ List.mem_append_right _ ?_) (behind part isPart piece member)
    exact List.mem_flatMap.mpr ⟨part, isPart, List.mem_cons_of_mem _ member⟩

/-- Blanks are read over. -/
theorem foldl_takePiece_filter (reading : Reading) (all : List Piece) :
    (all.filter (!·.isSpace)).foldl Reading.takePiece reading
      = all.foldl Reading.takePiece reading := by
  induction all generalizing reading with
  | nil => rfl
  | cons piece rest ih =>
      cases isSpace : piece.isSpace with
      | false =>
          rw [List.filter_cons_of_pos (by simp [isSpace]), List.foldl_cons, ih, List.foldl_cons]
      | true =>
          have readOver : reading.takePiece piece = reading := by
            cases piece with
            | symbol character =>
                have noLetter : Text.isLetter character = false :=
                  Text.isLetter_eq_false_of_isBlank isSpace
                have isBlank : Text.isBlank character = true := isSpace
                simp [Reading.takePiece, Reading.take, Mark.makesColumn, Mark.isSpace, noLetter,
                  isBlank]
            | group text => exact absurd isSpace (by simp [Piece.isSpace])
          rw [List.filter_cons_of_neg (by simp [isSpace]), ih, List.foldl_cons, readOver]

/-- The columns of a specifier are those of its fields. -/
theorem columns_eq_map_column (closed : Closed specifier) :
    columns specifier = (fields specifier).map Field.column := by
  have areWhole : ∀ piece ∈ shown specifier, piece.IsWhole :=
    fun piece isShown => closed.isWhole piece (mem_shown.mp isShown).1
  have shownColumns : columns specifier = columns (textOf (shown specifier)) := by
    rw [columns_eq_foldl_takePiece, columns_eq_foldl_takePiece, pieces_textOf areWhole, shown,
      foldl_takePiece_filter]
  by_cases nonempty : fields specifier = []
  · have noParts : (parted (shown specifier)).2 = [] := fieldsFrom_eq_nil.mp nonempty
    have allLeading : (parted (shown specifier)).1 = shown specifier := by
      simpa [noParts] using parted_pieces (shown specifier)
    have areBeside : ∀ piece ∈ shown specifier, piece.IsBeside := fun piece isShown =>
      ⟨areWhole piece isShown, (letter?_of_parted _).1 piece (allLeading ▸ isShown),
        (mem_shown.mp isShown).2⟩
    rw [nonempty, shownColumns, columns_eq_foldl_takePiece, pieces_textOf areWhole,
      Reading.foldl_takePiece_of_isWaiting (Or.inl rfl) areBeside]
    rfl
  · rw [shownColumns, ← flatMap_pieces_fields nonempty, columns_textOf (linked_fields closed)]

end Closed

end LatexTabular.Specifier
