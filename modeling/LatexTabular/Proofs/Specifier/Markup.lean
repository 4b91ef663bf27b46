import LatexTabular.Proofs.Specifier.Alignment
import LatexTabular.Proofs.Text.Covered
import Mathlib.Data.List.Flatten

/-!
# What aligning keeps of a specifier

A column that takes another alignment loses its letter and all markup that settles behind it:
arguments of the letter, such as the width of a paragraph column, but also groups behind a bar,
and behind the last letter whatever stands there.  So all other markup stays exactly if nothing
but arguments settles behind the letters that change (`Specifier.kept_sublist_aligned_iff`).
-/

namespace LatexTabular.Specifier

/-- The markup of pieces, without the letters that are gone, by index from `index` on, and without
the groups directly behind them.  `argument` tells whether such a group may come next. -/
def keptFrom (gone : Nat → Bool) : (index : Nat) → (argument : Bool) → List Piece → List Piece
  | _, _, [] => []
  | index, argument, piece :: rest =>
      if piece.letter?.isSome then
        if gone index then keptFrom gone (index + 1) true rest
        else piece :: keptFrom gone (index + 1) false rest
      else if argument && piece.isGroup then keptFrom gone index true rest
      else if piece.isInk then piece :: keptFrom gone index false rest
      else keptFrom gone index (argument && piece.isSpace) rest

/-- The markup of a specifier, without the letters that are gone and their arguments, which are
the groups directly behind them. -/
def kept (gone : Nat → Bool) (specifier : Text) : List Piece :=
  keptFrom gone 0 false (pieces specifier)

namespace Field

/-- The groups behind a letter that are no arguments of it; behind the last letter, all markup
that is no argument of it. -/
def strays (field : Field) : List Piece := ink (field.back.dropWhile Piece.isGroup)

/-- The markup of a field, less its letter and arguments if that is gone. -/
def kept (gone : Bool) (field : Field) : List Piece :=
  ink field.front ++ if gone then field.strays else .symbol field.letter :: ink field.back

end Field

section KeptFrom

variable {gone : Nat → Bool} {index : Nat} {argument : Bool} {beside : List Piece}

/-- Blanks are read over. -/
theorem keptFrom_filter (all : List Piece) :
    keptFrom gone index argument (all.filter (!·.isSpace)) = keptFrom gone index argument all := by
  induction all generalizing index argument with
  | nil => rfl
  | cons piece rest ih =>
      cases isSpace : piece.isSpace with
      | true =>
          have readOver : keptFrom gone index argument (piece :: rest)
              = keptFrom gone index argument rest := by
            cases piece with
            | symbol character =>
                have noLetter : Text.isLetter character = false :=
                  Text.isLetter_eq_false_of_isBlank isSpace
                simp [keptFrom, Piece.letter?, noLetter, Piece.isGroup, Piece.isInk, isSpace]
            | group text => exact absurd isSpace Bool.false_ne_true
          rw [List.filter_cons_of_neg (by simp [isSpace]), ih, readOver]
      | false =>
          rw [List.filter_cons_of_pos (by simp [isSpace]), keptFrom, keptFrom]
          simp only [ih]

theorem keptFrom_append (areBeside : ∀ piece ∈ beside, piece.IsBeside) (rest : List Piece) :
    keptFrom gone index false (beside ++ rest) = ink beside ++ keptFrom gone index false rest := by
  induction beside with
  | nil => rfl
  | cons piece others ih =>
      obtain ⟨isBeside, later⟩ := List.forall_mem_cons.mp areBeside
      rw [List.cons_append, keptFrom, isBeside.noLetter, ink_cons, List.append_assoc, ← ih later]
      cases isInk : piece.isInk <;> simp [ink, isInk]

theorem keptFrom_letter {letter : Char} (isLetter : Text.isLetter letter) (rest : List Piece) :
    keptFrom gone index argument (.symbol letter :: rest)
      = if gone index then keptFrom gone (index + 1) true rest
        else .symbol letter :: keptFrom gone (index + 1) false rest := by
  simp [keptFrom, Piece.letter?, isLetter]

/-- Behind a letter that is gone, its arguments are passed over. -/
theorem keptFrom_argument (areBeside : ∀ piece ∈ beside, piece.IsBeside) {rest : List Piece}
    (stands : ∀ piece ∈ rest.head?, piece.isGroup = false ∧ piece.isSpace = false) :
    keptFrom gone index true (beside ++ rest)
      = ink (beside.dropWhile Piece.isGroup) ++ keptFrom gone index false rest := by
  induction beside with
  | nil =>
      cases rest with
      | nil => rfl
      | cons piece others =>
          obtain ⟨noGroup, noSpace⟩ := stands piece rfl
          simp [keptFrom, noGroup, noSpace]
  | cons piece others ih =>
      obtain ⟨isBeside, later⟩ := List.forall_mem_cons.mp areBeside
      cases isGroup : piece.isGroup with
      | true =>
          rw [List.dropWhile_cons_of_pos isGroup, ← ih later, List.cons_append, keptFrom]
          simp [isBeside.noLetter, isGroup]
      | false =>
          rw [List.dropWhile_cons_of_neg (by simp [isGroup]), ← keptFrom_append areBeside,
            List.cons_append, keptFrom, keptFrom]
          simp [isGroup, isBeside.notBlank]

end KeptFrom

/-- The pieces of a field that follows another start with none that settles. -/
theorem Field.head?_pieces {first next : Field} {later : List Field}
    (linked : Linked (first :: next :: later)) :
    ∀ piece ∈ ((next :: later).flatMap Field.pieces).head?,
      piece.isGroup = false ∧ piece.isSpace = false := by
  obtain ⟨⟨-, stands⟩, -⟩ := List.isChain_cons_cons.mp linked.isChain
  have isProper := linked.tail.isProper next List.mem_cons_self
  intro piece isHead
  cases front : next.front with
  | nil =>
      obtain rfl : Piece.symbol next.letter = piece := by simpa [Field.pieces, front] using isHead
      exact ⟨rfl, isProper.isSpace_eq_false _ (by simp [Field.pieces])⟩
  | cons head others =>
      obtain rfl : head = piece := by simpa [Field.pieces, front] using isHead
      rw [front] at stands
      have isBeside := isProper.front head (by simp [front])
      exact ⟨(Bool.or_eq_false_iff.mp (stands head rfl)).2, isBeside.notBlank⟩

/-- The markup that is kept of linked fields. -/
theorem keptFrom_fields {fields : List Field} (linked : Linked fields) (gone : Nat → Bool)
    (index : Nat) :
    keptFrom gone index false (fields.flatMap Field.pieces)
      = (fields.mapIdx fun place field => field.kept (gone (index + place))).flatten := by
  induction fields generalizing index with
  | nil => rfl
  | cons field rest ih =>
      have isProper := linked.isProper field List.mem_cons_self
      have stands : ∀ piece ∈ (rest.flatMap Field.pieces).head?,
          piece.isGroup = false ∧ piece.isSpace = false := by
        cases rest with
        | nil => exact nofun
        | cons next later => exact Field.head?_pieces linked
      have later : (rest.mapIdx fun place field => field.kept (gone (index + (place + 1))))
          = rest.mapIdx fun place field => field.kept (gone (index + 1 + place)) := by
        simp only [Nat.add_assoc, Nat.add_comm 1]
      rw [List.flatMap_cons, Field.pieces, List.append_assoc, keptFrom_append isProper.front,
        List.cons_append, keptFrom_letter isProper.letter, List.mapIdx_cons, List.flatten_cons,
        later, ← ih linked.tail, Nat.add_zero, Field.kept]
      cases gone index with
      | true => 
          rw [if_pos rfl, if_pos rfl, keptFrom_argument isProper.back stands, List.append_assoc]
          rfl
      | false =>
          rw [if_neg Bool.false_ne_true, if_neg Bool.false_ne_true, keptFrom_append isProper.back]
          simp

theorem kept_eq {specifier : Text} (closed : Closed specifier) (nonempty : fields specifier ≠ [])
    (gone : Nat → Bool) :
    kept gone specifier
      = (fields specifier).zipIdx.flatMap fun item => item.1.kept (gone item.2) := by
  have all := keptFrom_fields (linked_fields closed) gone 0
  simp only [Nat.zero_add, List.mapIdx_eq_zipIdx_map, ← List.flatMap_def] at all
  rw [← all, flatMap_pieces_fields nonempty, shown, keptFrom_filter, kept]

/-- Fewer letters that are gone leave more. -/
theorem kept_sublist_kept {specifier : Text} (closed : Closed specifier)
    (nonempty : fields specifier ≠ []) {fewer more : Nat → Bool}
    (implies : ∀ index, fewer index = true → more index = true) :
    (kept more specifier).Sublist (kept fewer specifier) := by
  rw [kept_eq closed nonempty, kept_eq closed nonempty]
  refine List.Sublist.flatMap_right _ fun item _ => ?_
  have leaves : item.1.strays.Sublist (.symbol item.1.letter :: ink item.1.back) :=
    (List.Sublist.filter _ (List.dropWhile_sublist _)).trans (List.sublist_cons_self _ _)
  refine List.Sublist.append_left ?_ _
  cases isFewer : fewer item.2 with
  | true => simp [implies _ isFewer]
  | false =>
      rw [if_neg Bool.false_ne_true]
      split
      · exact leaves
      · exact .refl _

/-- The columns that aligning changes: the picked ones that have another alignment. -/
def changed (picked : Nat → Bool) (alignment : Alignment) (columns : List Column)
    (index : Nat) : Bool :=
  picked index && columns[index]?.any (·.alignment != alignment)

/-- The markup that fields are written with. -/
theorem Field.IsProper.ink_pieces_written {field : Field} (isProper : field.IsProper) :
    ink field.written.pieces = ink field.front ++ .symbol field.letter :: ink field.back := by
  have inked : ink [.symbol field.letter] = [.symbol field.letter] := by
    rw [ink_symbol, if_neg]
    rintro (bar | blank)
    · exact absurd isProper.letter (by rw [bar]; decide)
    · exact absurd isProper.letter (by simp [Text.isLetter_eq_false_of_isBlank blank])
  have own : ink field.written.pieces
      = ink field.written.front ++ (ink [.symbol field.letter] ++ ink field.written.back) := by
    rw [Field.pieces, ink_append, ink_cons]
    rfl
  rw [own, inked]
  simp [Field.written]

theorem Field.ink_back_align (picks : Bool) (alignment : Alignment) (field : Field) :
    ink (field.align picks alignment).back
      = if field.isChanged picks alignment then [] else ink field.back := by
  unfold Field.align
  split
  · exact Field.ink_filter_isRule _
  · rfl

section Beside

variable {field : Field} (isProper : field.IsProper)
include isProper

theorem Field.IsProper.filter_ink_front :
    (ink field.front).filter (fun piece => piece.letter?.isNone) = ink field.front :=
  List.filter_eq_self.mpr fun piece member => by
    simp [(isProper.front piece (List.mem_of_mem_filter member)).noLetter]

theorem Field.IsProper.filter_ink_back :
    (ink field.back).filter (fun piece => piece.letter?.isNone) = ink field.back :=
  List.filter_eq_self.mpr fun piece member => by
    simp [(isProper.back piece (List.mem_of_mem_filter member)).noLetter]

theorem Field.IsProper.filter_strays :
    field.strays.filter (fun piece => piece.letter?.isNone) = field.strays :=
  List.filter_eq_self.mpr fun piece member => by
    have inBack := (List.dropWhile_sublist _).subset (List.mem_of_mem_filter member)
    simp [(isProper.back piece inBack).noLetter]

/-- What is kept of a field besides its letter. -/
theorem Field.IsProper.filter_kept (gone : Bool) :
    (field.kept gone).filter (fun piece => piece.letter?.isNone)
      = (ink field.front ++ if gone then [] else ink field.back)
        ++ if gone then field.strays else [] := by
  rw [Field.kept, List.filter_append, isProper.filter_ink_front]
  cases gone with
  | true => simp [isProper.filter_strays]
  | false =>
      have isLetter := Piece.letter?_eq_some.mpr ⟨rfl, isProper.letter⟩
      rw [if_neg Bool.false_ne_true, List.filter_cons_of_neg (by simp [isLetter]),
        isProper.filter_ink_back]
      simp

/-- What is written of a field besides its letter. -/
theorem Field.IsProper.filter_written {letter : Char} (isLetter : Text.isLetter letter)
    (gone : Bool) :
    (ink field.front ++ .symbol letter :: if gone then [] else ink field.back).filter
        (fun piece => piece.letter?.isNone)
      = ink field.front ++ if gone then [] else ink field.back := by
  rw [List.filter_append, isProper.filter_ink_front]
  cases gone with
  | true => simp [Piece.letter?, isLetter]
  | false =>
      have found := Piece.letter?_eq_some.mpr ⟨rfl, isLetter⟩
      rw [if_neg Bool.false_ne_true, List.filter_cons_of_neg (by simp [found]),
        isProper.filter_ink_back]

end Beside

theorem Linked.isProper_of_mem_zipIdx {fields : List Field} (linked : Linked fields)
    {item : Field × Nat} (member : item ∈ fields.zipIdx) : item.1.IsProper :=
  linked.isProper item.1 (List.mem_of_getElem? (List.mem_zipIdx_iff_getElem?.mp member))

section Aligned

variable {specifier : Text} (closed : Closed specifier) (picked : Nat → Bool)
  (alignment : Alignment)
include closed

theorem isChanged_eq_changed {item : Field × Nat} (member : item ∈ (fields specifier).zipIdx) :
    item.1.isChanged (picked item.2) alignment
      = changed picked alignment (columns specifier) item.2 := by
  have isField := List.mem_zipIdx_iff_getElem?.mp member
  simp [changed, Field.isChanged, columns_eq_map_column closed, isField, Field.column]

/-- What aligned columns are written with: of those that are changed, the markup in front of the
letters, and all of the others. -/
theorem ink_pieces_render :
    ink (pieces (render (Plan.alignColumns picked alignment (columns specifier))))
      = (fields specifier).zipIdx.flatMap fun item =>
          ink item.1.front ++ .symbol (item.1.align (picked item.2) alignment).letter
            :: if changed picked alignment (columns specifier) item.2 then []
              else ink item.1.back := by
  have linked := linked_alignFields (linked_fields closed) picked alignment
  have aligned : Plan.alignColumns picked alignment (columns specifier)
      = (alignFields picked alignment (fields specifier)).map Field.column := by
    rw [columns_eq_map_column closed, alignColumns_map_column (linked_fields closed)]
  rw [aligned, pieces_render linked, alignFields, List.mapIdx_eq_zipIdx_map, List.map_map,
    List.flatMap_map, ink, List.filter_flatMap]
  refine List.flatMap_congr fun item member => ?_
  have isProper := (linked_fields closed).isProper_of_mem_zipIdx member
  rw [← isChanged_eq_changed closed picked alignment member]
  calc ((item.1.align (picked item.2) alignment).written.pieces).filter Piece.isInk
      = ink (item.1.align (picked item.2) alignment).front
          ++ .symbol (item.1.align (picked item.2) alignment).letter
            :: ink (item.1.align (picked item.2) alignment).back :=
        (isProper.align (picked item.2) alignment).ink_pieces_written
    _ = _ := by
        rw [Field.front_align, Field.ink_back_align]

/-- Aligning columns keeps all markup but the letters it exchanges and their arguments, exactly
if no other markup settles behind those letters.  Of the picked letters, it exchanges those of
another alignment. -/
theorem kept_sublist_aligned_iff (nonempty : columns specifier ≠ []) :
    (kept picked specifier).Sublist
        (kept (changed picked alignment (columns specifier)) specifier) ∧
      ((kept (changed picked alignment (columns specifier)) specifier).Sublist
          (ink (pieces (render (Plan.alignColumns picked alignment (columns specifier))))) ↔
        ∀ index (within : index < (fields specifier).length),
          changed picked alignment (columns specifier) index = true →
            (fields specifier)[index].strays = []) := by
  have hasFields : fields specifier ≠ [] := by
    intro none
    exact nonempty (by rw [columns_eq_map_column closed, none, List.map_nil])
  refine ⟨kept_sublist_kept closed hasFields fun index isChanged => ?_, ?_⟩
  · exact (Bool.and_eq_true_iff.mp isChanged).1
  · rw [ink_pieces_render closed, kept_eq closed hasFields]
    constructor
    · intro isPart index within isChanged
      have besides := isPart.filter fun piece => piece.letter?.isNone
      rw [List.filter_flatMap, List.filter_flatMap,
        List.flatMap_congr fun item member =>
          ((linked_fields closed).isProper_of_mem_zipIdx member).filter_kept _,
        List.flatMap_congr fun item member =>
          ((linked_fields closed).isProper_of_mem_zipIdx member).filter_written
            (((linked_fields closed).isProper_of_mem_zipIdx member).align _ _).letter _] at besides
      have member : ((fields specifier)[index], index) ∈ (fields specifier).zipIdx :=
        List.mem_zipIdx_iff_getElem?.mpr (List.getElem?_eq_getElem within)
      have none := (@flatMap_append_sublist_iff _ _ _ _ _ []).mp
        (by simpa only [List.append_nil] using besides) _ member
      rwa [if_pos isChanged] at none
    · intro none
      refine List.Sublist.flatMap_right _ fun item member => ?_
      obtain ⟨within, fieldEq⟩ := List.getElem?_eq_some_iff.mp
        (List.mem_zipIdx_iff_getElem?.mp member)
      refine List.Sublist.append_left ?_ _
      cases isChanged : changed picked alignment (columns specifier) item.2 with
      | true =>
          have noStrays : item.1.strays = [] := fieldEq ▸ none item.2 within isChanged
          rw [if_pos rfl, noStrays]
          exact List.nil_sublist _
      | false =>
          have same : item.1.align (picked item.2) alignment = item.1 := by
            rw [Field.align, isChanged_eq_changed closed picked alignment member, isChanged,
              if_neg Bool.false_ne_true]
          rw [same]
          exact .refl _

end Aligned

/-- A column without space behind it. -/
def tight : Text := "l@\x7b\x7d".toList

/-- The markup behind the column is lost when it is aligned. -/
theorem kept_sublist_aligned_iff_tight :
    (kept (fun _ => true) tight).Sublist
        (kept (changed (fun _ => true) .center (columns tight)) tight) ∧
      ¬(kept (changed (fun _ => true) .center (columns tight)) tight).Sublist
        (ink (pieces (render (Plan.alignColumns (fun _ => true) .center (columns tight))))) := by
  have closed : Closed tight := by decide
  obtain ⟨keptOfPicked, keeps⟩ :=
    kept_sublist_aligned_iff closed (fun _ => true) .center (by decide)
  refine ⟨keptOfPicked, fun isPart => ?_⟩
  exact absurd (keeps.mp isPart 0 (by decide) (by decide)) (by decide)

end LatexTabular.Specifier
