import LatexTabular.Proofs.Text.WholeLine

/-!
# What stands at some offsets of a text

Characters can be picked by the offsets where they begin (`Text.inkWhere`).  What spans one
behind the other cover is what their texts hold (`Text.inkWhere_covers`).
-/

namespace LatexTabular

/-- Lists with something after each of them are part of the lists alone only if nothing is there. -/
theorem flatMap_append_sublist_iff {α β : Type} {items : List α} {kept lost : α → List β}
    {back : List β} :
    (items.flatMap (fun item => kept item ++ lost item) ++ back).Sublist
        (items.flatMap kept ++ back) ↔ ∀ item ∈ items, lost item = [] := by
  have length : (items.flatMap fun item => kept item ++ lost item).length
      = (items.flatMap kept).length + (items.flatMap lost).length := by
    induction items with
    | nil => rfl
    | cons item rest ih =>
        simp only [List.flatMap_cons, List.length_append, ih]
        omega
  constructor
  · intro isPart
    have shorter := isPart.length_le
    rw [List.length_append, List.length_append, length] at shorter
    exact List.flatMap_eq_nil_iff.mp (List.length_eq_zero_iff.mp (by omega))
  · intro nothing
    rw [List.flatMap_congr fun item member => by rw [nothing item member, List.append_nil]]

namespace Text

/-- The characters of a text that starts at an offset, each with the offset where it begins. -/
def places (offset : Nat) : Text → List (Nat × Char)
  | [] => []
  | head :: rest => (offset, head) :: places (offset + head.utf8Size) rest

/-- The characters of a text that starts at an offset, without the blank ones, that begin where
a condition holds. -/
def inkWhere (holds : Nat → Bool) (offset : Nat) (text : Text) : Text :=
  ((places offset text).filter fun place => holds place.1 && !isBlank place.2).map (·.2)

variable {holds holds' : Nat → Bool} {offset : Nat} {text : Text}

theorem places_append (offset : Nat) (left right : Text) :
    places offset (left ++ right) = places offset left ++ places (offset + left.size) right := by
  induction left generalizing offset with
  | nil => rfl
  | cons head rest ih => simp [places, ih, Nat.add_assoc]

theorem bounds_of_mem_places {place : Nat × Char} (member : place ∈ places offset text) :
    offset ≤ place.1 ∧ place.1 < offset + text.size := by
  induction text generalizing offset with
  | nil => exact absurd member List.not_mem_nil
  | cons head rest ih =>
      have positive := head.utf8Size_pos
      rw [size_cons]
      rcases List.mem_cons.mp member with rfl | inRest
      · dsimp only
        omega
      · have := ih inRest
        omega

theorem inkWhere_append (holds : Nat → Bool) (offset : Nat) (left right : Text) :
    inkWhere holds offset (left ++ right)
      = inkWhere holds offset left ++ inkWhere holds (offset + left.size) right := by
  simp only [inkWhere, places_append, List.filter_append, List.map_append]

/-- Only the offsets within a text matter. -/
theorem inkWhere_congr (same : ∀ other, offset ≤ other → other < offset + text.size →
    holds other = holds' other) : inkWhere holds offset text = inkWhere holds' offset text := by
  unfold inkWhere
  congr 1
  refine List.filter_congr fun place member => ?_
  obtain ⟨begins, ends⟩ := bounds_of_mem_places member
  rw [same place.1 begins ends]

theorem inkWhere_of_forall (all : ∀ other, offset ≤ other → other < offset + text.size →
    holds other = true) : inkWhere holds offset text = ink text := by
  induction text generalizing offset with
  | nil => rfl
  | cons head rest ih =>
      have positive := head.utf8Size_pos
      rw [size_cons] at all
      have first := all offset (Nat.le_refl _) (by omega)
      have others := @ih (offset + head.utf8Size) fun other begins ends =>
        all other (by omega) (by omega)
      rw [← List.singleton_append, inkWhere_append, ink_append, size_cons, size_nil, Nat.add_zero,
        others]
      congr 1
      simp only [inkWhere, places, ink, List.filter_cons, List.filter_nil, first, Bool.true_and]
      split <;> rfl

theorem inkWhere_of_forall_not (none : ∀ other, offset ≤ other → other < offset + text.size →
    holds other = false) : inkWhere holds offset text = [] := by
  rw [inkWhere, List.map_eq_nil_iff, List.filter_eq_nil_iff]
  intro place member
  obtain ⟨begins, ends⟩ := bounds_of_mem_places member
  simp [none place.1 begins ends]

/-- What is picked is not blank. -/
theorem ink_inkWhere (holds : Nat → Bool) (offset : Nat) (text : Text) :
    ink (inkWhere holds offset text) = inkWhere holds offset text := by
  refine List.filter_eq_self.mpr fun character member => ?_
  obtain ⟨place, picked, rfl⟩ := List.mem_map.mp member
  have inked := (List.mem_filter.mp picked).2
  rw [Bool.and_eq_true] at inked
  exact inked.2

/-- Text without blank characters is part of another as it is part of the ink of that. -/
theorem sublist_ink_iff {other : Text} (inked : ink text = text) :
    text.Sublist (ink other) ↔ text.Sublist other := by
  refine ⟨fun isPart => isPart.trans List.filter_sublist, fun isPart => ?_⟩
  rw [← inked]
  exact isPart.filter _

/-- Blank separators between texts add no ink. -/
theorem ink_intercalate {separator : Text} (blank : allBlank separator = true)
    (texts : List Text) : ink (separator.intercalate texts) = texts.flatMap ink := by
  induction texts with
  | nil => rfl
  | cons first rest ih =>
      cases rest with
      | nil => simp
      | cons second others =>
          rw [List.intercalate_cons_cons, ink_append, ink_append, ink_eq_nil_iff.mpr blank, ih,
            List.append_nil]
          rfl

theorem inkWhere_of_const {chosen : Bool} (same : ∀ other, offset ≤ other →
    other < offset + text.size → holds other = chosen) :
    inkWhere holds offset text = if chosen then ink text else [] := by
  cases chosen with
  | true => exact inkWhere_of_forall same
  | false => exact inkWhere_of_forall_not same

/-- A span that fits behind a part of a document parts what follows that. -/
theorem exists_cut {front back : Text} {span : Span} (fits : span.Fits (front ++ back))
    (behind : front.size ≤ span.start) :
    ∃ between text after, back = between ++ (text ++ after) ∧
      span = ⟨(front ++ between).size, (front ++ between ++ text).size⟩ := by
  obtain ⟨between, rest, rfl, startEq⟩ := exists_append_of_isBoundary fits.startBoundary behind
  have stopBoundary := fits.stopBoundary
  rw [← List.append_assoc] at stopBoundary
  obtain ⟨text, after, rfl, stopEq⟩ :=
    exists_append_of_isBoundary stopBoundary (startEq ▸ fits.ordered)
  obtain ⟨start, stop⟩ := span
  dsimp only at startEq stopEq
  exact ⟨between, text, after, rfl, by rw [startEq, stopEq]⟩

/-- Spans cover nothing in front of them. -/
theorem any_covers_eq_false {spans : List Span} {stop other : Nat}
    (behind : ∀ span ∈ spans, stop ≤ span.start) (inFront : other < stop) :
    spans.any (·.covers other) = false := by
  refine List.any_eq_false.mpr fun span member covers => ?_
  have begins := behind span member
  simp only [Span.covers, Bool.and_eq_true, decide_eq_true_eq] at covers
  omega

/-- The first of some spans covers its own text and nothing in front of it or behind it. -/
theorem inkWhere_any_covers_cons (choose : Bool → Bool) {between after : Text} {span : Span}
    {rest : List Span} (startEq : span.start = offset + between.size)
    (stopEq : span.stop = span.start + text.size) (later : ∀ other ∈ rest, span.stop ≤ other.start) :
    inkWhere (fun other => choose ((span :: rest).any (·.covers other))) offset
        (between ++ (text ++ after))
      = (if choose false then ink between else []) ++ ((if choose true then ink text else [])
        ++ inkWhere (fun other => choose (rest.any (·.covers other))) span.stop after) := by
  rw [inkWhere_append, inkWhere_append, ← startEq, ← stopEq]
  congr 1
  · refine inkWhere_of_const fun other _ inFront => ?_
    have notFirst : span.covers other = false := by
      simp only [Span.covers, startEq, Nat.not_le.mpr inFront, decide_false, Bool.false_and]
    rw [List.any_cons, notFirst, any_covers_eq_false later (by omega), Bool.or_false]
  congr 1
  · refine inkWhere_of_const fun other fromStart untilStop => ?_
    have covered : span.covers other = true := by
      simp only [Span.covers, Bool.and_eq_true, decide_eq_true_eq]
      omega
    rw [List.any_cons, covered, Bool.true_or]
  · refine inkWhere_congr fun other fromStop _ => ?_
    have notFirst : span.covers other = false := by
      simp only [Span.covers, Nat.not_lt.mpr fromStop, decide_false, Bool.and_false]
    rw [List.any_cons, notFirst, Bool.false_or]

theorem inkWhere_covers_of_le {front back : Text} {spans : List Span}
    (fits : ∀ span ∈ spans, span.Fits (front ++ back))
    (behind : ∀ span ∈ spans, front.size ≤ span.start)
    (ordered : spans.Pairwise fun first second => first.stop ≤ second.start) :
    inkWhere (fun offset => spans.any (·.covers offset)) front.size back
      = spans.flatMap fun span => ink ((front ++ back).slice span) := by
  induction spans generalizing front back with
  | nil => exact inkWhere_of_forall_not fun _ _ _ => rfl
  | cons span rest ih =>
      obtain ⟨later, restOrdered⟩ := List.pairwise_cons.mp ordered
      obtain ⟨fitsFirst, fitsRest⟩ := List.forall_mem_cons.mp fits
      obtain ⟨between, text, after, rfl, rfl⟩ := exists_cut fitsFirst (behind span List.mem_cons_self)
      have parts : front ++ (between ++ (text ++ after)) = front ++ between ++ text ++ after := by
        simp only [List.append_assoc]
      have sliced : Spells (front ++ between ++ text ++ after)
          ⟨(front ++ between).size, (front ++ between ++ text).size⟩ text :=
        ⟨front ++ between, after, rfl, by rw [size_append _ text]⟩
      have others := ih (fun other member => parts ▸ fitsRest other member) later restOrdered
      have split := @inkWhere_any_covers_cons front.size text id between after
        ⟨(front ++ between).size, (front ++ between ++ text).size⟩ rest (size_append _ _)
        (size_append _ _) later
      simp only [id_eq, Bool.false_eq_true, if_false, if_true, List.nil_append] at split
      rw [split, others, parts, List.flatMap_cons, sliced.slice_eq]

/-- What spans one behind the other cover of a document are their texts. -/
theorem inkWhere_covers {document : Text} {spans : List Span}
    (fits : ∀ span ∈ spans, span.Fits document)
    (ordered : spans.Pairwise fun first second => first.stop ≤ second.start) :
    inkWhere (fun offset => spans.any (·.covers offset)) 0 document
      = spans.flatMap fun span => ink (document.slice span) :=
  @inkWhere_covers_of_le [] document spans fits (fun _ _ => Nat.zero_le _) ordered

end Text

end LatexTabular
