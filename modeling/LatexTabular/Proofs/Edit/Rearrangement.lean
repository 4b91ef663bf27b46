import LatexTabular.Proofs.Edit.Validity

/-!
# The order in which edits are planned

Sorting keeps the edits of one and the same span in their order and settles all others, so it
makes one list of all rearrangements that leave the edits of each span in their order
(`Batch.sorted_eq_of_perm`).  In a valid batch only insertions share a span; their texts stand
side by side, in the order of the batch (`Batch.apply_eq_of_perm`).
-/

namespace LatexTabular

/-- A span of the front part of a document fits the document. -/
theorem Span.Fits.append {front : Text} {span : Span} (fits : span.Fits front) (back : Text) :
    span.Fits (front ++ back) := by
  obtain ⟨before, after, frontEq, spanEq⟩ := fits.spells_slice
  exact Text.Spells.fits ⟨before, after ++ back, by rw [← List.append_assoc, ← frontEq], spanEq⟩

/-- A span that ends in the front part of a document fits that part. -/
theorem Span.Fits.of_append {front back : Text} {span : Span} (fits : span.Fits (front ++ back))
    (within : span.stop ≤ front.size) : span.Fits front := by
  have ordered := fits.ordered
  have starts := fits.startBoundary
  have stops := fits.stopBoundary
  rw [Text.isBoundary, Text.takeBytes_append_of_ge back (by omega)] at starts stops
  exact ⟨ordered, starts, stops⟩

namespace Edit

theorem precedes_of_span_eq {first second : Edit} (same : first.span = second.span) :
    first.precedes second = true := by
  simp [precedes, same]

/-- Edits of which each comes before the other have the same span. -/
theorem span_eq_of_precedes {first second : Edit} (left : first.precedes second = true)
    (right : second.precedes first = true) : first.span = second.span := by
  obtain ⟨⟨start, stop⟩, _⟩ := first
  obtain ⟨⟨start', stop'⟩, _⟩ := second
  simp only [precedes, Bool.or_eq_true, Bool.and_eq_true, decide_eq_true_eq,
    beq_iff_eq] at left right
  simp only [Span.mk.injEq]
  omega

end Edit

namespace Batch

variable {document : Text} {batch other : Batch}

/-- Sorting keeps the edits of each span in their order. -/
theorem filter_span_sorted (batch : Batch) (span : Span) :
    batch.sorted.filter (·.span = span) = batch.filter (·.span = span) := by
  have alike : (batch.filter (·.span = span)).Pairwise fun first second =>
      first.precedes second = true := by
    refine List.pairwise_of_forall_mem_list fun first inFirst second inSecond => ?_
    have firstSpan := of_decide_eq_true (List.mem_filter.mp inFirst).2
    have secondSpan := of_decide_eq_true (List.mem_filter.mp inSecond).2
    exact Edit.precedes_of_span_eq (firstSpan.trans secondSpan.symm)
  have kept := List.sublist_mergeSort Edit.precedes_trans Edit.precedes_total alike
    List.filter_sublist
  have isPart := kept.filter (·.span = span)
  rw [List.filter_filter] at isPart
  simp only [Bool.and_self] at isPart
  exact (isPart.eq_of_length ((sorted_perm batch).filter _).length_eq.symm).symm

/-- An order of the document is settled by the order of the edits of each span. -/
theorem eq_of_pairwise_precedes {first second : List Edit} (same : first.Perm second)
    (firstOrdered : first.Pairwise fun edit later => edit.precedes later = true)
    (secondOrdered : second.Pairwise fun edit later => edit.precedes later = true)
    (inOrder : ∀ span, first.filter (·.span = span) = second.filter (·.span = span)) :
    first = second := by
  induction first generalizing second with
  | nil => exact same.nil_eq
  | cons edit rest ih =>
      cases second with
      | nil => exact absurd same.eq_nil (List.cons_ne_nil edit rest)
      | cons edit' rest' =>
          obtain ⟨before, restOrdered⟩ := List.pairwise_cons.mp firstOrdered
          obtain ⟨before', restOrdered'⟩ := List.pairwise_cons.mp secondOrdered
          have spanEq : edit.span = edit'.span := by
            rcases List.mem_cons.mp (same.mem_iff.mpr (List.mem_cons_self (a := edit')))
              with rfl | later
            · rfl
            rcases List.mem_cons.mp (same.mem_iff.mp (List.mem_cons_self (a := edit)))
              with rfl | later'
            · rfl
            exact Edit.span_eq_of_precedes (before edit' later) (before' edit later')
          -- The first edits have one span, and the first of that span is the same in both.
          obtain rfl : edit = edit' := by
            have heads := inOrder edit.span
            rw [List.filter_cons_of_pos (by simp), List.filter_cons_of_pos (by simp [spanEq])]
              at heads
            exact (List.cons.inj heads).1
          rw [ih ((List.perm_cons edit).mp same) restOrdered restOrdered' fun span => ?_]
          have others := inOrder span
          rw [List.filter_cons, List.filter_cons] at others
          split at others
          · exact (List.cons.inj others).2
          · exact others

/-- Rearrangements that keep the edits of each span in their order are sorted alike. -/
theorem sorted_eq_of_perm (same : batch.Perm other)
    (inOrder : ∀ span, batch.filter (·.span = span) = other.filter (·.span = span)) :
    batch.sorted = other.sorted := by
  refine eq_of_pairwise_precedes ?_ (pairwise_sorted batch) (pairwise_sorted other) fun span => ?_
  · exact (sorted_perm batch).trans (same.trans (sorted_perm other).symm)
  · rw [filter_span_sorted, filter_span_sorted, inOrder]

/-- Some edits of a batch are sorted as they are among all its edits. -/
theorem sorted_filter (batch : Batch) (holds : Edit → Bool) :
    sorted (batch.filter holds) = batch.sorted.filter holds := by
  refine eq_of_pairwise_precedes ?_ (pairwise_sorted _) ((pairwise_sorted batch).filter _)
    fun span => ?_
  · exact (sorted_perm _).trans ((sorted_perm batch).filter _).symm
  · rw [filter_span_sorted, List.filter_comm, List.filter_comm _ holds, filter_span_sorted]

/-- Batches that are sorted alike are valid alike and do the same. -/
theorem validate_and_apply_eq_of_sorted_eq (document : Text) (same : batch.sorted = other.sorted) :
    validate document other = validate document batch ∧
      apply document other = apply document batch := by
  have checked : validate document other = validate document batch := by
    rw [validate, validate, same]
  refine ⟨checked, ?_⟩
  rw [apply, apply, checked, same]

/-- Edits of a valid batch that share a span insert. -/
theorem pairwise_isEmpty_of_validate (valid : validate document batch = .ok ()) :
    batch.Pairwise fun first second => first.span = second.span → first.span.isEmpty = true := by
  refine (validate_eq_ok_iff.mp valid).2.imp fun apart same => ?_
  rw [Edit.Apart, ← same] at apart
  simp only [Span.isEmpty, decide_eq_true_eq]
  omega

/-- Of a valid batch at most one edit has a span that is not empty. -/
theorem length_filter_span_le_one (valid : validate document batch = .ok ()) {span : Span}
    (covers : span.isEmpty = false) : (batch.filter (·.span = span)).length ≤ 1 := by
  have alone := (pairwise_isEmpty_of_validate valid).filter (·.span = span)
  have spanOf : ∀ edit ∈ batch.filter (·.span = span), edit.span = span :=
    fun edit member => of_decide_eq_true (List.mem_filter.mp member).2
  generalize batch.filter (·.span = span) = edits at alone spanOf
  match edits with
  | [] => exact Nat.zero_le 1
  | [_] => exact Nat.le_refl 1
  | first :: second :: rest =>
      have firstSpan := spanOf first (by simp)
      have secondSpan := spanOf second (by simp)
      have empty := (List.pairwise_cons.mp alone).1 second (by simp)
        (firstSpan.trans secondSpan.symm)
      rw [firstSpan, covers] at empty
      exact absurd empty Bool.noConfusion

/-- Rearrangements of a valid batch that keep the insertions at each offset in their order keep
all edits of a span in their order. -/
theorem filter_span_eq_of_points (valid : validate document batch = .ok ())
    (same : batch.Perm other)
    (inOrder : ∀ offset, batch.filter (·.span = .point offset)
      = other.filter (·.span = .point offset)) (span : Span) :
    batch.filter (·.span = span) = other.filter (·.span = span) := by
  have alike := same.filter (·.span = span)
  by_cases point : span = .point span.start
  · rw [point]
    exact inOrder span.start
  cases covers : span.isEmpty with
  | false =>
      have short := length_filter_span_le_one valid covers
      generalize batch.filter (·.span = span) = edits at alike short
      match edits with
      | [] => exact alike.nil_eq
      | [edit] => exact List.singleton_perm.mp alike
      | _ :: _ :: _ => exact absurd short (by simp)
  | true =>
      -- A reversed span fits no document.
      have none : batch.filter (·.span = span) = [] := by
        refine List.filter_eq_nil_iff.mpr fun edit member isSpan => point ?_
        obtain rfl := of_decide_eq_true isSpan
        have ordered := ((validate_eq_ok_iff.mp valid).1 edit member).ordered
        have reversed : edit.span.stop ≤ edit.span.start := of_decide_eq_true covers
        exact congrArg (Span.mk edit.span.start) (Nat.le_antisymm reversed ordered)
      rw [none] at alike ⊢
      exact alike.nil_eq

/-- Copying part by part, each with the edits in it. -/
theorem splice_append {front back : Text} {first second : List Edit}
    (firstFits : ∀ edit ∈ first, edit.span.Fits front)
    (secondFits : ∀ edit ∈ second, edit.span.Fits (front ++ back))
    (behind : ∀ edit ∈ second, front.size ≤ edit.span.start)
    (firstFollowing : first.Pairwise fun edit later => edit.span.stop ≤ later.span.start)
    (secondFollowing : second.Pairwise fun edit later => edit.span.stop ≤ later.span.start) :
    splice 0 (front ++ back) (first ++ second)
      = splice 0 front first ++ splice front.size back second := by
  have inFront (rest : Text) : ∀ edit ∈ first, edit.span.Fits (front ++ rest) :=
    fun edit member => (firstFits edit member).append rest
  have following : (first ++ second).Pairwise fun edit later =>
      edit.span.stop ≤ later.span.start := by
    refine List.pairwise_append.mpr ⟨firstFollowing, secondFollowing, fun edit member later => ?_⟩
    intro inSecond
    have ends := (firstFits edit member).stop_le_size
    have begins := behind later inSecond
    omega
  calc splice 0 (front ++ back) (first ++ second)
      = first.foldr (fun edit text => Edit.perform text edit)
          (splice 0 (front ++ back) second) := by
        rw [splice_eq_foldr_perform _ following, List.foldr_append,
          ← splice_eq_foldr_perform secondFits secondFollowing]
        exact fun edit member => (List.mem_append.mp member).elim (inFront back edit)
          (secondFits edit)
    _ = first.foldr (fun edit text => Edit.perform text edit)
          (front ++ splice front.size back second) := by
        rw [splice_append_of_ge 0 front back (by simpa using behind)
          fun edit member => (secondFits edit member).ordered, Nat.zero_add]
    _ = splice 0 front first ++ splice front.size back second := by
        rw [← splice_eq_foldr_perform (inFront _) firstFollowing,
          splice_append_of_le 0 front _ _ _ firstFollowing]
        · intro edit member
          simpa using (firstFits edit member).stop_le_size
        · exact fun edit member => (firstFits edit member).ordered

/-- Copying with insertions at the start of a text puts their texts in front of it. -/
theorem splice_point_append {offset : Nat} (text : Text) {inserts : List Edit}
    (atOffset : ∀ edit ∈ inserts, edit.span = .point offset) (rest : List Edit) :
    splice offset text (inserts ++ rest)
      = inserts.flatMap (·.replacement) ++ splice offset text rest := by
  induction inserts with
  | nil => rfl
  | cons edit others ih =>
      obtain ⟨spanEq, atOffset⟩ := List.forall_mem_cons.mp atOffset
      have uncut : text.takeBytes 0 = [] ∧ text.dropBytes 0 = text :=
        ⟨Text.takeBytes_size_append [] text, Text.dropBytes_size_append [] text⟩
      simp only [List.cons_append, splice, spanEq, Span.point, Nat.sub_self, uncut,
        List.nil_append, List.flatMap_cons, List.append_assoc]
      rw [ih atOffset]

/-- A list sorted by a condition consists of what fulfils it and what does not. -/
theorem filter_append_filter_not {edits : List Edit} {holds : Edit → Bool}
    (downward : edits.Pairwise fun edit later => holds later = true → holds edit = true) :
    edits.filter holds ++ edits.filter (!holds ·) = edits := by
  induction edits with
  | nil => rfl
  | cons edit rest ih =>
      obtain ⟨first, downward⟩ := List.pairwise_cons.mp downward
      cases held : holds edit with
      | true => simp [held, ih downward]
      | false =>
          have none : rest.filter holds = [] := List.filter_eq_nil_iff.mpr fun later member found =>
            absurd (first later member found) (by simp [held])
          have all : rest.filter (!holds ·) = rest := List.filter_eq_self.mpr fun later member => by
            simpa using List.filter_eq_nil_iff.mp none later member
          simp [held, none, all]

/-- Whether an edit stands in front of the insertions at an offset. -/
def standsBefore (offset : Nat) (edit : Edit) : Bool :=
  edit.span.stop ≤ offset && edit.span ≠ .point offset

theorem standsBefore_eq_false_iff {offset : Nat} {edit : Edit} :
    standsBefore offset edit = false ↔ edit.span = .point offset ∨ offset < edit.span.stop := by
  simp only [standsBefore, ne_eq, decide_not, Bool.and_eq_false_iff, decide_eq_false_iff_not,
    Nat.not_le, Bool.not_eq_false', decide_eq_true_eq]
  exact or_comm

/-- The edits in front of an offset come first in the order of a valid batch. -/
theorem filter_standsBefore_append (valid : validate document batch = .ok ()) (offset : Nat) :
    batch.sorted.filter (standsBefore offset) ++ batch.sorted.filter (!standsBefore offset ·)
      = batch.sorted := by
  obtain ⟨fits, following⟩ := pairwise_of_validate valid
  refine filter_append_filter_not (following.imp_of_mem fun {edit later} _ isLater next => ?_)
  have ordered := (fits later isLater).ordered
  obtain ⟨⟨start, stop⟩, _⟩ := edit
  obtain ⟨⟨start', stop'⟩, _⟩ := later
  simp only [standsBefore, Span.point, ne_eq, Span.mk.injEq, Bool.and_eq_true,
    decide_eq_true_eq] at next ordered ⊢
  omega

/-- The insertions at an offset come next, in the order in which they are planned. -/
theorem filter_point_append (valid : validate document batch = .ok ()) (offset : Nat) :
    batch.filter (·.span = .point offset)
        ++ (batch.sorted.filter (!standsBefore offset ·)).filter
          (fun edit => !decide (edit.span = .point offset))
      = batch.sorted.filter (!standsBefore offset ·) := by
  have following := (pairwise_of_validate valid).2.filter (!standsBefore offset ·)
  -- The insertions at the offset are no edits in front of it.
  have points : (batch.sorted.filter (!standsBefore offset ·)).filter (·.span = .point offset)
      = batch.filter (·.span = .point offset) := by
    rw [← filter_span_sorted batch, List.filter_filter]
    refine List.filter_congr fun edit _ => ?_
    cases isPoint : decide (edit.span = .point offset) with
    | false => rfl
    | true => simp [standsBefore_eq_false_iff.mpr (.inl (of_decide_eq_true isPoint))]
  rw [← points]
  refine filter_append_filter_not (following.imp_of_mem fun {edit later} isEdit _ next isPoint => ?_)
  have notBefore := (List.mem_filter.mp isEdit).2
  rw [Bool.not_eq_true', standsBefore_eq_false_iff] at notBefore
  rw [of_decide_eq_true isPoint] at next
  exact decide_eq_true (notBefore.resolve_right (Nat.not_lt.mpr next))

/-- All other edits start behind an insertion or at it. -/
theorem le_start_of_standsBefore_eq_false (valid : validate document batch = .ok ())
    {insert edit : Edit} (isInsert : insert ∈ batch) {offset : Nat}
    (atOffset : insert.span = .point offset) (member : edit ∈ batch)
    (notBefore : standsBefore offset edit = false) (notPoint : edit.span ≠ .point offset) :
    offset ≤ edit.span.start := by
  have ends := (standsBefore_eq_false_iff.mp notBefore).resolve_left notPoint
  have different : edit ≠ insert := by
    rintro rfl
    exact notPoint atOffset
  have symmetric : Std.Symm Edit.Apart := ⟨fun _ _ => Edit.Apart.symm⟩
  have apart := (validate_eq_ok_iff.mp valid).2.forall member isInsert different
  rw [Edit.Apart, atOffset] at apart
  exact apart.resolve_left (Nat.not_le.mpr ends)

/-- Around an offset where it inserts, a valid batch consists of the edits in front of it, the
insertions and the edits behind it. -/
theorem exists_sorted_eq_append (valid : validate document batch = .ok ()) {insert : Edit}
    (member : insert ∈ batch) {offset : Nat} (atOffset : insert.span = .point offset) :
    ∃ behind, batch.sorted = batch.sorted.filter (standsBefore offset)
        ++ (batch.filter (·.span = .point offset) ++ behind) ∧
      batch.sorted.filter (·.span ≠ .point offset)
        = batch.sorted.filter (standsBefore offset) ++ behind ∧
      ∀ edit ∈ behind, offset ≤ edit.span.start := by
  have before := filter_standsBefore_append valid offset
  have rest := filter_point_append valid offset
  refine ⟨_, by rw [rest, before], ?_, fun edit inBehind => ?_⟩
  · conv => lhs; rw [← before]
    rw [List.filter_append, List.filter_eq_self.mpr]
    · exact congrArg _ (List.filter_congr fun edit _ => by simp)
    · intro edit inFront
      have stands := (List.mem_filter.mp inFront).2
      simp only [standsBefore, Bool.and_eq_true] at stands
      exact stands.2
  · obtain ⟨inRest, notPoint⟩ := List.mem_filter.mp inBehind
    obtain ⟨inSorted, notBefore⟩ := List.mem_filter.mp inRest
    exact le_start_of_standsBefore_eq_false valid member atOffset
      ((sorted_perm batch).mem_iff.mp inSorted) (by simpa using notBefore) (by simpa using notPoint)

/-- Edits in front of an offset, insertions at it and edits behind it are copied one after the
other. -/
theorem splice_append_points {left right : Text} {lead points behind : List Edit}
    (leadFits : ∀ edit ∈ lead, edit.span.Fits left)
    (leadFollowing : lead.Pairwise fun edit later => edit.span.stop ≤ later.span.start)
    (atPoint : ∀ edit ∈ points, edit.span = .point left.size)
    (starts : ∀ edit ∈ behind, left.size ≤ edit.span.start)
    (fits : ∀ edit ∈ points ++ behind, edit.span.Fits (left ++ right))
    (following : (points ++ behind).Pairwise fun edit later =>
      edit.span.stop ≤ later.span.start) :
    splice 0 (left ++ right) (lead ++ (points ++ behind))
      = splice 0 left lead ++ (points.flatMap (·.replacement) ++ splice left.size right behind) := by
  rw [splice_append leadFits fits _ leadFollowing following, splice_point_append right atPoint]
  intro edit isBehind
  rcases List.mem_append.mp isBehind with isPoint | isBehind
  · rw [atPoint edit isPoint]
    exact Nat.le_refl _
  · exact starts edit isBehind

/-- A valid batch writes the texts inserted at an offset side by side, in their order, between
what its other edits make of the document in front of the offset and behind it. -/
theorem exists_apply_eq_around (valid : validate document batch = .ok ()) {insert : Edit}
    (member : insert ∈ batch) {offset : Nat} (atOffset : insert.span = .point offset) :
    ∃ front back,
      apply (document.takeBytes offset) (batch.filter (standsBefore offset)) = .ok front ∧
      apply document (batch.filter (·.span ≠ .point offset)) = .ok (front ++ back) ∧
      apply document batch = .ok (front
        ++ (batch.filter (·.span = .point offset)).flatMap (·.replacement) ++ back) := by
  obtain ⟨behind, sortedEq, othersEq, starts⟩ := exists_sorted_eq_append valid member atOffset
  obtain ⟨fits, following⟩ := pairwise_of_validate valid
  obtain ⟨batchFits, apart⟩ := validate_eq_ok_iff.mp valid
  have boundary := (batchFits insert member).startBoundary
  rw [atOffset] at boundary
  obtain ⟨left, right, rfl, rfl⟩ := Text.isBoundary_iff.mp boundary
  have frontFits : ∀ edit ∈ batch.sorted.filter (standsBefore left.size), edit.span.Fits left := by
    intro edit isFront
    obtain ⟨inSorted, stands⟩ := List.mem_filter.mp isFront
    simp only [standsBefore, Bool.and_eq_true, decide_eq_true_eq] at stands
    exact (fits edit inSorted).of_append stands.1
  have frontFollowing := following.filter (standsBefore left.size)
  have inserts : ∀ edit ∈ batch.filter (·.span = .point left.size),
      edit.span = .point left.size := fun edit isInsert =>
    of_decide_eq_true (List.mem_filter.mp isInsert).2
  have partsFits := fits
  have partsFollowing := following
  rw [sortedEq] at partsFits partsFollowing
  have restFits := fun edit member => partsFits edit (List.mem_append_right _ member)
  have restFollowing := (List.pairwise_append.mp partsFollowing).2.1
  rw [Text.takeBytes_size_append]
  refine ⟨splice 0 left (batch.sorted.filter (standsBefore left.size)),
    splice left.size right behind, ?_, ?_, ?_⟩
  · have validFront : validate left (batch.filter (standsBefore left.size)) = .ok () := by
      refine validate_eq_ok (fun edit isFront => frontFits edit ?_) (apart.filter _)
      obtain ⟨inBatch, stands⟩ := List.mem_filter.mp isFront
      exact List.mem_filter.mpr ⟨(sorted_perm batch).mem_iff.mpr inBatch, stands⟩
    rw [apply_eq_of_validate validFront, sorted_filter]
    rfl
  · have validOthers : validate (left ++ right) (batch.filter (·.span ≠ .point left.size))
        = .ok () :=
      validate_eq_ok (fun edit member => batchFits edit (List.mem_filter.mp member).1)
        (apart.filter _)
    rw [apply_eq_of_validate validOthers, sorted_filter, othersEq]
    exact congrArg Except.ok (@splice_append_points left right _ [] behind frontFits frontFollowing
      (by simp) starts (fun edit member => restFits edit (List.mem_append_right _ member))
      (List.pairwise_append.mp restFollowing).2.1)
  · have whole :=
      splice_append_points frontFits frontFollowing inserts starts restFits restFollowing
    rw [← sortedEq] at whole
    rw [apply_eq_of_validate valid, List.append_assoc, ← whole]
    rfl

/-- Rearrangements of a batch that keep the edits of each span in their order are valid alike
and do the same.  In a valid batch only insertions share a span, so it is enough that those of
each offset keep their order, and their texts stand in this order where they are inserted. -/
theorem apply_eq_of_perm (document : Text) {batch other : Batch} (same : batch.Perm other) :
    ((∀ span, batch.filter (·.span = span) = other.filter (·.span = span)) →
      validate document other = validate document batch ∧
      apply document other = apply document batch) ∧
    (validate document batch = .ok () →
      (batch.Pairwise fun first second =>
        first.span = second.span → first.span.isEmpty = true) ∧
      ((∀ offset, batch.filter (·.span = .point offset) = other.filter (·.span = .point offset)) →
        validate document other = .ok () ∧ apply document other = apply document batch) ∧
      ∀ offset, (∃ edit ∈ batch, edit.span = .point offset) →
        ∃ front back,
          apply (document.takeBytes offset) (batch.filter (standsBefore offset)) = .ok front ∧
          apply document (batch.filter (·.span ≠ .point offset)) = .ok (front ++ back) ∧
          apply document batch = .ok (front
            ++ (batch.filter (·.span = .point offset)).flatMap (·.replacement) ++ back)) := by
  refine ⟨fun inOrder => ?_, fun valid => ⟨pairwise_isEmpty_of_validate valid, fun inOrder => ?_,
    fun offset ⟨insert, member, atOffset⟩ => exists_apply_eq_around valid member atOffset⟩⟩
  · exact validate_and_apply_eq_of_sorted_eq document (sorted_eq_of_perm same inOrder)
  · have alike := validate_and_apply_eq_of_sorted_eq document
      (sorted_eq_of_perm same (filter_span_eq_of_points valid same inOrder))
    rwa [valid] at alike

/-- A replacement and two insertions at one offset in front of it. -/
def scattered : Batch :=
  [⟨⟨2, 3⟩, "z".toList⟩, .insertion 1 "x".toList, .insertion 1 "y".toList]

/-- The same edits, the replacement planned between the insertions. -/
def regrouped : Batch :=
  [.insertion 1 "x".toList, ⟨⟨2, 3⟩, "z".toList⟩, .insertion 1 "y".toList]

/-- Both orders are valid and write the inserted texts in the same order. -/
theorem apply_eq_of_perm_regrouped :
    apply "abcd".toList regrouped = .ok "axybzd".toList ∧
      ∃ front back, front ++ "xy".toList ++ back = "axybzd".toList ∧
        apply "a".toList [] = .ok front ∧
        apply "abcd".toList [⟨⟨2, 3⟩, "z".toList⟩] = .ok (front ++ back) := by
  have same : scattered.Perm regrouped := by decide
  have inOrder (span : Span) :
      scattered.filter (·.span = span) = regrouped.filter (·.span = span) := by
    simp only [scattered, regrouped, Edit.insertion, List.filter_cons]
    by_cases isFirst : (⟨2, 3⟩ : Span) = span
    · subst isFirst
      rfl
    · simp [isFirst]
  have valid : validate "abcd".toList scattered = .ok () := by cbv
  have applied : apply "abcd".toList scattered = .ok "axybzd".toList := by cbv
  obtain ⟨alike, ofValid⟩ := apply_eq_of_perm "abcd".toList same
  obtain ⟨-, -, around⟩ := ofValid valid
  obtain ⟨front, back, before, others, whole⟩ :=
    around 1 ⟨.insertion 1 "x".toList, by decide, rfl⟩
  refine ⟨(alike inOrder).2.trans applied, front, back, ?_, before, others⟩
  rw [applied] at whole
  exact (Except.ok.inj whole).symm

end Batch

end LatexTabular
