import LatexTabular.Proofs.Edit.Batch
import Mathlib.Data.List.Pairwise

/-!
# Rewriting a text by edits

`Rewrite` relates a text at some offset to what edits in the order of the text
make of it.  Rewrites of neighbouring texts make up a rewrite of both
(`Rewrite.append`), and a batch does what its edits rewrite, in whatever order
they were planned (`Rewrites.apply_eq`).
-/

namespace LatexTabular

/-- Edits turn a text that starts at an offset into another text.  Every edit
replaces something or stands in front of it. -/
inductive Rewrite : (offset : Nat) → (source : Text) → List Edit → (target : Text) → Prop where
  | done {offset : Nat} : Rewrite offset [] [] []
  | keep {offset : Nat} {character : Char} {source target : Text} {edits : List Edit}
      (rest : Rewrite (offset + character.utf8Size) source edits target) :
      Rewrite offset (character :: source) edits (character :: target)
  | insert {offset : Nat} {source target : Text} {edits : List Edit} (added : Text)
      (nonempty : source ≠ []) (rest : Rewrite offset source edits target)
      (behind : ∀ edit ∈ edits, offset < edit.span.stop) :
      Rewrite offset source (.insertion offset added :: edits) (added ++ target)
  | replace {offset : Nat} {old source target : Text} {edits : List Edit} (new : Text)
      (nonempty : old ≠ []) (rest : Rewrite (offset + old.size) source edits target) :
      Rewrite offset (old ++ source) (⟨⟨offset, offset + old.size⟩, new⟩ :: edits)
        (new ++ target)

namespace Rewrite

variable {offset : Nat} {source target : Text} {edits : List Edit}

/-- A text without edits stays. -/
theorem refl (offset : Nat) (text : Text) : Rewrite offset text [] text := by
  induction text generalizing offset with
  | nil => exact .done
  | cons character rest ih => exact .keep (ih _)

/-- Every edit stands within the text. -/
theorem bounds (rewrite : Rewrite offset source edits target) :
    ∀ edit ∈ edits, offset ≤ edit.span.start ∧ edit.span.start ≤ edit.span.stop ∧
      edit.span.stop ≤ offset + source.size := by
  induction rewrite with
  | done => simp
  | keep rest ih =>
      intro edit member
      have := ih edit member
      simp only [Text.size_cons]
      omega
  | insert added nonempty rest behind ih =>
      intro edit member
      cases member with
      | head =>
          simp only [Edit.insertion, Span.point]
          omega
      | tail _ member => exact ih edit member
  | replace new nonempty rest ih =>
      intro edit member
      simp only [Text.size_append]
      cases member with
      | head =>
          dsimp only
          omega
      | tail _ member =>
          have := ih edit member
          omega

theorem append {source' target' : Text} {edits' : List Edit}
    (left : Rewrite offset source edits target)
    (right : Rewrite (offset + source.size) source' edits' target') :
    Rewrite offset (source ++ source') (edits ++ edits') (target ++ target') := by
  induction left with
  | done => exact right
  | keep rest ih =>
      refine .keep (ih ?_)
      simpa [Nat.add_assoc] using right
  | @insert offset source target edits added nonempty rest behind ih =>
      have whole := Rewrite.insert added (by simp [nonempty]) (ih right) fun edit member => by
        rcases List.mem_append.mp member with inLeft | inRight
        · exact behind edit inLeft
        · have := right.bounds edit inRight
          have := Text.size_pos_of_ne_nil nonempty
          omega
      rwa [← List.append_assoc] at whole
  | replace new nonempty rest ih =>
      have behind := ih (by simpa [Nat.add_assoc] using right)
      simpa using Rewrite.replace new nonempty behind

/-- One edit replaces the middle part of a text. -/
theorem replacement (offset : Nat) (left right new : Text) {old : Text} (nonempty : old ≠ []) :
    Rewrite offset (left ++ (old ++ right))
      [⟨⟨offset + left.size, offset + left.size + old.size⟩, new⟩]
      (left ++ (new ++ right)) :=
  (refl offset left).append (.replace new nonempty (refl _ right))

/-- One edit puts a text in front of what follows. -/
theorem insertion (offset : Nat) (left added : Text) {right : Text} (nonempty : right ≠ []) :
    Rewrite offset (left ++ right) [.insertion (offset + left.size) added]
      (left ++ (added ++ right)) :=
  (refl offset left).append (.insert added nonempty (refl _ right) nofun)

/-- A text loses what stands in front of it and has something else put behind it. -/
theorem unwrapping (offset : Nat) (left content right new : Text) {front back : Text}
    (nonempty : front ≠ []) (nonempty' : back ≠ []) :
    Rewrite offset (left ++ (front ++ (content ++ (back ++ right))))
      [.deletion ⟨offset + left.size, offset + left.size + front.size⟩,
        ⟨⟨offset + left.size + front.size + content.size,
          offset + left.size + front.size + content.size + back.size⟩, new⟩]
      (left ++ (content ++ (new ++ right))) :=
  (refl offset left).append (.replace [] nonempty (replacement _ content right new nonempty'))

/-- The edits stand in the order in which they are applied, each one behind the one before. -/
theorem pairwise (rewrite : Rewrite offset source edits target) :
    edits.Pairwise fun first second => first.span.stop ≤ second.span.start ∧
      first.span ≠ second.span ∧ first.precedes second = true := by
  induction rewrite with
  | done => exact .nil
  | keep rest ih => exact ih
  | @insert offset source target edits added nonempty rest behind ih =>
      refine List.pairwise_cons.mpr ⟨?_, ih⟩
      intro edit member
      have bounds := rest.bounds edit member
      have ends := behind edit member
      refine ⟨bounds.1, ?_, ?_⟩
      · intro same
        rw [← same] at ends
        exact Nat.lt_irrefl _ ends
      · simp only [Edit.precedes, Bool.or_eq_true, decide_eq_true_eq, Bool.and_eq_true, beq_iff_eq]
        simp only [Edit.insertion, Span.point]
        omega
  | @replace offset old source target edits new nonempty rest ih =>
      refine List.pairwise_cons.mpr ⟨?_, ih⟩
      intro edit member
      have bounds := rest.bounds edit member
      have positive := Text.size_pos_of_ne_nil nonempty
      refine ⟨bounds.1, ?_, ?_⟩
      · intro same
        rw [← same] at bounds
        dsimp only at bounds
        omega
      · have order : offset < edit.span.start := by omega
        simp [Edit.precedes, order]

/-- Every edit fits a document in which the text stands at its offset. -/
theorem fits (rewrite : Rewrite offset source edits target) (front back : Text)
    (atOffset : front.size = offset) :
    ∀ edit ∈ edits, edit.span.Fits (front ++ source ++ back) := by
  induction rewrite generalizing front with
  | done => simp
  | @keep offset character source target edits rest ih =>
      intro edit member
      simpa using ih (front ++ [character]) (by simp [atOffset]) edit member
  | @insert offset source target edits added nonempty rest behind ih =>
      intro edit member
      cases member with
      | head =>
          have boundary := Text.isBoundary_size_append front (source ++ back)
          rw [atOffset] at boundary
          refine ⟨Nat.le_refl _, ?_, ?_⟩ <;> simpa [Edit.insertion, Span.point] using boundary
      | tail _ member => exact ih front atOffset edit member
  | @replace offset old source target edits new nonempty rest ih =>
      intro edit member
      cases member with
      | head =>
          have spells := Text.Spells.of_append front old (source ++ back)
          rw [atOffset] at spells
          simpa using spells.fits
      | tail _ member => simpa using ih (front ++ old) (by simp [atOffset]) edit member

/-- Copying a text with the edits applied yields what they rewrite it to. -/
theorem splice_eq (rewrite : Rewrite offset source edits target) :
    Batch.splice offset source edits = target := by
  induction rewrite with
  | done => rfl
  | @keep offset character source target edits rest ih =>
      have kept := Batch.splice_append_of_ge offset [character] source
        (fun edit member => by simpa using (rest.bounds edit member).1)
        (fun edit member => (rest.bounds edit member).2.1)
      rw [← ih]
      simpa using kept
  | @insert offset source target edits added nonempty rest behind ih =>
      have nothing : Text.takeBytes source 0 = [] := Text.takeBytes_size_append [] source
      have whole : Text.dropBytes source 0 = source := Text.dropBytes_size_append [] source
      simp only [Batch.splice, Edit.insertion, Span.point, Nat.sub_self, nothing, whole, ih,
        List.nil_append]
  | @replace offset old source target edits new nonempty rest ih =>
      have nothing : Text.takeBytes (old ++ source) 0 = [] := by
        simpa using Text.takeBytes_size_append [] (old ++ source)
      simp only [Batch.splice, Nat.sub_self, Nat.add_sub_cancel_left, nothing,
        Text.dropBytes_size_append, ih, List.nil_append]

end Rewrite

/-- A batch, in any order, turns a text that starts at an offset into another
text. -/
def Rewrites (offset : Nat) (source : Text) (batch : Batch) (target : Text) : Prop :=
  ∃ edits, batch.Perm edits ∧ Rewrite offset source edits target

theorem Rewrite.rewrites {offset : Nat} {source target : Text} {edits : List Edit}
    (rewrite : Rewrite offset source edits target) : Rewrites offset source edits target :=
  ⟨edits, .refl _, rewrite⟩

namespace Rewrites

variable {offset : Nat} {source target : Text} {batch : Batch}

theorem refl (offset : Nat) (text : Text) : Rewrites offset text [] text :=
  ⟨[], .refl _, .refl offset text⟩

theorem append {source' target' : Text} {batch' : Batch}
    (left : Rewrites offset source batch target)
    (right : Rewrites (offset + source.size) source' batch' target') :
    Rewrites offset (source ++ source') (batch ++ batch') (target ++ target') := by
  obtain ⟨edits, same, rewrite⟩ := left
  obtain ⟨edits', same', rewrite'⟩ := right
  exact ⟨edits ++ edits', same.append same', rewrite.append rewrite'⟩

/-- What follows may be known to start at an offset given in another way. -/
theorem append_of_eq {offset' : Nat} {source' target' : Text} {batch' : Batch}
    (left : Rewrites offset source batch target) (starts : offset + source.size = offset')
    (right : Rewrites offset' source' batch' target') :
    Rewrites offset (source ++ source') (batch ++ batch') (target ++ target') :=
  left.append (starts ▸ right)

/-- Every edit stands within the text. -/
theorem bounds (rewrites : Rewrites offset source batch target) :
    ∀ edit ∈ batch, offset ≤ edit.span.start ∧ edit.span.start ≤ edit.span.stop ∧
      edit.span.stop ≤ offset + source.size := by
  obtain ⟨edits, same, rewrite⟩ := rewrites
  exact fun edit member => rewrite.bounds edit (same.mem_iff.mp member)

/-- A text may be put in front of what edits do not put there. -/
theorem insert_front (rewrites : Rewrites offset source batch target) (added : Text)
    (nonempty : source ≠ []) (behind : ∀ edit ∈ batch, offset < edit.span.stop) :
    Rewrites offset source (.insertion offset added :: batch) (added ++ target) := by
  obtain ⟨edits, same, rewrite⟩ := rewrites
  exact ⟨_, same.cons _, rewrite.insert added nonempty fun edit member =>
    behind edit (same.mem_iff.mpr member)⟩

/-- A text that goes. -/
theorem deletion (offset : Nat) {text : Text} (nonempty : text ≠ []) :
    Rewrites offset text [.deletion ⟨offset, offset + text.size⟩] [] := by
  have deleted := (Rewrite.replacement offset [] [] [] nonempty).rewrites
  rw [List.append_nil] at deleted
  exact deleted

/-- A revision replaces the middle part of a text, where nothing stays nothing. -/
theorem revision (offset : Nat) (left right : Text) {old new : Text}
    (kept : old = [] → new = []) :
    Rewrites offset (left ++ old ++ right)
      (Edit.revision ⟨offset + left.size, offset + left.size + old.size⟩ old new)
      (left ++ new ++ right) := by
  unfold Edit.revision
  split
  next same =>
    subst same
    exact .refl _ _
  next changed =>
    have nonempty : old ≠ [] := fun empty => changed (empty.trans (kept empty).symm)
    have replaced := (Rewrite.replacement offset left right new nonempty).rewrites
    rwa [← List.append_assoc, ← List.append_assoc] at replaced

theorem perm {batch' : Batch} (rewrites : Rewrites offset source batch target)
    (same : batch'.Perm batch) : Rewrites offset source batch' target := by
  obtain ⟨edits, order, rewrite⟩ := rewrites
  exact ⟨edits, same.trans order, rewrite⟩

/-- The edits do not meet each other. -/
theorem pairwise_apart (rewrites : Rewrites offset source batch target) :
    batch.Pairwise Edit.Apart := by
  obtain ⟨edits, same, rewrite⟩ := rewrites
  exact same.symm.pairwise (rewrite.pairwise.imp fun ordered => Or.inl ordered.1) Edit.Apart.symm

/-- Applying a batch to a document does what its edits rewrite. -/
theorem apply_eq (rewrites : Rewrites 0 source batch target) :
    Batch.apply source batch = .ok target := by
  have apart := rewrites.pairwise_apart
  obtain ⟨edits, same, rewrite⟩ := rewrites
  have editsFit := rewrite.fits [] [] rfl
  have fits : ∀ edit ∈ batch, edit.span.Fits source := by
    intro edit member
    simpa using editsFit edit (same.mem_iff.mp member)
  have inOrder : batch.sorted = edits := by
    have sortedPerm := (Batch.sorted_perm batch).trans same
    refine sortedPerm.eq_of_pairwise ?_ (Batch.pairwise_sorted batch)
      (rewrite.pairwise.imp fun ordered => ordered.2.2)
    intro first second firstIn secondIn before behind
    by_contra different
    have symmetric : Std.Symm fun first second : Edit => first.span ≠ second.span :=
      ⟨fun _ _ => Ne.symm⟩
    have spans : edits.Pairwise fun first second => first.span ≠ second.span :=
      rewrite.pairwise.imp fun ordered => ordered.2.1
    have distinct := spans.forall (sortedPerm.mem_iff.mp firstIn) secondIn different
    simp only [Edit.precedes, Bool.or_eq_true, Bool.and_eq_true, decide_eq_true_eq,
      beq_iff_eq] at before behind
    have same : first.span = second.span := by
      cases spanEq : first.span
      cases spanEq' : second.span
      rw [spanEq, spanEq'] at before behind
      dsimp only at before behind
      rw [Span.mk.injEq]
      omega
    exact distinct same
  rw [Batch.apply, Batch.validate_eq_ok fits apart, inOrder]
  exact congrArg Except.ok rewrite.splice_eq

end Rewrites

end LatexTabular
