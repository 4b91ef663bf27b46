import LatexTabular.Body.Layout
import LatexTabular.Proofs.Body.Branches
import LatexTabular.Proofs.Text.Boundary
import Mathlib.Data.List.Pairwise

/-!
# Chains of lexemes

The lexemes of a body follow one another without a gap, and each covers its own
text in the document.  Rows and cells are made of consecutive lexemes, so every
place in a table is an end of a lexeme or lies within the text of a merge.
-/

namespace LatexTabular.Body

/-- Lexemes that follow one another without a gap from one offset to another. -/
def Chain : (start : Nat) → List Lexeme → (stop : Nat) → Prop
  | start, [], stop => start = stop
  | start, lexeme :: rest, stop => lexeme.start = start ∧ Chain lexeme.stop rest stop

namespace Chain

variable {start stop : Nat} {lexemes left right : List Lexeme}

theorem append_iff :
    Chain start (left ++ right) stop ↔
      ∃ middle, Chain start left middle ∧ Chain middle right stop := by
  induction left generalizing start with
  | nil => simp [Chain]
  | cons lexeme rest ih => simp [Chain, ih, and_assoc]

theorem start_le_stop (chain : Chain start lexemes stop) : start ≤ stop := by
  induction lexemes generalizing start with
  | nil => exact Nat.le_of_eq chain
  | cons lexeme rest ih =>
      have rested := ih chain.2
      have begins := chain.1
      unfold Lexeme.stop at rested
      omega

theorem bounds (chain : Chain start lexemes stop) {lexeme : Lexeme}
    (member : lexeme ∈ lexemes) : start ≤ lexeme.start ∧ lexeme.stop ≤ stop := by
  obtain ⟨before, after, rfl⟩ := List.append_of_mem member
  obtain ⟨middle, front, begins, back⟩ := append_iff.mp chain
  have := front.start_le_stop
  have := back.start_le_stop
  omega

/-- In a chain every lexeme ends before or where a later one starts. -/
theorem pairwise (chain : Chain start lexemes stop) :
    lexemes.Pairwise fun first second => first.stop ≤ second.start := by
  induction lexemes generalizing start with
  | nil => exact .nil
  | cons lexeme rest ih =>
      exact List.pairwise_cons.mpr ⟨fun later member => (chain.2.bounds member).1, ih chain.2⟩

/-- Of two different lexemes of a chain one ends before or where the other
starts. -/
theorem apart (chain : Chain start lexemes stop) {first second : Lexeme}
    (firstIn : first ∈ lexemes) (secondIn : second ∈ lexemes) (different : first ≠ second) :
    first.stop ≤ second.start ∨ second.stop ≤ first.start := by
  have symmetric : Std.Symm fun first second : Lexeme =>
      first.stop ≤ second.start ∨ second.stop ≤ first.start := ⟨fun _ _ => Or.symm⟩
  have related : lexemes.Pairwise fun first second =>
      first.stop ≤ second.start ∨ second.stop ≤ first.start :=
    chain.pairwise.imp fun ordered => Or.inl ordered
  exact related.forall firstIn secondIn different

/-- A part of a chain reaches from the start of its first lexeme to the end of its last
one. -/
theorem of_isInfix {part : List Lexeme} {first last : Lexeme} (chain : Chain start lexemes stop)
    (isPart : part <:+: lexemes) (isFirst : part.head? = some first)
    (isLast : part.getLast? = some last) : Chain first.start part last.stop := by
  obtain ⟨before, after, rfl⟩ := isPart
  obtain ⟨_, chain, -⟩ := append_iff.mp chain
  obtain ⟨middle, -, chain⟩ := append_iff.mp chain
  have begins : first.start = middle := by
    obtain ⟨rest, rfl⟩ := List.head?_eq_some_iff.mp isFirst
    exact chain.1
  obtain ⟨front, rfl⟩ := List.getLast?_eq_some_iff.mp isLast
  obtain ⟨_, inFront, atLast, -⟩ := append_iff.mp chain
  rw [begins]
  exact append_iff.mpr ⟨_, inFront, atLast, rfl⟩

end Chain

/-- A lexeme that covers its own text in the document; a merge consists of its
parts. -/
structure Lexeme.Sound (document : Text) (lexeme : Lexeme) : Prop where
  nonempty : lexeme.text ≠ []
  spells : document.Spells lexeme.span lexeme.text
  ofMerge : ∀ parts, lexeme.kind = .merge parts → lexeme.text = parts.text

namespace Lexeme.Sound

variable {document : Text} {lexeme : Lexeme}

theorem start_lt_stop (sound : lexeme.Sound document) : lexeme.start < lexeme.stop := by
  have := Text.size_pos_of_ne_nil sound.nonempty
  unfold Lexeme.stop
  omega

theorem fits (sound : lexeme.Sound document) : lexeme.span.Fits document :=
  sound.spells.fits

end Lexeme.Sound

/-- A merge is read as a whole. -/
theorem text_eq_of_readPart_merge {nested : List Span} {offset : Nat} {context : Context}
    {head : Char} {rest : Text} {parts : MergeText}
    (isMerge : (readPart nested offset context head rest).1 = .merge parts) :
    head :: (readPart nested offset context head rest).2 = parts.text :=
  (exists_of_readPart_merge (Prod.ext isMerge rfl)).2.1

/-- A chain of sound lexemes covers their texts. -/
theorem Chain.spells {document : Text} {start stop : Nat} {lexemes : List Lexeme}
    (chain : Chain start lexemes stop) (sound : ∀ lexeme ∈ lexemes, lexeme.Sound document)
    (boundary : document.isBoundary start = true) :
    document.Spells ⟨start, stop⟩ (lexemes.flatMap Lexeme.text) := by
  induction lexemes generalizing start with
  | nil =>
      obtain rfl : start = stop := chain
      exact Text.spells_point boundary
  | cons lexeme rest ih =>
      obtain ⟨rfl, others⟩ := chain
      have here := sound lexeme List.mem_cons_self
      have behind := ih others (fun other member => sound other (List.mem_cons_of_mem _ member))
        here.fits.stopBoundary
      exact here.spells.append behind

theorem chain_lex (nested : List Span) (offset : Nat) (context : Context) (body : Text) :
    Chain offset (lex nested offset context body) (offset + body.size) := by
  fun_induction lex nested offset context body with
  | case1 => rfl
  | case2 offset context head rest part lexeme ih =>
      refine ⟨rfl, ?_⟩
      have whole := List.prefix_iff_eq_append.mp (readPart_isPrefix nested offset context head rest)
      have sizes : Text.size rest = Text.size part.2 + Text.size (rest.drop part.2.length) := by
        rw [← Text.size_append, whole]
      have stopEq : lexeme.stop = offset + (head.utf8Size + Text.size part.2) := rfl
      rw [Text.size_cons, sizes, ← Nat.add_assoc, ← Nat.add_assoc, Nat.add_assoc offset, ← stopEq]
      exact ih

/-- The lexemes of a body that stands in a document are sound. -/
theorem sound_of_mem_lex (nested : List Span) (context : Context) (front body back : Text) :
    ∀ lexeme ∈ lex nested front.size context body,
      lexeme.Sound (front ++ body ++ back) := by
  generalize offsetEq : front.size = offset
  fun_induction lex nested offset context body generalizing front with
  | case1 => simp
  | case2 offset context head rest part first ih =>
      have whole := List.prefix_iff_eq_append.mp (readPart_isPrefix nested offset context head rest)
      have parted : front ++ (head :: rest) ++ back
          = front ++ first.text ++ (rest.drop part.2.length ++ back) := by
        conv => lhs; rw [← whole]
        simp [first, part]
      intro lexeme member
      rw [parted]
      rcases List.mem_cons.mp member with rfl | member
      · refine ⟨List.cons_ne_nil _ _, ?_, ?_⟩
        · subst offsetEq
          exact Text.Spells.of_append _ _ _
        · intro parts isMerge
          exact text_eq_of_readPart_merge isMerge
      · have reached : (front ++ first.text).size = first.stop := by
          rw [Text.size_append, offsetEq]
          rfl
        simpa using ih (front ++ first.text) reached lexeme member

end LatexTabular.Body
