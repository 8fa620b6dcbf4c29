import DpLang.Grammar.Declaration
import DpLang.Proofs.Running

/-!
# Tokens that start no construct

Each parser fails at once on a cursor whose next token cannot start what it reads.
-/

namespace DpLang

/-- The next token of the cursor, if there is one, is of none of the kinds. -/
def Cursor.StartsNone (c : Cursor) (kinds : List TokenKind) : Prop :=
  ∀ kind ∈ kinds, c.peekKind? ≠ some kind

lemma Cursor.peekKind?_settle (c : Cursor) : c.settle.peekKind? = c.peekKind? := by
  rw [peekKind?, peekKind?, peek?, peek?, settle_settle]

lemma Cursor.StartsNone.settle {c : Cursor} {kinds : List TokenKind} (h : c.StartsNone kinds) :
    c.settle.StartsNone kinds :=
  fun kind hk => by rw [Cursor.peekKind?_settle]; exact h kind hk

lemma Cursor.StartsNone.subset {c : Cursor} {kinds others : List TokenKind}
    (h : c.StartsNone kinds) (hs : others ⊆ kinds) : c.StartsNone others :=
  fun kind hk => h kind (hs hk)

namespace Parser

variable {α β : Type} {c : Cursor} {kind : TokenKind} {p : Parser α}

lemma Rejects.member (h : Rejects p c) : Rejects (member p) c := h.bind _

lemma rejects_here {f : Position → Parser α} (h : Rejects (f c.position) c.settle) :
    Rejects (here >>= f) c := rejects_bind_of_ok rfl h

lemma rejects_peekKind? {f : Option TokenKind → Parser α}
    (h : Rejects (f c.peekKind?) c.settle) : Rejects (peekKind? >>= f) c := rejects_bind_of_ok rfl h

lemma skip_bind_of_peekKind {f : Bool → Parser α} (hk : c.peekKind? ≠ some kind) :
    (skip kind >>= f) c = f false c.settle := bind_of_ok (skip_of_peekKind hk)

lemma skim_bind_of_peekKind {f : Option Token → Parser α} (hk : c.peekKind? ≠ some kind) :
    (skim kind >>= f) c = f none c.settle := bind_of_ok (by rw [← skim_of_peekKind hk]; rfl)

lemma rejects_skip {f : Bool → Parser α} (hk : c.peekKind? ≠ some kind)
    (h : Rejects (f false) c.settle) : Rejects (skip kind >>= f) c :=
  rejects_bind_of_ok (skip_of_peekKind hk) h

section Names

def nameStarts : List TokenKind := [.symbol .colons, .word]

lemma rejects_qualifiedName (h : c.StartsNone nameStarts) : Rejects qualifiedName c := by
  refine rejects_skip (h _ (by decide)) (Rejects.bind ?_ _)
  exact (rejects_take (h.settle .word (by decide)) _).bind _

lemma rejects_identifier (h : c.StartsNone nameStarts) : Rejects identifier c :=
  rejects_here ((rejects_qualifiedName h.settle).bind _)

lemma rejects_selectorOnly (h : c.StartsNone [.word]) : Rejects selectorOnly c :=
  rejects_here ((rejects_take (h.settle _ List.mem_cons_self) _).bind _)

lemma rejects_selector (h : c.StartsNone [.word]) : Rejects selector c :=
  (rejects_selectorOnly h).bind _

end Names

section Expressions

variable {atomic : Parser Node} {multiline : Bool}

def atomicStarts : List TokenKind :=
  [.symbol .ampersand, .word, .character, .keyword .cloneKw, .keyword .falseKw, .integer,
    .keyword .nilKw, .symbol .parenLeft, .symbol .asterisk, .string, .keyword .trueKw,
    .symbol .plus, .symbol .minus, .symbol .caret, .symbol .exclamation, .symbol .braceLeft]

lemma rejects_callWith (h : c.StartsNone [.word]) (arguments : Parser (List Node)) :
    Rejects (callWith arguments) c :=
  (rejects_selectorOnly h).bind _

lemma rejects_indexOf (h : c.StartsNone [.word]) : Rejects (indexOf atomic) c :=
  (rejects_selectorOnly h).bind _

lemma rejects_unaryOf
    (h : c.StartsNone [.symbol .plus, .symbol .minus, .symbol .caret, .symbol .exclamation]) :
    Rejects (unaryOf atomic) c := by
  refine rejects_here (rejects_peekKind? ?_)
  rw [Cursor.peekKind?_settle, Cursor.settle_settle]
  cases hk : c.peekKind? with
  | none => exact rejects_reject _ _
  | some kind =>
    cases kind with
    | symbol symbol =>
      have hnone : UnaryOp.ofSymbol? symbol = none := by
        have h' : ∀ k ∈ [TokenKind.symbol .plus, .symbol .minus, .symbol .caret,
            .symbol .exclamation], TokenKind.symbol symbol ≠ k := by
          intro k hmem heq
          exact h k hmem (by rw [hk, heq])
        revert h'
        cases symbol <;> decide
      simp only [hnone]
      exact rejects_reject _ _
    | _ => exact rejects_reject _ _

lemma rejects_atomicOf (h : c.StartsNone atomicStarts) : Rejects (atomicOf atomic) c := by
  refine rejects_firstOf ?_
  have hword : c.StartsNone [.word] := h.subset (by decide)
  simp only [List.forall_mem_cons, List.not_mem_nil, false_implies, implies_true, and_true]
  refine ⟨?_, ?_, ?_, ?_, ?_, ?_, ?_, ?_, ?_, ?_, ?_, ?_, ?_, ?_, ?_⟩
  · exact (rejects_take (h _ (by decide)) _).bind _
  · exact rejects_callWith hword _
  · exact (rejects_take (h _ (by decide)) _).bind _
  · exact (rejects_take (h _ (by decide)) _).bind _
  · exact (rejects_take (h _ (by decide)) _).bind _
  · exact rejects_indexOf hword
  · exact (rejects_take (h _ (by decide)) _).bind _
  · exact (rejects_take (h _ (by decide)) _).bind _
  · exact (rejects_take (h _ (by decide)) _).bind _
  · exact (rejects_take (h _ (by decide)) _).bind _
  · exact rejects_selector hword
  · exact (rejects_take (h _ (by decide)) _).bind _
  · exact (rejects_take (h _ (by decide)) _).bind _
  · exact rejects_unaryOf (h.subset (by decide))
  · exact (rejects_take (h _ (by decide)) _).bind _

lemma rejects_atomicWithin (h : c.StartsNone atomicStarts) (i : Nat) :
    Rejects (atomicWithin (i + 1)) c := rejects_atomicOf h

lemma rejects_atomic (h : c.StartsNone atomicStarts) : Rejects Parser.atomic c :=
  rejects_atomicWithin h c.rest.length

lemma rejects_expressionOf (h : Rejects atomic c) : Rejects (expressionOf atomic false) c :=
  rejects_bind_of_ok (p := skipNewlinesIf false) rfl ((h.bind _).bind _)

lemma assignerDereference?_of_peekKind (h : c.peekKind? ≠ some (.symbol .parenLeft)) :
    assignerDereference? c = .ok (none, c) := by
  unfold assignerDereference?
  rw [bind_run]
  change (skip (.symbol .parenLeft) >>= _) c = _
  rw [bind_run, skip_of_peekKind h]
  rfl

lemma rejects_listValueOf (hp : c.peekKind? ≠ some (.symbol .parenLeft)) (h : Rejects atomic c) :
    Rejects (listValueOf atomic) c :=
  rejects_bind_of_ok (assignerDereference?_of_peekKind hp) ((rejects_expressionOf h).bind _)

end Expressions

section Statements

lemma nakedMembers_of_end {alternatives : List (Parser (Option α))} {stops : List TokenKind}
    (h : endsNakedList c.peekKind? = true) :
    nakedMembers alternatives stops c = .ok ([], c.settle) := by
  change membersWithin _ _ (c.rest.length + 1) c = _
  have hend : (do
      let kind ← peekKind?
      return endsNakedList kind || kind.any stops.contains : Parser Bool) c =
        .ok (true, c.settle) := by
    rw [bind_of_ok (p := peekKind?) rfl, h]
    rfl
  rw [membersWithin_run, bind_of_ok hend]
  rfl

lemma rejects_assign (h : endsNakedList c.peekKind? = true) : Rejects assign c :=
  rejects_bind_of_ok (nakedMembers_of_end h) ⟨_, rfl⟩

lemma rejects_expressionStatement (h : c.StartsNone atomicStarts) :
    Rejects expressionStatement c :=
  (rejects_expressionOf (rejects_atomic h)).bind _

lemma rejects_importWithKeyword (h : c.StartsNone [.keyword .importKw]) :
    Rejects importWithKeyword c :=
  rejects_here (rejects_skip (h.settle _ List.mem_cons_self) ⟨_, rfl⟩)

lemma rejects_variableDecl (h : endsNakedList c.peekKind? = true)
    (hk : c.StartsNone [.symbol .colon]) : Rejects variableDecl c := by
  refine rejects_here (rejects_bind_of_ok (nakedMembers_of_end ?_) ?_)
  · rw [Cursor.peekKind?_settle, h]
  · exact (rejects_take (hk.settle.settle _ List.mem_cons_self) _).bind _

lemma rejects_variableDef (h : endsNakedList c.peekKind? = true)
    (hk : c.StartsNone [.symbol .define]) : Rejects variableDef c := by
  refine rejects_here (rejects_bind_of_ok (nakedMembers_of_end ?_) ?_)
  · rw [Cursor.peekKind?_settle, h]
  · exact (rejects_take (hk.settle.settle _ List.mem_cons_self) _).bind _

lemma rejects_importEntry (h : endsNakedList c.peekKind? = true)
    (hk : c.StartsNone [.keyword .importKw, .string, .symbol .parenLeft]) :
    Rejects importEntry c := by
  have hs := hk.settle
  refine rejects_here (rejects_skip (hs _ (by decide)) ?_)
  rw [Cursor.settle_settle]
  have hpath : importedPath c.settle = .ok ([], c.settle) := by
    unfold importedPath
    rw [skim_bind_of_peekKind (hs _ (by decide)), Cursor.settle_settle]
    rfl
  have hnames : importedNames c.settle = .ok ([], c.settle) := by
    unfold importedNames
    rw [skip_bind_of_peekKind (hs _ (by decide)), Cursor.settle_settle]
    change nakedMembers _ _ c.settle = _
    rw [nakedMembers_of_end (by rw [Cursor.peekKind?_settle, h]), Cursor.settle_settle]
  exact rejects_bind_of_ok hpath (rejects_bind_of_ok hnames ⟨_, rfl⟩)

end Statements

end Parser

end DpLang
