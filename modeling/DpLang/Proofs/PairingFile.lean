import DpLang.Proofs.PairingGrammar

/-!
# Statements and definitions in pairs

The parsers of imports, statements and definitions make pairs with themselves.
-/

namespace DpLang.Parser

open Pairing (LawfulLines)

variable {P : Pairing} [P.LawfulLines] {k : Nat}

lemma pairs_membersUntil {α : Type} [Movable α] {closing : Symbol}
    {ps qs : List (Parser (Option α))} (hl : (TokenKind.symbol closing).level (k + 1) = some k)
    (hps : List.Forall₂ (P.Pairs (k + 1) (k + 1)) ps ps)
    (hqs : List.Forall₂ (P.Pairs (k + 1) (k + 1)) qs qs) (hp : ∀ p ∈ ps, FailsAtLine p) :
    P.Pairs (k + 1) k (membersUntil closing (ps ++ newline :: qs))
      (membersUntil closing (ps ++ newline :: qs)) := LawfulLines.membersUntil hl hps hqs hp hp

lemma pairs_untilParen {p : Parser Node} (h : P.Pairs (k + 1) (k + 1) p p)
    (hp : FailsAtLine (member p)) :
    P.Pairs (k + 1) k (membersUntil .parenRight [comma, member comment, member p, newline])
      (membersUntil .parenRight [comma, member comment, member p, newline]) := by
  refine pairs_membersUntil rfl (.cons pairs_comma (.cons (pairs_member pairs_comment)
    (.cons (pairs_member h) .nil))) .nil ?_
  simp only [List.forall_mem_cons]
  exact ⟨failsAtLine_comma, failsAtLine_comment, hp, by simp⟩

lemma pairs_linesUntilParen {p : Parser Node} (h : P.Pairs (k + 1) (k + 1) p p) :
    P.Pairs (k + 1) k (membersUntil .parenRight [comma, member comment, newline, member p])
      (membersUntil .parenRight [comma, member comment, newline, member p]) := by
  refine pairs_membersUntil rfl (.cons pairs_comma
    (.cons (pairs_member pairs_comment) .nil)) (.cons (pairs_member h) .nil) ?_
  simp only [List.forall_mem_cons]
  exact ⟨failsAtLine_comma, failsAtLine_comment, by simp⟩

lemma pairs_naked {α : Type} [Movable α] {p : Parser α} (h : P.Pairs k k p p) :
    P.Pairs k k (nakedMembers [comma, member p] []) (nakedMembers [comma, member p] []) :=
  pairs_nakedMembers (.cons pairs_comma (.cons (pairs_member h) .nil))

section Imports

lemma pairs_importedNames : P.Pairs k k importedNames importedNames :=
  pairs_skip rfl (pairs_untilParen pairs_identifier (failsAtLine_of_rejects fun _ h =>
    (rejects_identifier (startsNone_of_line h (by decide))).member)) (pairs_naked pairs_identifier)

lemma pairs_importedPath : P.Pairs k k importedPath importedPath := by
  refine pairs_skim rfl (fun t ht => ?_) (pairs_pure rfl)
  dsimp only
  rw [ht]
  split
  · exact pairs_rejectBind
  · exact pairs_pure rfl

lemma pairs_importRest (start : Position) (path : Text) (names : List Node) :
    P.Pairs k k (lastStop >>= fun stop => pure (Node.importNames start path names stop))
      (lastStop >>= fun stop =>
        pure (Node.importNames (P.shift.place start) path (move P.shift names) stop)) :=
  pairs_stop fun _ => by simp only [move, Node.moved, Node.movedAll_eq_map]

lemma pairs_importWithKeyword : P.Pairs k k importWithKeyword importWithKeyword := by
  refine pairs_here.bind fun start => pairs_skip rfl ?_ pairs_rejectBind
  exact pairs_importedPath.bind fun path => pairs_importedNames.bind fun names =>
    pairs_importRest start path names

lemma pairs_importEntry : P.Pairs k k importEntry importEntry := by
  refine pairs_here.bind fun start => pairs_skipped rfl fun _ => ?_
  refine pairs_importedPath.bind fun path => pairs_importedNames.bind fun names => ?_
  have hempty : (move P.shift names).isEmpty = names.isEmpty := by cases names <;> rfl
  rw [hempty]
  change P.Pairs k k (if (path.isEmpty && names.isEmpty) = true then _ else _)
    (if (path.isEmpty && names.isEmpty) = true then _ else _)
  split_ifs
  · exact pairs_here.bind fun _ => pairs_rejectBind
  · exact pairs_importRest start path names

lemma failsAtLine_importWithKeyword : FailsAtLine (member importWithKeyword) :=
  failsAtLine_of_rejects fun _ h =>
    (rejects_importWithKeyword (startsNone_of_line h (by decide))).member

end Imports

section Statements

lemma pairs_nakedValues : P.Pairs k k nakedValues nakedValues := pairs_naked pairs_listValue

lemma pairs_delimitedValues : P.Pairs (k + 1) k delimitedValues delimitedValues := by
  have hvalues : P.Pairs (k + 1) k valuesUntilParen valuesUntilParen :=
    pairs_untilParen pairs_listValue (failsAtLine_listValueOf failsAtLine_atomic)
  exact hvalues.bind fun values => pairs_unless rfl

lemma pairs_values : P.Pairs k k values values :=
  pairs_skip rfl pairs_delimitedValues pairs_nakedValues

lemma pairs_assignerDereference : P.Pairs k k assignerDereference assignerDereference := by
  refine pairs_assignerDereference?.bind fun found => ?_
  cases found with
  | some node => exact pairs_pure rfl
  | none => exact pairs_rejectHere

lemma pairs_targets : P.Pairs k k targets targets := by
  refine pairs_nakedMembers (.cons (pairs_member pairs_assignerDereference) ?_)
  refine .cons (pairs_member (pairs_targetCallOf pairs_atomic failsAtLine_atomic
    failsAtLine_atomic)) (.cons pairs_comma ?_)
  exact .cons (pairs_member (pairs_indexOf pairs_atomic)) (.cons (pairs_member pairs_selector) .nil)

lemma pairs_assign : P.Pairs k k assign assign := by
  refine pairs_targets.bind fun targets => ?_
  cases targets with
  | nil => exact pairs_rejectHere
  | cons first targets =>
    refine pairs_take rfl fun _ _ => pairs_values.bind fun values => ?_
    cases values with
    | nil => exact pairs_here.bind fun _ => pairs_rejectBind
    | cons value values =>
      refine pairs_stop fun stop => ?_
      simp only [move, Node.moved, Node.movedAll_eq_map, Node.start_moved, List.map_cons]

lemma pairs_jump {keyword : Keyword} {kind : Jump} {message : Text} :
    P.Pairs k k (jump keyword kind message) (jump keyword kind message) :=
  pairs_take rfl fun _ _ => pairs_stop fun _ => rfl

lemma pairs_expressionStatement : P.Pairs k k expressionStatement expressionStatement :=
  pairs_expression.bind fun _ => pairs_unless rfl

lemma pairs_returnValues : P.Pairs k k returnValues returnValues := by
  refine pairs_take rfl fun _ _ => Pairing.Pairs.bind (l := k) (pairs_firstOf
    (.cons pairs_nakedValues (.cons ?_ .nil))) fun values => pairs_stop fun _ => ?_
  · exact pairs_take rfl fun _ _ => pairs_delimitedValues
  · simp only [move, Node.moved, Node.movedAll_eq_map]

lemma pairs_variableNames : P.Pairs k k variableNames variableNames :=
  pairs_naked (pairs_take rfl fun _ ht => pairs_pure ht)

lemma pairs_variableDecl : P.Pairs k k variableDecl variableDecl := by
  refine pairs_here.bind fun start => pairs_variableNames.bind fun names => ?_
  rw [move_texts]
  refine pairs_take rfl fun _ _ => pairs_skip rfl (pairs_stop fun _ => rfl) ?_
  exact pairs_typeSpec.bind fun _ => pairs_stop fun _ => rfl

lemma pairs_variableDef : P.Pairs k k variableDef variableDef := by
  refine pairs_here.bind fun start => pairs_variableNames.bind fun names => ?_
  rw [move_texts]
  refine pairs_take rfl fun _ _ => pairs_values.bind fun values => pairs_stop fun stop => ?_
  simp only [move, Node.moved, Node.movedAll_eq_map]

section Blocks

variable {p q : Parser (List Node)}

lemma pairs_blockOf (h : P.Pairs (k + 1) k p q) : P.Pairs k k (blockOf p) (blockOf q) := by
  refine pairs_take rfl fun _ _ => h.bind fun body => pairs_stop fun stop => ?_
  simp only [move, Node.moved, Node.movedAll_eq_map]

lemma pairs_forLoopOf (h : P.Pairs (k + 1) k p q) : P.Pairs k k (forLoopOf p) (forLoopOf q) := by
  refine pairs_take rfl fun keyword _ => pairs_skim rfl (fun opening _ => ?_) ?_
  · refine h.bind fun body => pairs_stop fun stop => ?_
    simp only [move, Node.moved, Node.movedAll_eq_map]
  · refine pairs_expression.bind fun test => pairs_take rfl fun opening _ => ?_
    refine h.bind fun body => pairs_stop fun stop => ?_
    simp only [move, Node.moved, Node.movedAll_eq_map]

lemma pairs_ifElseOf (h : P.Pairs (k + 1) k p q) : P.Pairs k k (ifElseOf p) (ifElseOf q) := by
  refine pairs_take rfl fun keyword _ => pairs_expression.bind fun test => ?_
  refine pairs_take rfl fun opening _ => h.bind fun thenBody => ?_
  refine pairs_lastStop.bind fun thenStop => pairs_skip rfl ?_ (pairs_stop fun stop => ?_)
  · refine pairs_take rfl fun _ _ => h.bind fun elseBody => pairs_stop fun stop => ?_
    simp only [move, Node.moved, Node.movedAll_eq_map]
  · simp only [move, Node.moved, Node.movedAll_eq_map, List.map_nil]

lemma failsAtLine_statements : ∀ r ∈ [member assign, member (blockOf p), member breakLoop,
      member comment, member continueLoop, member expressionStatement, member (forLoopOf p),
      member (ifElseOf p), member importWithKeyword], FailsAtLine r := by
  simp only [List.forall_mem_cons]
  refine ⟨?_, (failsAtLine_take (by decide) _ _).member, (failsAtLine_take (by decide) _ _).member,
    failsAtLine_comment, (failsAtLine_take (by decide) _ _).member, ?_,
    (failsAtLine_take (by decide) _ _).member, (failsAtLine_take (by decide) _ _).member,
    failsAtLine_importWithKeyword, by simp⟩
  · exact failsAtLine_of_rejects fun c h => (rejects_assign (by rw [h]; decide)).member
  · exact failsAtLine_of_rejects fun c h =>
      (rejects_expressionStatement (startsNone_of_line h (by decide))).member

lemma pairs_statementsOf (h : ∀ k, P.Pairs (k + 1) k p q) :
    P.Pairs (k + 1) k (statementsOf p) (statementsOf q) := by
  refine LawfulLines.membersUntil rfl (.cons (pairs_member pairs_assign) (.cons
    (pairs_member (pairs_blockOf (h _))) (.cons (pairs_member pairs_jump) (.cons
    (pairs_member pairs_comment) (.cons (pairs_member pairs_jump) (.cons
    (pairs_member pairs_expressionStatement) (.cons (pairs_member (pairs_forLoopOf (h _))) (.cons
    (pairs_member (pairs_ifElseOf (h _))) (.cons (pairs_member pairs_importWithKeyword) .nil)))))))))
    (.cons (pairs_member pairs_returnValues) (.cons pairs_semicolon (.cons
    (pairs_member pairs_variableDecl) (.cons (pairs_member pairs_variableDef) .nil))))
    failsAtLine_statements failsAtLine_statements

lemma pairs_statementsWithin (i j : Nat) :
    P.Pairs (k + 1) k (statementsWithin i) (statementsWithin j) := by
  induction i generalizing j k with
  | zero => exact pairs_stall
  | succ i ih =>
    cases j with
    | zero => exact pairs_stalls
    | succ j => exact pairs_statementsOf fun _ => ih j

lemma pairs_statements : P.Pairs (k + 1) k statements statements :=
  pairs_bounded pairs_statementsWithin

end Blocks

end Statements

section Definitions

lemma pairs_definedName {what : Text} : P.Pairs k k (definedName what) (definedName what) := by
  refine pairs_take rfl fun token htoken => ?_
  rw [htoken]
  split
  · refine pairs_take rfl fun name hname => pairs_pure ?_
    rw [hname]
    rfl
  · exact pairs_pure rfl

lemma pairs_constantDef : P.Pairs k k constantDef constantDef :=
  pairs_definedName.bind fun _ => pairs_take rfl fun _ _ => pairs_expression.bind fun _ =>
    pairs_stop fun _ => rfl

lemma pairs_parameter : P.Pairs k k parameter parameter := by
  refine pairs_take rfl fun name hname => ?_
  rw [hname]
  refine pairs_skip rfl (pairs_stop fun _ => rfl) ?_
  exact pairs_typeSpec.bind fun type => pairs_skipped rfl fun _ => pairs_stop fun _ => rfl

lemma filledTypes_move (s : Shift) (nodes : List Node) :
    (∃ filled next, filledTypes nodes = .ok (filled, next) ∧
      filledTypes (move s nodes) = .ok (move s filled, move s next)) ∨
    ∃ r r', filledTypes nodes = .error r ∧ filledTypes (move s nodes) = .error r' := by
  induction nodes with
  | nil => exact .inl ⟨[], none, rfl, rfl⟩
  | cons node nodes ih =>
    have hcons : move s (node :: nodes) = node.moved s :: move s nodes := rfl
    rw [hcons]
    unfold filledTypes
    rcases ih with ⟨filled, next, h, h'⟩ | ⟨r, r', h, h'⟩
    · rw [h, h']
      cases node with
      | parameter start name type stop =>
        cases type with
        | some type => exact .inl ⟨_, _, rfl, rfl⟩
        | none =>
          cases next with
          | some type => exact .inl ⟨_, _, rfl, rfl⟩
          | none => exact .inr ⟨_, _, rfl, rfl⟩
      | forLoop start test bodyStart body stop => cases test <;> exact .inl ⟨_, _, rfl, rfl⟩
      | _ => exact .inl ⟨_, _, rfl, rfl⟩
    · rw [h, h']
      exact .inr ⟨r, r', rfl, rfl⟩

lemma fillTypes_move (s : Shift) (nodes : List Node) :
    (∃ filled, fillTypes nodes = .ok filled ∧ fillTypes (move s nodes) = .ok (move s filled)) ∨
    ∃ r r', fillTypes nodes = .error r ∧ fillTypes (move s nodes) = .error r' := by
  unfold fillTypes
  rcases filledTypes_move s nodes with ⟨filled, next, h, h'⟩ | ⟨r, r', h, h'⟩
  · rw [h, h']
    exact .inl ⟨filled, rfl, rfl⟩
  · rw [h, h']
    exact .inr ⟨r, r', rfl, rfl⟩

lemma pairs_resultType :
    P.Pairs k k (Node.typeSpec <$> typeSpec) (Node.typeSpec <$> typeSpec) := by
  rw [map_eq_pure_bind]
  exact pairs_typeSpec.bind fun _ => pairs_pure rfl

lemma pairs_results :
    P.Pairs k k (firstOf [nakedResults, delimitedResults]) (firstOf [nakedResults, delimitedResults]) :=
  pairs_firstOf (.cons (pairs_naked pairs_resultType) (.cons
    (pairs_take rfl fun _ _ => pairs_linesUntilParen pairs_resultType) .nil))

lemma pairs_publicKeyword : P.Pairs k k publicKeyword publicKeyword := by
  refine pairs_peek?.bind fun token => ?_
  cases token with
  | none => exact pairs_pure rfl
  | some t =>
    change P.Pairs k k (if _ then _ else _)
      (if (t.kind = .word && (move P.shift t).text = ("pub" : Text)) = true then _ else _)
    by_cases hk : t.kind = .word
    · rw [Token.move_text _ t (by rw [hk]; decide)]
      split
      · exact pairs_skipped rfl fun _ => pairs_pure rfl
      · exact pairs_pure rfl
    · rw [if_neg (by simp [hk]), if_neg (by simp [hk])]
      exact pairs_pure rfl

lemma pairs_functionName : P.Pairs k k functionName functionName := by
  refine pairs_skip rfl (pairs_take rfl fun receiver hreceiver => ?_)
    (pairs_take rfl fun name hname => pairs_pure (by rw [hname]; rfl))
  refine pairs_typeSpec.bind fun type => pairs_take rfl fun _ _ => ?_
  rw [hreceiver]
  refine pairs_skim rfl (fun name hname => pairs_pure ?_) (pairs_pure rfl)
  change (_, _, (move P.shift name).text) = _
  rw [hname]
  rfl

lemma pairs_functionDef : P.Pairs k k functionDef functionDef := by
  refine pairs_here.bind fun start => pairs_publicKeyword.bind fun isPublic => ?_
  refine pairs_functionName.bind fun name => pairs_take rfl fun _ _ => ?_
  refine Pairing.Pairs.bind (l := k) (pairs_linesUntilParen pairs_parameter) fun params => ?_
  refine pairs_lastStop.bind fun paramsStop => ?_
  rcases fillTypes_move P.shift params with ⟨filled, h, h'⟩ | ⟨r, r', h, h'⟩
  · rw [h, h']
    refine pairs_results.bind fun results => pairs_take rfl fun opening _ => ?_
    refine pairs_statements.bind fun body => pairs_stop fun stop => ?_
    simp only [move, Node.moved, Node.movedAll_eq_map]
  · rw [h, h']
    exact fun _ _ _ => .rejected r r'

lemma pairs_fieldAccess : P.Pairs k k fieldAccess fieldAccess := by
  refine pairs_skim rfl (fun t ht => ?_) (pairs_pure rfl)
  dsimp only
  rw [ht]
  split
  · exact pairs_pure rfl
  · exact pairs_reject

lemma pairs_field : P.Pairs k k field field := by
  refine pairs_take rfl fun name hname => ?_
  rw [hname]
  exact pairs_typeSpec.bind fun _ => pairs_fieldAccess.bind fun _ => pairs_stop fun _ => rfl

lemma withAccess_moved (s : Shift) (access : FieldAccess) (node : Node) :
    withAccess access (node.moved s) = (withAccess access node).moved s := by
  cases node with
  | field start name type own stop => cases own <;> rfl
  | forLoop start test bodyStart body stop => cases test <;> rfl
  | _ => rfl

lemma pairs_fields : P.Pairs (k + 1) k fields fields := by
  refine pairs_membersUntil rfl (.cons pairs_comma (.cons (pairs_member pairs_comment) (.cons
    (pairs_member pairs_field) (.cons (pairs_member pairs_importWithKeyword) .nil))))
    (.cons pairs_semicolon .nil) ?_
  simp only [List.forall_mem_cons]
  exact ⟨failsAtLine_comma, failsAtLine_comment, (failsAtLine_take (by decide) _ _).member,
    failsAtLine_importWithKeyword, by simp⟩

lemma pairs_typeDef : P.Pairs k k typeDef typeDef := by
  refine pairs_definedName.bind fun name => pairs_fieldAccess.bind fun access => ?_
  refine pairs_take rfl fun _ _ => pairs_fields.bind fun fields => pairs_stop fun stop => ?_
  simp only [move, Node.moved, Node.movedAll_eq_map, List.map_map, Function.comp_def,
    withAccess_moved]

lemma pairs_pathImport : P.Pairs k k pathImport pathImport := by
  refine pairs_take rfl fun t ht => ?_
  dsimp only
  rw [ht]
  split
  · exact pairs_rejectBind
  · exact pairs_stop fun _ => rfl

lemma pairs_importEntries : P.Pairs (k + 1) k importEntries importEntries := by
  refine pairs_membersUntil rfl (.cons pairs_comma (.cons (pairs_member pairs_comment)
    (.cons (pairs_member pairs_importEntry) .nil))) (.cons pairs_semicolon .nil) ?_
  simp only [List.forall_mem_cons]
  refine ⟨failsAtLine_comma, failsAtLine_comment, failsAtLine_of_rejects fun c h => ?_, by simp⟩
  exact (rejects_importEntry (by rw [h]; decide) (startsNone_of_line h (by decide))).member

lemma pairs_importMembers : P.Pairs k k importMembers importMembers := by
  refine pairs_peekKind? fun kind => ?_
  split
  · exact pairs_naked pairs_pathImport
  · refine pairs_skip rfl ?_ (pairs_take rfl fun _ _ => pairs_importEntries)
    exact pairs_untilParen pairs_pathImport (failsAtLine_take (by decide) _ _).member

lemma pairs_importList : P.Pairs k k importList importList := by
  refine pairs_take rfl fun _ _ => pairs_importMembers.bind fun imports => pairs_stop fun stop => ?_
  simp only [move, Node.moved, Node.movedAll_eq_map]

lemma rejects_functionDef_line {c : Cursor} (h : c.peekKind? = some .newline) :
    Rejects functionDef c := by
  have hs : c.settle.peekKind? = some .newline := by rw [Cursor.peekKind?_settle, h]
  have hpublic : publicKeyword c.settle = .ok (false, c.settle) := by
    obtain ⟨t, ts, hr, ht⟩ := rest_of_peekKind h
    have hpeek : peek? c.settle = .ok (some t, c.settle) := by
      change Except.ok (c.settle.peek?, c.settle.settle) = _
      rw [Cursor.peek?, Cursor.settle_settle, hr]
      rfl
    unfold publicKeyword
    rw [bind_of_ok hpeek]
    simp only [ht]
    rfl
  refine rejects_here (rejects_bind_of_ok hpublic (Rejects.bind ?_ _))
  refine rejects_skip (by rw [hs]; decide) ?_
  rw [Cursor.settle_settle]
  exact (rejects_take (by rw [hs]; decide) _).bind _

lemma failsAtLine_fileMembers : ∀ p ∈ [member comment, member constantDef, member functionDef,
    member importList], FailsAtLine p := by
  simp only [List.forall_mem_cons]
  exact ⟨failsAtLine_comment, ((failsAtLine_take (by decide) _ _).bind _).member,
    failsAtLine_of_rejects fun _ h => (rejects_functionDef_line h).member,
    (failsAtLine_take (by decide) _ _).member, by simp⟩

end Definitions

end DpLang.Parser
