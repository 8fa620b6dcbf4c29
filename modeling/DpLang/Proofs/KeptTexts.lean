import DpLang.Proofs.DerivationFile

/-!
# Kept texts

Comments, literals and the paths of imports keep the texts of their tokens. A walk through the tree
of a file meets these texts in the order of the tokens, each of them once.
-/

namespace DpLang

/-- The text that a token hands to a node, with its kind. -/
def Token.keptText? (t : Token) : Option (TokenKind × Text) :=
  if t.kind.isKept then some (t.kind, t.text) else none

/-- The text that a node keeps itself, with the kind of its token. -/
def Node.keptText? : Node → Option (TokenKind × Text)
  | .literal _ kind source _ => some (kind.tokenKind, source)
  | .comment _ source => some (.comment, source)
  | .importNames _ path _ _ => if path.isEmpty then none else some (.string, path)
  | _ => none

/-- The texts that nodes keep, in the order of a walk through their trees. -/
def keptTexts (nodes : List Node) : List (TokenKind × Text) :=
  (Node.walkAll nodes).filterMap Node.keptText?

/-- The texts that parts keep. -/
def keptIn : List Part → List (TokenKind × Text)
  | [] => []
  | .node n :: ps => keptTexts [n] ++ keptIn ps
  | .text kind text :: ps => (kind, text) :: keptIn ps
  | .mark _ :: ps => keptIn ps

section Parts

lemma keptTexts_append (ns ms : List Node) : keptTexts (ns ++ ms) = keptTexts ns ++ keptTexts ms := by
  rw [keptTexts, walkAll_append, List.filterMap_append]
  rfl

lemma keptTexts_cons (n : Node) (ns : List Node) : keptTexts (n :: ns) = keptTexts [n] ++ keptTexts ns :=
  keptTexts_append [n] ns

lemma keptTexts_singleton (n : Node) :
    keptTexts [n] = n.keptText?.toList ++ keptTexts n.children := by
  rw [keptTexts, walkAll_cons, Node.walk_eq, Node.walkAll, List.append_nil, List.filterMap_cons]
  cases n.keptText? <;> rfl

lemma keptIn_append (ps qs : List Part) : keptIn (ps ++ qs) = keptIn ps ++ keptIn qs := by
  induction ps with
  | nil => rfl
  | cons p ps ih =>
    cases p with
    | node n => rw [List.cons_append, keptIn, keptIn, ih, List.append_assoc]
    | text kind text => rw [List.cons_append, keptIn, keptIn, ih, List.cons_append]
    | mark place => rw [List.cons_append, keptIn, keptIn, ih]

lemma keptIn_nodes (ns : List Node) : keptIn (ns.map .node) = keptTexts ns := by
  induction ns with
  | nil => rfl
  | cons n ns ih => rw [List.map_cons, keptIn, ih, ← keptTexts_cons]

lemma keptIn_parts (n : Node) : keptIn n.parts = keptTexts [n] := by
  rw [keptTexts_singleton]
  cases n with
  | forLoop start test bodyStart body stop =>
    cases test <;> simp [Node.parts, Node.children, Node.keptText?, keptIn, keptIn_nodes, ← keptTexts_cons]
  | ifElse start test thenStart thenBody thenStop elseBody stop =>
    simp only [Node.parts, Node.children, Node.keptText?, keptIn, keptIn_append, keptIn_nodes]
    rw [keptTexts_append, keptTexts_cons test thenBody, List.append_assoc]
    rfl
  | functionDef head params results body =>
    have htypes (types : List TypeSpec) :
        types.map (Part.node ∘ Node.typeSpec) = (types.map Node.typeSpec).map Part.node := by
      rw [List.map_map]
    simp only [Node.parts, functionParts, Node.children, Node.keptText?, keptIn, keptIn_append,
      htypes, keptIn_nodes, keptTexts_append, List.append_assoc]
    rfl
  | importNames start path names stop =>
    cases path <;> simp [Node.parts, Node.children, Node.keptText?, keptIn, keptIn_nodes]
  | literal => rfl
  | comment => rfl
  | _ => exact keptIn_nodes _

lemma keptTexts_typeSpecs (types : List TypeSpec) : keptTexts (types.map Node.typeSpec) = [] := by
  rw [keptTexts, walkAll_typeSpecs]
  induction types with
  | nil => rfl
  | cons type types ih => exact ih

/-- No text is kept with a type, so that types may be filled in. -/
lemma keptTexts_filledTypes {params filled : List Node} {next : Option TypeSpec}
    (h : Parser.filledTypes params = .ok (filled, next)) : keptTexts filled = keptTexts params := by
  induction params generalizing filled next with
  | nil =>
    obtain ⟨rfl, rfl⟩ := Prod.mk.inj (Except.ok.inj h)
    rfl
  | cons n params ih =>
    obtain ⟨others, type, hrest, hstep⟩ := Parser.filledTypes_cons_ok h
    rcases hstep with ⟨start, name, own, stop, spec, rfl, -, rfl, -⟩ | ⟨-, rfl, -⟩
    · rw [keptTexts_cons, keptTexts_cons (.parameter start name own stop), ih hrest,
        keptTexts_singleton, keptTexts_singleton]
      exact congrArg (· ++ _) ((keptTexts_typeSpecs [spec]).trans (keptTexts_typeSpecs own.toList).symm)
    · rw [keptTexts_cons n others, keptTexts_cons n params, ih hrest]

end Parts

section Derivations

lemma TokenKind.isKept_of_opensGroup {kind : TokenKind} (h : kind.opensGroup = true) : kind.isKept = false := by
  cases kind with
  | symbol => rfl
  | _ => cases h

lemma TokenKind.isKept_of_closesGroup {kind : TokenKind} (h : kind.closesGroup = true) :
    kind.isKept = false := by
  cases kind with
  | symbol => rfl
  | _ => cases h

lemma TokenKind.isKept_of_isSilent {kind : TokenKind} (h : kind.isSilent = true) :
    kind.isKept = false := by
  rw [isSilent, Bool.and_eq_true, Bool.not_eq_true'] at h
  exact h.2

variable {t : Token} {ts us : List Token}

lemma keptText?_of_isKept (h : t.kind.isKept = true) :
    (t :: ts).filterMap Token.keptText? = (t.kind, t.text) :: ts.filterMap Token.keptText? := by
  rw [List.filterMap_cons, Token.keptText?, if_pos h]

lemma keptText?_of_not (h : t.kind.isKept = false) :
    (t :: ts).filterMap Token.keptText? = ts.filterMap Token.keptText? := by
  rw [List.filterMap_cons, Token.keptText?, if_neg (by rw [h]; exact Bool.false_ne_true)]

lemma Derives.keptTexts {finish : Position} {ps : List Part} (h : Derives finish ts ps us) :
    ts.filterMap Token.keptText? = keptIn ps ++ us.filterMap Token.keptText? := by
  induction h with
  | done ts => rfl
  | silent ht _ ih => rw [keptText?_of_not (TokenKind.isKept_of_isSilent ht), ih]
  | text ht _ ih => rw [keptText?_of_isKept ht, ih, keptIn, List.cons_append]
  | mark _ ih => exact ih
  | group ho hc _ _ inner ih =>
    rw [keptText?_of_not (TokenKind.isKept_of_opensGroup ho), inner,
      keptText?_of_not (TokenKind.isKept_of_closesGroup hc), ih, keptIn_append, List.append_assoc]
  | comment ht _ ih =>
    rw [keptText?_of_isKept (by rw [ht]; rfl), ih, ht]
    rfl
  | @expression value ts us vs ps _ _ inner ih =>
    have hvalue : DpLang.keptTexts [.expression value] = DpLang.keptTexts [value] :=
      keptTexts_singleton _
    rw [inner, ih]
    change DpLang.keptTexts [value] ++ [] ++ _ = DpLang.keptTexts [.expression value] ++ keptIn ps ++ _
    rw [hvalue, List.append_nil, List.append_assoc]
  | node hstart hstop _ _ inner ih =>
    rw [inner, ih, keptIn_parts, keptIn, List.append_assoc]
  | @function head params filled results body ts us vs ps hfill hparams hstart hstop _ _ inner ih =>
    have hsame : keptIn (functionParts head params results body) =
        DpLang.keptTexts [.functionDef head filled results body] := by
      have hfilled : DpLang.keptTexts filled = DpLang.keptTexts params := by
        obtain ⟨next, hrun⟩ := Parser.exists_filledTypes hfill
        exact keptTexts_filledTypes hrun
      rw [← keptIn_parts, Node.parts]
      simp only [functionParts, keptIn_append, keptIn_nodes, hfilled]
    rw [inner, ih, hsame, keptIn, List.append_assoc]

end Derivations

variable {tokens : List Token} {nodes : List Node}

lemma keptText?_solidTokens (tokens : List Token) :
    (solidTokens tokens).filterMap Token.keptText? = tokens.filterMap Token.keptText? := by
  rw [solidTokens, List.filterMap_filter]
  refine List.filterMap_congr fun t _ => ?_
  by_cases ht : t.isSpace = true
  · have hkind : t.kind = .space := by simpa [Token.isSpace] using ht
    rw [Token.keptText?, hkind]
    exact ite_self none
  · rw [if_pos (by simpa using ht)]

/-- The parser loses, repeats and reorders no text: a walk through the tree of a file meets the
comments, literals and import paths of its tokens, in order. -/
theorem parse_keeps_texts (h : parse tokens = .ok nodes) :
    (Node.walkAll nodes).filterMap Node.keptText? = tokens.filterMap Token.keptText? := by
  obtain ⟨finish, hderives⟩ := exists_derives h
  have hkept := hderives.keptTexts
  rw [keptText?_solidTokens, keptIn_nodes, List.filterMap_nil, List.append_nil] at hkept
  exact hkept.symm

/-- A path, comments in three places and literals of three kinds. -/
theorem parse_keeps_texts_everywhere :
    let source : Text :=
      "import \"p\" // a\nf(// b\nx t) \x7b\n return ('c', 1, // d\n g(\"s\"))\n\x7d\n"
    ∃ tokens nodes, tokenize (.startOf "f") source = .ok tokens ∧ parse tokens = .ok nodes ∧
      (Node.walkAll nodes).filterMap Node.keptText? = tokens.filterMap Token.keptText? := by
  intro source
  obtain ⟨tokens, nodes, ht, hp⟩ := exists_parsed (.startOf "f") source (by decide +kernel)
  exact ⟨tokens, nodes, ht, hp, parse_keeps_texts hp⟩

end DpLang
