import DpLang.Proofs.DerivationFile
import DpLang.Proofs.ReadBackDeclaration
import DpLang.Proofs.Roundtrip

/-!
# Round trip of signatures

The signature of a function is all of it but its body, and that of a type is its name with its fields.
What is written for a function without its body, and for a type, is read as one definition with the same
signature. The types that stand in signatures are read back whole, so that no two of them are written
alike.
-/

namespace DpLang

/-- What a definition says about a function or a type, wherever it stands. -/
inductive Signature where
  | function (isPublic : Bool) (receiverName : Text) (receiverType : Option TypeExpr) (name : Text)
      (params results : List Declared)
  | type (isPublic : Bool) (name : Text) (fields : List Declared)
  deriving DecidableEq

namespace Node

/-- The signature of a definition of a function or a type. -/
def signature? : Node → Option Signature
  | functionDef head params results _ =>
    some (.function head.isPublic head.receiverName (head.receiverType.map TypeSpec.type) head.name
      (params.map declared) (results.map declared))
  | typeDef _ isPublic name fields _ => some (.type isPublic name (fields.map declared))
  | _ => none

/-- The function with an empty body. -/
def withoutBody : Node → Node
  | functionDef head params results _ => functionDef head params results []
  | node => node

/-- The type without the imports among its fields. -/
def withoutNestedImports : Node → Node
  | typeDef start isPublic name fields stop => typeDef start isPublic name (withoutImports fields) stop
  | node => node

end Node

def FunctionPlan.signature (f : FunctionPlan) : Signature :=
  .function f.isPublic ((f.receiver.map Prod.fst).getD []) (f.receiver.map Prod.snd) f.name
    (f.params.map (Member.declared ParameterPlan.declared)) (f.results.map (Member.declared Declared.result))

namespace Parser

variable {x y : List Piece} {what : Text}

section Names

lemma reads_definedName {isPublic : Bool} {name : Text} (h : IsDefinedName isPublic name) (x : List Piece) :
    Reads (definedName what) (publicPieces isPublic ++ wordPiece name :: x) x
      fun r => r.2.1 = isPublic ∧ r.2.2 = name := by
  cases isPublic with
  | true =>
    rw [publicPieces, if_pos rfl]
    refine (reads_take _).bind fun t ht => ?_
    rw [if_pos ht]
    exact (reads_take _).bind fun u hu => reads_pure ⟨rfl, hu⟩
  | false =>
    rw [publicPieces, if_neg Bool.false_ne_true]
    refine (reads_take _).bind fun t ht => ?_
    rw [if_neg (by rw [ht]; exact h.2 rfl)]
    exact reads_pure ⟨rfl, ht⟩

lemma rejectsAt_definedName (isPublic : Bool) (x : List Piece) :
    RejectsAt (definedName what) (publicPieces isPublic ++ symbolPiece .parenLeft :: x) := by
  have hparen : headKind? (symbolPiece .parenLeft :: x) ≠ some .word := by simp [headKind?, symbolPiece]
  cases isPublic with
  | true =>
    rw [publicPieces, if_pos rfl]
    refine (reads_take _).rejects fun t ht => ?_
    rw [if_pos ht]
    exact (rejectsAt_take hparen _).bind _
  | false => exact (rejectsAt_take hparen _).bind _

lemma reads_publicKeyword (isPublic : Bool) (hx : isPublic = false → x.head? ≠ some (wordPiece "pub")) :
    Reads publicKeyword (publicPieces isPublic ++ x) x (· = isPublic) := by
  cases isPublic with
  | true =>
    rw [publicPieces, if_pos rfl]
    refine reads_peek?.bind fun found hfound => ?_
    obtain ⟨t, rfl, ht⟩ := Option.map_eq_some_iff.1 hfound
    obtain ⟨hkind, htext⟩ := Prod.mk.inj ht
    dsimp only
    rw [if_pos (by simp [hkind, htext])]
    exact reads_skip
  | false =>
    rw [publicPieces, if_neg Bool.false_ne_true, List.nil_append]
    refine reads_peek?.bind fun found hfound => ?_
    cases found with
    | none => exact reads_pure rfl
    | some t =>
      have hnot : ¬(t.kind = .word && t.text = ("pub" : Text)) = true := by
        rw [Bool.and_eq_true, decide_eq_true_eq, decide_eq_true_eq]
        rintro ⟨hkind, htext⟩
        exact hx rfl (by rw [← hfound, Option.map_some, hkind, htext, wordPiece])
      dsimp only
      rw [if_neg hnot]
      exact reads_pure rfl

end Names

section Functions

/-- The name of a function, which may be missing. -/
def namePieces (name : Text) : List Piece := if name.isEmpty then [] else [wordPiece name]

lemma reads_optionalName (name : Text) (hx : headKind? x ≠ some .word) :
    Reads (skim .word) (namePieces name ++ x) x fun found => (found.map Token.text).getD [] = name := by
  by_cases hne : name = []
  · subst hne
    refine (reads_skimNone hx).mono fun found hfound => ?_
    rw [hfound]
    rfl
  · rw [namePieces, if_neg (by simpa using hne)]
    refine reads_skim.mono ?_
    rintro _ ⟨t, rfl, ht⟩
    exact ht

lemma reads_functionName {f : FunctionPlan} (hwf : f.WF) (hx : headKind? x = some (.symbol .parenLeft)) :
    Reads functionName (receiverPieces f.receiver ++ (namePieces f.name ++ x)) x fun r =>
      r.1 = (f.receiver.map Prod.fst).getD [] ∧ r.2.1.map TypeSpec.type = f.receiver.map Prod.snd ∧
        r.2.2 = f.name := by
  have hname := hwf.name
  cases hreceiver : f.receiver with
  | none =>
    rw [hreceiver] at hname
    have hne : f.name ≠ [] := hname.1.ne_nil
    rw [receiverPieces, List.nil_append, namePieces, if_neg (by simpa using hne)]
    refine (reads_skipNone (by simp [headKind?, wordPiece])).bind fun b hb => ?_
    subst hb
    exact (reads_take _).bind fun t ht => reads_pure ⟨rfl, rfl, ht⟩
  | some receiver =>
    obtain ⟨name, type⟩ := receiver
    rw [hreceiver] at hname
    rw [receiverPieces, inParens, List.cons_append, List.cons_append, List.cons_append, List.cons_append,
      List.append_assoc]
    refine reads_skip.bind fun b hb => ?_
    subst hb
    refine (reads_take _).bind fun t ht => ?_
    refine (reads_typeSpec hname.1.2 (endsName_symbol (by decide) _)).bind fun spec hspec => ?_
    refine (reads_take _).bind fun _ _ => (reads_optionalName f.name (by simp [hx])).bind fun found hfound => ?_
    exact reads_pure ⟨ht, congrArg some hspec, hfound⟩

lemma head_ne_public {f : FunctionPlan} (hwf : f.WF) (hpublic : f.isPublic = false) (x : List Piece) :
    (receiverPieces f.receiver ++ (namePieces f.name ++ x)).head? ≠ some (wordPiece "pub") := by
  have hname := hwf.name
  cases hreceiver : f.receiver with
  | none =>
    rw [hreceiver] at hname
    have hne : f.name ≠ [] := hname.1.ne_nil
    rw [receiverPieces, List.nil_append, namePieces, if_neg (by simpa using hne)]
    intro heq
    exact hname.2 hpublic (Prod.mk.inj (Option.some.inj heq)).2
  | some receiver => simp [receiverPieces, inParens, symbolPiece, wordPiece]

lemma FunctionPlan.pieces_eq {f : FunctionPlan} (hbody : f.body = []) (y : List Piece) :
    f.pieces ++ y = publicPieces f.isPublic ++ (receiverPieces f.receiver ++ (namePieces f.name ++
      (parametersPieces f.spreadParams f.params ++ (resultsPieces f.spreadResults f.results ++
        symbolPiece .braceLeft :: symbolPiece .braceRight :: linePiece :: y)))) := by
  rw [FunctionPlan.pieces, hbody, entriesPieces]
  simp only [inBraces, namePieces, List.isEmpty_nil, if_true, List.append_assoc, List.cons_append,
    List.nil_append]

lemma reads_noStatements (y : List Piece) :
    Reads statements (symbolPiece .braceRight :: y) y (· = []) := by
  rw [statements_eq, isLoop_statements.until_eq]
  exact reads_membersEnd reads_skip

lemma reads_functionDef {f : FunctionPlan} (hwf : f.WF) (hbody : f.body = []) (y : List Piece) :
    Reads functionDef (f.pieces ++ y) (linePiece :: y) fun n => n.signature? = some f.signature := by
  rw [FunctionPlan.pieces_eq hbody]
  obtain ⟨inner, hinner, hparams⟩ := reads_parameters hwf.params (resultsPieces f.spreadResults f.results ++
    symbolPiece .braceLeft :: symbolPiece .braceRight :: linePiece :: y)
  rw [hinner]
  refine reads_here.bind fun start _ => ?_
  refine (reads_publicKeyword f.isPublic fun hpublic => head_ne_public hwf hpublic _).bind fun isPublic hpub => ?_
  refine (reads_functionName hwf rfl).bind fun names hnames => (reads_take _).bind fun _ _ => ?_
  refine hparams.bind fun params hfilled => reads_lastStop.bind fun paramsStop _ => ?_
  obtain ⟨filled, hfilled, hdeclared⟩ := hfilled
  obtain ⟨hreceiver, htype, hname⟩ := hnames
  dsimp only
  rw [hfilled]
  refine (reads_results hwf.results _).bind fun results hresults => (reads_take _).bind fun opening _ => ?_
  refine (reads_noStatements _).bind fun body _ => reads_lastStop.bind fun stop _ => reads_pure ?_
  rw [Node.signature?, FunctionPlan.signature, hpub, hreceiver, htype, hname]
  rw [Declares] at hdeclared hresults
  rw [hdeclared, hresults]

end Functions

section Types

variable {isPublic : Bool} {name : Text} {fields : List (Member FieldPlan)}

lemma reads_typeDef (hname : IsDefinedName isPublic name) (hgaps : GapsOk false (fields.map Member.mark))
    (heach : ∀ field ∈ fields, field.Satisfies FieldPlan.WF) (y : List Piece) :
    Reads typeDef
      (publicPieces isPublic ++ wordPiece name :: (inBraces (memberPieces FieldPlan.pieces fields) ++ y)) y
      fun n => n.signature? = some (.type isPublic name (fields.map (Member.declared FieldPlan.declared))) := by
  obtain ⟨inner, hinner, hfields⟩ := reads_braces hgaps heach y
  have hword : headKind? (symbolPiece .braceLeft :: inner) ≠ some .word := by simp [headKind?, symbolPiece]
  rw [hinner]
  refine (reads_definedName hname _).bind fun names hnames => ?_
  refine (reads_fieldAccess .hidden hword).bind fun access haccess => (reads_take _).bind fun _ _ => ?_
  refine hfields.bind fun nodes hnodes => reads_lastStop.bind fun stop _ => reads_pure ?_
  have hsame : nodes.map (withAccess .hidden) = nodes :=
    (List.map_congr_left fun n _ => withAccess_hidden n).trans (List.map_id nodes)
  rw [Declares] at hnodes
  rw [Node.signature?, hnames.1, hnames.2, haccess, hsame, hnodes]

end Types

section Files

lemma rejectsAt_importList (h : headKind? x ≠ some (.keyword .importKw)) : RejectsAt (member importList) x :=
  ((rejectsAt_take h _).bind _).bind _

lemma rejectsAt_semicolon (h : headKind? x ≠ some (.symbol .semicolon)) :
    RejectsAt (semicolon : Parser (Option Node)) x := (rejectsAt_take h _).bind _

lemma rejectsAt_constantDef (h : headKind? x ≠ some .word) : RejectsAt (member constantDef) x :=
  (((rejectsAt_take h _).bind _).bind _).bind _

lemma rejectsAt_constantDef_name {isPublic : Bool} {name : Text} (h : IsDefinedName isPublic name)
    (hx : headKind? x ≠ some (.symbol .assign)) :
    RejectsAt (member constantDef) (publicPieces isPublic ++ wordPiece name :: x) := by
  refine RejectsAt.bind ((reads_definedName h x).rejects fun names _ => ?_) _
  exact (rejectsAt_take hx _).bind _

lemma rejectsAt_constantDef_function {f : FunctionPlan} (hwf : f.WF)
    (hx : headKind? x = some (.symbol .parenLeft)) :
    RejectsAt (member constantDef)
      (publicPieces f.isPublic ++ (receiverPieces f.receiver ++ (namePieces f.name ++ x))) := by
  have hname := hwf.name
  cases hreceiver : f.receiver with
  | none =>
    rw [hreceiver] at hname
    have hne : f.name ≠ [] := hname.1.ne_nil
    rw [receiverPieces, List.nil_append, namePieces, if_neg (by simpa using hne)]
    exact rejectsAt_constantDef_name hname (by simp [hx])
  | some receiver => exact ((rejectsAt_definedName f.isPublic _).bind _).bind _

lemma reads_atEnd : Reads atEnd x x (· = x.isEmpty) := by
  refine reads_peek?.bind fun found hfound => reads_pure ?_
  cases x with
  | nil => rw [Option.map_eq_none_iff.1 hfound]; rfl
  | cons piece x =>
    obtain ⟨t, rfl, -⟩ := Option.map_eq_some_iff.1 hfound
    rfl

lemma reads_fileLine : Reads file [linePiece] [] (· = []) := by
  have hhead : headKind? [linePiece] = some .newline := rfl
  have hfunction : RejectsAt functionDef [linePiece] := by
    refine reads_here.rejects fun _ _ => (reads_publicKeyword false (by decide)).rejects fun _ _ => ?_
    refine RejectsAt.bind ((reads_skipNone (by simp [hhead])).rejects fun b hb => ?_) _
    subst hb
    exact (rejectsAt_take (by simp [hhead]) _).bind _
  have hothers : ∀ q ∈ [member comment, member constantDef, member functionDef, member importList],
      RejectsAt q [linePiece] := by
    simp only [List.forall_mem_cons]
    exact ⟨rejectsAt_comment (by simp [hhead]), rejectsAt_constantDef (by simp [hhead]), hfunction.bind _,
      rejectsAt_importList (by simp [hhead]), by simp⟩
  have hline : Reads (newline : Parser (Option Node)) [linePiece] [] (· = none) :=
    (reads_take _).bind fun _ _ => reads_pure rfl
  have hend : Reads file [] [] (· = []) := by
    rw [file_eq]
    exact reads_membersEnd reads_atEnd
  rw [file_eq]
  refine (reads_membersStep reads_atEnd (reads_firstOf hothers hline) hend).mono ?_
  rintro _ ⟨_, _, rfl, rfl, rfl⟩
  rfl

lemma reads_fileMember {P : Node → Prop} {p : Parser Node} {ps qs : List (Parser (Option Node))}
    (hsplit : fileMembers = ps ++ member p :: qs) (hx : x ≠ []) (hps : ∀ q ∈ ps, RejectsAt q x)
    (hp : Reads p x [linePiece] P) : Reads file x [] fun nodes => ∃ n, nodes = [n] ∧ P n := by
  have hopen : Reads atEnd x x (· = false) := reads_atEnd.mono fun b hb => hb.trans (by simpa using hx)
  rw [file_eq, hsplit]
  refine (reads_membersStep hopen (reads_firstOf hps (reads_member hp)) reads_fileLine).mono ?_
  rintro _ ⟨_, _, ⟨n, rfl, hn⟩, rfl, rfl⟩
  exact ⟨n, rfl, hn⟩

/-- A function starts with a word or with the parenthesis of a receiver or of its parameters. -/
lemma headKind?_function (f : FunctionPlan) (hx : headKind? x = some (.symbol .parenLeft)) :
    headKind? (publicPieces f.isPublic ++ (receiverPieces f.receiver ++ (namePieces f.name ++ x))) ∈
      [some .word, some (.symbol .parenLeft)] := by
  cases f.isPublic with
  | true => exact List.mem_cons_self
  | false =>
    cases f.receiver with
    | some receiver => exact List.mem_cons_of_mem _ List.mem_cons_self
    | none =>
      by_cases hne : f.name.isEmpty = true
      · rw [namePieces, if_pos hne]
        exact List.mem_cons_of_mem _ (List.mem_singleton.2 hx)
      · rw [namePieces, if_neg hne]
        exact List.mem_cons_self

lemma reads_functionFile {f : FunctionPlan} (hwf : f.WF) (hbody : f.body = []) :
    Reads file f.pieces [] fun nodes => ∃ n, nodes = [n] ∧ n.signature? = some f.signature := by
  have hread := reads_functionDef hwf hbody []
  have hpieces := FunctionPlan.pieces_eq hbody []
  obtain ⟨inner, hinner, -⟩ := reads_parameters hwf.params (resultsPieces f.spreadResults f.results ++
    [symbolPiece .braceLeft, symbolPiece .braceRight, linePiece])
  rw [List.append_nil] at hread hpieces
  rw [hinner] at hpieces
  have hhead := headKind?_function f (x := symbolPiece .parenLeft :: inner) rfl
  rw [← hpieces] at hhead
  have hcomment : headKind? f.pieces ≠ some .comment := fun heq => by
    rw [heq] at hhead
    revert hhead
    decide
  have hne : f.pieces ≠ [] := fun heq => by
    rw [heq] at hhead
    revert hhead
    decide
  have hothers : ∀ q ∈ [member comment, member constantDef], RejectsAt q f.pieces := by
    simp only [List.forall_mem_cons]
    refine ⟨rejectsAt_comment hcomment, ?_, by simp⟩
    rw [hpieces]
    exact rejectsAt_constantDef_function hwf rfl
  exact reads_fileMember rfl hne hothers hread

lemma rejectsAt_functionDef {isPublic : Bool} {name : Text} (h : IsDefinedName isPublic name)
    (hx : headKind? x ≠ some (.symbol .parenLeft)) :
    RejectsAt functionDef (publicPieces isPublic ++ wordPiece name :: x) := by
  have hpublic (hnot : isPublic = false) : (wordPiece name :: x).head? ≠ some (wordPiece "pub") := by
    intro heq
    exact h.2 hnot (Prod.mk.inj (Option.some.inj heq)).2
  have hname : Reads functionName (wordPiece name :: x) x fun _ => True := by
    refine (reads_skipNone (by simp [headKind?, wordPiece])).bind fun b hb => ?_
    subst hb
    exact (reads_take _).bind fun t ht => reads_pure trivial
  refine reads_here.rejects fun _ _ => (reads_publicKeyword isPublic hpublic).rejects fun _ _ => ?_
  exact hname.rejects fun _ _ => (rejectsAt_take hx _).bind _

lemma reads_typeFile {isPublic : Bool} {name : Text} {fields : List (Member FieldPlan)}
    (hwf : (MemberPlan.typeDef isPublic name fields).WF) :
    Reads file (MemberPlan.typeDef isPublic name fields).pieces [] fun nodes => ∃ n, nodes = [n] ∧
      n.signature? = some (.type isPublic name (fields.map (Member.declared FieldPlan.declared))) := by
  obtain ⟨hname, hgaps, heach⟩ := hwf
  have hpieces : (MemberPlan.typeDef isPublic name fields).pieces = publicPieces isPublic ++
      wordPiece name :: (inBraces (memberPieces FieldPlan.pieces fields) ++ [linePiece]) := by
    rw [MemberPlan.pieces, List.append_assoc, List.cons_append]
  have hbrace : headKind? (inBraces (memberPieces FieldPlan.pieces fields) ++ [linePiece]) =
      some (.symbol .braceLeft) := rfl
  have hhead : headKind? (MemberPlan.typeDef isPublic name fields).pieces = some .word := by
    rw [hpieces]
    cases isPublic <;> rfl
  have hothers : ∀ q ∈ [member comment, member constantDef, member functionDef, member importList, newline,
      semicolon], RejectsAt q (MemberPlan.typeDef isPublic name fields).pieces := by
    simp only [List.forall_mem_cons]
    refine ⟨rejectsAt_comment (by simp [hhead]), ?_, ?_, rejectsAt_importList (by simp [hhead]),
      rejectsAt_newline (by simp [hhead]), rejectsAt_semicolon (by simp [hhead]), by simp⟩
    · rw [hpieces]
      exact rejectsAt_constantDef_name hname (by simp [hbrace])
    · rw [hpieces]
      exact (rejectsAt_functionDef hname (by simp [hbrace])).bind _
  refine reads_fileMember rfl (fun heq => by rw [heq] at hhead; cases hhead) hothers ?_
  rw [hpieces]
  exact reads_typeDef hname hgaps heach [linePiece]

end Files

end Parser

section Roundtrip

variable {α : Type} {item : Node → α}

lemma declared_memberPlans (view : α → Declared) {nodes : List Node}
    (h : ∀ n ∈ nodes, n.isComment = false → n.declared = view (item n)) (spread : Bool) (previous : Int) :
    (memberPlans item spread previous nodes).map (Member.declared view) = nodes.map Node.declared := by
  induction nodes generalizing previous with
  | nil => rfl
  | cons node nodes ih =>
    obtain ⟨hnode, hrest⟩ := List.forall_mem_cons.1 h
    cases hc : node.isComment with
    | true =>
      cases node with
      | comment start source =>
        rw [memberPlans, List.map_cons, ih hrest]
        rfl
      | _ => cases hc
    | false =>
      rw [memberPlans_cons item spread previous hc, List.map_cons, ih hrest, List.map_cons, hnode hc]
      rfl

lemma declared_parameters {params : List Node} (h : params.all Node.isParameter = true) :
    ∀ n ∈ params, n.isComment = false → n.declared = n.parameterPlan.declared := by
  intro n hn hc
  have hparam := List.all_eq_true.1 h n hn
  cases n with
  | comment start source => cases hc
  | parameter start name type stop =>
    cases type with
    | none => cases hparam
    | some spec => rfl
  | _ => cases hparam

lemma declared_results {results : List Node} (h : results.all Node.isResult = true) :
    ∀ n ∈ results, n.isComment = false → n.declared = .result n.resultPlan := by
  intro n hn hc
  have hresult := List.all_eq_true.1 h n hn
  cases n with
  | comment start source => cases hc
  | typeSpec spec => rfl
  | _ => cases hresult

lemma declared_fields {fields : List Node} (h : fields.all Node.isField = true) :
    ∀ n ∈ withoutImports fields, n.isComment = false → n.declared = n.fieldPlan.declared := by
  intro n hn hc
  rcases field_cases h hn with ⟨_, _, rfl⟩ | ⟨_, _, _, _, _, rfl⟩
  · cases hc
  · rfl

lemma parse_of_spells {page : Page} {pieces : List Piece} {s : Signature} (hspells : page.Spells pieces none)
    (hread : Parser.Reads Parser.file pieces [] fun nodes => ∃ n, nodes = [n] ∧ n.signature? = some s)
    (p : Position) :
    ∃ tokens read, tokenize p page.value = .ok tokens ∧ parse tokens = .ok [read] ∧
      read.signature? = some s := by
  obtain ⟨tokens, htokens, hpieces⟩ := tokenize_of_scan hspells.scan p
  obtain ⟨nodes, c, hrun, ⟨read, rfl, hread⟩, -⟩ := hread (.ofTokens tokens) hpieces
  refine ⟨tokens, read, htokens, ?_, hread⟩
  change (Parser.file (.ofTokens tokens)).map Prod.fst = .ok [read]
  rw [hrun]
  rfl

lemma functionPlan_body (head : FunctionHead) (params results : List Node) :
    (functionPlan head params results []).body = [] := by
  have hnone : functionBody results [] = [] := List.sublist_nil.1 (functionBody_sublist results [])
  rw [functionPlan, hnone, entryPlans]

lemma functionPlan_withoutBody {head : FunctionHead} {params results body : List Node}
    (h : (functionPlan head params results body).WF) : (functionPlan head params results []).WF where
  name := h.name
  params := h.params
  results := h.results
  body := by
    rw [functionPlan_body]
    exact ⟨trivial, trivial⟩

lemma functionPlan_signature {head : FunctionHead} {params results : List Node}
    (hparams : params.all Node.isParameter = true) (hresults : results.all Node.isResult = true)
    (hreceiver : head.receiverType = none → head.receiverName = []) (body : List Node) :
    some (functionPlan head params results []).signature =
      (Node.functionDef head params results body).signature? := by
  have hnames : ((head.receiverType.map fun type => (head.receiverName, type.type)).map Prod.fst).getD [] =
      head.receiverName := by
    cases htype : head.receiverType with
    | none => exact (hreceiver htype).symm
    | some type => rfl
  have htypes : (head.receiverType.map fun type => (head.receiverName, type.type)).map Prod.snd =
      head.receiverType.map TypeSpec.type := by
    rw [Option.map_map]
    rfl
  rw [FunctionPlan.signature, functionPlan, hnames, htypes, Node.signature?,
    declared_memberPlans ParameterPlan.declared (declared_parameters hparams),
    declared_memberPlans Declared.result (declared_results hresults)]

lemma function_roundtrip {head : FunctionHead} {params results body : List Node}
    (h : Parser.IsDefinition (.functionDef head params results body)) {page : Page}
    (hpage : page.Spells [] none) (p : Position) :
    ∃ written tokens read, writeFunction head params results [] page = .ok written ∧
      tokenize p written.value = .ok tokens ∧ parse tokens = .ok [read] ∧
      read.signature? = (Node.functionDef head params results body).signature? := by
  obtain ⟨hplan, hmember, -, hreceiver⟩ := h
  rw [Node.isFileMember, Bool.and_eq_true, Bool.and_eq_true] at hmember
  obtain ⟨⟨hparams, hresults⟩, -⟩ := hmember
  have hwf := functionPlan_withoutBody hplan
  have hread := Parser.reads_functionFile hwf (functionPlan_body head params results)
  rw [← functionPlan_signature hparams hresults hreceiver body]
  obtain ⟨tokens, read, hrest⟩ := parse_of_spells (FunctionPlan.write_spells hwf hpage) hread p
  exact ⟨_, tokens, read, writeFunction_eq head hparams hresults rfl page, hrest⟩

lemma type_roundtrip {start : Position} {isPublic : Bool} {name : Text} {fields : List Node} {stop : Position}
    (h : Parser.IsDefinition (.typeDef start isPublic name fields stop)) {page : Page}
    (hpage : page.Spells [] none) (p : Position) :
    ∃ written tokens read, writeType start.line isPublic name fields page = .ok written ∧
      tokenize p written.value = .ok tokens ∧ parse tokens = .ok [read] ∧
      read.signature? = (Node.typeDef start isPublic name (withoutImports fields) stop).signature? := by
  obtain ⟨hname, hfields, hgaps, heach, -⟩ := h
  have hsignature := declared_memberPlans FieldPlan.declared (declared_fields hfields) true start.line
  rw [Node.signature?, ← hsignature]
  obtain ⟨tokens, read, hrest⟩ := parse_of_spells (writeTypeOf_spells hname hgaps heach hpage)
    (Parser.reads_typeFile ⟨hname, hgaps, heach⟩) p
  exact ⟨_, tokens, read, writeType_eq start.line isPublic name hfields page, hrest⟩

/-- What is written for a function without its body, or for a type, is read as one definition with the
same signature. The imports among the fields of a type are not written with it. -/
theorem signature_roundtrip {n : Node} (h : Parsed n) (hn : n.signature?.isSome = true) (lead : Text)
    (line : Int) (p : Position) :
    ∃ page tokens read,
      File.writeMember [] (.behind lead line) n.withoutBody = .ok page ∧
      tokenize p page.value = .ok tokens ∧ parse tokens = .ok [read] ∧
      read.signature? = n.withoutNestedImports.signature? := by
  have hstart : (Page.behind lead line).Spells [] none := Page.spells_of_value rfl
  have hplanned := h.planned
  cases n with
  | functionDef head params results body =>
    have hdefinition := hplanned.of_definition (by simp [Node.isExpr]) (by simp [Node.isStatement]) rfl
    exact function_roundtrip hdefinition hstart p
  | typeDef start isPublic name fields stop =>
    have hdefinition := hplanned.of_definition (by simp [Node.isExpr]) (by simp [Node.isStatement]) rfl
    exact type_roundtrip hdefinition hstart p
  | _ => cases hn

/-- A function with a receiver, parameters that share a type and comments, and a type with an import among
its fields and an access mode of its own. -/
theorem signature_roundtrip_method :
    ∃ tokens nodes,
      tokenize (.startOf "f") ("pub (r *T) f(a, b int) x::y, [T] \x7b\n  return\n\x7d\n" ++
        ("T visible \x7b // c\n  import \"p\"\n  a int mutable\n  b &#U // d\n\x7d\n" : Text)) = .ok tokens ∧
      parse tokens = .ok nodes ∧ nodes.map Node.kind = [.functionDef, .typeDef] ∧
      ∀ n ∈ nodes, ∃ page again read,
        File.writeMember [] (.behind [] 1) n.withoutBody = .ok page ∧
        tokenize (.startOf "g") page.value = .ok again ∧ parse again = .ok [read] ∧
        read.signature? = n.withoutNestedImports.signature? := by
  obtain ⟨tokens, nodes, ht, hp, hcheck⟩ := exists_parsed_with (.startOf "f")
    ("pub (r *T) f(a, b int) x::y, [T] \x7b\n  return\n\x7d\n" ++
      ("T visible \x7b // c\n  import \"p\"\n  a int mutable\n  b &#U // d\n\x7d\n" : Text))
    (fun nodes => decide (nodes.map Node.kind = [.functionDef, .typeDef]) &&
      nodes.all fun n => n.signature?.isSome) (by decide +kernel)
  rw [Bool.and_eq_true, decide_eq_true_eq, List.all_eq_true] at hcheck
  refine ⟨tokens, nodes, ht, hp, hcheck.1, fun n hn => ?_⟩
  have hself : n ∈ n.walk := by
    rw [Node.walk_eq]
    exact List.mem_cons_self
  have hparsed : Parsed n := .inFile ht hp (mem_walkAll.2 ⟨n, hn, hself⟩)
  exact signature_roundtrip hparsed (hcheck.2 n hn) [] 1 (.startOf "g")

end Roundtrip

section Types

namespace Parser

variable {c d : Cursor}

lemma settled_take {kind : TokenKind} {message : Text} {t : Token}
    (h : take kind message c = .ok (t, d)) : d.settle.rest = d.rest := by
  obtain ⟨u, us, hr, hk⟩ := rest_of_peekKind (peekKind?_of_take h)
  rw [take_run, Cursor.skim_of_kind hr hk] at h
  obtain ⟨-, rfl⟩ := Prod.mk.inj (Except.ok.inj h)
  rw [Cursor.settle_rest, Cursor.behind_rest, List.dropWhile_idempotent]

lemma settled_nameParts {fuel : Nat} {parts : List Text} (h : nameParts fuel c = .ok (parts, d)) :
    d.settle.rest = d.rest := by
  induction fuel generalizing c parts with
  | zero => cases h
  | succ fuel ih =>
    rw [nameParts] at h
    obtain ⟨word, c1, -, h⟩ := bind_ok_iff.1 h
    obtain ⟨more, c2, hmore, h⟩ := bind_ok_iff.1 h
    cases more with
    | true =>
      obtain ⟨others, hothers, -⟩ := bind_pure_ok h
      exact ih hothers
    | false =>
      obtain ⟨-, rfl⟩ := pure_ok_iff.1 h
      rw [settle_of_skip hmore, Cursor.settle_settle]

lemma settled_typeWithin {fuel : Nat} {type : TypeExpr} (h : typeWithin fuel c = .ok (type, d)) :
    d.settle.rest = d.rest := by
  cases fuel with
  | zero => cases h
  | succ fuel =>
    rw [typeWithin] at h
    obtain ⟨flags, c1, -, h⟩ := bind_ok_iff.1 h
    obtain ⟨isArray, c2, -, h⟩ := bind_ok_iff.1 h
    cases isArray with
    | true =>
      obtain ⟨item, c3, -, h⟩ := bind_ok_iff.1 h
      obtain ⟨closing, hclosing, -⟩ := bind_pure_ok h
      exact settled_take hclosing
    | false =>
      obtain ⟨name, hname, -⟩ := bind_pure_ok h
      obtain ⟨rooted, c3, -, hname⟩ := bind_ok_iff.1 hname
      obtain ⟨parts, hparts, -⟩ := bind_pure_ok hname
      exact settled_nameParts hparts

end Parser

lemma TypeExpr.text_reads {type : TypeExpr} (h : type.WF) (p : Position) :
    ∃ tokens c, tokenize p type.text = .ok tokens ∧
      Parser.type (.ofTokens tokens) = .ok (type, c) ∧ c.rest = [] := by
  obtain ⟨kind, -, hspells⟩ := (TypeExpr.text_part h).free.spells
  obtain ⟨tokens, htokens, hpieces⟩ := tokenize_of_scan hspells.scan p
  have hreads := Parser.reads_type type h [] (by simp [Parser.EndsName, headKind?])
  rw [List.append_nil] at hreads
  obtain ⟨_, c, hrun, rfl, hrest⟩ := hreads (.ofTokens tokens) hpieces
  refine ⟨tokens, c, htokens, hrun, ?_⟩
  rw [← Parser.settled_typeWithin hrun]
  exact List.head?_eq_none_iff.1 hrest.peek?_none

/-- What is written for a type is read to its end as the same type, and so no other type is written
like it. -/
theorem type_text_roundtrip {type : TypeExpr} (h : type.WF) (p : Position) :
    (∃ tokens c, tokenize p type.text = .ok tokens ∧
      Parser.type (.ofTokens tokens) = .ok (type, c) ∧ c.rest = []) ∧
    ∀ other : TypeExpr, other.WF → other.text = type.text → other = type := by
  refine ⟨TypeExpr.text_reads h p, fun other hother hsame => ?_⟩
  obtain ⟨tokens, c, htokens, hrun, -⟩ := TypeExpr.text_reads h p
  obtain ⟨tokens', d, htokens', hrun', -⟩ := TypeExpr.text_reads hother p
  rw [hsame, htokens] at htokens'
  obtain rfl := Except.ok.inj htokens'
  rw [hrun] at hrun'
  exact (Prod.mk.inj (Except.ok.inj hrun')).1.symm

/-- All marks in front of a bracket, and a mark in front of a name that starts at the root. -/
theorem type_text_roundtrip_marks :
    ∃ type : TypeExpr, type.WF ∧ type.text = "=*&#[[&::a::b]]".toList ∧
      (∃ tokens c, tokenize (.startOf "f") type.text = .ok tokens ∧
        Parser.type (.ofTokens tokens) = .ok (type, c) ∧ c.rest = []) ∧
      ∀ other : TypeExpr, other.WF → other.text = type.text → other = type := by
  have hwf : (TypeExpr.array ⟨true, true, true, true⟩ (.array {}
      (.named ⟨false, false, true, false⟩ [[], "a", "b"]))).WF := by
    refine ⟨["a", "b"], ⟨List.cons_ne_nil _ _, ?_⟩, .inr rfl⟩
    unfold IsLexeme
    decide
  exact ⟨_, hwf, by decide, type_text_roundtrip hwf (.startOf "f")⟩

end Types

end DpLang
