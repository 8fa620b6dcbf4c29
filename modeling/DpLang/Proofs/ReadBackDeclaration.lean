import DpLang.Proofs.ReadBack
import DpLang.Proofs.Rejection
import DpLang.Proofs.SpellingFile

/-!
# Declarations are read back

The pieces in which types, parameters, results and fields are written are read as such. What is left
out is filled in again: the type of a parameter that the next one has too, and the access mode of a
hidden field.
-/

namespace DpLang

section Views

/-- A member of the lists of a definition, wherever it stands. -/
inductive Declared where
  | comment (text : Text)
  | parameter (name : Text) (type : Option TypeExpr)
  | result (type : TypeExpr)
  | field (name : Text) (type : TypeExpr) (access : FieldAccess)
  | other
  deriving DecidableEq

/-- What a node declares. A comment counts without the blanks at its ends. -/
def Node.declared : Node → Declared
  | .comment _ source => .comment (Text.strip source)
  | .parameter _ name type _ => .parameter name (type.map TypeSpec.type)
  | .typeSpec spec => .result spec.type
  | .field _ name type access _ => .field name type.type access
  | _ => .other

def ParameterPlan.declared (p : ParameterPlan) : Declared := .parameter p.name (some p.type)

def FieldPlan.declared (f : FieldPlan) : Declared := .field f.name f.type f.access

def Member.declared {α : Type} (view : α → Declared) : Member α → Declared
  | .comment _ text => .comment text
  | .item _ a => view a

end Views

namespace Parser

variable {x y z : List Piece}

section Types

lemma reads_nameWords (hy : headKind? y ≠ some (.symbol .colons)) {words : List Text} (h : words ≠ []) :
    Reads nameWords (joinedWords .colons words ++ y) y (· = words) := by
  obtain ⟨word, words, rfl⟩ := List.exists_cons_of_ne_nil h
  rw [joinedWords_cons]
  induction words generalizing word with
  | nil =>
    rw [nameWords_eq]
    refine (reads_take _).bind fun t ht => (reads_skipNone hy).bind fun b hb => ?_
    subst hb
    exact reads_pure (by rw [ht])
  | cons next words ih =>
    rw [nameWords_eq]
    refine (reads_take _).bind fun t ht => reads_skip.bind fun b hb => ?_
    subst hb
    exact (ih next (List.cons_ne_nil _ _)).bind fun names hnames => reads_pure (by rw [ht, hnames])

/-- The pieces do not continue a name. -/
def EndsName (x : List Piece) : Prop := headKind? x ≠ some (.symbol .colons)

lemma headKind?_words {words : List Text} (h : AreNames words) (y : List Piece) :
    headKind? (joinedWords .colons words ++ y) = some .word := by
  obtain ⟨word, rest, rfl⟩ := List.exists_cons_of_ne_nil h.1
  rw [joinedWords_cons]
  rfl

lemma reads_qualifiedName {name : QualifiedName} (h : IsQualifiedName name) (hy : EndsName y) :
    Reads qualifiedName (name.pieces ++ y) y (· = name) := by
  obtain ⟨words, hwords, hname⟩ := h
  have hrest := reads_nameWords hy hwords.1
  rcases hname with rfl | rfl
  · rw [QualifiedName.pieces_of_names hwords]
    refine (reads_skipNone (by simp [headKind?_words hwords])).bind fun b hb => ?_
    · subst hb
      exact hrest.bind fun parts hparts => reads_pure hparts
  · refine reads_skip.bind fun b hb => ?_
    subst hb
    exact hrest.bind fun parts hparts => reads_pure (by rw [hparts]; rfl)

def markPieces (s : Symbol) (marked : Bool) : List Piece := if marked then [symbolPiece s] else []

lemma headKind?_mark {s : Symbol} {kind : TokenKind} (hk : kind ≠ .symbol s)
    (hx : headKind? x ≠ some kind) (marked : Bool) : headKind? (markPieces s marked ++ x) ≠ some kind := by
  cases marked with
  | false => exact hx
  | true => simpa [markPieces, headKind?, symbolPiece] using hk.symm

lemma reads_mark {s : Symbol} (hx : headKind? x ≠ some (.symbol s)) (marked : Bool) :
    Reads (skip (.symbol s)) (markPieces s marked ++ x) x (· = marked) := by
  cases marked with
  | false => exact reads_skipNone hx
  | true => exact reads_skip

lemma reads_typeFlags (flags : TypeFlags)
    (hx : ∀ s ∈ [Symbol.assign, .asterisk, .ampersand, .hash], headKind? x ≠ some (.symbol s)) :
    Reads typeFlags (flags.pieces ++ x) x (· = flags) := by
  have hpieces : flags.pieces ++ x = markPieces .assign flags.assigner ++
      (markPieces .asterisk flags.pointer ++ (markPieces .ampersand flags.reference ++
        (markPieces .hash flags.shared ++ x))) := by
    simp only [TypeFlags.pieces, markPieces, List.append_assoc]
  rw [hpieces]
  refine (reads_mark ?_ _).bind fun assigner ha => (reads_mark ?_ _).bind fun pointer hp => ?_
  · exact headKind?_mark (by decide) (headKind?_mark (by decide)
      (headKind?_mark (by decide) (hx _ (by decide)) _) _) _
  · exact headKind?_mark (by decide) (headKind?_mark (by decide) (hx _ (by decide)) _) _
  · refine (reads_mark ?_ _).bind fun reference hr => (reads_mark (hx _ (by decide)) _).bind fun shared hs => ?_
    · exact headKind?_mark (by decide) (hx _ (by decide)) _
    · exact reads_pure (by rw [ha, hp, hr, hs])

lemma headKind?_name {name : QualifiedName} (h : IsQualifiedName name) (y : List Piece) :
    ∃ kind ∈ nameStarts, headKind? (name.pieces ++ y) = some kind := by
  obtain ⟨words, hwords, rfl | rfl⟩ := h
  · rw [QualifiedName.pieces_of_names hwords]
    exact ⟨.word, by decide, headKind?_words hwords y⟩
  · exact ⟨.symbol .colons, by decide, rfl⟩

lemma head_ne_name {name : QualifiedName} (h : IsQualifiedName name) (y : List Piece) {kind : TokenKind}
    (hk : kind ∉ nameStarts) : headKind? (name.pieces ++ y) ≠ some kind := by
  obtain ⟨first, hfirst, heq⟩ := headKind?_name h y
  rw [heq]
  rintro hsame
  exact hk (Option.some.inj hsame ▸ hfirst)

lemma reads_type : ∀ type : TypeExpr, type.WF → ∀ y, EndsName y →
    Reads Parser.type (type.pieces ++ y) y (· = type) := by
  intro type
  induction type with
  | named flags name =>
    intro hwf y hy
    rw [type_eq, TypeExpr.pieces, List.append_assoc]
    refine (reads_typeFlags flags fun s hs => head_ne_name hwf y ?_).bind fun found hfound => ?_
    · revert s
      decide
    · refine (reads_skipNone (head_ne_name hwf y (by decide))).bind fun b hb => ?_
      subst hb
      exact (reads_qualifiedName hwf hy).bind fun parts hparts => reads_pure (by rw [hfound, hparts])
  | array flags item ih =>
    intro hwf y hy
    rw [type_eq, TypeExpr.pieces, List.append_assoc, List.append_assoc]
    refine (reads_typeFlags flags ?_).bind fun found hfound => ?_
    · rw [List.cons_append]
      simp [headKind?_cons, symbolPiece]
    · refine reads_skip.bind fun b hb => ?_
      subst hb
      refine (ih hwf _ (by simp [EndsName, headKind?, symbolPiece])).bind fun inner hinner => ?_
      exact (reads_take _).bind fun _ _ => reads_pure (by rw [hfound, hinner])

def typeStarts : List TokenKind :=
  [.symbol .assign, .symbol .asterisk, .symbol .ampersand, .symbol .hash, .symbol .bracketLeft,
    .symbol .colons, .word]

lemma headKind?_type {type : TypeExpr} (h : type.WF) (y : List Piece) :
    ∃ kind ∈ typeStarts, headKind? (type.pieces ++ y) = some kind := by
  have hmark {s : Symbol} (hs : .symbol s ∈ typeStarts) {x : List Piece}
      (hx : ∃ kind ∈ typeStarts, headKind? x = some kind) (marked : Bool) :
      ∃ kind ∈ typeStarts, headKind? (markPieces s marked ++ x) = some kind := by
    cases marked with
    | false => exact hx
    | true => exact ⟨.symbol s, hs, rfl⟩
  have hflags (flags : TypeFlags) {x : List Piece} (hx : ∃ kind ∈ typeStarts, headKind? x = some kind) :
      ∃ kind ∈ typeStarts, headKind? (flags.pieces ++ x) = some kind := by
    simp only [TypeFlags.pieces, List.append_assoc]
    exact hmark (by decide) (hmark (by decide) (hmark (by decide) (hmark (by decide) hx _) _) _) _
  cases type with
  | named flags name =>
    rw [TypeExpr.pieces, List.append_assoc]
    obtain ⟨kind, hkind, hhead⟩ := headKind?_name h y
    have hstarts : ∀ kind ∈ nameStarts, kind ∈ typeStarts := by decide
    exact hflags flags ⟨kind, hstarts kind hkind, hhead⟩
  | array flags item =>
    rw [TypeExpr.pieces, List.append_assoc, List.append_assoc]
    exact hflags flags ⟨.symbol .bracketLeft, by decide, rfl⟩

lemma head_ne_type {type : TypeExpr} (h : type.WF) (y : List Piece) {kind : TokenKind}
    (hk : kind ∉ typeStarts) : headKind? (type.pieces ++ y) ≠ some kind := by
  obtain ⟨first, hfirst, heq⟩ := headKind?_type h y
  rw [heq]
  rintro hsame
  exact hk (Option.some.inj hsame ▸ hfirst)

lemma reads_typeSpec {type : TypeExpr} (h : type.WF) (hy : EndsName y) :
    Reads typeSpec (type.pieces ++ y) y fun spec => spec.type = type := by
  refine reads_here.bind fun start _ => (reads_type type h y hy).bind fun found hfound => ?_
  exact reads_lastStop.bind fun stop _ => reads_pure hfound

lemma rejectsAt_typeSpec (h : ∀ kind ∈ typeStarts, headKind? x ≠ some kind) : RejectsAt typeSpec x := by
  have hflags : Reads typeFlags x x (· = {}) := reads_typeFlags {} fun s hs => h _ (by revert s; decide)
  have htype : RejectsAt type x := by
    rw [type_eq]
    refine hflags.rejects fun flags hfound => (reads_skipNone (h _ (by decide))).rejects fun b hb => ?_
    subst hb
    refine RejectsAt.bind (fun c hc => ?_) _
    exact rejects_qualifiedName (startsNone_of_sees hc fun kind hk => h kind (by revert kind; decide))
  exact reads_here.rejects fun start _ => htype.bind _

end Types

section Members

variable {α : Type} {P : α → Prop} {item : α → List Piece} {view : α → Declared}
  {members : List (Member α)} {list : Parser (List Node)} {closing : Symbol}

/-- The nodes declare what the members say. -/
def Declares (view : α → Declared) (members : List (Member α)) (nodes : List Node) : Prop :=
  nodes.map Node.declared = members.map (Member.declared view)

/-- The pieces start with what may stand behind a member on a line of its own. -/
def EndsMember (x : List Piece) : Prop := headKind? x = some .newline ∨ headKind? x = some .comment

lemma EndsMember.ne (h : EndsMember x) {kind : TokenKind} (hk : kind ∉ [.newline, .comment]) :
    headKind? x ≠ some kind := by
  rintro heq
  rw [EndsMember, heq] at h
  simp only [Option.some.injEq] at h
  exact hk (by rcases h with rfl | rfl <;> decide)

lemma endsMember_members {afterComment : Bool} (h : GapsOk afterComment (members.map Member.mark))
    (z : List Piece) : EndsMember (memberPieces item members ++ linePiece :: z) := by
  cases members with
  | nil => exact .inl rfl
  | cons member members =>
    cases member with
    | comment gap text =>
      cases gap with
      | sameLine => exact .inr rfl
      | nextLine => exact .inl rfl
      | blankLine => exact .inl rfl
    | item gap a =>
      cases gap with
      | sameLine => exact Bool.noConfusion (h.1 rfl).1
      | nextLine => exact .inl rfl
      | blankLine => exact .inl rfl

lemma LineLoop.reads_members (h : LineLoop list closing)
    (hitem : ∀ {a x Q}, P a → EndsMember x → Reads list x y Q → Reads list (item a ++ x) y
      fun nodes => ∃ n rest, nodes = n :: rest ∧ n.declared = view a ∧ Q rest)
    {afterComment : Bool} (hgaps : GapsOk afterComment (members.map Member.mark))
    (heach : ∀ member ∈ members, member.Satisfies P) :
    Reads list (memberPieces item members ++ linePiece :: symbolPiece closing :: y) y
      (Declares view members) := by
  induction members generalizing afterComment with
  | nil => exact (h.line (h.ending y)).mono fun nodes hnodes => congrArg (List.map Node.declared) hnodes
  | cons member members ih =>
    obtain ⟨hmember, hrest⟩ := List.forall_mem_cons.1 heach
    have hnext := ih hgaps.2 hrest
    cases member with
    | comment gap text =>
      rw [memberPieces, List.append_assoc]
      refine (h.gap (h.comment text hnext) gap).mono ?_
      rintro _ ⟨start, rest, rfl, hdeclares⟩
      rw [Declares, List.map_cons, List.map_cons, hdeclares, Node.declared, hmember.2]
      rfl
    | item gap a =>
      rw [memberPieces, List.append_assoc, List.append_assoc]
      refine (h.gap (hitem hmember (endsMember_members hgaps.2 _) hnext) gap).mono ?_
      rintro _ ⟨n, rest, rfl, hn, hdeclares⟩
      rw [Declares, List.map_cons, List.map_cons, hdeclares, hn]
      rfl

lemma map_memberItems (hflat : ∀ member ∈ members, member.mark.2 = false) :
    (memberItems members).map view = members.map (Member.declared view) := by
  induction members with
  | nil => rfl
  | cons member members ih =>
    obtain ⟨hmember, hrest⟩ := List.forall_mem_cons.1 hflat
    cases member with
    | comment gap text => cases hmember
    | item gap a => exact congrArg (view a :: ·) (ih hrest)

end Members

section Parameters

variable {name : Text} {type : TypeExpr}

lemma lineLoop_parameters : LineLoop parameters .parenRight :=
  lineLoop_of_isLoop [] (by decide) isLoop_parameters (by simp)

lemma reads_parameterOpen (name : Text) (x : List Piece) :
    Reads parameter (wordPiece name :: symbolPiece .comma :: x) x
      fun n => ∃ start stop, n = .parameter start name none stop := by
  refine (reads_take _).bind fun t ht => reads_skip.bind fun b hb => ?_
  subst hb
  exact reads_lastStop.bind fun stop _ => reads_pure ⟨t.start, stop, by rw [ht]⟩

lemma reads_parameterTyped (h : type.WF) (hx : EndsName x) {taken : Bool}
    (hcomma : Reads (skip (.symbol .comma)) x y (· = taken)) (name : Text) :
    Reads parameter (wordPiece name :: type.pieces ++ x) y
      fun n => ∃ start spec stop, n = .parameter start name (some spec) stop ∧ spec.type = type := by
  refine (reads_take _).bind fun t ht => ?_
  refine (reads_skipNone (head_ne_type h x (by decide))).bind fun b hb => ?_
  subst hb
  refine (reads_typeSpec h hx).bind fun spec hspec => hcomma.bind fun _ _ => ?_
  exact reads_lastStop.bind fun stop _ => reads_pure ⟨t.start, spec, stop, by rw [ht], hspec⟩

lemma reads_parametersNext {Q : Node → Prop} {R : List Node → Prop} (name : Text)
    (hp : Reads parameter (wordPiece name :: x) y Q) (hrest : Reads parameters y z R) :
    Reads parameters (wordPiece name :: x) z fun nodes => ∃ n rest, nodes = n :: rest ∧ Q n ∧ R rest := by
  have hhead : headKind? (wordPiece name :: x) = some .word := rfl
  refine reads_loopMember isLoop_parameters [comma, member comment, newline] rfl (by simp [hhead]) ?_ hp hrest
  simp only [List.forall_mem_cons]
  exact ⟨rejectsAt_comma (by simp [hhead]), rejectsAt_comment (by simp [hhead]),
    rejectsAt_newline (by simp [hhead]), by simp⟩

/-- The types that were left open can be filled in, and then the nodes declare the parameters. -/
def Fills (params : List ParameterPlan) (nodes : List Node) : Prop :=
  ∃ filled first, filledTypes nodes = .ok (filled, first) ∧
    filled.map Node.declared = params.map ParameterPlan.declared ∧
    first.map TypeSpec.type = params.head?.map ParameterPlan.type

lemma fills_typed {p : ParameterPlan} {params : List ParameterPlan} {nodes : List Node}
    (h : Fills params nodes) (start : Position) {spec : TypeSpec} (hspec : spec.type = p.type)
    (stop : Position) : Fills (p :: params) (.parameter start p.name (some spec) stop :: nodes) := by
  obtain ⟨filled, first, hfilled, hdeclared, -⟩ := h
  refine ⟨.parameter start p.name (some spec) stop :: filled, some spec, ?_, ?_, ?_⟩
  · rw [filledTypes, hfilled]
    rfl
  · rw [List.map_cons, List.map_cons, hdeclared, Node.declared, ParameterPlan.declared, Option.map_some, hspec]
  · rw [Option.map_some, hspec]
    rfl

lemma fills_open {p next : ParameterPlan} {params : List ParameterPlan} {nodes : List Node}
    (h : Fills (next :: params) nodes) (hsame : p.type = next.type) (start stop : Position) :
    Fills (p :: next :: params) (.parameter start p.name none stop :: nodes) := by
  obtain ⟨filled, first, hfilled, hdeclared, hfirst⟩ := h
  obtain ⟨spec, rfl, hspec⟩ := Option.map_eq_some_iff.1 hfirst
  refine ⟨.parameter start p.name (some spec) stop :: filled, some spec, ?_, ?_, ?_⟩
  · rw [filledTypes, hfilled]
    rfl
  · rw [List.map_cons, List.map_cons, hdeclared, Node.declared, ParameterPlan.declared, Option.map_some,
      hspec, hsame]
  · rw [Option.map_some, hspec, ← hsame]
    rfl

lemma reads_inlineParameters (y : List Piece) : ∀ params : List ParameterPlan,
    (∀ p ∈ params, p.type.WF) →
      Reads parameters (inlineParameters params ++ symbolPiece .parenRight :: y) y (Fills params)
  | [], _ => (lineLoop_parameters.ending y).mono fun nodes hnodes => ⟨[], none, by rw [hnodes]; rfl, rfl, rfl⟩
  | [p], h => by
    have hlast := reads_parameterTyped (x := symbolPiece .parenRight :: y) (h p List.mem_cons_self)
      (by simp [EndsName, headKind?, symbolPiece]) (reads_skipNone (by simp [headKind?, symbolPiece])) p.name
    have hend := reads_inlineParameters y [] (by simp)
    refine (reads_parametersNext p.name hlast hend).mono ?_
    rintro _ ⟨_, rest, rfl, ⟨start, spec, stop, rfl, hspec⟩, hrest⟩
    exact fills_typed hrest start hspec stop
  | p :: next :: params, h => by
    have hrest := reads_inlineParameters y (next :: params) fun q hq => h q (List.mem_cons_of_mem p hq)
    rw [inlineParameters, List.append_assoc]
    by_cases hsame : p.type = next.type
    · rw [if_pos hsame]
      refine (reads_parametersNext p.name (reads_parameterOpen p.name _) hrest).mono ?_
      rintro _ ⟨_, rest, rfl, ⟨start, stop, rfl⟩, hfills⟩
      exact fills_open hfills hsame start stop
    · rw [if_neg hsame]
      have hnext := reads_parameterTyped (x := symbolPiece .comma ::
        (inlineParameters (next :: params) ++ symbolPiece .parenRight :: y)) (h p List.mem_cons_self)
        (by simp [EndsName, headKind?, symbolPiece]) reads_skip p.name
      refine (reads_parametersNext p.name hnext hrest).mono ?_
      rintro _ ⟨_, rest, rfl, ⟨start, spec, stop, rfl, hspec⟩, hfills⟩
      exact fills_typed hfills start hspec stop

lemma fillTypes_eq {nodes : List Node} (h : ∀ n ∈ nodes, ∀ name, n.declared ≠ .parameter name none) :
    fillTypes nodes = .ok nodes := by
  have hfilled : ∃ first, filledTypes nodes = .ok (nodes, first) := by
    induction nodes with
    | nil => exact ⟨none, rfl⟩
    | cons n nodes ih =>
      obtain ⟨hn, hrest⟩ := List.forall_mem_cons.1 h
      obtain ⟨first, hfirst⟩ := ih hrest
      rw [filledTypes, hfirst]
      cases n with
      | parameter start name type stop =>
        cases type with
        | none => exact absurd rfl (hn name)
        | some spec => exact ⟨some spec, rfl⟩
      | _ => exact ⟨first, rfl⟩
  obtain ⟨first, hfirst⟩ := hfilled
  rw [fillTypes, hfirst]
  rfl

lemma reads_spreadParameters {params : List (Member ParameterPlan)}
    (hgaps : GapsOk false (params.map Member.mark))
    (heach : ∀ member ∈ params, member.Satisfies fun p => IsLexeme .word p.name ∧ p.type.WF)
    (y : List Piece) :
    Reads parameters (memberPieces (fun p => p.pieces ++ [symbolPiece .comma]) params ++
      linePiece :: symbolPiece .parenRight :: y) y (Declares ParameterPlan.declared params) := by
  refine lineLoop_parameters.reads_members (fun {p x Q} hp _ hrest => ?_) hgaps heach
  have hparameter := reads_parameterTyped (x := symbolPiece .comma :: x) hp.2
    (by simp [EndsName, headKind?, symbolPiece]) reads_skip p.name
  rw [List.append_assoc]
  refine (reads_parametersNext p.name hparameter hrest).mono ?_
  rintro _ ⟨_, rest, rfl, ⟨start, spec, stop, rfl, hspec⟩, hQ⟩
  exact ⟨_, rest, rfl, by rw [Node.declared, Option.map_some, hspec, ParameterPlan.declared], hQ⟩

lemma Declares.typed {params : List (Member ParameterPlan)} {nodes : List Node}
    (h : Declares ParameterPlan.declared params nodes) :
    ∀ n ∈ nodes, ∀ name, n.declared ≠ .parameter name none := by
  intro n hn name hopen
  have hmem : n.declared ∈ params.map (Member.declared ParameterPlan.declared) := h ▸ List.mem_map_of_mem hn
  obtain ⟨member, -, hmember⟩ := List.mem_map.1 hmem
  rw [hopen] at hmember
  cases member <;> cases hmember

lemma reads_parameters {spread : Bool} {params : List (Member ParameterPlan)}
    (hwf : MembersWF (fun p => IsLexeme .word p.name ∧ p.type.WF) spread params) (y : List Piece) :
    ∃ inner, parametersPieces spread params ++ y = symbolPiece .parenLeft :: inner ∧
      Reads parameters inner y fun nodes => ∃ filled, fillTypes nodes = .ok filled ∧
        Declares ParameterPlan.declared params filled := by
  rw [parametersPieces, inParens, List.cons_append, List.cons_append, List.append_assoc]
  refine ⟨_, rfl, ?_⟩
  cases spread with
  | true =>
    rw [if_pos rfl, List.append_assoc]
    refine (reads_spreadParameters hwf.gaps hwf.each y).mono fun nodes hdeclares => ?_
    exact ⟨nodes, fillTypes_eq hdeclares.typed, hdeclares⟩
  | false =>
    rw [if_neg Bool.false_ne_true]
    have hitems := memberItems_satisfy hwf.each
    refine (reads_inlineParameters y _ fun p hp => (hitems p hp).2).mono ?_
    rintro nodes ⟨filled, first, hfilled, hdeclared, -⟩
    refine ⟨filled, by rw [fillTypes, hfilled]; rfl, ?_⟩
    rw [Declares, hdeclared, map_memberItems (hwf.flat rfl)]

end Parameters

section Results

variable {type : TypeExpr}

lemma lineLoop_results : LineLoop resultsUntilParen .parenRight :=
  lineLoop_of_isLoop [] (by decide) isLoop_resultsUntilParen (by simp)

lemma reads_result (h : type.WF) (hx : EndsName x) :
    Reads (Node.typeSpec <$> typeSpec) (type.pieces ++ x) x fun n => n.declared = .result type := by
  rw [map_eq_pure_bind]
  exact (reads_typeSpec h hx).bind fun spec hspec => reads_pure (by rw [Node.declared, hspec])

lemma reads_resultsNext (h : type.WF) (hx : EndsName x) {R : List Node → Prop}
    (hrest : Reads resultsUntilParen x y R) :
    Reads resultsUntilParen (type.pieces ++ x) y
      fun nodes => ∃ n rest, nodes = n :: rest ∧ n.declared = .result type ∧ R rest := by
  have hhead {kind : TokenKind} (hk : kind ∉ typeStarts) := head_ne_type h x hk
  refine reads_loopMember isLoop_resultsUntilParen [comma, member comment, newline] rfl
    (hhead (by decide)) ?_ (reads_result h hx) hrest
  simp only [List.forall_mem_cons]
  exact ⟨rejectsAt_comma (hhead (by decide)), rejectsAt_comment (hhead (by decide)),
    rejectsAt_newline (hhead (by decide)), by simp⟩

lemma endsName_symbol {s : Symbol} (hs : s ≠ .colons) (x : List Piece) : EndsName (symbolPiece s :: x) := by
  simpa [EndsName, headKind?, symbolPiece] using hs

lemma reads_inlineResults (y : List Piece) : ∀ types : List TypeExpr, (∀ t ∈ types, t.WF) →
    Reads resultsUntilParen
      (DpLang.joined .comma (types.map TypeExpr.pieces) ++ symbolPiece .parenRight :: y) y
      fun nodes => nodes.map Node.declared = types.map Declared.result
  | [], _ => (lineLoop_results.ending y).mono fun nodes hnodes => congrArg (List.map Node.declared) hnodes
  | [type], h => by
    have hend := reads_inlineResults y [] (by simp)
    rw [List.map_singleton, DpLang.joined, List.intersperse_singleton, List.flatten_singleton]
    refine (reads_resultsNext (h type List.mem_cons_self) (endsName_symbol (by decide) y) hend).mono ?_
    rintro _ ⟨n, rest, rfl, hn, hrest⟩
    rw [List.map_cons, hn, hrest, List.map_cons]
  | type :: next :: types, h => by
    have hrest := lineLoop_results.comma
      (reads_inlineResults y (next :: types) fun t ht => h t (List.mem_cons_of_mem type ht))
    rw [List.map_cons, List.map_cons, joined_cons_cons, List.append_assoc]
    refine (reads_resultsNext (h type List.mem_cons_self) (endsName_symbol (by decide) _) hrest).mono ?_
    rintro _ ⟨n, rest, rfl, hn, hrest⟩
    rw [List.map_cons, hn, hrest]
    rfl

lemma reads_spreadResults {results : List (Member TypeExpr)} (hgaps : GapsOk false (results.map Member.mark))
    (heach : ∀ member ∈ results, member.Satisfies TypeExpr.WF) (y : List Piece) :
    Reads resultsUntilParen (memberPieces (fun t => t.pieces ++ [symbolPiece .comma]) results ++
      linePiece :: symbolPiece .parenRight :: y) y (Declares Declared.result results) := by
  refine lineLoop_results.reads_members (fun {t x Q} ht _ hrest => ?_) hgaps heach
  rw [List.append_assoc]
  exact reads_resultsNext ht (endsName_symbol (by decide) x) (lineLoop_results.comma hrest)

lemma reads_nakedEnd : Reads (nakedEnd []) x x (· = endsNakedList (headKind? x)) := by
  refine reads_peekKind?.bind fun kind hkind => reads_pure ?_
  rw [hkind]
  cases headKind? x <;> simp

lemma rejectsAt_nakedResults (x : List Piece) : RejectsAt nakedResults (symbolPiece .parenLeft :: x) := by
  have hhead : headKind? (symbolPiece .parenLeft :: x) = some (.symbol .parenLeft) := rfl
  rw [isLoop_nakedResults.naked_eq]
  refine reads_nakedEnd.rejects fun ended hended => ?_
  obtain rfl : ended = false := hended.trans (by rw [hhead]; decide)
  refine RejectsAt.bind (fun c hc => rejects_firstOf ?_) _
  simp only [List.forall_mem_cons]
  refine ⟨rejectsAt_comma (by simp [hhead]) c hc, ?_, by simp⟩
  have htype : RejectsAt typeSpec (symbolPiece .parenLeft :: x) := rejectsAt_typeSpec (by rw [hhead]; decide)
  rw [map_eq_pure_bind]
  exact (htype.bind _).bind _ c hc

lemma reads_nakedResult (h : type.WF) (x : List Piece) :
    Reads nakedResults (type.pieces ++ symbolPiece .braceLeft :: x) (symbolPiece .braceLeft :: x)
      fun nodes => nodes.map Node.declared = [.result type] := by
  have hend : Reads nakedResults (symbolPiece .braceLeft :: x) (symbolPiece .braceLeft :: x) (· = []) := by
    rw [isLoop_nakedResults.naked_eq]
    exact reads_membersEnd (reads_nakedEnd.mono fun ended hended => hended.trans (by rw [headKind?_cons]; decide))
  have hopen : Reads (nakedEnd []) (type.pieces ++ symbolPiece .braceLeft :: x)
      (type.pieces ++ symbolPiece .braceLeft :: x) (· = false) := by
    obtain ⟨kind, hkind, hhead⟩ := headKind?_type h (symbolPiece .braceLeft :: x)
    have hstarts : ∀ kind ∈ typeStarts, endsNakedList (some kind) = false := by decide
    exact reads_nakedEnd.mono fun ended hended => hended.trans (by rw [hhead]; exact hstarts kind hkind)
  have hresult := reads_result h (endsName_symbol (s := .braceLeft) (by decide) x)
  have hcomma : ∀ q ∈ [(comma : Parser (Option Node))],
      RejectsAt q (type.pieces ++ symbolPiece .braceLeft :: x) := by
    simpa using rejectsAt_comma (head_ne_type h _ (by decide))
  rw [isLoop_nakedResults.naked_eq]
  refine (reads_membersStep hopen (reads_firstOf hcomma (reads_member hresult)) hend).mono ?_
  rintro _ ⟨_, _, ⟨n, rfl, hn⟩, rfl, rfl⟩
  rw [Option.toList_some, List.append_nil, List.map_singleton, hn]

lemma reads_results {spread : Bool} {results : List (Member TypeExpr)}
    (hwf : MembersWF TypeExpr.WF spread results) (x : List Piece) :
    Reads (firstOf [nakedResults, delimitedResults]) (resultsPieces spread results ++ symbolPiece .braceLeft :: x)
      (symbolPiece .braceLeft :: x) (Declares Declared.result results) := by
  have hdelimited {inner : List Piece} (h : Reads resultsUntilParen (inner ++ symbolPiece .parenRight ::
      symbolPiece .braceLeft :: x) (symbolPiece .braceLeft :: x) (Declares Declared.result results)) :
      Reads (firstOf [nakedResults, delimitedResults]) (inParens inner ++ symbolPiece .braceLeft :: x)
        (symbolPiece .braceLeft :: x) (Declares Declared.result results) := by
    rw [inParens, List.cons_append, List.cons_append, List.append_assoc]
    have hnaked : ∀ q ∈ [nakedResults], RejectsAt q (symbolPiece .parenLeft ::
        (inner ++ ([symbolPiece .parenRight] ++ symbolPiece .braceLeft :: x))) := by
      simpa using rejectsAt_nakedResults _
    exact reads_firstOf hnaked ((reads_take _).bind fun _ _ => h)
  have hitems := memberItems_satisfy hwf.each
  rw [resultsPieces]
  cases spread with
  | true =>
    rw [if_pos rfl]
    refine hdelimited ?_
    rw [List.append_assoc]
    exact reads_spreadResults hwf.gaps hwf.each _
  | false =>
    rw [if_neg Bool.false_ne_true]
    have hview : (memberItems results).map Declared.result = results.map (Member.declared Declared.result) :=
      map_memberItems (hwf.flat rfl)
    have hmany := (reads_inlineResults (symbolPiece .braceLeft :: x) _ hitems).mono fun nodes hnodes =>
      (hnodes.trans hview : Declares Declared.result results nodes)
    generalize memberItems results = types at hitems hview hmany ⊢
    cases types with
    | nil => exact hdelimited hmany
    | cons type types =>
      cases types with
      | nil =>
        have hone := reads_nakedResult (hitems type List.mem_cons_self) x
        exact reads_firstAlternative (hone.mono fun nodes hnodes => hnodes.trans hview)
      | cons next types => exact hdelimited hmany

end Results

section Fields

lemma lineLoop_fields : LineLoop fields .braceRight := by
  have hfield (x : List Piece) : RejectsAt (member field) (linePiece :: x) :=
    ((rejectsAt_take (by simp [headKind?_cons, linePiece]) _).bind _).bind _
  have himport (x : List Piece) : RejectsAt (member importWithKeyword) (linePiece :: x) := by
    intro c hc
    refine (rejects_importWithKeyword (startsNone_of_sees hc ?_)).member
    rw [headKind?_cons]
    decide
  refine lineLoop_of_isLoop [member field, member importWithKeyword] (by decide) isLoop_fields ?_
  simp only [List.forall_mem_cons]
  exact ⟨hfield, himport, by simp⟩

lemma ofWord?_text {access : FieldAccess} (h : access ≠ .hidden) :
    FieldAccess.ofWord? access.text = some access := by
  cases access with
  | hidden => exact absurd rfl h
  | _ => decide

lemma reads_fieldAccess (access : FieldAccess) (hx : headKind? x ≠ some .word) :
    Reads fieldAccess ((if access = .hidden then [] else [wordPiece access.text]) ++ x) x (· = access) := by
  by_cases hhidden : access = .hidden
  · rw [if_pos hhidden, hhidden]
    refine (reads_skimNone hx).bind fun found hfound => ?_
    subst hfound
    exact reads_pure rfl
  · rw [if_neg hhidden]
    refine reads_skim.bind fun found hfound => ?_
    obtain ⟨t, rfl, ht⟩ := hfound
    dsimp only
    rw [ht, ofWord?_text hhidden]
    exact reads_pure rfl

lemma reads_field {f : FieldPlan} (hwf : f.WF) (hx : EndsMember x) :
    Reads field (f.pieces ++ x) x fun n => n.declared = f.declared := by
  have hword : headKind? x ≠ some .word := hx.ne (by decide)
  have hname : EndsName ((if f.access = .hidden then [] else [wordPiece f.access.text]) ++ x) := by
    split
    · exact hx.ne (by decide)
    · simp [EndsName, headKind?, wordPiece]
  rw [FieldPlan.pieces, List.cons_append, List.cons_append, List.append_assoc]
  refine (reads_take _).bind fun t ht => (reads_typeSpec hwf.2 hname).bind fun type htype => ?_
  refine (reads_fieldAccess f.access hword).bind fun access haccess => ?_
  refine reads_lastStop.bind fun stop _ => reads_pure ?_
  rw [Node.declared, ht, htype, haccess, FieldPlan.declared]

lemma reads_fields {members : List (Member FieldPlan)} (hgaps : GapsOk false (members.map Member.mark))
    (heach : ∀ member ∈ members, member.Satisfies FieldPlan.WF) (y : List Piece) :
    Reads fields (memberPieces FieldPlan.pieces members ++ linePiece :: symbolPiece .braceRight :: y) y
      (Declares FieldPlan.declared members) := by
  refine lineLoop_fields.reads_members (fun {f x Q} hf hx hrest => ?_) hgaps heach
  have hhead : headKind? (f.pieces ++ x) = some .word := rfl
  refine reads_loopMember isLoop_fields [comma, member comment] rfl (by simp [hhead]) ?_ (reads_field hf hx) hrest
  simp only [List.forall_mem_cons]
  exact ⟨rejectsAt_comma (by simp [hhead]), rejectsAt_comment (by simp [hhead]), by simp⟩

/-- The fields of a type with its braces are read back, and no access mode of the type is needed. -/
lemma reads_braces {members : List (Member FieldPlan)} (hgaps : GapsOk false (members.map Member.mark))
    (heach : ∀ member ∈ members, member.Satisfies FieldPlan.WF) (y : List Piece) :
    ∃ inner, inBraces (memberPieces FieldPlan.pieces members) ++ y = symbolPiece .braceLeft :: inner ∧
      Reads fields inner y (Declares FieldPlan.declared members) := by
  rw [inBraces, List.cons_append, List.cons_append, List.append_assoc, memberPieces_isEmpty hgaps]
  refine ⟨_, rfl, ?_⟩
  cases members with
  | nil =>
    exact (lineLoop_fields.ending y).mono fun nodes hnodes => congrArg (List.map Node.declared) hnodes
  | cons member members =>
    rw [List.isEmpty_cons, if_neg Bool.false_ne_true, List.append_assoc]
    exact reads_fields hgaps heach y

lemma withAccess_hidden (n : Node) : withAccess .hidden n = n := by
  unfold withAccess
  split
  · rfl
  · rfl

end Fields

end Parser

end DpLang
