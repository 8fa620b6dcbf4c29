import DpLang.Proofs.Reading

/-!
# Derivations

What a parser makes of tokens, for tokens of any kinds in any order. Blanks apart, a token is part of
a name or a separator and leaves nothing, or its text is kept by a node, or it opens or closes a
group. A node is made from its parts: the nodes below it, the texts it keeps and the places it
remembers. `Derives` says that tokens are read as a list of parts.
-/

namespace DpLang

section Kinds

namespace TokenKind

def opensGroup : TokenKind → Bool
  | symbol .parenLeft | symbol .bracketLeft | symbol .braceLeft => true
  | _ => false

def closesGroup : TokenKind → Bool
  | symbol .parenRight | symbol .bracketRight | symbol .braceRight => true
  | _ => false

/-- The kinds of the tokens whose text a node keeps. -/
def isKept : TokenKind → Bool
  | comment | integer | character | string => true
  | _ => false

/-- The kinds of the tokens that leave nothing behind but a name or a flag. -/
def isSilent (kind : TokenKind) : Bool := !kind.opensGroup && !kind.closesGroup && !kind.isKept

end TokenKind

end Kinds

inductive Part where
  | node (n : Node)
  /-- The text of a token, which a node keeps. -/
  | text (kind : TokenKind) (text : Text)
  /-- A place that a node remembers. -/
  | mark (place : Position)

def functionParts (head : FunctionHead) (params results body : List Node) : List Part :=
  head.receiverType.toList.map (.node ∘ .typeSpec) ++
    (params.map .node ++ .mark head.paramsStop ::
      (results.map .node ++ .mark head.bodyStart :: body.map .node))

/-- The parts from which a node is made, in the order in which they are written. -/
def Node.parts : Node → List Part
  | .literal _ kind source _ => [.text kind.tokenKind source]
  | .comment _ source => [.text .comment source]
  | .importNames _ path names _ =>
    (if path.isEmpty then [] else [.text .string path]) ++ names.map .node
  | .forLoop _ test bodyStart body _ =>
    test.toList.map .node ++ .mark bodyStart :: body.map .node
  | .ifElse _ test thenStart thenBody thenStop elseBody _ =>
    .node test :: .mark thenStart :: (thenBody.map .node ++ .mark thenStop :: elseBody.map .node)
  | .functionDef head params results body => functionParts head params results body
  | n => n.children.map .node

/-- The place in front of tokens, where `finish` is the one behind them all. -/
def placeOf (finish : Position) (ts : List Token) : Position :=
  (ts.head?.map Token.start).getD finish

/-- The node starts at a place, or where its first part does. -/
def Node.StartsAt (place : Position) (n : Node) : Prop :=
  n.start = place ∨ ∃ first rest, n.parts = .node first :: rest ∧ n.start = first.start

/-- The node is a comment or a parameter, whose type may have been left open. -/
def Node.IsOpen (n : Node) : Prop :=
  (∃ start source, n = .comment start source) ∨ ∃ start name type stop, n = .parameter start name type stop

/-- The tokens in front of others are read as parts. The last of all tokens stops at `finish`. -/
inductive Derives (finish : Position) : List Token → List Part → List Token → Prop where
  | done (ts : List Token) : Derives finish ts [] ts
  | silent {t : Token} {ts us : List Token} {ps : List Part} (ht : t.kind.isSilent = true)
      (h : Derives finish ts ps us) : Derives finish (t :: ts) ps us
  | text {t : Token} {ts us : List Token} {ps : List Part} (ht : t.kind.isKept = true)
      (h : Derives finish ts ps us) : Derives finish (t :: ts) (.text t.kind t.text :: ps) us
  | mark {ts us : List Token} {ps : List Part} (h : Derives finish ts ps us) :
      Derives finish ts (.mark (placeOf finish ts) :: ps) us
  | group {opening closing : Token} {ts us vs : List Token} {ps qs : List Part}
      (ho : opening.kind.opensGroup = true) (hc : closing.kind.closesGroup = true)
      (inner : Derives finish ts ps (closing :: us)) (h : Derives finish us qs vs) :
      Derives finish (opening :: ts) (ps ++ qs) vs
  /-- A comment stops behind its own token. -/
  | comment {t : Token} {ts us : List Token} {ps : List Part} (ht : t.kind = .comment)
      (h : Derives finish ts ps us) :
      Derives finish (t :: ts) (.node (.comment t.start t.text) :: ps) us
  /-- An expression stands where its value does, which may be in parentheses. -/
  | expression {value : Node} {ts us vs : List Token} {ps : List Part}
      (inner : Derives finish ts [.node value] us) (h : Derives finish us ps vs) :
      Derives finish ts (.node (.expression value) :: ps) vs
  | node {n : Node} {ts us vs : List Token} {ps : List Part}
      (hstart : n.StartsAt (placeOf finish ts)) (hstop : n.stop = placeOf finish us)
      (inner : Derives finish ts n.parts us) (h : Derives finish us ps vs) :
      Derives finish ts (.node n :: ps) vs
  /-- The parameters of a function are read before their types are filled in. -/
  | function {head : FunctionHead} {params filled results body : List Node}
      {ts us vs : List Token} {ps : List Part} (hfill : Parser.fillTypes params = .ok filled)
      (hparams : ∀ n ∈ params, n.IsOpen)
      (hstart : head.start = placeOf finish ts) (hstop : head.stop = placeOf finish us)
      (inner : Derives finish ts (functionParts head params results body) us)
      (h : Derives finish us ps vs) :
      Derives finish ts (.node (.functionDef head filled results body) :: ps) vs

namespace Derives

variable {finish : Position} {ts us vs : List Token} {ps qs : List Part} {t : Token}

lemma append (h : Derives finish ts ps us) (h' : Derives finish us qs vs) :
    Derives finish ts (ps ++ qs) vs := by
  induction h with
  | done ts => exact h'
  | silent ht _ ih => exact .silent ht (ih h')
  | text ht _ ih => exact .text ht (ih h')
  | mark _ ih => exact .mark (ih h')
  | group ho hc inner _ _ ih =>
    rw [List.append_assoc]
    exact .group ho hc inner (ih h')
  | comment ht _ ih => exact .comment ht (ih h')
  | expression inner _ _ ih => exact .expression inner (ih h')
  | node hstart hstop inner _ _ ih => exact .node hstart hstop inner (ih h')
  | function hfill hparams hstart hstop inner _ _ ih =>
    exact .function hfill hparams hstart hstop inner (ih h')

/-- Fields may be given another access mode, as it leaves no parts. -/
lemma withAccess (access : FieldAccess) (h : Derives finish ts ps us) :
    Derives finish ts (ps.map fun
      | .node n => .node (Parser.withAccess access n)
      | p => p) us := by
  induction h with
  | done ts => exact .done ts
  | silent ht _ ih => exact .silent ht ih
  | text ht _ ih => exact .text ht ih
  | mark _ ih => exact .mark ih
  | group ho hc _ _ inner ih =>
    rw [List.map_append]
    exact .group ho hc inner ih
  | comment ht _ ih => exact .comment ht ih
  | expression inner _ _ ih => exact .expression inner ih
  | @node n ts us vs ps hstart hstop inner _ _ ih =>
    have hkept : (Parser.withAccess access n).parts = n.parts ∧
        (Parser.withAccess access n).start = n.start ∧
        (Parser.withAccess access n).stop = n.stop := by
      cases n with
      | field start name type own stop => cases own <;> exact ⟨rfl, rfl, rfl⟩
      | _ => exact ⟨rfl, rfl, rfl⟩
    refine .node ?_ (hkept.2.2.trans hstop) (by rw [hkept.1]; exact inner) ih
    unfold Node.StartsAt
    rw [hkept.1, hkept.2.1]
    exact hstart
  | function hfill hparams hstart hstop inner _ _ ih =>
    exact .function hfill hparams hstart hstop inner ih

end Derives

namespace Cursor

variable {c d : Cursor} {t : Token} {ts : List Token} {finish : Position}

/-- The tokens in front of the cursor that are not blank. -/
def solid (c : Cursor) : List Token := c.rest.filter (!·.isSpace)

lemma filter_dropWhile (ts : List Token) :
    (ts.dropWhile Token.isSpace).filter (!·.isSpace) = ts.filter (!·.isSpace) := by
  induction ts with
  | nil => rfl
  | cons t ts ih =>
    by_cases h : t.isSpace = true
    · rw [List.dropWhile_cons_of_pos h, ih, List.filter_cons_of_neg (by simp [h])]
    · rw [List.dropWhile_cons_of_neg h]

lemma head?_filter (ts : List Token) :
    (ts.filter (!·.isSpace)).head? = (ts.dropWhile Token.isSpace).head? := by
  induction ts with
  | nil => rfl
  | cons t ts ih =>
    by_cases h : t.isSpace = true
    · rw [List.dropWhile_cons_of_pos h, List.filter_cons_of_neg (by simp [h]), ih]
    · rw [List.dropWhile_cons_of_neg h, List.filter_cons_of_pos (by simpa using h)]
      rfl

@[simp] lemma solid_settle : c.settle.solid = c.solid := filter_dropWhile c.rest

lemma peek?_eq : c.peek? = c.solid.head? := (head?_filter c.rest).symm

lemma solid_behind (h : c.settle.rest = t :: ts) :
    c.solid = t :: (c.settle.behind t ts).solid := by
  have hspace := List.head?_dropWhile_not Token.isSpace c.rest
  rw [← settle_rest, h] at hspace
  rw [← solid_settle, solid, h, List.filter_cons_of_pos (by simpa using hspace)]
  exact congrArg _ (filter_dropWhile ts).symm

lemma position_of_solid (finish : Position) (h : c.solid ≠ []) : c.position = placeOf finish c.solid := by
  unfold Cursor.position placeOf
  rw [peek?_eq]
  cases hs : c.solid with
  | nil => exact absurd hs h
  | cons t ts => rfl

/-- The last token in front of the cursor stops at a place. -/
def Fits (finish : Position) (c : Cursor) : Prop := ∀ t ∈ c.solid.getLast?, t.stop = finish

/-- What is before the cursor stops at the next token. -/
def Behind (finish : Position) (c : Cursor) : Prop := c.last = placeOf finish c.solid

lemma Fits.of_suffix (h : c.Fits finish) (hs : d.solid <:+ c.solid) : d.Fits finish := by
  obtain ⟨front, hfront⟩ := hs
  intro t ht
  refine h t ?_
  rw [← hfront, List.getLast?_append, ht]
  rfl

end Cursor

/-- A token of a kind has been taken. -/
structure Took (kind : TokenKind) (c : Cursor) (t : Token) (d : Cursor) : Prop where
  isKind : t.kind = kind
  solid : c.solid = t :: d.solid
  behind : ∀ ⦃finish⦄, c.Fits finish → d.Behind finish

/-- The tokens between two cursors are read as parts. If `taken`, there are some. -/
structure Steps (taken : Bool) (c : Cursor) (ps : List Part) (d : Cursor) : Prop where
  suffix : d.solid <:+ c.solid
  nonempty : taken = true → c.solid ≠ []
  derives : ∀ ⦃finish⦄, c.Fits finish → Derives finish c.solid ps d.solid
  behind : ∀ ⦃finish⦄, c.Fits finish → (taken = false → c.Behind finish) → d.Behind finish

namespace Steps

variable {a b : Bool} {c d e m : Cursor} {ps qs : List Part} {kind : TokenKind} {t : Token}
  {n : Node}

lemma refl (c : Cursor) : Steps false c [] c where
  suffix := List.suffix_rfl
  nonempty := nofun
  derives _ _ := .done _
  behind _ _ h := h rfl

lemma settle (c : Cursor) : Steps false c [] c.settle where
  suffix := ⟨[], Cursor.solid_settle⟩
  nonempty := nofun
  derives _ _ := by rw [Cursor.solid_settle]; exact .done _
  behind _ _ h := by
    unfold Cursor.Behind
    rw [Cursor.solid_settle]
    exact h rfl

lemma trans (h : Steps a c ps d) (h' : Steps b d qs e) : Steps (a || b) c (ps ++ qs) e where
  suffix := h'.suffix.trans h.suffix
  nonempty hab := by
    cases a with
    | true => exact h.nonempty rfl
    | false =>
      intro hc
      have hs := h.suffix
      rw [hc, List.suffix_nil] at hs
      exact h'.nonempty hab hs
  derives finish hc := (h.derives hc).append (h'.derives (hc.of_suffix h.suffix))
  behind finish hc hab := by
    refine h'.behind (hc.of_suffix h.suffix) fun hb => h.behind hc fun ha => ?_
    exact hab (by rw [ha, hb]; rfl)

lemma before (h : Steps a c [] d) (h' : Steps b d qs e) : Steps (a || b) c qs e := h.trans h'

lemma andThen (h : Steps a c ps d) (h' : Steps b d [] e) : Steps (a || b) c ps e := by
  have hall := h.trans h'
  rwa [List.append_nil] at hall

lemma taking (h : Steps true c ps d) (h' : Steps b d qs e) : Steps true c (ps ++ qs) e := h.trans h'

lemma taken (h : Steps a c ps d) (h' : Steps true d qs e) : Steps true c (ps ++ qs) e := by
  have hall := h.trans h'
  rwa [Bool.or_true] at hall

end Steps

section Tokens

variable {c d e m : Cursor} {ps : List Part} {kind closing : TokenKind} {t u : Token} {b : Bool}

lemma Took.suffix (h : Took kind c t d) : d.solid <:+ c.solid := ⟨[t], h.solid.symm⟩

lemma Took.ne_nil (h : Took kind c t d) : c.solid ≠ [] := by rw [h.solid]; exact List.cons_ne_nil _ _

lemma Took.start (h : Took kind c t d) : t.start = c.position := by
  rw [Cursor.position_of_solid c.finish h.ne_nil, h.solid]
  rfl

lemma Took.silent (h : Took kind c t d) (hk : kind.isSilent = true) : Steps true c [] d where
  suffix := h.suffix
  nonempty _ := h.ne_nil
  derives _ _ := by
    rw [h.solid]
    exact .silent (by rw [h.isKind]; exact hk) (.done _)
  behind _ hc _ := h.behind hc

lemma Took.kept (h : Took kind c t d) (hk : kind.isKept = true) :
    Steps true c [.text kind t.text] d where
  suffix := h.suffix
  nonempty _ := h.ne_nil
  derives _ _ := by
    have hkind := h.isKind
    subst hkind
    rw [h.solid]
    exact .text hk (.done _)
  behind _ hc _ := h.behind hc

lemma Took.comment (h : Took .comment c t d) :
    Steps true c [.node (.comment t.start t.text)] d where
  suffix := h.suffix
  nonempty _ := h.ne_nil
  derives _ _ := by
    rw [h.solid]
    exact .comment h.isKind (.done _)
  behind _ hc _ := h.behind hc

lemma Took.group (ho : Took kind c t m) (hk : kind.opensGroup = true) (h : Steps b m ps e)
    (hc : Took closing e u d) (hk' : closing.closesGroup = true) : Steps true c ps d where
  suffix := (hc.suffix.trans h.suffix).trans ho.suffix
  nonempty _ := ho.ne_nil
  derives finish hfits := by
    have hm := hfits.of_suffix ho.suffix
    have hinner := h.derives hm
    rw [hc.solid] at hinner
    have hall : Derives finish (t :: m.solid) (ps ++ []) d.solid :=
      .group (by rw [ho.isKind]; exact hk) (by rw [hc.isKind]; exact hk') hinner (.done _)
    rwa [List.append_nil, ← ho.solid] at hall
  behind _ hfits _ := hc.behind ((hfits.of_suffix ho.suffix).of_suffix h.suffix)

end Tokens

section Nodes

variable {c d e : Cursor} {ps : List Part} {n : Node} {b : Bool}

lemma Steps.markHere (h : Steps b c ps d) (hc : c.solid ≠ []) :
    Steps b c (.mark c.position :: ps) d where
  suffix := h.suffix
  nonempty := h.nonempty
  derives finish hfits := by
    rw [Cursor.position_of_solid finish hc]
    exact .mark (h.derives hfits)
  behind := h.behind

lemma Steps.markLast (h : Steps true c ps d) : Steps true c (ps ++ [.mark d.last]) d where
  suffix := h.suffix
  nonempty := h.nonempty
  derives finish hfits := by
    rw [h.behind hfits nofun]
    exact (h.derives hfits).append (.mark (.done _))
  behind := h.behind

lemma Steps.node (h : Steps true c ps d) (hparts : n.parts = ps) (hstart : n.StartsAt c.position)
    (hstop : n.stop = d.last) : Steps true c [.node n] d where
  suffix := h.suffix
  nonempty := h.nonempty
  derives finish hfits := by
    rw [Cursor.position_of_solid finish (h.nonempty rfl)] at hstart
    rw [← hparts] at h
    exact .node hstart (hstop.trans (h.behind hfits nofun)) (h.derives hfits) (.done _)
  behind := h.behind

lemma Steps.expression (h : Steps true c [.node n] d) :
    Steps true c [.node (.expression n)] d where
  suffix := h.suffix
  nonempty := h.nonempty
  derives _ hfits := .expression (h.derives hfits) (.done _)
  behind := h.behind

lemma Steps.function {head : FunctionHead} {params filled results body : List Node}
    (h : Steps true c (functionParts head params results body) d)
    (hfill : Parser.fillTypes params = .ok filled)
    (hparams : ∀ n ∈ params, n.IsOpen)
    (hstart : head.start = c.position) (hstop : head.stop = d.last) :
    Steps true c [.node (.functionDef head filled results body)] d where
  suffix := h.suffix
  nonempty := h.nonempty
  derives finish hfits := by
    rw [Cursor.position_of_solid finish (h.nonempty rfl)] at hstart
    exact .function hfill hparams hstart (hstop.trans (h.behind hfits nofun)) (h.derives hfits)
      (.done _)
  behind := h.behind

lemma Steps.withAccess {nodes : List Node} (h : Steps b c (nodes.map .node) d)
    (access : FieldAccess) :
    Steps b c ((nodes.map (Parser.withAccess access)).map .node) d where
  suffix := h.suffix
  nonempty := h.nonempty
  derives finish hfits := by
    have hd := (h.derives hfits).withAccess access
    rw [List.map_map] at hd ⊢
    exact hd
  behind := h.behind

end Nodes

end DpLang
